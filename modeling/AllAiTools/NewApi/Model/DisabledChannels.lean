import AllAiTools.Foundation.Run
import AllAiTools.NewApi.Model.Candidates

namespace AllAiTools.NewApi.Model.DisabledChannels

open Foundation Foundation.Lottery Common.Str Channels Abilities CachedChannels ChannelChance
  Candidates

section Chance

theorem exists_retry {priorities : List ℤ} {p : ℤ} (h : p ∈ priorities) :
    ∃ retry, retryPriority priorities retry = p := by
  obtain ⟨n, hn, hp⟩ := List.getElem_of_mem (mem_distinctDescending.mpr h)
  refine ⟨n, ?_⟩
  unfold retryPriority
  dsimp only
  rw [if_neg (by omega), List.getD_eq_getElem _ _ hn, hp]

/-- A channel of a tier has no chance exactly where it has no weight and another has one. -/
theorem tierChance_eq_zero {targets : List Channel} {i : ℤ} : tierChance targets i = 0 ↔
    ∀ c ∈ targets, c.id = i → c.getWeight = 0 ∧ ∃ c' ∈ targets, 0 < c'.getWeight := by
  have hshare : ∀ c, share targets c = 0 ↔ c.getWeight = 0 ∧ ∃ c' ∈ targets, 0 < c'.getWeight := by
    intro c
    unfold share
    by_cases hz : (targets.map (·.getWeight)).sum = 0
    · rw [if_pos hz]
      refine iff_of_false one_ne_zero ?_
      rintro ⟨_, c', hc', hpos⟩
      have := (List.sum_eq_zero_iff.mp hz) _ (List.mem_map_of_mem hc')
      omega
    · rw [if_neg hz]
      refine ⟨fun hw ↦ ⟨hw, ?_⟩, fun h ↦ h.1⟩
      by_contra hnone
      push Not at hnone
      refine hz (List.sum_eq_zero_iff.mpr fun n hn ↦ ?_)
      obtain ⟨c', hc', rfl⟩ := List.mem_map.mp hn
      exact Nat.le_zero.mp (hnone c' hc')
  have hpart : shareOf targets i = 0 ↔ ∀ c ∈ targets, c.id = i → share targets c = 0 := by
    unfold shareOf weigh
    rw [List.sum_eq_zero_iff]
    constructor
    · intro h c hc hi
      exact h _ (List.mem_map_of_mem (List.mem_filter.mpr ⟨hc, by simpa using hi⟩))
    · intro h n hn
      obtain ⟨c, hc, rfl⟩ := List.mem_map.mp hn
      obtain ⟨hc, hi⟩ := List.mem_filter.mp hc
      exact h c hc (by simpa using hi)
  simp only [← hshare, ← hpart]
  unfold tierChance
  by_cases ht : targets = []
  · subst ht
    simp [shareOf]
  · have hpos : (total targets : ℚ) ≠ 0 := by exact_mod_cast (total_pos ht).ne'
    rw [div_eq_zero_iff, or_iff_left hpos, Nat.cast_eq_zero]

variable {cache : ChannelCache}

/-- An id is handed out for no request exactly where each list that has it has a channel
of the same priority that takes all its draws. -/
theorem never_returned_iff (h : Consistent cache) (i : ℤ) :
    (∀ group model retry,
      chance (returns i) (getRandomSatisfiedChannel cache group model retry) = 0) ↔
    ∀ group model, i ∈ cache.group2model2channels group model →
      (resolve cache i).getWeight = 0 ∧ ∃ j ∈ cache.group2model2channels group model,
        (resolve cache j).getPriority = (resolve cache i).getPriority ∧
        0 < (resolve cache j).getWeight := by
  simp only [select_chance h, tierChance_eq_zero]
  constructor
  · intro hnever group model hi
    have hsat : satisfied cache group model = cache.group2model2channels group model :=
      if_neg (List.ne_nil_of_mem hi)
    obtain ⟨channel, hc, hid⟩ := h group model i hi
    have hres : (resolve cache i).id = i := by
      rw [resolve, hc]
      exact hid
    obtain ⟨retry, hretry⟩ := exists_retry
      (List.mem_map_of_mem (f := fun c : Channel ↦ c.getPriority)
        (List.mem_map_of_mem (f := resolve cache) hi))
    have hnone := hnever group model retry
    rw [hsat] at hnone
    unfold targetChannels at hnone
    rw [hretry] at hnone
    simp only [List.mem_filter, List.mem_map, decide_eq_true_eq] at hnone
    obtain ⟨hzero, c', ⟨⟨j, hj, rfl⟩, hp⟩, hpos⟩ := hnone _ ⟨⟨i, hi, rfl⟩, rfl⟩ hres
    exact ⟨hzero, j, hj, hp, hpos⟩
  · intro hlists group model retry c hc hid
    obtain ⟨m, hm⟩ : ∃ m, satisfied cache group model = cache.group2model2channels group m := by
      unfold satisfied
      dsimp only
      split_ifs
      · exact ⟨_, rfl⟩
      · exact ⟨_, rfl⟩
    rw [hm] at hc ⊢
    unfold targetChannels at hc ⊢
    simp only [List.mem_filter, List.mem_map, decide_eq_true_eq] at hc ⊢
    obtain ⟨⟨k, hk, rfl⟩, hp⟩ := hc
    obtain ⟨channel, hfind, hkey⟩ := h group m k hk
    have hki : k = i := by
      rw [← hid, resolve, hfind]
      exact hkey.symm
    subst hki
    obtain ⟨hzero, j, hj, hjp, hpos⟩ := hlists group m hk
    exact ⟨hzero, resolve cache j, ⟨⟨j, hj, rfl⟩, hjp.trans hp⟩, hpos⟩

end Chance

section Updates

/-- A call of `CacheUpdateChannelStatus`. -/
structure Call where
  id : ℤ
  status : ℤ

def step (cache : ChannelCache) (call : Call) : ChannelCache :=
  cacheUpdateChannelStatus cache call.id call.status

def disables (call : Call) : Prop := call.status ≠ channelStatusEnabled

instance (call : Call) : Decidable (disables call) := inferInstanceAs (Decidable (_ ≠ _))

/-- How many calls disable a channel. -/
def disablings (calls : List Call) (id : ℤ) : ℕ :=
  calls.countP fun call ↦ call.id = id ∧ disables call

/-- The last of the calls for a channel disables it. -/
def LastDisabled (calls : List Call) (id : ℤ) : Prop :=
  ∃ call, (calls.filter fun call ↦ call.id = id).getLast? = some call ∧ disables call

variable {cache : ChannelCache} {calls : List Call} {group model : String}

theorem step_consistent (h : Consistent cache) (call : Call) : Consistent (step cache call) := by
  intro group model id hid
  have hmem : id ∈ cache.group2model2channels group model := by
    unfold step cacheUpdateChannelStatus at hid
    dsimp only at hid
    split_ifs at hid
    · exact List.mem_of_mem_erase hid
    · exact hid
  obtain ⟨channel, hc, hi⟩ := h group model id hmem
  unfold step cacheUpdateChannelStatus
  dsimp only
  rw [hc]
  split_ifs
  · exact ⟨_, rfl, hi⟩
  · exact ⟨_, rfl, hi⟩

theorem run_consistent (h : Consistent cache) (calls : List Call) :
    Consistent (Run.run step cache calls) := by
  induction calls generalizing cache with
  | nil => exact h
  | cons call calls ih => exact ih (step_consistent h call)

theorem step_resolve (cache : ChannelCache) (call : Call) (id : ℤ) :
    (resolve (step cache call) id).getPriority = (resolve cache id).getPriority ∧
      (resolve (step cache call) id).getWeight = (resolve cache id).getWeight := by
  unfold resolve step cacheUpdateChannelStatus
  dsimp only
  by_cases hid : id = call.id
  · rw [if_pos hid]
    cases cache.channelsIDM id with
    | none => exact ⟨rfl, rfl⟩
    | some channel => exact ⟨rfl, rfl⟩
  · rw [if_neg hid]
    exact ⟨rfl, rfl⟩

theorem run_resolve (cache : ChannelCache) (calls : List Call) (id : ℤ) :
    (resolve (Run.run step cache calls) id).getPriority = (resolve cache id).getPriority ∧
      (resolve (Run.run step cache calls) id).getWeight = (resolve cache id).getWeight := by
  induction calls generalizing cache with
  | nil => exact ⟨rfl, rfl⟩
  | cons call calls ih =>
    obtain ⟨hp, hw⟩ := ih (step cache call)
    obtain ⟨hp', hw'⟩ := step_resolve cache call id
    exact ⟨hp.trans hp', hw.trans hw'⟩

/-- Each call that disables a channel takes one of its places in a list. -/
theorem run_count (cache : ChannelCache) (calls : List Call) (group model : String) (id : ℤ) :
    ((Run.run step cache calls).group2model2channels group model).count id =
      (cache.group2model2channels group model).count id - disablings calls id := by
  induction calls generalizing cache with
  | nil => rfl
  | cons call calls ih =>
    have hstep : ((step cache call).group2model2channels group model).count id =
        (cache.group2model2channels group model).count id -
          if call.id = id ∧ disables call then 1 else 0 := by
      unfold step cacheUpdateChannelStatus
      dsimp only
      by_cases hs : call.status ≠ channelStatusEnabled
      · rw [if_pos hs, List.count_erase]
        by_cases hid : call.id = id
        · simp [hid, disables, hs]
        · simp [hid]
      · rw [if_neg hs]
        simp [disables, hs]
    rw [Run.run_cons, ih, hstep, disablings, disablings, List.countP_cons, Nat.sub_sub,
      Nat.add_comm]
    simp

/-- A call leaves the places of the other channels as they are. -/
theorem step_others (cache : ChannelCache) (call : Call) (group model : String) :
    ((step cache call).group2model2channels group model).filter (· ≠ call.id) =
      (cache.group2model2channels group model).filter (· ≠ call.id) := by
  unfold step cacheUpdateChannelStatus
  dsimp only
  split_ifs
  · induction cache.group2model2channels group model with
    | nil => rfl
    | cons id ids ih =>
      rw [List.erase_cons]
      by_cases hid : id = call.id
      · simp [hid]
      · simp only [beq_iff_eq, hid, if_false, List.filter_cons, ih]
  · rfl

end Updates

section HandedOut

variable {parse : String → Option (List String)} {byPriority : Sorting ℤ}
  {old : ℤ → Option Channel} {db : Database} {cache : ChannelCache} {calls : List Call}
  {group model : String}

/-- How often a channel is still listed for a group and a model. -/
def remaining (calls : List Call) (channel : Channel) (group model : String) : ℕ :=
  listed channel group model - disablings calls channel.id

/-- No request gets a disabled channel, and no call changes the places of another one. -/
def NeverHandedOut (cache : ChannelCache) (calls : List Call) : Prop :=
  (∀ id, LastDisabled calls id → ∀ group model retry,
    chance (returns id) (getRandomSatisfiedChannel (Run.run step cache calls) group model retry) =
      0) ∧
  ∀ first call rest, calls = first ++ call :: rest → ∀ group model,
    ((Run.run step cache (first ++ [call])).group2model2channels group model).filter (· ≠ call.id) =
      ((Run.run step cache first).group2model2channels group model).filter (· ≠ call.id)

theorem resolve_row (h : initChannelCache parse byPriority old db = some cache)
    (calls : List Call) {channel : Channel} (hc : channel ∈ db.channels.rows) :
    (resolve (Run.run step cache calls) channel.id).getPriority = channel.getPriority ∧
      (resolve (Run.run step cache calls) channel.id).getWeight = channel.getWeight := by
  obtain ⟨hp, hw⟩ := run_resolve cache calls channel.id
  obtain ⟨_, hp', hw'⟩ := @keepPollingIndex_fields parse old channel
  have hres : resolve cache channel.id = keepPollingIndex parse old channel := by
    rw [resolve, channelsIDM_eq h, Table.find_of_mem hc]
    rfl
  rw [hres] at hp hw
  exact ⟨hp.trans hp', hw.trans hw'⟩

theorem row_listed_iff (h : initChannelCache parse byPriority old db = some cache)
    (calls : List Call) {channel : Channel} (hc : channel ∈ db.channels.rows) :
    channel.id ∈ (Run.run step cache calls).group2model2channels group model ↔
      0 < remaining calls channel group model := by
  rw [← List.count_pos_iff, run_count, (lists_perm h group model).count_eq, candidates_count hc]
  rfl

theorem listed_row (h : initChannelCache parse byPriority old db = some cache) {id : ℤ}
    (hid : id ∈ (Run.run step cache calls).group2model2channels group model) :
    ∃ channel ∈ db.channels.rows, channel.id = id := by
  have hcount := List.count_pos_iff.mpr hid
  rw [run_count, (lists_perm h group model).count_eq] at hcount
  have hmem : id ∈ (candidates db group model).map (·.id) :=
    List.count_pos_iff.mp (by omega)
  obtain ⟨channel, hc, rfl⟩ := List.mem_map.mp hmem
  exact ⟨channel, candidates_mem hc, rfl⟩

/-- A disabled channel is never handed out exactly where it was disabled as often as it
lists any group and model, or has no weight beside one that has. -/
theorem never_handed_out_iff (h : initChannelCache parse byPriority old db = some cache)
    (calls : List Call) : NeverHandedOut cache calls ↔
      ∀ channel ∈ db.channels.rows, LastDisabled calls channel.id → ∀ group model,
        0 < remaining calls channel group model → channel.getWeight = 0 ∧
          ∃ other ∈ db.channels.rows, 0 < remaining calls other group model ∧
            other.getPriority = channel.getPriority ∧ 0 < other.getWeight := by
  have hconsistent : Consistent (Run.run step cache calls) :=
    run_consistent (init_consistent h) calls
  have hothers : ∀ first call rest, calls = first ++ call :: rest → ∀ group model,
      ((Run.run step cache (first ++ [call])).group2model2channels group model).filter
          (· ≠ call.id) =
        ((Run.run step cache first).group2model2channels group model).filter (· ≠ call.id) := by
    rintro first call rest _ group model
    rw [Run.run_append]
    exact step_others _ call group model
  unfold NeverHandedOut
  rw [and_iff_left hothers]
  simp only [never_returned_iff hconsistent]
  constructor
  · intro hnever channel hc hlast group model hremain
    obtain ⟨hp, hw⟩ := resolve_row h calls hc
    obtain ⟨hzero, j, hj, hpriority, hpos⟩ :=
      hnever channel.id hlast group model ((row_listed_iff h calls hc).mpr hremain)
    obtain ⟨other, ho, rfl⟩ := listed_row h hj
    obtain ⟨hp', hw'⟩ := resolve_row h calls ho
    exact ⟨hw.symm.trans hzero, other, ho, (row_listed_iff h calls ho).mp hj,
      hp'.symm.trans (hpriority.trans hp), hw' ▸ hpos⟩
  · intro hrows id hlast group model hid
    obtain ⟨channel, hc, rfl⟩ := listed_row h hid
    obtain ⟨hp, hw⟩ := resolve_row h calls hc
    obtain ⟨hzero, other, ho, hremain, hpriority, hpos⟩ :=
      hrows channel hc hlast group model ((row_listed_iff h calls hc).mp hid)
    obtain ⟨hp', hw'⟩ := resolve_row h calls ho
    exact ⟨hw.trans hzero, other.id, (row_listed_iff h calls ho).mpr hremain,
      hp'.trans (hpriority.trans hp.symm), hw'.symm ▸ hpos⟩

def noKeys : String → Option (List String) := fun _ ↦ none

def nothingBefore : ℤ → Option Channel := fun _ ↦ none

def listing (models : String) : Database where
  channels := .single { id := 1, models }
  abilities := rebuilt (.single { id := 1, models })

theorem listed_once_gone :
    ∃ cache, initChannelCache noKeys .stable nothingBefore (listing "gpt-4o") = some cache ∧
      NeverHandedOut cache [⟨1, channelStatusAutoDisabled⟩] := by
  have hsome : (initChannelCache noKeys .stable nothingBefore (listing "gpt-4o")).isSome := by
    decide
  obtain ⟨cache, hcache⟩ := Option.isSome_iff_exists.mp hsome
  refine ⟨cache, hcache, (never_handed_out_iff hcache _).mpr ?_⟩
  intro channel hc _ group model hremain
  obtain rfl := List.mem_singleton.mp hc
  have hlist : split "default" ',' = ["default"] ∧ split "gpt-4o" ',' = ["gpt-4o"] := by decide
  have honce : listed { id := 1, models := "gpt-4o" } group model ≤ 1 := by
    unfold listed
    rw [if_pos rfl, hlist.1, hlist.2]
    exact Nat.mul_le_mul List.count_le_length List.count_le_length
  have hcall : disablings [⟨1, channelStatusAutoDisabled⟩] 1 = 1 := by decide
  unfold remaining at hremain
  rw [hcall] at hremain
  omega

/-- A channel that lists its model twice is handed out after it was disabled. -/
theorem listed_twice_stays :
    ¬ ∀ (db : Database) (cache : ChannelCache) (calls : List Call),
      initChannelCache noKeys .stable nothingBefore db = some cache → NeverHandedOut cache calls := by
  intro hclaim
  have hsome : (initChannelCache noKeys .stable nothingBefore
    (listing "gpt-4o,gpt-4o")).isSome := by decide
  obtain ⟨cache, hcache⟩ := Option.isSome_iff_exists.mp hsome
  have hrow : ({ id := 1, models := "gpt-4o,gpt-4o" } : Channel) ∈
    (listing "gpt-4o,gpt-4o").channels.rows := List.mem_singleton.mpr rfl
  have hconsistent : Consistent (Run.run step cache [⟨1, channelStatusAutoDisabled⟩]) :=
    run_consistent (init_consistent hcache) _
  have hnever := (hclaim _ cache [⟨1, channelStatusAutoDisabled⟩] hcache).1 1
    ⟨⟨1, channelStatusAutoDisabled⟩, rfl, by decide⟩
  have hlisted : (1 : ℤ) ∈ (Run.run step cache [⟨1, channelStatusAutoDisabled⟩]).group2model2channels
      "default" "gpt-4o" :=
    (row_listed_iff hcache [⟨1, channelStatusAutoDisabled⟩] hrow).mpr (by decide)
  obtain ⟨_, j, hj, _, hpos⟩ :=
    (never_returned_iff hconsistent 1).mp hnever "default" "gpt-4o" hlisted
  obtain ⟨other, ho, rfl⟩ := listed_row hcache hj
  rw [(resolve_row hcache _ ho).2] at hpos
  obtain rfl := List.mem_singleton.mp ho
  exact absurd hpos (by decide)

end HandedOut

end AllAiTools.NewApi.Model.DisabledChannels
