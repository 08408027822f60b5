import AllAiTools.NewApi.Model.ChannelChance

namespace AllAiTools.NewApi.Model.Candidates

open Foundation Foundation.Lottery Common.Str Channels Abilities CachedChannels ChannelChance

section Candidates

/-- How many times an enabled channel lists a group with a model. -/
def listed (channel : Channel) (group model : String) : ℕ :=
  if channel.status = channelStatusEnabled then
    (split channel.group ',').count group * (split channel.models ',').count model
  else 0

/-- The channels that list a group and a model, each as often as it does. -/
def candidates (db : Database) (group model : String) : List Channel :=
  db.channels.rows.flatMap fun channel ↦ List.replicate (listed channel group model) channel

/-- The channels of a retry's priority, under the model's name or the one that stands
for it. -/
def memoryTier (db : Database) (group model : String) (retry : ℕ) : List Channel :=
  let exact := candidates db group model
  targetChannels
    (if exact = [] then candidates db group (formatMatchingModelName model) else exact) retry

/-- The stored abilities of a retry's priority. -/
def databaseTier (db : Database) (group model : String) (retry : ℕ) : List Ability :=
  let rows := enabledFor db group model
  rows.filter fun a ↦ a.priority = retryPriority (rows.map (·.priority)) retry

theorem count_pairs (groups models : List String) (group model : String) :
    (groups.flatMap fun g ↦ models.map fun m ↦ (g, m)).count (group, model) =
      groups.count group * models.count model := by
  induction groups with
  | nil => simp
  | cons g groups ih =>
    rw [List.flatMap_cons, List.count_append, ih, List.count_cons]
    by_cases hg : g = group
    · subst hg
      have hcount : (models.map fun m ↦ (g, m)).count (g, model) = models.count model :=
        List.count_map_of_injective _ _ (fun m m' h ↦ (Prod.mk.inj h).2) _
      rw [hcount]
      simp
      ring
    · have hcount : (models.map fun m ↦ (g, m)).count (group, model) = 0 := by
        refine List.count_eq_zero.mpr fun hm ↦ ?_
        obtain ⟨m, _, he⟩ := List.mem_map.mp hm
        exact hg (Prod.mk.inj he).1
      rw [hcount]
      simp [hg]

theorem appendId_foldl (id : ℤ) (pairs : List (String × String))
    (lists : String → String → List ℤ) (group model : String) :
    pairs.foldl (fun lists pair ↦ appendId lists id pair) lists group model =
      lists group model ++ List.replicate (pairs.count (group, model)) id := by
  induction pairs generalizing lists with
  | nil => simp
  | cons pair pairs ih =>
    rw [List.foldl_cons, ih, appendId, List.count_cons]
    by_cases hp : (group, model) = pair
    · rw [if_pos hp, List.append_assoc]
      simp [hp, List.replicate_succ]
    · have hne : ¬ pair = (group, model) := fun h ↦ hp h.symm
      rw [if_neg hp]
      simp [hne]

theorem listChannel_eq (lists : String → String → List ℤ) (channel : Channel)
    (group model : String) : listChannel lists channel group model =
      lists group model ++ List.replicate (listed channel group model) channel.id := by
  unfold listChannel listed
  by_cases hs : channel.status = channelStatusEnabled
  · rw [if_neg (not_not.mpr hs), if_pos hs, appendId_foldl, count_pairs]
  · rw [if_pos hs, if_neg hs]
    simp

theorem listChannel_foldl (channels : List Channel) (lists : String → String → List ℤ)
    (group model : String) : channels.foldl listChannel lists group model =
      lists group model ++ (channels.flatMap fun channel ↦
        List.replicate (listed channel group model) channel).map (·.id) := by
  induction channels generalizing lists with
  | nil => simp
  | cons channel channels ih =>
    rw [List.foldl_cons, ih, listChannel_eq]
    simp

end Candidates

section Memory

variable {parse : String → Option (List String)} {byPriority : Sorting ℤ}
  {old : ℤ → Option Channel} {db : Database} {cache : ChannelCache} {group model : String}

theorem keepPollingIndex_fields (channel : Channel) :
    (keepPollingIndex parse old channel).id = channel.id ∧
      (keepPollingIndex parse old channel).getPriority = channel.getPriority ∧
      (keepPollingIndex parse old channel).getWeight = channel.getWeight := by
  unfold keepPollingIndex
  by_cases hm : channel.channelInfo.isMultiKey
  · rw [if_pos hm]
    dsimp only
    split
    · exact ⟨rfl, rfl, rfl⟩
    · split_ifs <;> exact ⟨rfl, rfl, rfl⟩
  · rw [if_neg hm]
    exact ⟨rfl, rfl, rfl⟩

theorem lists_perm (h : initChannelCache parse byPriority old db = some cache)
    (group model : String) :
    (cache.group2model2channels group model).Perm ((candidates db group model).map (·.id)) := by
  unfold initChannelCache at h
  split_ifs at h
  cases h
  refine (byPriority.perm _ _).trans ?_
  rw [listChannel_foldl]
  rfl

theorem channelsIDM_eq (h : initChannelCache parse byPriority old db = some cache) (id : ℤ) :
    cache.channelsIDM id = (db.channels.find id).map (keepPollingIndex parse old) := by
  unfold initChannelCache at h
  split_ifs at h
  cases h
  rfl

theorem candidates_mem {channel : Channel} (h : channel ∈ candidates db group model) :
    channel ∈ db.channels.rows := by
  obtain ⟨row, hrow, hc⟩ := List.mem_flatMap.mp h
  rwa [List.eq_of_mem_replicate hc]

theorem rows_count {rows : List Channel} (hnodup : (rows.map (·.id)).Nodup) {channel : Channel}
    (hc : channel ∈ rows) (group model : String) :
    ((rows.flatMap fun c ↦ List.replicate (listed c group model) c).map (·.id)).count channel.id =
      listed channel group model := by
  induction rows with
  | nil => cases hc
  | cons row rows ih =>
    rw [List.map_cons, List.nodup_cons] at hnodup
    rw [List.flatMap_cons, List.map_append, List.count_append, List.map_replicate,
      List.count_replicate]
    rcases List.mem_cons.mp hc with rfl | hrest
    · have habsent : ((rows.flatMap fun channel ↦
          List.replicate (listed channel group model) channel).map (·.id)).count channel.id = 0 := by
        refine List.count_eq_zero.mpr fun hm ↦ hnodup.1 ?_
        obtain ⟨c, hc', hid⟩ := List.mem_map.mp hm
        obtain ⟨row, hrow, hrep⟩ := List.mem_flatMap.mp hc'
        rw [← hid, List.eq_of_mem_replicate hrep]
        exact List.mem_map_of_mem hrow
      rw [habsent]
      simp
    · have hne : row.id ≠ channel.id := by
        intro he
        exact hnodup.1 (he ▸ List.mem_map_of_mem hrest)
      rw [ih hnodup.2 hrest]
      simp [hne]

/-- An id is listed as often as its channel lists the group and the model. -/
theorem candidates_count {channel : Channel} (hc : channel ∈ db.channels.rows)
    (group model : String) :
    ((candidates db group model).map (·.id)).count channel.id = listed channel group model :=
  rows_count db.channels.nodup hc group model

theorem resolve_candidate (h : initChannelCache parse byPriority old db = some cache)
    {channel : Channel} (hc : channel ∈ candidates db group model) :
    cache.channelsIDM channel.id = some (keepPollingIndex parse old channel) := by
  rw [channelsIDM_eq h, Table.find_of_mem (candidates_mem hc)]
  rfl

theorem init_consistent (h : initChannelCache parse byPriority old db = some cache) :
    Consistent cache := by
  intro group model id hid
  obtain ⟨channel, hc, rfl⟩ := List.mem_map.mp ((lists_perm h group model).mem_iff.mp hid)
  exact ⟨_, resolve_candidate h hc, keepPollingIndex_fields channel |>.1⟩

/-- The shares of a tier depend on the ids, priorities and weights alone. -/
theorem tierChance_map {f : Channel → Channel}
    (hf : ∀ c, (f c).id = c.id ∧ (f c).getPriority = c.getPriority ∧ (f c).getWeight = c.getWeight)
    (channels : List Channel) (retry : ℕ) (i : ℤ) :
    tierChance (targetChannels (channels.map f) retry) i =
      tierChance (targetChannels channels retry) i := by
  have htargets : targetChannels (channels.map f) retry =
      (targetChannels channels retry).map f := by
    have hp : (channels.map f).map (·.getPriority) = channels.map (·.getPriority) := by
      rw [List.map_map]
      exact List.map_congr_left fun c _ ↦ (hf c).2.1
    unfold targetChannels
    rw [hp, List.filter_map]
    congr 1
    refine List.filter_congr fun c _ ↦ ?_
    rw [Function.comp_apply, (hf c).2.1]
  rw [htargets]
  generalize targetChannels channels retry = targets
  have hshare : ∀ c, share (targets.map f) (f c) = share targets c := by
    intro c
    have hsum : ((targets.map f).map (·.getWeight)).sum = (targets.map (·.getWeight)).sum := by
      rw [List.map_map]
      exact congrArg List.sum (List.map_congr_left fun c _ ↦ (hf c).2.2)
    rw [share, hsum, (hf c).2.2, share]
  have htotal : total (targets.map f) = total targets := by
    rw [total, List.map_map, total]
    exact congrArg List.sum (List.map_congr_left fun c _ ↦ hshare c)
  have hpart : shareOf (targets.map f) i = shareOf targets i := by
    unfold shareOf weigh
    rw [List.filter_map, List.map_map]
    have hfilter : targets.filter ((fun c : Channel ↦ decide (c.id = i)) ∘ f) =
        targets.filter fun c ↦ decide (c.id = i) := by
      refine List.filter_congr fun c _ ↦ ?_
      rw [Function.comp_apply, (hf c).1]
    rw [hfilter]
    exact congrArg List.sum (List.map_congr_left fun c _ ↦ hshare c)
  rw [tierChance, htotal, hpart, tierChance]

theorem satisfied_perm (h : initChannelCache parse byPriority old db = some cache)
    (group model : String) : (satisfied cache group model).Perm
      ((if candidates db group model = [] then candidates db group (formatMatchingModelName model)
        else candidates db group model).map (·.id)) := by
  have hexact := lists_perm h group model
  have hempty : cache.group2model2channels group model = [] ↔ candidates db group model = [] := by
    rw [← List.length_eq_zero_iff, hexact.length_eq, List.length_map, List.length_eq_zero_iff]
  unfold satisfied
  dsimp only
  by_cases hc : candidates db group model = []
  · rw [if_pos (hempty.mpr hc), if_pos hc]
    exact lists_perm h group (formatMatchingModelName model)
  · rw [if_neg (fun he ↦ hc (hempty.mp he)), if_neg hc]
    exact hexact

/-- The memory path chooses among the channels of its tier by their shares. -/
theorem memory_chance (h : initChannelCache parse byPriority old db = some cache)
    (group model : String) (retry : ℕ) (i : ℤ) :
    chance (returns i) (getRandomSatisfiedChannel cache group model retry) =
      tierChance (memoryTier db group model retry) i := by
  rw [select_chance (init_consistent h)]
  have hperm := satisfied_perm h group model
  have hmap : ∀ l : List Channel, (∀ c ∈ l, cache.channelsIDM c.id =
      some (keepPollingIndex parse old c)) →
      (l.map (·.id)).map (resolve cache) = l.map (keepPollingIndex parse old) := by
    intro l hl
    rw [List.map_map]
    refine List.map_congr_left fun c hc ↦ ?_
    rw [Function.comp_apply, resolve, hl c hc]
    rfl
  rw [tierChance_perm (targetChannels_perm (hperm.map (resolve cache)) retry), hmap,
    tierChance_map keepPollingIndex_fields]
  · rfl
  · intro c hc
    split_ifs at hc
    · exact resolve_candidate h hc
    · exact resolve_candidate h hc

end Memory

end AllAiTools.NewApi.Model.Candidates
