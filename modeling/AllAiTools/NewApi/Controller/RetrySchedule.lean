import AllAiTools.NewApi.Controller.CrossGroup

namespace AllAiTools.NewApi.Controller.RetrySchedule

open Foundation Foundation.Lottery Model.Channels Model.Abilities Model.CachedChannels
  Model.ChannelChance Service.ChannelSelect RelayRetry CrossGroup

section Schedule

variable {cache : ChannelCache} {model : String}

theorem distinctDescending_sorted (l : List ℤ) : (distinctDescending l).Pairwise (· ≥ ·) :=
  List.pairwise_insertionSort _ _

theorem retryPriority_lt {l : List ℤ} {retry : ℕ} (h : retry < (distinctDescending l).length) :
    retryPriority l retry = (distinctDescending l)[retry] := by
  unfold retryPriority
  dsimp only
  rw [if_neg (by omega), List.getD_eq_getElem _ _ h]

/-- Later retries take tiers that are no higher. -/
theorem retryPriority_antitone (l : List ℤ) {m n : ℕ} (h : m ≤ n) :
    retryPriority l n ≤ retryPriority l m := by
  have hsorted := distinctDescending_sorted l
  unfold retryPriority
  dsimp only
  generalize distinctDescending l = sorted at hsorted
  by_cases hempty : sorted.length = 0
  · rw [List.length_eq_zero_iff.mp hempty]
    simp
  · have hm : (if sorted.length ≤ m then sorted.length - 1 else m) < sorted.length := by
      split_ifs <;> omega
    have hn : (if sorted.length ≤ n then sorted.length - 1 else n) < sorted.length := by
      split_ifs <;> omega
    rw [List.getD_eq_getElem _ _ hm, List.getD_eq_getElem _ _ hn]
    have hle : (if sorted.length ≤ m then sorted.length - 1 else m) ≤
        (if sorted.length ≤ n then sorted.length - 1 else n) := by
      split_ifs <;> omega
    rcases hle.lt_or_eq with hlt | heq
    · exact List.pairwise_iff_getElem.mp hsorted _ _ hm hn hlt
    · simp only [heq, le_refl]

theorem rounds_descending (r place : ℕ) (group : String) :
    ((rounds cache model r place group).map Prod.snd).Pairwise (· ≥ ·) := by
  unfold rounds
  split_ifs
  · exact List.Pairwise.nil
  · rw [List.map_map, List.pairwise_map]
    exact List.pairwise_lt_range.imp fun hlt ↦ retryPriority_antitone _ hlt.le

/-- A group gets an attempt at each tier, as many as there are retries, exactly where it has
enough tiers. -/
theorem rounds_tiers_iff {group : String} (hg : tiers cache model group ≠ []) (r place : ℕ) :
    (rounds cache model r place group).map Prod.snd = (tiers cache model group).take (r + 1) ↔
      r + 1 ≤ (tiers cache model group).length := by
  rw [rounds, if_neg hg, List.map_map]
  constructor
  · intro h
    have hlen := congrArg List.length h
    rw [List.length_map, List.length_range, List.length_take] at hlen
    omega
  · intro hle
    refine List.ext_getElem (by simp; omega) fun n hn _ ↦ ?_
    rw [List.length_map, List.length_range] at hn
    rw [List.getElem_map, List.getElem_range, List.getElem_take, Function.comp_apply]
    exact retryPriority_lt (by unfold tiers at hle; omega)

theorem rounds_place {r place : ℕ} {group : String} {v : ℕ × ℤ}
    (h : v ∈ rounds cache model r place group) : v.1 = place := by
  unfold rounds at h
  split_ifs at h
  · cases h
  · obtain ⟨_, _, rfl⟩ := List.mem_map.mp h
    rfl

theorem plan_place {r place : ℕ} {groups : List String} {v : ℕ × ℤ}
    (h : v ∈ plan cache model r place groups) : place ≤ v.1 := by
  induction groups generalizing place with
  | nil => cases h
  | cons group groups ih =>
    rcases List.mem_append.mp h with hr | hp
    · exact (rounds_place hr).ge
    · exact (Nat.le_succ place).trans (ih hp)

theorem plan_inOrder (r place : ℕ) (groups : List String) :
    ((plan cache model r place groups).map Prod.fst).Pairwise (· ≤ ·) := by
  induction groups generalizing place with
  | nil => exact List.Pairwise.nil
  | cons group groups ih =>
    rw [plan, List.map_append, List.pairwise_append]
    refine ⟨?_, ih (place + 1), ?_⟩
    · refine List.pairwise_of_forall_mem_list fun a ha b hb ↦ ?_
      obtain ⟨v, hv, rfl⟩ := List.mem_map.mp ha
      obtain ⟨w, hw, rfl⟩ := List.mem_map.mp hb
      rw [rounds_place hv, rounds_place hw]
    · intro a ha b hb
      obtain ⟨v, hv, rfl⟩ := List.mem_map.mp ha
      obtain ⟨w, hw, rfl⟩ := List.mem_map.mp hb
      rw [rounds_place hv]
      exact (Nat.le_succ place).trans (plan_place hw)

/-- The attempts at one place are those at its group. -/
theorem plan_filter (r place : ℕ) (groups : List String) (k : ℕ) :
    (plan cache model r place groups).filter (·.1 = place + k) =
      (groups[k]?.map (rounds cache model r (place + k))).getD [] := by
  induction groups generalizing place k with
  | nil => rfl
  | cons group groups ih =>
    rw [plan, List.filter_append]
    cases k with
    | zero =>
      have hhead : (rounds cache model r place group).filter (·.1 = place + 0) =
          rounds cache model r place group :=
        List.filter_eq_self.mpr fun v hv ↦ by simp [rounds_place hv]
      have htail : (plan cache model r (place + 1) groups).filter (·.1 = place + 0) = [] :=
        List.filter_eq_nil_iff.mpr fun v hv ↦ by
          have := plan_place hv
          simp only [Nat.add_zero, decide_eq_true_eq]
          omega
      rw [hhead, htail, List.append_nil]
      rfl
    | succ k =>
      have hhead : (rounds cache model r place group).filter (·.1 = place + (k + 1)) = [] :=
        List.filter_eq_nil_iff.mpr fun v hv ↦ by
          have := rounds_place hv
          simp only [decide_eq_true_eq]
          omega
      have hshift : place + (k + 1) = place + 1 + k := by omega
      rw [hhead, List.nil_append, hshift, ih, List.getElem?_cons_succ]

end Schedule

section Follows

/-- The documented schedule: groups in their order, none visited again, tiers that do not
rise, and for each group that has a channel every tier, up to one more than the retries. -/
structure Follows (groups : List (List ℤ)) (retryTimes : ℤ) (visits : List (ℕ × ℤ)) : Prop where
  inOrder : (visits.map Prod.fst).Pairwise (· ≤ ·)
  descending : ∀ place, ((visits.filter (·.1 = place)).map Prod.snd).Pairwise (· ≥ ·)
  reached : ∀ place tiers, groups[place]? = some tiers → tiers ≠ [] → ∃ v ∈ visits, v.1 = place
  attempts : ∀ place tiers, groups[place]? = some tiers → tiers ≠ [] →
    (visits.filter (·.1 = place)).map Prod.snd = tiers.take (retryTimes + 1).toNat

/-- A request whose attempts fail ends, and its attempts follow the schedule. -/
def FollowsSchedule (settings : Settings) (cache : ChannelCache) (rules : RetryRules)
    (world : World) (model user : String) : Prop :=
  ∃ fuel attempts,
    relay settings cache rules world fuel "auto" model (contextAt user none none) = some attempts ∧
    Follows ((getUserAutoGroup settings user).map (tiers cache model)) settings.retryTimes
      (attempts.map visit)

variable {settings : Settings} {cache : ChannelCache} {rules : RetryRules} {world : World}
  {model user : String}

theorem retryLoop_mono {fuel fuel' n : ℕ} {inContext : Option Attempt} {param : RetryParam}
    {ctx : Context} {attempts : List Attempt} (hle : fuel ≤ fuel')
    (h : retryLoop settings cache rules world fuel n inContext param ctx = some attempts) :
    retryLoop settings cache rules world fuel' n inContext param ctx = some attempts := by
  induction fuel generalizing fuel' n inContext param ctx attempts with
  | zero => cases h
  | succ fuel ih =>
    obtain ⟨fuel', rfl⟩ : ∃ m, fuel' = m + 1 := ⟨fuel' - 1, by omega⟩
    rw [retryLoop] at h ⊢
    by_cases hle' : (param.getRetry : ℤ) ≤ settings.retryTimes
    · rw [if_pos hle'] at h ⊢
      generalize getChannel settings cache world n inContext param ctx = answer at h ⊢
      obtain ⟨channel, param', ctx'⟩ := answer
      cases channel with
      | error e => exact h
      | ok attempt =>
        dsimp only at h ⊢
        by_cases hretry : shouldRetry rules (world.failure n)
            (settings.retryTimes - param'.getRetry) = true
        · rw [if_pos hretry] at h ⊢
          obtain ⟨rest, hrest, rfl⟩ := Option.map_eq_some_iff.mp h
          rw [ih (by omega) hrest]
          rfl
        · rwa [if_neg hretry] at h ⊢
    · rwa [if_neg hle'] at h ⊢

theorem relay_unique {fuel fuel' : ℕ} {token : String} {ctx : Context} {l l' : List Attempt}
    (h : relay settings cache rules world fuel token model ctx = some l)
    (h' : relay settings cache rules world fuel' token model ctx = some l') : l = l' := by
  unfold relay at h h'
  dsimp only at h h'
  generalize cacheGetRandomSatisfiedChannel settings cache (world.draws 0)
    { tokenGroup := token, modelName := model, retry := some 0 } ctx = selected at h h'
  obtain ⟨channel, group, place, param, ctx'⟩ := selected
  cases channel with
  | error e => exact Option.some.inj (h.symm.trans h')
  | ok channel =>
    cases channel with
    | none => exact Option.some.inj (h.symm.trans h')
    | some channel =>
      have hmax := retryLoop_mono (le_max_left fuel fuel') h
      have hmax' := retryLoop_mono (le_max_right fuel fuel') h'
      exact Option.some.inj (hmax.symm.trans hmax')

theorem followsSchedule_iff_visited (h : Consistent cache) (hf : AllFail rules world) :
    FollowsSchedule settings cache rules world model user ↔
      Follows ((getUserAutoGroup settings user).map (tiers cache model)) settings.retryTimes
        (visited settings cache model user) := by
  obtain ⟨fuel, attempts, hrelay, hvisits⟩ := @relay_visits settings cache rules world model h hf user
  constructor
  · rintro ⟨fuel', attempts', hrelay', hfollows⟩
    rw [← hvisits, relay_unique hrelay hrelay']
    exact hfollows
  · intro hfollows
    exact ⟨fuel, attempts, hrelay, hvisits.symm ▸ hfollows⟩

/-- With retries, the schedule is followed exactly where every group that has channels has
more tiers than there are retries. -/
theorem follows_plan_iff (r : ℕ) (groups : List String) :
    Follows (groups.map (tiers cache model)) r (plan cache model r 0 groups) ↔
      ∀ group ∈ groups, tiers cache model group ≠ [] →
        r + 1 ≤ (tiers cache model group).length := by
  have hfilter : ∀ k, (plan cache model r 0 groups).filter (·.1 = k) =
      (groups[k]?.map (rounds cache model r k)).getD [] := by
    intro k
    have hk := @plan_filter cache model r 0 groups k
    rwa [Nat.zero_add] at hk
  have hcast : ((r : ℤ) + 1).toNat = r + 1 := by omega
  constructor
  · intro hfollows group hmem hg
    obtain ⟨k, hk⟩ := List.mem_iff_getElem?.mp hmem
    have hattempts := hfollows.attempts k (tiers cache model group) (by simp [hk]) hg
    rw [hfilter, hk, hcast, Option.map_some, Option.getD_some] at hattempts
    exact (rounds_tiers_iff hg r k).mp hattempts
  · intro hall
    refine ⟨plan_inOrder r 0 groups, fun place ↦ ?_, fun place tier hp hne ↦ ?_,
      fun place tier hp hne ↦ ?_⟩
    · rw [hfilter]
      cases groups[place]? with
      | none => exact List.Pairwise.nil
      | some group => exact rounds_descending r place group
    · rw [List.getElem?_map, Option.map_eq_some_iff] at hp
      obtain ⟨group, hk, rfl⟩ := hp
      have hplan := hfilter place
      rw [hk, Option.map_some, Option.getD_some, rounds, if_neg hne, List.range_succ_eq_map,
        List.map_cons] at hplan
      have hin : (place, retryPriority (priorities cache model group) 0) ∈
          (plan cache model r 0 groups).filter (·.1 = place) := by
        rw [hplan]
        exact List.mem_cons_self
      exact ⟨_, List.mem_of_mem_filter hin, rfl⟩
    · rw [List.getElem?_map, Option.map_eq_some_iff] at hp
      obtain ⟨group, hk, rfl⟩ := hp
      rw [hfilter, hk, hcast, Option.map_some, Option.getD_some]
      exact (rounds_tiers_iff hne r place).mpr (hall group (List.mem_of_getElem? hk) hne)

/-- No group has a channel; or one has, and there is no retry; or every group that has
channels has more tiers than there are retries. -/
def Fits (groups : List (List ℤ)) (retryTimes : ℤ) : Prop :=
  groups.filter (· ≠ []) = [] ∨
    (retryTimes = 0 ∧ (groups.filter (· ≠ [])).length = 1) ∨
    (1 ≤ retryTimes ∧ ∀ tiers ∈ groups, tiers ≠ [] → retryTimes + 1 ≤ tiers.length)

theorem filter_tiers_eq_nil {groups : List String} :
    (groups.map (tiers cache model)).filter (· ≠ []) = [] ↔
      ∀ group ∈ groups, tiers cache model group = [] := by
  rw [List.filter_eq_nil_iff, List.forall_mem_map]
  simp

theorem follows_nothing_iff {groups : List String} {retryTimes : ℤ} :
    Follows (groups.map (tiers cache model)) retryTimes [] ↔
      ∀ group ∈ groups, tiers cache model group = [] := by
  constructor
  · intro hfollows group hmem
    by_contra hg
    obtain ⟨k, hk⟩ := List.mem_iff_getElem?.mp hmem
    obtain ⟨v, hv, _⟩ := hfollows.reached k (tiers cache model group) (by simp [hk]) hg
    cases hv
  · intro hall
    have hempty : ∀ (place : ℕ)
        (tier : List ℤ), (groups.map (tiers cache model))[place]? = some tier → tier = [] := by
      intro place tier hp
      rw [List.getElem?_map, Option.map_eq_some_iff] at hp
      obtain ⟨group, hk, rfl⟩ := hp
      exact hall group (List.mem_of_getElem? hk)
    exact ⟨List.Pairwise.nil, fun _ ↦ List.Pairwise.nil,
      fun place tier hp hne ↦ absurd (hempty place tier hp) hne,
      fun place tier hp hne ↦ absurd (hempty place tier hp) hne⟩

/-- Without a retry, one group is visited. -/
theorem follows_once_iff (groups : List String) :
    Follows (groups.map (tiers cache model)) 0 ((plan cache model 0 0 groups).take 1) ↔
      ((groups.map (tiers cache model)).filter (· ≠ [])).length ≤ 1 := by
  rcases first_group cache model groups with hall | ⟨skipped, group, rest, rfl, hskip, hg⟩
  · rw [plan_none hall, List.take_nil, filter_tiers_eq_nil.mpr hall, List.length_nil]
    exact iff_of_true (follows_nothing_iff.mpr hall) (by omega)
  · have hplan : plan cache model 0 0 (skipped ++ group :: rest) =
        (skipped.length, retryPriority (priorities cache model group) 0) ::
          plan cache model 0 (skipped.length + 1) rest := by
      rw [plan_skip hskip, Nat.zero_add, plan, rounds, if_neg hg]
      rfl
    have hcount : (((skipped ++ group :: rest).map (tiers cache model)).filter (· ≠ [])).length ≤ 1 ↔
        ∀ g ∈ rest, tiers cache model g = [] := by
      rw [← filter_tiers_eq_nil, List.map_append, List.filter_append, filter_tiers_eq_nil.mpr hskip,
        List.map_cons, List.nil_append, List.filter_cons_of_pos (by simpa using hg),
        List.length_cons, ← List.length_eq_zero_iff]
      omega
    rw [hcount, hplan, List.take_succ_cons, List.take_zero]
    constructor
    · intro hfollows g hmem
      by_contra hne
      obtain ⟨k, hk⟩ := List.mem_iff_getElem?.mp hmem
      have hat : ((skipped ++ group :: rest).map (tiers cache model))[skipped.length + (k + 1)]? =
          some (tiers cache model g) := by
        rw [List.getElem?_map, List.getElem?_append_right (by omega), Nat.add_sub_cancel_left,
          List.getElem?_cons_succ, hk]
        rfl
      obtain ⟨v, hv, hplace⟩ := hfollows.reached _ _ hat hne
      rw [List.mem_singleton.mp hv] at hplace
      dsimp only at hplace
      omega
    · intro hrest
      have hall : ∀ g ∈ skipped ++ group :: rest, tiers cache model g ≠ [] →
          0 + 1 ≤ (tiers cache model g).length :=
        fun g _ hne ↦ List.length_pos_iff.mpr hne
      have hfollows := (follows_plan_iff 0 (skipped ++ group :: rest)).mpr hall
      rwa [hplan, plan_none hrest] at hfollows

/-- The schedule is followed exactly where the tiers fit the retries. -/
theorem cross_group_iff (h : Consistent cache) (hf : AllFail rules world)
    (settings : Settings) (model user : String) :
    FollowsSchedule settings cache rules world model user ↔
      Fits ((getUserAutoGroup settings user).map (tiers cache model)) settings.retryTimes := by
  rw [followsSchedule_iff_visited h hf, Fits, visited]
  generalize getUserAutoGroup settings user = groups
  rcases lt_trichotomy settings.retryTimes 0 with hneg | hzero | hpos
  · rw [if_pos hneg, follows_nothing_iff, ← filter_tiers_eq_nil]
    constructor
    · exact Or.inl
    · rintro (hnone | ⟨hzero, _⟩ | ⟨hpos, _⟩)
      · exact hnone
      · omega
      · omega
  · rw [if_neg (by omega), if_pos hzero, hzero, follows_once_iff, ← List.length_eq_zero_iff]
    constructor
    · intro hle
      rcases Nat.le_one_iff_eq_zero_or_eq_one.mp hle with hnone | hone
      · exact .inl hnone
      · exact .inr (.inl ⟨rfl, hone⟩)
    · rintro (hnone | ⟨_, hone⟩ | ⟨hpos, _⟩)
      · omega
      · omega
      · omega
  · obtain ⟨r, hr⟩ := Int.eq_ofNat_of_zero_le hpos.le
    rw [if_neg (by omega), if_neg (by omega), hr, Int.toNat_natCast, follows_plan_iff]
    constructor
    · intro hall
      refine .inr (.inr ⟨by omega, List.forall_mem_map.mpr fun group hmem hne ↦ ?_⟩)
      exact_mod_cast hall group hmem hne
    · rintro (hnone | ⟨hzero, _⟩ | ⟨_, hall⟩) group hmem hne
      · exact absurd (filter_tiers_eq_nil.mp hnone group hmem) hne
      · omega
      · exact_mod_cast hall _ (List.mem_map_of_mem hmem) hne

def badGateway : World where
  draws := fun _ _ ↦ 0
  failure := fun _ ↦ { errorCode := "bad_response_status_code", skipRetry := false, statusCode := 502 }
  setupContext := fun _ ↦ none

def retryAll : RetryRules where
  affinitySkipRetry := false
  specificChannel := false
  alwaysSkipRetryCode := fun _ ↦ false
  retryByStatusCode := fun _ ↦ true

theorem badGateway_fails : AllFail retryAll badGateway := by
  refine ⟨fun _ ↦ rfl, fun n retryTimes hpos ↦ ?_⟩
  have hnot : ¬ retryTimes ≤ 0 := by omega
  simp [shouldRetry, retryAll, badGateway, hnot]

/-- Two groups, each with a channel of priority ten and one of priority zero. -/
def twoTiers : ChannelCache where
  group2model2channels := fun group model ↦
    if model = "gpt-4o" then (if group = "a" then [1, 2] else if group = "b" then [3, 4] else [])
    else []
  channelsIDM := fun id ↦ some { id, priority := some (if id = 1 ∨ id = 3 then 10 else 0) }

theorem twoTiers_consistent : Consistent twoTiers := fun _ _ _ _ ↦ ⟨_, rfl, rfl⟩

def twoGroups (retryTimes : ℤ) : Settings where
  autoGroups := ["a", "b"]
  usable := fun _ _ ↦ true
  retryTimes

theorem one_retry_follows :
    FollowsSchedule (twoGroups 1) twoTiers retryAll badGateway "gpt-4o" "default" :=
  (cross_group_iff twoTiers_consistent badGateway_fails (twoGroups 1) "gpt-4o" "default").mpr
    (.inr (.inr ⟨by decide, by decide⟩))

/-- With three retries the first of two groups with two tiers gets four attempts. -/
theorem three_retries_differ :
    ¬ ∀ (settings : Settings) (cache : ChannelCache) (rules : RetryRules) (world : World)
      (model user : String), Consistent cache → AllFail rules world →
        FollowsSchedule settings cache rules world model user := by
  intro hclaim
  have hfollows := (followsSchedule_iff_visited twoTiers_consistent badGateway_fails).mp
    (hclaim (twoGroups 3) twoTiers retryAll badGateway "gpt-4o" "default" twoTiers_consistent
      badGateway_fails)
  have hattempts := hfollows.attempts 0 [10, 0] (by decide) (by decide)
  exact absurd hattempts (by decide)

end Follows

end AllAiTools.NewApi.Controller.RetrySchedule
