import AllAiTools.NewApi.Model.SelectorsAgree

namespace AllAiTools.NewApi.Model.ExactSelection

open Foundation Foundation.Lottery Channels Abilities CachedChannels SelectorsAgree

section Property

/-- Over the numbers that can be drawn, a loop selects each channel as often as it weighs. -/
structure Exact (ids : List ℤ) (effective : ℤ → ℕ) (bound : ℕ) (select : ℕ → Option ℤ) : Prop where
  drawn : 0 < bound
  counts : ∀ k, (List.range bound).countP (fun n ↦ select n = some k) = effective k
  selects : ∀ n < bound, ∃ k ∈ ids, select n = some k
  never : ∀ k, effective k = 0 → (∃ j, 0 < effective j) → ∀ n < bound, select n ≠ some k

/-- The factor and the adjustment of the memory selector. -/
def smoothing (targets : List Channel) : ℕ × ℕ :=
  let sumWeight := (targets.map (·.getWeight)).sum
  if sumWeight = 0 then (1, 100) else if sumWeight / targets.length < 10 then (100, 0) else (1, 0)

/-- What the memory selector weighs a channel with. -/
def smoothed (targets : List Channel) (channel : Channel) : ℕ :=
  channel.getWeight * (smoothing targets).1 + (smoothing targets).2

def channelOf : Except String (Option Channel) → Option ℤ
  | .ok (some channel) => some channel.id
  | _ => none

/-- The draws of the memory selector. -/
def MemoryExact (targets : List Channel) : Prop :=
  ∃ bound answer, drawChannel targets = .draw bound answer ∧
    Exact (targets.map (·.id)) (fun k ↦ weigh (smoothed targets) (·.id = k) targets) bound
      fun n ↦ channelOf (answer n)

/-- The draws of the database selector, up to the last lookup. -/
def DatabaseExact (abilities : List Ability) : Prop :=
  Exact (abilities.map (·.channelId)) (nominalOf abilities) (nominal abilities)
    fun n ↦ some (chooseAbility abilities n)

end Property

section Memory

variable {ids : List ℤ} {effective : ℤ → ℕ} {bound : ℕ} {select : ℕ → Option ℤ}

/-- A count of draws that is right leaves none to a channel without a weight. -/
theorem exact_of_counts (hdrawn : 0 < bound)
    (hcounts : ∀ k, (List.range bound).countP (fun n ↦ select n = some k) = effective k)
    (hselects : ∀ n < bound, ∃ k ∈ ids, select n = some k) : Exact ids effective bound select where
  drawn := hdrawn
  counts := hcounts
  selects := hselects
  never k hk _ n hn hselect := by
    have hpos : 0 < (List.range bound).countP fun n ↦ select n = some k :=
      List.countP_pos_iff.mpr ⟨n, List.mem_range.mpr hn, decide_eq_true hselect⟩
    rw [hcounts, hk] at hpos
    exact lt_irrefl 0 hpos

/-- A walk down the list is exact, where each element is taken for its id. -/
theorem pick_exact {α : Type} (w : α → ℕ) (id : α → ℤ) (l : List α) (h : 0 < (l.map w).sum) :
    Exact (l.map id) (fun k ↦ weigh w (id · = k) l) (l.map w).sum fun n ↦ (pick w l n).map id := by
  refine exact_of_counts h (fun k ↦ ?_) fun n hn ↦ ?_
  · rw [← countP_pick]
    refine List.countP_congr fun n _ ↦ ?_
    cases pick w l n <;> simp
  · obtain ⟨a, ha⟩ := Option.isSome_iff_exists.mp (pick_isSome hn)
    exact ⟨id a, List.mem_map_of_mem (pick_mem ha), by rw [ha, Option.map_some]⟩

/-- The loop walks down the list with the weights after the smoothing. -/
theorem channelOf_choose (f a : ℕ) (targets : List Channel) (n : ℕ) :
    channelOf (match chooseChannel f a targets n with
      | none => .error "channel not found"
      | some channel => .ok (some channel)) =
    (pick (fun c ↦ c.getWeight * f + a) targets n).map (·.id) := by
  rw [ChannelChance.chooseChannel_eq_pick]
  cases pick (fun c : Channel ↦ c.getWeight * f + a) targets n <;> rfl

theorem sum_map_mul_add (f a : ℕ) (targets : List Channel) :
    (targets.map fun c ↦ c.getWeight * f + a).sum =
      (targets.map (·.getWeight)).sum * f + targets.length * a := by
  induction targets with
  | nil => simp
  | cons c targets ih =>
    simp only [List.map_cons, List.sum_cons, List.length_cons, ih]
    ring

theorem smoothing_cases (targets : List Channel) :
    (targets.map (·.getWeight)).sum = 0 ∧ smoothing targets = (1, 100) ∨
      0 < (targets.map (·.getWeight)).sum ∧ 0 < (smoothing targets).1 ∧ (smoothing targets).2 = 0 := by
  unfold smoothing
  by_cases hzero : (targets.map (·.getWeight)).sum = 0
  · exact Or.inl ⟨hzero, if_pos hzero⟩
  · refine Or.inr ⟨Nat.pos_of_ne_zero hzero, ?_⟩
    by_cases hsmall : (targets.map (·.getWeight)).sum / targets.length < 10
    · simp only [if_neg hzero, if_pos hsmall]
      decide
    · simp only [if_neg hzero, if_neg hsmall]
      decide

theorem smoothed_pos {targets : List Channel} (h : targets ≠ []) :
    0 < (targets.map (smoothed targets)).sum := by
  have hlength : 0 < targets.length := List.length_pos_iff.mpr h
  have hsum : (targets.map (smoothed targets)).sum = (targets.map (·.getWeight)).sum *
      (smoothing targets).1 + targets.length * (smoothing targets).2 :=
    sum_map_mul_add _ _ targets
  rw [hsum]
  rcases smoothing_cases targets with ⟨hzero, hsmoothing⟩ | ⟨hpos, hfactor, hadjustment⟩
  · rw [hsmoothing, hzero]
    omega
  · rw [hadjustment, Nat.mul_zero, Nat.add_zero]
    exact Nat.mul_pos hpos hfactor

/-- The draws go up to what all channels weigh together. -/
theorem drawChannel_eq (targets : List Channel) :
    drawChannel targets = .draw (targets.map (smoothed targets)).sum fun n ↦
      match chooseChannel (smoothing targets).1 (smoothing targets).2 targets n with
      | none => .error "channel not found"
      | some channel => .ok (some channel) := by
  have hsum : (targets.map (smoothed targets)).sum = (targets.map (·.getWeight)).sum *
      (smoothing targets).1 + targets.length * (smoothing targets).2 :=
    sum_map_mul_add _ _ targets
  rw [hsum]
  unfold drawChannel smoothing
  dsimp only
  by_cases hzero : (targets.map (·.getWeight)).sum = 0
  · rewrite [if_pos hzero, if_pos hzero, hzero, Nat.zero_mul, Nat.zero_add, Nat.mul_one]
    rfl
  · rw [if_neg hzero, if_neg hzero]
    by_cases hsmall : (targets.map (·.getWeight)).sum / targets.length < 10
    · rewrite [if_pos hsmall, if_pos hsmall, Nat.mul_zero, Nat.add_zero]
      rfl
    · rewrite [if_neg hsmall, if_neg hsmall, Nat.mul_zero, Nat.add_zero]
      rfl

theorem memory_exact {targets : List Channel} (h : targets ≠ []) : MemoryExact targets := by
  refine ⟨_, _, drawChannel_eq targets, ?_⟩
  simp only [channelOf_choose]
  exact pick_exact (smoothed targets) (·.id) targets (smoothed_pos h)

end Memory

section Database

variable {abilities : List Ability} {first last : Ability}

/-- The database loop takes one draw from the last ability for the first. -/
theorem database_counts (hfirst : abilities.head? = some first)
    (hlast : abilities.getLast? = some last) (k : ℤ) :
    (List.range (nominal abilities)).countP (fun n : ℕ ↦ some (chooseAbility abilities n) = some k) +
        (if last.channelId = k then 1 else 0) =
      nominalOf abilities k + if first.channelId = k then 1 else 0 := by
  have hcount := countP_pick_pred (fun a : Ability ↦ a.weight + 10) (·.channelId = k) hfirst hlast
    (by omega) (by omega)
  simp only [decide_eq_true_eq] at hcount
  rw [nominalOf, ← hcount, nominal]
  congr 1
  refine List.countP_congr fun n hn ↦ ?_
  have hlt : n - 1 < (abilities.map fun a ↦ a.weight + 10).sum := by
    have hrange := List.mem_range.mp hn
    omega
  obtain ⟨a, ha⟩ := Option.isSome_iff_exists.mp (pick_isSome hlt)
  rw [chooseAbility_eq_pick, ha]
  simp

/-- The database selector is exact where the first ability is of the channel of the last. -/
theorem database_exact_iff (hfirst : abilities.head? = some first)
    (hlast : abilities.getLast? = some last) :
    DatabaseExact abilities ↔ first.channelId = last.channelId := by
  have hcounts := database_counts hfirst hlast
  constructor
  · intro hexact
    have hk := hcounts first.channelId
    rw [hexact.counts, if_pos rfl] at hk
    by_contra hne
    rw [if_neg (Ne.symm hne)] at hk
    omega
  · intro hsame
    have hne : abilities ≠ [] := by
      rintro rfl
      cases hfirst
    refine exact_of_counts (nominal_pos hne) (fun k ↦ ?_) fun n hn ↦ ?_
    · have hk := hcounts k
      rw [hsame] at hk
      omega
    · have hlt : n - 1 < (abilities.map fun a ↦ a.weight + 10).sum := by
        unfold nominal at hn
        omega
      obtain ⟨a, ha⟩ := Option.isSome_iff_exists.mp (pick_isSome hlt)
      refine ⟨a.channelId, List.mem_map_of_mem (pick_mem ha), ?_⟩
      rw [chooseAbility_eq_pick, ha, Option.map_some, Option.getD_some]

theorem channelQuery_sublist {db : Database} {group model : String} {retry : ℕ} {rows : List Ability}
    (h : channelQuery db group model retry = .ok rows) :
    rows.Sublist (enabledFor db group model) := by
  unfold channelQuery at h
  dsimp only at h
  split_ifs at h
  · obtain rfl := Except.ok.inj h
    exact List.filter_sublist
  · split at h
    · cases h
    · obtain rfl := Except.ok.inj h
      exact List.filter_sublist

/-- No two abilities of a query are of one channel. -/
theorem channelQuery_nodup {db : Database} {group model : String} {retry : ℕ} {rows : List Ability}
    (h : channelQuery db group model retry = .ok rows) : (rows.map (·.channelId)).Nodup := by
  refine List.Nodup.sublist ((channelQuery_sublist h).map _) ?_
  have hkeys : ((enabledFor db group model).map Ability.key).Nodup :=
    db.abilities.nodup.sublist (List.filter_sublist.map _)
  have hkey : (enabledFor db group model).map Ability.key =
      ((enabledFor db group model).map (·.channelId)).map fun id ↦ (group, model, id) := by
    rw [List.map_map]
    refine List.map_congr_left fun a ha ↦ ?_
    obtain ⟨hgroup, hmodel, _⟩ : a.group = group ∧ a.model = model ∧ a.enabled := by
      simpa [enabledFor] using (List.mem_filter.mp ha).2
    rw [Function.comp_apply, Ability.key, hgroup, hmodel]
  rw [hkey] at hkeys
  exact hkeys.of_map _

/-- Where no two abilities are of one channel, the ends are of one only in a list of one. -/
theorem ends_iff {l : List Ability} (hnodup : (l.map (·.channelId)).Nodup)
    (hfirst : l.head? = some first) (hlast : l.getLast? = some last) :
    first.channelId = last.channelId ↔ l.length = 1 := by
  cases l with
  | nil => cases hfirst
  | cons a l =>
    obtain rfl := Option.some.inj hfirst
    cases l with
    | nil =>
      obtain rfl := Option.some.inj hlast
      exact iff_of_true rfl rfl
    | cons b l =>
      refine iff_of_false (fun hsame ↦ ?_) (by simp)
      rw [List.getLast?_cons_cons] at hlast
      rw [List.map_cons, List.nodup_cons] at hnodup
      refine hnodup.1 ?_
      rw [hsame]
      exact List.mem_map_of_mem (List.mem_of_getLast? hlast)

end Database

section Selectors

end Selectors

end AllAiTools.NewApi.Model.ExactSelection
