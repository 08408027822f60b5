import Mathlib

namespace AllAiTools.Foundation.Picking

variable {α β γ : Type}

/-- What a partial function has of a list, with the places, which count from `n`. -/
def picked (f : α → Option β) (l : List α) (n : ℕ) : List (β × ℕ) :=
  (l.zipIdx n).filterMap fun p ↦ (f p.1).map (·, p.2)

variable {f : α → Option β}

theorem picked_cons_none {a : α} (l : List α) (n : ℕ) (h : f a = none) :
    picked f (a :: l) n = picked f l (n + 1) := by
  rw [picked, List.zipIdx_cons, List.filterMap_cons, h]
  rfl

theorem picked_cons_some {a : α} {b : β} (l : List α) (n : ℕ) (h : f a = some b) :
    picked f (a :: l) n = (b, n) :: picked f l (n + 1) := by
  rw [picked, List.zipIdx_cons, List.filterMap_cons, h]
  rfl

theorem map_fst_picked (l : List α) (n : ℕ) : (picked f l n).map (·.1) = l.filterMap f := by
  induction l generalizing n with
  | nil => rfl
  | cons a l ih =>
    rw [List.filterMap_cons]
    cases h : f a with
    | none =>
      rw [picked_cons_none l n h]
      exact ih (n + 1)
    | some b =>
      rw [picked_cons_some l n h, List.map_cons, ih]

theorem length_picked (l : List α) (n : ℕ) : (picked f l n).length = (l.filterMap f).length := by
  rw [← map_fst_picked l n, List.length_map]

theorem le_of_mem_picked {l : List α} {n : ℕ} {p : β × ℕ} (h : p ∈ picked f l n) : n ≤ p.2 := by
  obtain ⟨⟨a, k⟩, hq, hsome⟩ := List.mem_filterMap.mp h
  obtain ⟨b, _, rfl⟩ := Option.map_eq_some_iff.mp hsome
  have hle := List.le_snd_of_mem_zipIdx hq
  exact hle

theorem nodup_places (l : List α) (n : ℕ) : ((picked f l n).map (·.2)).Nodup := by
  induction l generalizing n with
  | nil => exact List.nodup_nil
  | cons a l ih =>
    cases h : f a with
    | none =>
      rw [picked_cons_none l n h]
      exact ih (n + 1)
    | some b =>
      rw [picked_cons_some l n h, List.map_cons, List.nodup_cons]
      refine ⟨fun hmem ↦ ?_, ih (n + 1)⟩
      obtain ⟨p, hp, hplace⟩ := List.mem_map.mp hmem
      have hle := le_of_mem_picked hp
      omega

/-- The places of what is picked have no gap exactly when all of it stands in front. -/
theorem places_eq_range'_iff (l : List α) (n : ℕ) :
    (picked f l n).map (·.2) = List.range' n (l.filterMap f).length ↔
      l.Pairwise fun before after ↦ (f after).isSome → (f before).isSome := by
  induction l generalizing n with
  | nil => exact iff_of_true rfl List.Pairwise.nil
  | cons a l ih =>
    rw [List.pairwise_cons, List.filterMap_cons]
    cases h : f a with
    | none =>
      rw [picked_cons_none l n h]
      constructor
      · intro heq
        have hnil : l.filterMap f = [] := by
          cases hrest : l.filterMap f with
          | nil => rfl
          | cons b bs =>
            have hmem : n ∈ (picked f l (n + 1)).map (·.2) := by
              rw [heq]
              simp [hrest]
            obtain ⟨p, hp, hplace⟩ := List.mem_map.mp hmem
            have hle := le_of_mem_picked hp
            omega
        have hnone : ∀ b ∈ l, f b = none := List.filterMap_eq_nil_iff.mp hnil
        refine ⟨fun b hb hsome ↦ ?_, List.pairwise_of_forall_mem_list fun b _ c hc hsome ↦ ?_⟩
        · rw [hnone b hb] at hsome
          exact hsome
        · rw [hnone c hc] at hsome
          exact absurd hsome Bool.false_ne_true
      · rintro ⟨hfirst, -⟩
        have hnil : l.filterMap f = [] := by
          refine List.filterMap_eq_nil_iff.mpr fun b hb ↦ ?_
          exact Option.not_isSome_iff_eq_none.mp fun hsome ↦
            absurd (hfirst b hb hsome) Bool.false_ne_true
        have hpicked : picked f l (n + 1) = [] := by
          rw [← List.length_eq_zero_iff, length_picked, hnil, List.length_nil]
        simp [hpicked, hnil]
    | some b =>
      rw [picked_cons_some l n h]
      simp only [List.map_cons, List.length_cons, List.range'_succ, List.cons.injEq, true_and,
        Option.isSome_some, implies_true]
      exact ih (n + 1)

/-- Texts that are picked with their places make up what comes of all places. -/
theorem flatMap_picked (g : ℕ → β → List γ) (l : List α) (n : ℕ) :
    (l.zipIdx n).flatMap (fun p ↦ ((f p.1).map (g p.2)).getD []) =
      (picked f l n).flatMap fun p ↦ g p.2 p.1 := by
  induction l generalizing n with
  | nil => rfl
  | cons a l ih =>
    rw [List.zipIdx_cons, List.flatMap_cons, ih]
    cases h : f a with
    | none =>
      rw [picked_cons_none l n h]
      rfl
    | some b =>
      rw [picked_cons_some l n h]
      rfl

theorem flatten_filterMap (f : α → Option (List γ)) (l : List α) :
    (l.filterMap f).flatten = l.flatMap fun a ↦ (f a).getD [] := by
  induction l with
  | nil => rfl
  | cons a l ih =>
    rw [List.filterMap_cons, List.flatMap_cons, ← ih]
    cases f a <;> rfl

end AllAiTools.Foundation.Picking

namespace AllAiTools.Foundation.Grouping

variable {β κ : Type}

theorem eraseDups_const [BEq κ] [LawfulBEq κ] {k : κ} {l : List κ} (hne : l ≠ []) (h : ∀ a ∈ l, a = k) :
    l.eraseDups = [k] := by
  cases l with
  | nil => exact absurd rfl hne
  | cons a l =>
    obtain rfl := h a List.mem_cons_self
    have hnone : (l.filter fun b ↦ !b == a) = [] := by
      rw [List.filter_eq_nil_iff]
      intro b hb
      simp [h b (List.mem_cons_of_mem a hb)]
    rw [List.eraseDups_cons, hnone, List.eraseDups_nil]

/-- Groups of elements that have the key of their group and no other. -/
structure Grouped (key : β → κ) (groups : List (κ × List β)) : Prop where
  nodup : (groups.map (·.1)).Nodup
  nonempty : ∀ group ∈ groups, group.2 ≠ []
  keyed : ∀ group ∈ groups, ∀ b ∈ group.2, key b = group.1

variable {key : β → κ}

theorem Grouped.tail {group : κ × List β} {groups : List (κ × List β)}
    (h : Grouped key (group :: groups)) : Grouped key groups where
  nodup := (List.nodup_cons.mp h.nodup).2
  nonempty g hg := h.nonempty g (List.mem_cons_of_mem group hg)
  keyed g hg := h.keyed g (List.mem_cons_of_mem group hg)

theorem Grouped.key_ne {group : κ × List β} {groups : List (κ × List β)}
    (h : Grouped key (group :: groups)) : ∀ b ∈ groups.flatMap (·.2), key b ≠ group.1 := by
  intro b hb heq
  obtain ⟨other, hother, hmem⟩ := List.mem_flatMap.mp hb
  have hkey := h.keyed other (List.mem_cons_of_mem group hother) b hmem
  exact (List.nodup_cons.mp h.nodup).1 (List.mem_map.mpr ⟨other, hother, hkey.symm.trans heq⟩)

/-- The keys of the elements, each where it first occurs, are those of the groups. -/
theorem Grouped.keys [BEq κ] [LawfulBEq κ] {groups : List (κ × List β)} (h : Grouped key groups) :
    ((groups.flatMap (·.2)).map key).eraseDups = groups.map (·.1) := by
  induction groups with
  | nil => rfl
  | cons group groups ih =>
    have hconst : (group.2.map key).eraseDups = [group.1] := by
      refine eraseDups_const ?_ fun k hk ↦ ?_
      · exact fun hnil ↦ h.nonempty group List.mem_cons_self (List.map_eq_nil_iff.mp hnil)
      · obtain ⟨b, hb, rfl⟩ := List.mem_map.mp hk
        exact h.keyed group List.mem_cons_self b hb
    have hrest : ((groups.flatMap (·.2)).map key).removeAll (group.2.map key) =
        (groups.flatMap (·.2)).map key := by
      rw [List.removeAll, List.filter_eq_self]
      intro k hk
      obtain ⟨b, hb, rfl⟩ := List.mem_map.mp hk
      have hne := h.key_ne b hb
      suffices hnot : key b ∉ group.2.map key by simpa using hnot
      intro hmem
      obtain ⟨own, hown, heq⟩ := List.mem_map.mp hmem
      exact hne (heq.symm.trans (h.keyed group List.mem_cons_self own hown))
    rw [List.flatMap_cons, List.map_append, List.eraseDups_append, hconst, hrest, ih h.tail]
    rfl

theorem Grouped.filter_eq [DecidableEq κ] {groups : List (κ × List β)} (h : Grouped key groups)
    {group : κ × List β} (hgroup : group ∈ groups) :
    (groups.flatMap (·.2)).filter (key · = group.1) = group.2 := by
  induction groups with
  | nil => exact absurd hgroup List.not_mem_nil
  | cons first groups ih =>
    rw [List.flatMap_cons, List.filter_append]
    rcases List.mem_cons.mp hgroup with rfl | hlater
    · have hown : group.2.filter (key · = group.1) = group.2 :=
        List.filter_eq_self.mpr fun b hb ↦ decide_eq_true (h.keyed group List.mem_cons_self b hb)
      have hothers : (groups.flatMap (·.2)).filter (key · = group.1) = [] :=
        List.filter_eq_nil_iff.mpr fun b hb ↦ by simpa using h.key_ne b hb
      rw [hown, hothers, List.append_nil]
    · have hne : first.1 ≠ group.1 := fun heq ↦
        (List.nodup_cons.mp h.nodup).1 (List.mem_map.mpr ⟨group, hlater, heq.symm⟩)
      have hfirst : first.2.filter (key · = group.1) = [] := by
        refine List.filter_eq_nil_iff.mpr fun b hb ↦ ?_
        simpa [h.keyed first List.mem_cons_self b hb] using hne
      rw [hfirst, ih h.tail hlater, List.nil_append]

end AllAiTools.Foundation.Grouping
