import Mathlib

namespace AllAiTools.Foundation.Sweeps

variable {α : Type} (batch : ℕ) (moves counted : α → Bool)

/-- The queue after a sweep over its first batch: what does not move stays. -/
def swept (l : List α) : List α := (l.take batch).filter (!moves ·) ++ l.drop batch

/-- Whether a sweep asks for another one: all of a whole batch has been counted. -/
def Asks (l : List α) : Prop := batch ≤ (l.take batch).countP counted

instance (l : List α) : Decidable (Asks batch counted l) := inferInstanceAs (Decidable (_ ≤ _))

/-- The queues that sweeps begin with, and whether the last of the sweeps has not asked for more. -/
def sweeps : ℕ → List α → List (List α) × Bool
  | 0, _ => ([], false)
  | n + 1, l =>
    if Asks batch counted l then (l :: (sweeps n (swept batch moves l)).1,
      (sweeps n (swept batch moves l)).2)
    else ([l], true)

def Ends (l : List α) : Prop := ∃ n, (sweeps batch moves counted n l).2 = true

/-- Whatever a sweep counts has moved. -/
def AllMove (l : List α) : Prop :=
  ∀ n, ∀ queue ∈ (sweeps batch moves counted n l).1, ∀ a ∈ queue.take batch, counted a → moves a

/-- A batch of elements that are counted and do not move comes together. -/
def Blocked (l : List α) : Prop := Asks batch counted (l.filter (!moves ·))

/-- What is counted without moving stands in a later batch than something not counted. -/
def Shielded (l : List α) : Prop :=
  ∀ (j : ℕ) (a : α), l[j]? = some a → counted a → ¬ moves a →
    ∃ (i : ℕ) (b : α), l[i]? = some b ∧ ¬ counted b ∧ i / batch < j / batch

variable {batch moves counted}

theorem asks_iff {l : List α} :
    Asks batch counted l ↔ batch ≤ l.length ∧ ∀ a ∈ l.take batch, counted a := by
  rw [Asks]
  have hle := List.countP_le_length (p := counted) (l := l.take batch)
  have hlen := List.length_take (i := batch) (l := l)
  constructor
  · intro h
    have hall : (l.take batch).countP counted = (l.take batch).length := by omega
    exact ⟨by omega, List.countP_eq_length.mp hall⟩
  · rintro ⟨hfull, hall⟩
    rw [List.countP_eq_length.mpr hall, hlen]
    omega

theorem filter_swept (l : List α) :
    (swept batch moves l).filter (!moves ·) = l.filter (!moves ·) := by
  rw [swept, List.filter_append, List.filter_filter]
  simp only [Bool.and_self]
  rw [← List.filter_append, List.take_append_drop]

theorem blocked_swept {l : List α} :
    Blocked batch moves counted (swept batch moves l) ↔ Blocked batch moves counted l := by
  rw [Blocked, filter_swept, Blocked]

theorem filter_take_isPrefix (l : List α) :
    (l.take batch).filter (!moves ·) <+: (l.filter (!moves ·)).take batch := by
  rw [List.prefix_take_iff]
  refine ⟨?_, (List.length_filter_le _ _).trans (List.length_take_le _ _)⟩
  conv_rhs => rw [← List.take_append_drop batch l, List.filter_append]
  exact List.prefix_append _ _

/-- What moves is counted, and a batch that blocks keeps all that is in front of it. -/
theorem asks_of_blocked (hcounted : ∀ a, moves a → counted a) {l : List α}
    (h : Blocked batch moves counted l) : Asks batch counted l := by
  obtain ⟨hfull, hall⟩ := asks_iff.mp h
  refine asks_iff.mpr ⟨hfull.trans (List.length_filter_le _ l), fun a ha ↦ ?_⟩
  by_cases hmoves : moves a
  · exact hcounted a hmoves
  · exact hall a ((filter_take_isPrefix l).subset (List.mem_filter.mpr ⟨ha, by simpa using hmoves⟩))

theorem sweeps_of_asks {l : List α} (h : Asks batch counted l) (n : ℕ) :
    sweeps batch moves counted (n + 1) l =
      (l :: (sweeps batch moves counted n (swept batch moves l)).1,
        (sweeps batch moves counted n (swept batch moves l)).2) := if_pos h

theorem sweeps_of_not_asks {l : List α} (h : ¬ Asks batch counted l) (n : ℕ) :
    sweeps batch moves counted (n + 1) l = ([l], true) := if_neg h

theorem not_ends_of_blocked (hcounted : ∀ a, moves a → counted a) {l : List α}
    (h : Blocked batch moves counted l) (n : ℕ) : (sweeps batch moves counted n l).2 = false := by
  induction n generalizing l with
  | zero => rfl
  | succ n ih =>
    rw [sweeps_of_asks (asks_of_blocked hcounted h)]
    exact ih (blocked_swept.mpr h)

/-- A sweep that asks for more without being blocked has moved something. -/
theorem length_swept_lt {l : List α} (hasks : Asks batch counted l)
    (h : ¬ Blocked batch moves counted l) : (swept batch moves l).length < l.length := by
  obtain ⟨hfull, hall⟩ := asks_iff.mp hasks
  have hlt : ((l.take batch).filter (!moves ·)).length < (l.take batch).length := by
    refine lt_of_le_of_ne (List.length_filter_le _ _) fun heq ↦ h ?_
    have hkept := List.filter_sublist.eq_of_length heq
    have hpre : l.take batch <+: (l.filter (!moves ·)).take batch := hkept ▸ filter_take_isPrefix l
    have hlen := hpre.length_le
    rw [List.length_take, List.length_take] at hlen
    refine asks_iff.mpr ⟨by omega, fun a ha ↦ ?_⟩
    have hsame : l.take batch = (l.filter (!moves ·)).take batch := by
      refine hpre.eq_of_length ?_
      have hle := List.length_filter_le (!moves ·) l
      rw [List.length_take, List.length_take]
      omega
    exact hall a (hsame ▸ ha)
  rw [swept, List.length_append]
  have hdrop : (l.take batch).length + (l.drop batch).length = l.length := by
    rw [← List.length_append, List.take_append_drop]
  omega

theorem ends_iff (hcounted : ∀ a, moves a → counted a) (l : List α) :
    Ends batch moves counted l ↔ ¬ Blocked batch moves counted l := by
  constructor
  · rintro ⟨n, hn⟩ hblocked
    rw [not_ends_of_blocked hcounted hblocked n] at hn
    exact Bool.false_ne_true hn
  · induction hlen : l.length using Nat.strong_induction_on generalizing l with
    | _ k ih =>
      intro h
      by_cases hasks : Asks batch counted l
      · have hlt := length_swept_lt hasks h
        obtain ⟨n, hn⟩ := ih _ (hlen ▸ hlt) _ rfl (mt blocked_swept.mp h)
        exact ⟨n + 1, by rw [sweeps_of_asks hasks]; exact hn⟩
      · exact ⟨1, by rw [sweeps_of_not_asks hasks]⟩

theorem allMove_of_not_asks {l : List α} (h : ¬ Asks batch counted l) :
    AllMove batch moves counted l ↔ ∀ a ∈ l.take batch, counted a → moves a := by
  constructor
  · intro hall
    refine hall 1 l ?_
    rw [sweeps_of_not_asks h]
    exact List.mem_singleton_self l
  · intro hall n queue hqueue
    cases n with
    | zero => exact absurd hqueue List.not_mem_nil
    | succ n =>
      rw [sweeps_of_not_asks h, List.mem_singleton] at hqueue
      exact hqueue ▸ hall

theorem allMove_of_asks {l : List α} (h : Asks batch counted l) :
    AllMove batch moves counted l ↔ (∀ a ∈ l.take batch, counted a → moves a) ∧
      AllMove batch moves counted (swept batch moves l) := by
  constructor
  · intro hall
    constructor
    · refine hall 1 l ?_
      rw [sweeps_of_asks h]
      exact List.mem_cons_self
    · intro n queue hqueue
      refine hall (n + 1) queue ?_
      rw [sweeps_of_asks h]
      exact List.mem_cons_of_mem l hqueue
  · rintro ⟨hfirst, hrest⟩ n queue hqueue
    cases n with
    | zero => exact absurd hqueue List.not_mem_nil
    | succ n =>
      rw [sweeps_of_asks h] at hqueue
      rcases List.mem_cons.mp hqueue with rfl | hlater
      · exact hfirst
      · exact hrest n queue hlater

theorem swept_of_all_move {l : List α} (h : ∀ a ∈ l.take batch, moves a) :
    swept batch moves l = l.drop batch := by
  have hnone : (l.take batch).filter (!moves ·) = [] :=
    List.filter_eq_nil_iff.mpr fun a ha ↦ by simpa using h a ha
  rw [swept, hnone, List.nil_append]

theorem getElem?_take {l : List α} {j : ℕ} {a : α} (h : l[j]? = some a) (hj : j < batch) :
    a ∈ l.take batch := by
  refine List.mem_of_getElem? (i := j) ?_
  rw [List.getElem?_take_of_lt hj, h]

/-- A shield is needed by the first batch itself or by what comes after it. -/
theorem shielded_of_stuck {l : List α} {a : α} (ha : a ∈ l.take batch) (hcounted : counted a)
    (hstuck : ¬ moves a) : ¬ Shielded batch moves counted l := by
  intro h
  obtain ⟨j, hj⟩ := List.mem_iff_getElem?.mp ha
  have hlt : j < batch := by
    by_contra hge
    rw [List.getElem?_take_eq_none (not_lt.mp hge)] at hj
    exact Option.some_ne_none a hj.symm
  rw [List.getElem?_take_of_lt hlt] at hj
  obtain ⟨i, b, _, _, hdiv⟩ := h j a hj hcounted hstuck
  rw [Nat.div_eq_of_lt hlt] at hdiv
  exact absurd hdiv (Nat.not_lt_zero _)

theorem shielded_of_not_asks (hbatch : 0 < batch) {l : List α} (h : ¬ Asks batch counted l)
    (hfirst : ∀ a ∈ l.take batch, counted a → moves a) : Shielded batch moves counted l := by
  intro j a hj hcounted hstuck
  have hge : batch ≤ j := by
    by_contra hlt
    exact hstuck (hfirst a (getElem?_take hj (not_le.mp hlt)) hcounted)
  have hlen : j < l.length := (List.getElem?_eq_some_iff.mp hj).1
  obtain ⟨b, hb, hnot⟩ : ∃ b ∈ l.take batch, ¬ counted b := by
    by_contra hnone
    refine h (asks_iff.mpr ⟨by omega, fun b hb ↦ ?_⟩)
    by_contra hnot
    exact hnone ⟨b, hb, hnot⟩
  obtain ⟨i, hi⟩ := List.mem_iff_getElem?.mp hb
  have hlt : i < batch := by
    by_contra hge'
    rw [List.getElem?_take_eq_none (not_lt.mp hge')] at hi
    exact Option.some_ne_none b hi.symm
  rw [List.getElem?_take_of_lt hlt] at hi
  refine ⟨i, b, hi, hnot, ?_⟩
  rw [Nat.div_eq_of_lt hlt]
  exact Nat.div_pos hge hbatch

/-- Where the first batch moves as a whole, the others make up the batches behind it. -/
theorem shielded_drop (hbatch : 0 < batch) {l : List α}
    (hmove : ∀ a ∈ l.take batch, counted a ∧ moves a) :
    Shielded batch moves counted (l.drop batch) ↔ Shielded batch moves counted l := by
  constructor
  · intro h j a hj hcounted hstuck
    have hge : batch ≤ j := by
      by_contra hlt
      exact hstuck (hmove a (getElem?_take hj (not_le.mp hlt))).2
    have hdrop : (l.drop batch)[j - batch]? = some a := by
      rw [List.getElem?_drop, Nat.add_sub_cancel' hge, hj]
    obtain ⟨i, b, hi, hnot, hdiv⟩ := h _ a hdrop hcounted hstuck
    rw [List.getElem?_drop] at hi
    refine ⟨batch + i, b, hi, hnot, ?_⟩
    have hj' : j / batch = (j - batch) / batch + 1 := by
      rw [Nat.div_eq_sub_div hbatch hge]
    rw [Nat.add_div_left i hbatch, hj']
    omega
  · intro h j a hj hcounted hstuck
    rw [List.getElem?_drop] at hj
    obtain ⟨i, b, hi, hnot, hdiv⟩ := h _ a hj hcounted hstuck
    have hge : batch ≤ i := by
      by_contra hlt
      exact hnot (hmove b (getElem?_take hi (not_le.mp hlt))).1
    refine ⟨i - batch, b, ?_, hnot, ?_⟩
    · rw [List.getElem?_drop, Nat.add_sub_cancel' hge, hi]
    · rw [Nat.add_div_left j hbatch, Nat.div_eq_sub_div hbatch hge] at hdiv
      omega

theorem allMove_iff (hbatch : 0 < batch) (l : List α) :
    AllMove batch moves counted l ↔ Shielded batch moves counted l := by
  induction hlen : l.length using Nat.strong_induction_on generalizing l with
  | _ k ih =>
    by_cases hfirst : ∀ a ∈ l.take batch, counted a → moves a
    · by_cases hasks : Asks batch counted l
      · obtain ⟨hfull, hall⟩ := asks_iff.mp hasks
        have hmove : ∀ a ∈ l.take batch, counted a ∧ moves a :=
          fun a ha ↦ ⟨hall a ha, hfirst a ha (hall a ha)⟩
        have hlt : (l.drop batch).length < k := by
          rw [List.length_drop]
          omega
        rw [allMove_of_asks hasks, swept_of_all_move fun a ha ↦ (hmove a ha).2, ih _ hlt _ rfl,
          shielded_drop hbatch hmove]
        exact and_iff_right hfirst
      · rw [allMove_of_not_asks hasks]
        exact iff_of_true hfirst (shielded_of_not_asks hbatch hasks hfirst)
    · obtain ⟨a, ha⟩ := not_forall.mp hfirst
      obtain ⟨hmem, hrest⟩ := Classical.not_imp.mp ha
      obtain ⟨hcounted, hstuck⟩ := Classical.not_imp.mp hrest
      refine iff_of_false (fun h ↦ hfirst ?_) (shielded_of_stuck hmem hcounted hstuck)
      by_cases hasks : Asks batch counted l
      · exact ((allMove_of_asks hasks).mp h).1
      · exact (allMove_of_not_asks hasks).mp h

/-- Sweeps that move all they count come to an end. -/
theorem ends_of_allMove (hbatch : 0 < batch) {l : List α}
    (h : AllMove batch moves counted l) : Ends batch moves counted l := by
  induction hlen : l.length using Nat.strong_induction_on generalizing l with
  | _ k ih =>
    by_cases hasks : Asks batch counted l
    · obtain ⟨hfull, hall⟩ := asks_iff.mp hasks
      obtain ⟨hfirst, hrest⟩ := (allMove_of_asks hasks).mp h
      have hlt : (swept batch moves l).length < k := by
        rw [swept_of_all_move fun a ha ↦ hfirst a ha (hall a ha), List.length_drop]
        omega
      obtain ⟨n, hn⟩ := ih _ hlt hrest rfl
      exact ⟨n + 1, by rw [sweeps_of_asks hasks]; exact hn⟩
    · exact ⟨1, by rw [sweeps_of_not_asks hasks]⟩

end AllAiTools.Foundation.Sweeps
