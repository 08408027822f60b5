import Mathlib

namespace AllAiTools.Foundation

/-- An answer that is certain, or depends on a number drawn evenly below a bound. -/
inductive Lottery (α : Type)
  | sure (a : α)
  | draw (bound : ℕ) (answer : ℕ → α)

namespace Lottery

variable {α : Type}

/-- The chance of an answer with a property. -/
def chance (p : α → Bool) : Lottery α → ℚ
  | .sure a => if p a then 1 else 0
  | .draw bound answer => ((List.range bound).countP fun n ↦ p (answer n)) / bound

/-- The answer to a number that was drawn. -/
def outcome : Lottery α → ℕ → α
  | .sure a, _ => a
  | .draw bound answer, n => answer (n % bound)

/-- Walks down a list, taking each element's weight off the number, until it is spent. -/
def pick (w : α → ℕ) : List α → ℕ → Option α
  | [], _ => none
  | a :: l, n => if n < w a then some a else pick w l (n - w a)

/-- The weight of the elements with a property. -/
def weigh (w : α → ℕ) (p : α → Bool) (l : List α) : ℕ := ((l.filter p).map w).sum

section Weigh

variable (w : α → ℕ) (p : α → Bool)

@[simp] theorem weigh_nil : weigh w p [] = 0 := rfl

theorem weigh_cons (a : α) (l : List α) :
    weigh w p (a :: l) = (if p a then w a else 0) + weigh w p l := by
  unfold weigh
  by_cases ha : p a
  · simp [ha]
  · simp [ha]

theorem weigh_true (l : List α) : weigh w (fun _ ↦ true) l = (l.map w).sum := by
  simp [weigh]

theorem weigh_perm {l l' : List α} (h : l.Perm l') : weigh w p l = weigh w p l' :=
  ((h.filter p).map w).sum_eq

end Weigh

theorem countP_range_const (p : Bool) (n : ℕ) :
    (List.range n).countP (fun _ ↦ p) = if p then n else 0 := by
  cases p <;> simp

/-- Of the numbers below the total weight, an element is picked by as many as it weighs. -/
theorem countP_pick (w : α → ℕ) (p : α → Bool) (l : List α) :
    (List.range (l.map w).sum).countP (fun n ↦ (pick w l n).any p) = weigh w p l := by
  induction l with
  | nil => rfl
  | cons a l ih =>
    have hhead : (List.range (w a)).countP (fun n ↦ (pick w (a :: l) n).any p) =
        (List.range (w a)).countP (fun _ ↦ p a) := by
      refine List.countP_congr fun n hn ↦ ?_
      rw [pick, if_pos (List.mem_range.mp hn)]
      rfl
    have htail : ∀ n, pick w (a :: l) (w a + n) = pick w l n := by
      intro n
      rw [pick, if_neg (by omega), Nat.add_sub_cancel_left]
    rw [List.map_cons, List.sum_cons, List.range_add, List.countP_append, hhead,
      countP_range_const, List.countP_map, weigh_cons]
    congr 1
    rw [← ih]
    refine List.countP_congr fun n _ ↦ ?_
    rw [Function.comp_apply, htail]

theorem pick_zero {w : α → ℕ} {a : α} {l : List α} (h : 0 < w a) : pick w (a :: l) 0 = some a := by
  rw [pick, if_pos h]

/-- The last number below the total weight picks the last element. -/
theorem pick_last {w : α → ℕ} {l : List α} {a : α} (hl : l.getLast? = some a) (h : 0 < w a) :
    pick w l ((l.map w).sum - 1) = some a := by
  induction l with
  | nil => cases hl
  | cons b l ih =>
    cases l with
    | nil =>
      rw [List.getLast?_singleton, Option.some.injEq] at hl
      subst hl
      have hlt : w b - 1 < w b := by omega
      simp [pick, hlt]
    | cons c l =>
      rw [List.getLast?_cons_cons] at hl
      have hle : w a ≤ ((c :: l).map w).sum :=
        List.single_le_sum (by simp) _ (List.mem_map_of_mem (List.mem_of_getLast? hl))
      have hbound : ¬ ((b :: c :: l).map w).sum - 1 < w b := by
        rw [List.map_cons, List.sum_cons]
        omega
      have hrest : ((b :: c :: l).map w).sum - 1 - w b = ((c :: l).map w).sum - 1 := by
        rw [List.map_cons, List.sum_cons]
        omega
      rw [pick, if_neg hbound, hrest]
      exact ih hl

theorem pick_mem {w : α → ℕ} {l : List α} {n : ℕ} {a : α} (h : pick w l n = some a) :
    a ∈ l := by
  induction l generalizing n with
  | nil => cases h
  | cons b l ih =>
    rw [pick] at h
    by_cases hn : n < w b
    · rw [if_pos hn] at h
      cases h
      exact List.mem_cons_self
    · rw [if_neg hn] at h
      exact List.mem_cons_of_mem b (ih h)

theorem pick_isSome {w : α → ℕ} {l : List α} {n : ℕ} (h : n < (l.map w).sum) :
    (pick w l n).isSome := by
  induction l generalizing n with
  | nil => cases h
  | cons a l ih =>
    rw [List.map_cons, List.sum_cons] at h
    rw [pick]
    by_cases hn : n < w a
    · rw [if_pos hn]
      rfl
    · rw [if_neg hn]
      exact ih (by omega)

/-- A walk that goes on until nothing is left over sees each number one too low: one
draw more for the first element, one less for the last. -/
theorem countP_pick_pred (w : α → ℕ) (p : α → Bool) {l : List α} {a b : α}
    (ha : l.head? = some a) (hb : l.getLast? = some b) (hwa : 0 < w a) (hwb : 0 < w b) :
    (List.range (l.map w).sum).countP (fun n ↦ (pick w l (n - 1)).any p) + (if p b then 1 else 0) =
      weigh w p l + if p a then 1 else 0 := by
  have hle : w a ≤ (l.map w).sum :=
    List.single_le_sum (by simp) _ (List.mem_map_of_mem (List.mem_of_head? ha))
  obtain ⟨s, hs⟩ : ∃ s, (l.map w).sum = s + 1 := ⟨(l.map w).sum - 1, by omega⟩
  have hfirst : pick w l 0 = some a := by
    cases l with
    | nil => cases ha
    | cons c l =>
      cases ha
      exact pick_zero hwa
  have hlast : pick w l s = some b := by
    have h := pick_last hb hwb
    rwa [hs, Nat.add_sub_cancel] at h
  have hshift : (List.range (s + 1)).countP (fun n ↦ (pick w l (n - 1)).any p) =
      (List.range s).countP (fun n ↦ (pick w l n).any p) + if p a then 1 else 0 := by
    rw [List.range_succ_eq_map, List.countP_cons, List.countP_map, hfirst]
    rfl
  have hwhole : weigh w p l =
      (List.range s).countP (fun n ↦ (pick w l n).any p) + if p b then 1 else 0 := by
    rw [← countP_pick, hs, List.range_succ, List.countP_append, List.countP_singleton, hlast]
    rfl
  rw [hs, hshift, hwhole]
  omega

end Lottery

end AllAiTools.Foundation
