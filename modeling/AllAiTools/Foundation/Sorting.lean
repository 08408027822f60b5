import Mathlib

namespace AllAiTools.Foundation

/-- A sort by descending rank that puts ties in any order. -/
structure Sorting (α : Type) where
  sort : (α → ℤ) → List α → List α
  perm : ∀ rank l, (sort rank l).Perm l
  sorted : ∀ rank l, (sort rank l).Pairwise fun a b ↦ rank b ≤ rank a

namespace Sorting

variable {α : Type} (order : Sorting α)

/-- Ties stay as they are. -/
def stable : Sorting α where
  sort rank l := l.insertionSort fun a b ↦ rank b ≤ rank a
  perm rank l := List.perm_insertionSort _ l
  sorted rank l := by
    have ht : IsTrans α fun a b ↦ rank b ≤ rank a := ⟨fun _ _ _ h h' ↦ h'.trans h⟩
    have hd : Std.Total fun a b : α ↦ rank b ≤ rank a := ⟨fun a b ↦ le_total (rank b) (rank a)⟩
    exact List.pairwise_insertionSort _ l

@[simp] theorem mem_sort {rank : α → ℤ} {l : List α} {a : α} : a ∈ order.sort rank l ↔ a ∈ l :=
  (order.perm rank l).mem_iff

@[simp] theorem sort_eq_nil {rank : α → ℤ} {l : List α} : order.sort rank l = [] ↔ l = [] := by
  rw [← List.length_eq_zero_iff, (order.perm rank l).length_eq, List.length_eq_zero_iff]

section Filter

variable {r : α → α → Prop} [DecidableRel r]

theorem orderedInsert_of_le {a : α} {l : List α} (h : ∀ b ∈ l, r a b) :
    l.orderedInsert r a = a :: l := by
  cases l with
  | nil => rfl
  | cons b l => exact List.orderedInsert_cons_of_le r l (h b List.mem_cons_self)

theorem filter_orderedInsert [IsTrans α r] (p : α → Bool) (a : α) {l : List α}
    (hl : l.Pairwise r) :
    (l.orderedInsert r a).filter p =
      if p a then (l.filter p).orderedInsert r a else l.filter p := by
  induction l with
  | nil => cases h : p a <;> simp [h]
  | cons b l ih =>
    obtain ⟨hb, hl⟩ := List.pairwise_cons.mp hl
    by_cases hab : r a b
    · have hle : ∀ c ∈ (b :: l).filter p, r a c := by
        intro c hc
        rcases List.mem_cons.mp (List.mem_of_mem_filter hc) with rfl | hrest
        · exact hab
        · exact IsTrans.trans a b c hab (hb c hrest)
      rw [List.orderedInsert_cons_of_le r l hab, orderedInsert_of_le hle, List.filter_cons]
    · rw [List.orderedInsert_of_not_le r l hab, List.filter_cons, ih hl, List.filter_cons]
      cases p a <;> cases p b <;> simp [hab]

/-- What is left out of a list leaves the order of the others as it is. -/
theorem insertionSort_filter [IsTrans α r] [Std.Total r] (p : α → Bool) (l : List α) :
    (l.filter p).insertionSort r = (l.insertionSort r).filter p := by
  induction l with
  | nil => rfl
  | cons a l ih =>
    rw [List.insertionSort_cons, filter_orderedInsert p a (List.pairwise_insertionSort r l),
      List.filter_cons, ← ih]
    split
    · rw [List.insertionSort_cons]
    · rfl

end Filter

end Sorting

/-- The order in which a loop over a hash map meets its keys: any, and another one
for every map. -/
structure MapOrder (κ : Type) where
  visit : List κ → List κ
  perm : ∀ keys, (visit keys).Perm keys

namespace MapOrder

variable {κ : Type} (order : MapOrder κ)

def asListed : MapOrder κ := ⟨id, fun keys ↦ .refl keys⟩

/-- The order that meets the keys of one map as they are listed here. -/
def listing [DecidableEq κ] {keys listed : List κ} (h : listed.Perm keys) : MapOrder κ where
  visit l := if l = keys then listed else l
  perm l := by
    by_cases hl : l = keys
    · rw [if_pos hl, hl]
      exact h
    · rw [if_neg hl]

@[simp] theorem listing_visit [DecidableEq κ] {keys listed : List κ} (h : listed.Perm keys) :
    (listing h).visit keys = listed :=
  if_pos rfl

@[simp] theorem mem_visit {keys : List κ} {k : κ} : k ∈ order.visit keys ↔ k ∈ keys :=
  (order.perm keys).mem_iff

theorem nodup_visit {keys : List κ} (h : keys.Nodup) : (order.visit keys).Nodup :=
  (order.perm keys).nodup_iff.mpr h

end MapOrder

end AllAiTools.Foundation
