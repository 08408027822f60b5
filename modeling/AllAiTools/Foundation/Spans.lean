import Mathlib

namespace AllAiTools.Foundation

/-- The integers from `start` to `stop`. -/
structure Span where
  start : ℤ
  stop : ℤ
  deriving DecidableEq

namespace Span

def Covers (l : List Span) (x : ℤ) : Prop := ∃ r ∈ l, r.start ≤ x ∧ x ≤ r.stop

/-- In order, with a gap between each interval and the next. -/
structure Separated (l : List Span) : Prop where
  nonempty : ∀ r ∈ l, r.start ≤ r.stop
  gaps : l.Pairwise fun a b ↦ a.stop + 1 < b.start

/-- Spans in the order of their starts, the first of which is still open to be joined with the
next ones. -/
def mergeInto : Span → List Span → List Span
  | last, [] => [last]
  | last, r :: rest =>
    if r.start ≤ last.stop + 1 then
      mergeInto (if r.stop > last.stop then { last with stop := r.stop } else last) rest
    else last :: mergeInto r rest

def merge : List Span → List Span
  | [] => []
  | first :: rest => mergeInto first rest

/-- The search in a list that is in order. -/
def search (x : ℤ) : List Span → Bool
  | [] => false
  | r :: rest => if x < r.start then false else if x ≤ r.stop then true else search x rest

section Covers

theorem covers_cons (r : Span) (l : List Span) (x : ℤ) :
    Covers (r :: l) x ↔ (r.start ≤ x ∧ x ≤ r.stop) ∨ Covers l x := by
  unfold Covers
  simp only [List.mem_cons, exists_eq_or_imp]

theorem not_covers_nil (x : ℤ) : ¬ Covers [] x := by
  rintro ⟨r, hr, -⟩
  cases hr

theorem covers_perm {l l' : List Span} (h : l.Perm l') (x : ℤ) : Covers l x ↔ Covers l' x := by
  unfold Covers
  simp only [h.mem_iff]

end Covers

section Merge

/-- In the order of their starts, none of them empty. -/
structure Starting (l : List Span) : Prop where
  nonempty : ∀ r ∈ l, r.start ≤ r.stop
  sorted : l.Pairwise fun a b ↦ a.start ≤ b.start

theorem Starting.tail {r : Span} {l : List Span} (h : Starting (r :: l)) : Starting l :=
  ⟨fun s hs ↦ h.nonempty s (List.mem_cons_of_mem r hs), (List.pairwise_cons.mp h.sorted).2⟩

/-- What the open interval becomes when the next one touches it. -/
def extend (last r : Span) : Span := if r.stop > last.stop then { last with stop := r.stop } else last

theorem extend_start (last r : Span) : (extend last r).start = last.start := by
  unfold extend
  split_ifs <;> rfl

theorem extend_stop (last r : Span) : (extend last r).stop = max last.stop r.stop := by
  unfold extend
  split_ifs with h
  · exact (max_eq_right (le_of_lt h)).symm
  · exact (max_eq_left (not_lt.mp h)).symm

theorem mergeInto_cons (last r : Span) (rest : List Span) :
    mergeInto last (r :: rest) =
      if r.start ≤ last.stop + 1 then mergeInto (extend last r) rest else last :: mergeInto r rest :=
  rfl

theorem starting_extend {last r : Span} {rest : List Span} (h : Starting (last :: r :: rest)) :
    Starting (extend last r :: rest) := by
  obtain ⟨hlast, hsorted⟩ := List.pairwise_cons.mp h.sorted
  constructor
  · refine List.forall_mem_cons.mpr ⟨?_, h.tail.tail.nonempty⟩
    rw [extend_start, extend_stop]
    exact (h.nonempty last List.mem_cons_self).trans (le_max_left _ _)
  · apply List.pairwise_cons.mpr
    refine ⟨?_, h.tail.tail.sorted⟩
    intro s hs
    rw [extend_start]
    exact hlast s (List.mem_cons_of_mem r hs)

theorem covers_mergeInto {last : Span} {rest : List Span} (h : Starting (last :: rest)) (x : ℤ) :
    Covers (mergeInto last rest) x ↔ Covers (last :: rest) x := by
  induction rest generalizing last with
  | nil => exact Iff.rfl
  | cons r rest ih =>
    rw [mergeInto_cons]
    split_ifs with htouch
    · have hle := (List.pairwise_cons.mp h.sorted).1 r List.mem_cons_self
      have hlast := h.nonempty last List.mem_cons_self
      have hr := h.nonempty r (List.mem_cons_of_mem last List.mem_cons_self)
      rw [ih (starting_extend h), covers_cons, covers_cons, covers_cons, extend_start, extend_stop,
        ← or_assoc]
      apply or_congr_left
      omega
    · rw [covers_cons, ih h.tail, covers_cons last]

theorem mergeInto_ge {last : Span} {rest : List Span} (h : Starting (last :: rest)) :
    ∀ s ∈ mergeInto last rest, last.start ≤ s.start := by
  induction rest generalizing last with
  | nil =>
    intro s hs
    rw [List.mem_singleton.mp hs]
  | cons r rest ih =>
    have hle := (List.pairwise_cons.mp h.sorted).1 r List.mem_cons_self
    intro s hs
    rw [mergeInto_cons] at hs
    split_ifs at hs
    · have hextend := ih (starting_extend h) s hs
      rwa [extend_start] at hextend
    · rcases List.mem_cons.mp hs with rfl | hs
      · exact le_rfl
      · exact hle.trans (ih h.tail s hs)

theorem separated_mergeInto {last : Span} {rest : List Span} (h : Starting (last :: rest)) :
    Separated (mergeInto last rest) := by
  induction rest generalizing last with
  | nil => exact ⟨h.nonempty, List.pairwise_singleton _ _⟩
  | cons r rest ih =>
    rw [mergeInto_cons]
    split_ifs with htouch
    · exact ih (starting_extend h)
    · have hrest := ih h.tail
      constructor
      · exact List.forall_mem_cons.mpr ⟨h.nonempty last List.mem_cons_self, hrest.nonempty⟩
      · refine List.pairwise_cons.mpr ⟨?_, hrest.gaps⟩
        intro s hs
        have hge := mergeInto_ge h.tail s hs
        omega

theorem mergeInto_of_separated {last : Span} {rest : List Span} (h : Separated (last :: rest)) :
    mergeInto last rest = last :: rest := by
  induction rest generalizing last with
  | nil => rfl
  | cons r rest ih =>
    obtain ⟨hgap, hgaps⟩ := List.pairwise_cons.mp h.gaps
    have hnot : ¬ r.start ≤ last.stop + 1 := by
      have hr := hgap r List.mem_cons_self
      omega
    rw [mergeInto_cons, if_neg hnot, ih ⟨fun s hs ↦ h.nonempty s (List.mem_cons_of_mem last hs), hgaps⟩]

theorem covers_merge {l : List Span} (h : Starting l) (x : ℤ) : Covers (merge l) x ↔ Covers l x := by
  cases l with
  | nil => exact Iff.rfl
  | cons first rest => exact covers_mergeInto h x

theorem separated_merge {l : List Span} (h : Starting l) : Separated (merge l) := by
  cases l with
  | nil => exact ⟨fun _ hr ↦ absurd hr List.not_mem_nil, .nil⟩
  | cons first rest => exact separated_mergeInto h

theorem merge_of_separated {l : List Span} (h : Separated l) : merge l = l := by
  cases l with
  | nil => rfl
  | cons first rest => exact mergeInto_of_separated h

end Merge

theorem search_iff {l : List Span} (h : Separated l) (x : ℤ) : search x l = true ↔ Covers l x := by
  induction l with
  | nil => exact iff_of_false Bool.false_ne_true (not_covers_nil x)
  | cons r rest ih =>
    obtain ⟨hgap, hgaps⟩ := List.pairwise_cons.mp h.gaps
    have hr := h.nonempty r List.mem_cons_self
    rw [search, covers_cons]
    split_ifs with hbelow hin
    · refine iff_of_false id ?_
      rintro (hr' | ⟨s, hs, hstart, -⟩)
      · omega
      · have hs' := hgap s hs
        omega
    · exact iff_of_true rfl (.inl ⟨not_lt.mp hbelow, hin⟩)
    · rw [ih ⟨fun s hs ↦ h.nonempty s (List.mem_cons_of_mem r hs), hgaps⟩]
      constructor
      · exact .inr
      · rintro (hr' | hrest)
        · omega
        · exact hrest

end Span

end AllAiTools.Foundation
