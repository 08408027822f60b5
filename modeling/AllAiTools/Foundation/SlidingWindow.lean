import Mathlib

namespace AllAiTools.Foundation.SlidingWindow

/-- The times that are less than `duration` before `now`. -/
def inWindow (duration now : ℤ) (past : List ℤ) : List ℤ := past.filter fun t ↦ now - t < duration

/-- `kept` are the last of the times in `past`, at most `limit` of them and all that can still be in
a window. -/
structure Kept (limit : ℕ) (duration now : ℤ) (past kept : List ℤ) : Prop where
  sorted : past.Pairwise (· ≤ ·)
  bounded : ∀ t ∈ past, t ≤ now
  length_le : kept.length ≤ limit
  split : ∃ gone, past = gone ++ kept ∧ ∀ t ∈ gone, duration ≤ now - t

namespace Kept

variable {limit : ℕ} {duration now : ℤ} {past kept : List ℤ}

theorem empty (limit : ℕ) (duration now : ℤ) : Kept limit duration now [] [] where
  sorted := .nil
  bounded _ ht := absurd ht List.not_mem_nil
  length_le := Nat.zero_le limit
  split := ⟨[], rfl, fun _ ht ↦ absurd ht List.not_mem_nil⟩

theorem later {now' : ℤ} (h : Kept limit duration now past kept) (hnow : now ≤ now') :
    Kept limit duration now' past kept := by
  obtain ⟨gone, hpast, hgone⟩ := h.split
  refine ⟨h.sorted, fun t ht ↦ (h.bounded t ht).trans hnow, h.length_le, gone, hpast, ?_⟩
  intro t ht
  have hold := hgone t ht
  omega

theorem sorted_append (h : Kept limit duration now past kept) :
    (past ++ [now]).Pairwise (· ≤ ·) := by
  refine List.pairwise_append.mpr ⟨h.sorted, List.pairwise_singleton _ _, ?_⟩
  intro t ht u hu
  rw [List.mem_singleton.mp hu]
  exact h.bounded t ht

theorem bounded_append (h : Kept limit duration now past kept) : ∀ t ∈ past ++ [now], t ≤ now := by
  intro t ht
  rcases List.mem_append.mp ht with ht | ht
  · exact h.bounded t ht
  · exact (List.mem_singleton.mp ht).le

theorem push (h : Kept limit duration now past kept) (hroom : kept.length < limit) :
    Kept limit duration now (past ++ [now]) (kept ++ [now]) := by
  obtain ⟨gone, hpast, hgone⟩ := h.split
  refine ⟨h.sorted_append, h.bounded_append, ?_, gone, ?_, hgone⟩
  · rw [List.length_append, List.length_singleton]
    exact hroom
  · rw [hpast, List.append_assoc]

/-- The oldest time makes room once it has left the window. -/
theorem shift {first : ℤ} {rest : List ℤ} (h : Kept limit duration now past (first :: rest))
    (hfirst : duration ≤ now - first) :
    Kept limit duration now (past ++ [now]) (rest ++ [now]) := by
  obtain ⟨gone, hpast, hgone⟩ := h.split
  refine ⟨h.sorted_append, h.bounded_append, ?_, gone ++ [first], ?_, ?_⟩
  · rw [List.length_append, List.length_singleton]
    exact h.length_le
  · rw [hpast]
    simp
  · exact List.forall_mem_append.mpr ⟨hgone, List.forall_mem_singleton.mpr hfirst⟩

theorem inWindow_eq (h : Kept limit duration now past kept) :
    inWindow duration now past = inWindow duration now kept := by
  obtain ⟨gone, hpast, hgone⟩ := h.split
  have hnone : gone.filter (fun t ↦ decide (now - t < duration)) = [] :=
    List.filter_eq_nil_iff.mpr fun t ht ↦ by
      have hold := hgone t ht
      simpa using hold
  rw [inWindow, hpast, List.filter_append, hnone]
  rfl

theorem count_le (h : Kept limit duration now past kept) :
    (inWindow duration now past).length ≤ limit := by
  rw [h.inWindow_eq]
  exact (List.length_filter_le _ kept).trans h.length_le

/-- A window is full when the times kept are as many as it takes and the oldest is in it. -/
theorem full_iff {first : ℤ} {rest : List ℤ} (h : Kept limit duration now past (first :: rest)) :
    limit ≤ (inWindow duration now past).length ↔
      limit ≤ (first :: rest).length ∧ now - first < duration := by
  obtain ⟨gone, hpast, _⟩ := h.split
  have hsorted := h.sorted
  rw [hpast] at hsorted
  have hfirst := (List.pairwise_cons.mp (List.pairwise_append.mp hsorted).2.1).1
  have hlength := List.length_filter_le (fun t ↦ decide (now - t < duration)) (first :: rest)
  rw [h.inWindow_eq, inWindow]
  constructor
  · intro hfull
    have heq := hlength.antisymm (h.length_le.trans hfull)
    have hall := List.length_filter_eq_length_iff.mp heq first List.mem_cons_self
    exact ⟨hfull.trans hlength, of_decide_eq_true hall⟩
  · rintro ⟨hlimit, hin⟩
    have hall : ∀ t ∈ first :: rest, decide (now - t < duration) = true := by
      intro t ht
      refine decide_eq_true ?_
      rcases List.mem_cons.mp ht with rfl | ht
      · exact hin
      · have hle := hfirst t ht
        omega
    rw [List.filter_eq_self.mpr hall]
    exact hlimit

/-- Nothing needs to be kept once all of it has left the window. -/
theorem clear (h : Kept limit duration now past kept) (hold : ∀ t ∈ kept, duration ≤ now - t) :
    Kept limit duration now past [] := by
  obtain ⟨gone, hpast, hgone⟩ := h.split
  refine ⟨h.sorted, h.bounded, Nat.zero_le limit, past, (List.append_nil past).symm, ?_⟩
  rw [hpast]
  exact List.forall_mem_append.mpr ⟨hgone, hold⟩

end Kept

/-- The times in a window that opens at `start`. -/
def within (duration start : ℤ) (past : List ℤ) : List ℤ :=
  past.filter fun t ↦ start ≤ t ∧ t < start + duration

/-- No window has more than `limit` times in it. -/
def Sparse (limit : ℕ) (duration : ℤ) (past : List ℤ) : Prop :=
  ∀ start, (within duration start past).length ≤ limit

section Sparse

variable {limit : ℕ} {duration now : ℤ} {past kept : List ℤ}

theorem sparse_nil (limit : ℕ) (duration : ℤ) : Sparse limit duration [] := fun _ ↦ Nat.zero_le limit

theorem sparse_of_nonpos (limit : ℕ) (hduration : duration ≤ 0) (past : List ℤ) :
    Sparse limit duration past := by
  intro start
  have hnone : within duration start past = [] := by
    apply List.filter_eq_nil_iff.mpr
    intro t _ ht
    have hin := of_decide_eq_true ht
    omega
  rw [hnone]
  exact Nat.zero_le limit

/-- A window that the newest time falls into lies within the one that ends with it. -/
theorem Sparse.append (h : Sparse limit duration past)
    (hkept : Kept limit duration now (past ++ [now]) kept) : Sparse limit duration (past ++ [now]) := by
  intro start
  by_cases hin : start ≤ now ∧ now < start + duration
  · have hle : (within duration start (past ++ [now])).length ≤
        (inWindow duration now (past ++ [now])).length := by
      apply List.Sublist.length_le
      apply List.monotone_filter_right
      intro t ht
      have hwithin := of_decide_eq_true ht
      apply decide_eq_true
      omega
    exact hle.trans hkept.count_le
  · have hsame : within duration start (past ++ [now]) = within duration start past := by
      unfold within
      rw [List.filter_append, List.filter_cons_of_neg (by simpa using hin)]
      simp
    rw [hsame]
    exact h start

end Sparse

end AllAiTools.Foundation.SlidingWindow
