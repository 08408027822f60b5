import Mathlib

namespace AllAiTools.Foundation.Budget

/-- A loop whose turns end it or lead to a next state, may cost something, and start from something
of a size. -/
structure Loop (σ ι : Type) where
  turn : σ → ι → Option σ
  cost : σ → ι → ℕ
  size : σ → ℕ

namespace Loop

variable {σ ι : Type} (loop : Loop σ ι)

/-- The turns that are taken. -/
def taken : σ → List ι → ℕ
  | _, [] => 0
  | s, i :: turns =>
    match loop.turn s i with
    | some next => taken next turns + 1
    | none => 1

/-- What the turns that are taken cost. -/
def spent : σ → List ι → ℕ
  | _, [] => 0
  | s, i :: turns =>
    loop.cost s i +
      match loop.turn s i with
      | some next => spent next turns
      | none => 0

/-- A turn ends the loop. -/
def Ended : σ → List ι → Prop
  | _, [] => False
  | s, i :: turns =>
    match loop.turn s i with
    | some next => Ended next turns
    | none => True

/-- Every turn that is taken meets a condition. -/
def Along (ok : σ → ι → Prop) : σ → List ι → Prop
  | _, [] => True
  | s, i :: turns =>
    ok s i ∧
      match loop.turn s i with
      | some next => Along ok next turns
      | none => True

/-- On a set of runs the turns are bounded by the size of what they start from, and then the loop
has ended. -/
def Bounded (runs : Set (σ × List ι)) : Prop :=
  ∃ bound : ℕ → ℕ, ∀ run ∈ runs, loop.taken run.1 run.2 ≤ bound (loop.size run.1) ∧
    (bound (loop.size run.1) < run.2.length → loop.Ended run.1 run.2)

/-- What is spent is bounded by the size of what the runs start from. -/
def Cheap (runs : Set (σ × List ι)) : Prop :=
  ∃ bound : ℕ → ℕ, ∀ run ∈ runs, loop.spent run.1 run.2 ≤ bound (loop.size run.1)

variable {loop}

theorem ended_of_taken_lt {s : σ} {turns : List ι} (h : loop.taken s turns < turns.length) :
    loop.Ended s turns := by
  induction turns generalizing s with
  | nil => exact absurd h (Nat.lt_irrefl 0)
  | cons i turns ih =>
    rw [taken, List.length_cons] at h
    rw [Ended]
    split
    · rename_i next hnext
      rw [hnext] at h
      exact ih (Nat.lt_of_succ_lt_succ h)
    · trivial

theorem along_of_forall {ok : σ → ι → Prop} (h : ∀ s i, ok s i) (s : σ) (turns : List ι) :
    loop.Along ok s turns := by
  induction turns generalizing s with
  | nil => trivial
  | cons i turns ih =>
    refine ⟨h s i, ?_⟩
    split
    · exact ih _
    · trivial

/-- What falls with every turn, but for what the turn costs, bounds their number. -/
theorem taken_le {ok : σ → ι → Prop} {Inv : σ → Prop} {measure : σ → ℕ} {price : ℕ}
    (hturn : ∀ s i next, Inv s → ok s i → loop.turn s i = some next →
      Inv next ∧ measure next + 1 ≤ measure s + price * loop.cost s i)
    {s : σ} (hs : Inv s) {turns : List ι} (halong : loop.Along ok s turns) :
    loop.taken s turns ≤ measure s + price * loop.spent s turns + 1 := by
  induction turns generalizing s with
  | nil => exact Nat.zero_le _
  | cons i turns ih =>
    obtain ⟨hok, hrest⟩ := halong
    rw [taken, spent]
    split
    · rename_i next hnext
      rw [hnext] at hrest
      obtain ⟨hinv, hmeasure⟩ := hturn s i next hs hok hnext
      have htaken := ih hinv hrest
      rw [Nat.mul_add]
      omega
    · omega

theorem spent_le {price : ℕ} (hcost : ∀ s i, loop.cost s i ≤ price) (s : σ) (turns : List ι) :
    loop.spent s turns ≤ price * loop.taken s turns := by
  induction turns generalizing s with
  | nil => exact Nat.zero_le _
  | cons i turns ih =>
    rw [taken, spent]
    have hle := hcost s i
    split
    · rename_i next hnext
      have hrest := ih next
      rw [Nat.mul_succ]
      omega
    · simp only [Nat.add_zero, Nat.mul_one]
      exact hle

/-- Where what is spent bounds the turns, and every turn spends little, the turns are bounded exactly
when what is spent is. -/
theorem bounded_iff_cheap {runs : Set (σ × List ι)} {price : ℕ} {bound : ℕ → ℕ → ℕ}
    (htaken : ∀ run ∈ runs, loop.taken run.1 run.2 ≤ bound (loop.size run.1) (loop.spent run.1 run.2))
    (hmono : ∀ n, Monotone (bound n)) (hcost : ∀ s i, loop.cost s i ≤ price) :
    loop.Bounded runs ↔ loop.Cheap runs := by
  constructor
  · intro h
    obtain ⟨turns, hturns⟩ := h
    refine ⟨fun n ↦ price * turns n, fun run hrun ↦ ?_⟩
    exact (spent_le hcost run.1 run.2).trans (Nat.mul_le_mul_left price (hturns run hrun).1)
  · intro h
    obtain ⟨budget, hbudget⟩ := h
    refine ⟨fun n ↦ bound n (budget n), fun run hrun ↦ ?_⟩
    have hle := (htaken run hrun).trans (hmono _ (hbudget run hrun))
    exact ⟨hle, fun hlt ↦ ended_of_taken_lt (hle.trans_lt hlt)⟩

end Loop

end AllAiTools.Foundation.Budget
