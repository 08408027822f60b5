import Mathlib

namespace AllAiTools.Foundation.Run

variable {σ ι : Type}

/-- The state a list of labelled steps leads to. -/
def run (step : σ → ι → σ) (s : σ) (trace : List ι) : σ := trace.foldl step s

/-- Every step of a run meets a condition on its label and on the state it
starts from. -/
def Along (step : σ → ι → σ) (ok : σ → ι → Prop) : σ → List ι → Prop
  | _, [] => True
  | s, i :: trace => ok s i ∧ Along step ok (step s i) trace

variable {step : σ → ι → σ} {ok : σ → ι → Prop}

@[simp] theorem run_nil (s : σ) : run step s [] = s := rfl

@[simp] theorem run_cons (s : σ) (i : ι) (trace : List ι) :
    run step s (i :: trace) = run step (step s i) trace := rfl

theorem run_append (s : σ) (first rest : List ι) :
    run step s (first ++ rest) = run step (run step s first) rest :=
  List.foldl_append

@[simp] theorem along_nil (s : σ) : Along step ok s [] := trivial

@[simp] theorem along_cons (s : σ) (i : ι) (trace : List ι) :
    Along step ok s (i :: trace) ↔ ok s i ∧ Along step ok (step s i) trace := Iff.rfl

theorem along_append (s : σ) (first rest : List ι) :
    Along step ok s (first ++ rest) ↔
      Along step ok s first ∧ Along step ok (run step s first) rest := by
  induction first generalizing s with
  | nil => simp
  | cons i first ih => simp only [List.cons_append, along_cons, run_cons, ih, and_assoc]

theorem Along.mono {ok' : σ → ι → Prop} (h : ∀ s i, ok s i → ok' s i) {s : σ}
    {trace : List ι} (ht : Along step ok s trace) : Along step ok' s trace := by
  induction trace generalizing s with
  | nil => trivial
  | cons i trace ih => exact ⟨h s i ht.1, ih ht.2⟩

/-- The condition holds along a run exactly when it holds at each of its steps. -/
theorem along_iff (s : σ) (trace : List ι) :
    Along step ok s trace ↔
      ∀ first i rest, trace = first ++ i :: rest → ok (run step s first) i := by
  constructor
  · rintro h first i rest rfl
    exact ((along_append s first (i :: rest)).mp h).2.1
  · intro h
    induction trace generalizing s with
    | nil => trivial
    | cons i trace ih =>
      refine ⟨h [] i trace rfl, ih (step s i) fun first j rest he ↦ ?_⟩
      exact h (i :: first) j rest (by rw [he, List.cons_append])

theorem along_of_forall {p : ι → Prop} {trace : List ι} (h : ∀ i ∈ trace, p i) (s : σ) :
    Along step (fun _ i ↦ p i) s trace := by
  induction trace generalizing s with
  | nil => trivial
  | cons i trace ih =>
    exact ⟨h i List.mem_cons_self, ih (fun j hj ↦ h j (List.mem_cons_of_mem i hj)) (step s i)⟩

/-- An invariant that every step meeting the condition preserves holds in every
state of a run whose steps all meet it. -/
theorem Along.invariant (Inv : σ → Prop)
    (hstep : ∀ s i, Inv s → ok s i → Inv (step s i)) {s : σ} (hs : Inv s)
    {trace : List ι} (ht : Along step ok s trace) : Inv (run step s trace) := by
  induction trace generalizing s with
  | nil => exact hs
  | cons i trace ih => exact ih (hstep s i hs ht.1) ht.2

/-- Where the steps that count lower a measure and no step raises it, a run has no more of them than the
measure it starts with. -/
theorem Along.measured (Inv : σ → Prop) (measure : σ → ℕ) (counts : ι → Bool)
    (hstep : ∀ s i, Inv s → ok s i → Inv (step s i) ∧ measure (step s i) + (counts i).toNat ≤ measure s)
    {s : σ} (hs : Inv s) {trace : List ι} (ht : Along step ok s trace) :
    Inv (run step s trace) ∧ measure (run step s trace) + trace.countP counts ≤ measure s := by
  induction trace generalizing s with
  | nil => exact ⟨hs, Nat.le_refl _⟩
  | cons i trace ih =>
    obtain ⟨hinv, hless⟩ := hstep s i hs ht.1
    obtain ⟨hrun, hcount⟩ := ih hinv ht.2
    refine ⟨hrun, ?_⟩
    rw [run_cons, List.countP_cons]
    cases hi : counts i with
    | true =>
      rw [hi, Bool.toNat_true] at hless
      rw [if_pos rfl]
      omega
    | false =>
      rw [if_neg Bool.false_ne_true]
      omega

theorem invariant {Inv : σ → Prop} (hstep : ∀ s i, Inv s → Inv (step s i)) {s : σ}
    (hs : Inv s) (trace : List ι) : Inv (run step s trace) := by
  induction trace generalizing s with
  | nil => exact hs
  | cons i trace ih => exact ih (hstep s i hs)

/-- Where two conditions agree as long as an invariant holds, which they both keep, runs meet
them alike. -/
theorem along_congr {ok' : σ → ι → Prop} (Inv : σ → Prop)
    (hiff : ∀ s i, Inv s → (ok s i ↔ ok' s i))
    (hstep : ∀ s i, Inv s → ok' s i → Inv (step s i)) {s : σ} (hs : Inv s) (trace : List ι) :
    Along step ok s trace ↔ Along step ok' s trace := by
  induction trace generalizing s with
  | nil => exact Iff.rfl
  | cons i trace ih =>
    simp only [along_cons, hiff s i hs]
    exact and_congr_right fun hok ↦ ih (hstep s i hs hok)

/-- A property that a step keeps exactly when it meets the condition holds at every
point of a run exactly when every step meets it. -/
theorem throughout_iff (Inv : σ → Prop) (hstep : ∀ s i, Inv s → (Inv (step s i) ↔ ok s i))
    {s : σ} (hs : Inv s) (trace : List ι) :
    (∀ first rest, trace = first ++ rest → Inv (run step s first)) ↔ Along step ok s trace := by
  constructor
  · intro hall
    rw [along_iff]
    rintro first i rest rfl
    have hbefore := hall first (i :: rest) rfl
    have hafter := hall (first ++ [i]) rest (by simp)
    rw [run_append] at hafter
    exact (hstep _ i hbefore).mp hafter
  · rintro halong first rest rfl
    have hfirst := ((along_append s first rest).mp halong).1
    exact hfirst.invariant Inv (fun s i hi hok ↦ (hstep s i hi).mpr hok) hs

/-- Two systems go through labels in the order of their times, in states that stay related as time
goes on; their conditions are met alike. -/
theorem along_ordered {τ T : Type} [Preorder T] {step' : τ → ι → τ} {ok' : τ → ι → Prop} (time : ι → T)
    (R : T → σ → τ → Prop) (hlater : ∀ {now now' s t}, now ≤ now' → R now s t → R now' s t)
    (hiff : ∀ {s t} i, R (time i) s t → (ok s i ↔ ok' t i))
    (hstep : ∀ {s t} i, R (time i) s t → R (time i) (step s i) (step' t i)) {s : σ} {t : τ}
    {trace : List ι} (hs : ∀ i ∈ trace, R (time i) s t)
    (hordered : trace.Pairwise fun i j ↦ time i ≤ time j) :
    Along step ok s trace ↔ Along step' ok' t trace := by
  induction trace generalizing s t with
  | nil => exact Iff.rfl
  | cons i trace ih =>
    obtain ⟨hle, hordered⟩ := List.pairwise_cons.mp hordered
    have hi := hs i List.mem_cons_self
    have hrest : ∀ j ∈ trace, R (time j) (step s i) (step' t i) := fun j hj ↦
      hlater (hle j hj) (hstep i hi)
    rw [along_cons, along_cons, hiff i hi, ih hrest hordered]

end AllAiTools.Foundation.Run
