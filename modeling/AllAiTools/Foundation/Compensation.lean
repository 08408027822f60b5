import Mathlib

namespace AllAiTools.Foundation.Compensation

variable {ρ ι : Type}

/-- Which rows have failed, and which failed rows owe a compensation. -/
structure Terms (ρ : Type) where
  Failed : ρ → Prop
  Owes : ρ → Prop
  failed_of_owes : ∀ {r}, Owes r → Failed r

/-- What a process has still to do: pay the compensation it has claimed, or record
the failure it has already paid for. -/
inductive Stage
  | clear | due | unsaved
  deriving DecidableEq

structure State (ρ ι : Type) where
  row : ρ
  paid : ℕ
  stage : ι → Stage

inductive Act (ρ : Type)
  | idle
  | write (r : ρ)
  | claim (r : ρ)
  | pay
  | payFirst
  | save (r : ρ)
  | drop

def State.act [DecidableEq ι] (s : State ρ ι) (p : ι) : Act ρ → State ρ ι
  | .idle => s
  | .write r => { s with row := r }
  | .claim r => { s with row := r, stage := Function.update s.stage p .due }
  | .pay => { s with paid := s.paid + 1, stage := Function.update s.stage p .clear }
  | .payFirst => { s with paid := s.paid + 1, stage := Function.update s.stage p .unsaved }
  | .save r => { s with row := r, stage := Function.update s.stage p .clear }
  | .drop => { s with stage := Function.update s.stage p .clear }

/-- The compensation has been paid or is about to be. -/
def State.Started (s : State ρ ι) : Prop := s.paid ≠ 0 ∨ ∃ p, s.stage p = .due

/-- A failed row may be given another status: nothing has been paid for it, or the
process that paid has still to record the failure. -/
def State.MayLeave (s : State ρ ι) : Prop := s.Started → ∃ p, s.stage p = .unsaved

/-- The steps that keep a compensation single. -/
def Ok (T : Terms ρ) (s : State ρ ι) (p : ι) : Act ρ → Prop
  | .idle => True
  | .write r => (T.Owes r → s.Started) ∧ (¬ T.Failed r → s.MayLeave)
  | .claim r => T.Failed r ∧ ¬ s.Started
  | .pay => s.stage p = .due
  | .payFirst => ¬ s.Started
  | .save r => s.stage p = .unsaved ∧ T.Failed r
  | .drop => (s.stage p = .due ∧ ¬ T.Owes s.row) ∨ (s.stage p = .unsaved ∧ T.Failed s.row)

/-- A failure is compensated once: never twice, only when it failed, and always when
it owes, as soon as the process that is at it is done. -/
structure Once (T : Terms ρ) (s : State ρ ι) : Prop where
  paid_le : s.paid ≤ 1
  failed : s.paid ≠ 0 → T.Failed s.row ∨ ∃ p, s.stage p = .unsaved
  paid : T.Owes s.row → s.Started

structure Sound (T : Terms ρ) (s : State ρ ι) : Prop extends Once T s where
  due : ∀ {p}, s.stage p = .due → T.Failed s.row ∧ s.paid = 0
  unsaved : ∀ {p}, s.stage p = .unsaved → s.paid = 1
  single : ∀ {p q}, s.stage p ≠ .clear → s.stage q ≠ .clear → p = q

variable {T : Terms ρ} {s : State ρ ι}

/-- What a process at a stage means for the row and the payments, when no other
process is at the compensation. -/
def Fits (T : Terms ρ) (r : ρ) (n : ℕ) : Stage → Prop
  | .clear => n ≤ 1 ∧ (n ≠ 0 → T.Failed r) ∧ (T.Owes r → n ≠ 0)
  | .due => T.Failed r ∧ n = 0
  | .unsaved => n = 1

theorem sound_of_only (p : ι) (hother : ∀ q, q ≠ p → s.stage q = .clear)
    (hp : Fits T s.row s.paid (s.stage p)) : Sound T s := by
  have hat : ∀ {q}, s.stage q ≠ .clear → q = p := by
    intro q hq
    by_contra hne
    exact hq (hother q hne)
  have hsingle : ∀ {q q'}, s.stage q ≠ .clear → s.stage q' ≠ .clear → q = q' := by
    intro q q' hq hq'
    rw [hat hq, hat hq']
  cases hs : s.stage p with
  | clear =>
    rw [hs] at hp
    obtain ⟨hle, hfailed, hpaid⟩ := hp
    have hall : ∀ q, s.stage q = .clear := by
      intro q
      by_contra hq
      exact hq (hat hq ▸ hs)
    refine ⟨⟨hle, fun hn ↦ .inl (hfailed hn), fun ho ↦ .inl (hpaid ho)⟩, ?_, ?_, hsingle⟩
    · intro q hq
      simp [hall] at hq
    · intro q hq
      simp [hall] at hq
  | due =>
    rw [hs] at hp
    obtain ⟨hfailed, hzero⟩ := hp
    refine ⟨⟨by omega, fun hn ↦ absurd hzero hn, fun _ ↦ .inr ⟨p, hs⟩⟩,
      fun _ ↦ ⟨hfailed, hzero⟩, ?_, hsingle⟩
    intro q hq
    have hqp : q = p := hat (by rw [hq]; decide)
    rw [hqp, hs] at hq
    cases hq
  | unsaved =>
    rw [hs] at hp
    have hone : s.paid = 1 := hp
    refine ⟨⟨hone.le, fun _ ↦ .inr ⟨p, hs⟩, fun _ ↦ .inl (by omega)⟩, ?_, fun _ ↦ hone, hsingle⟩
    intro q hq
    have hqp : q = p := hat (by rw [hq]; decide)
    rw [hqp, hs] at hq
    cases hq

namespace Sound

theorem started_of_busy (h : Sound T s) {p : ι} (hp : s.stage p ≠ .clear) : s.Started := by
  cases hs : s.stage p with
  | clear => exact absurd hs hp
  | due => exact .inr ⟨p, hs⟩
  | unsaved => exact .inl (by rw [h.unsaved hs]; decide)

/-- Before a compensation has started nobody is at it. -/
theorem clear_of_not_started (h : Sound T s) (hn : ¬ s.Started) (p : ι) : s.stage p = .clear := by
  by_contra hp
  exact hn (h.started_of_busy hp)

theorem paid_of_not_started (hn : ¬ s.Started) : s.paid = 0 := by
  by_contra hp
  exact hn (.inl hp)

theorem write (h : Sound T s) {r : ρ} (howes : T.Owes r → s.Started)
    (hleave : ¬ T.Failed r → s.MayLeave) : Sound T { s with row := r } := by
  refine ⟨⟨h.paid_le, fun hpaid ↦ ?_, howes⟩, fun {q} hq ↦ ?_, h.unsaved, h.single⟩
  · by_cases hr : T.Failed r
    · exact .inl hr
    · exact .inr (hleave hr (.inl hpaid))
  · refine ⟨?_, (h.due hq).2⟩
    by_contra hr
    obtain ⟨q', hq'⟩ := hleave hr (.inr ⟨q, hq⟩)
    have hone := h.unsaved hq'
    have hzero := (h.due hq).2
    omega

variable [DecidableEq ι] {p : ι}

/-- A process that alone is at the compensation, or that starts it, goes on. -/
theorem move (h : Sound T s) {r : ρ} {n : ℕ} {stage : Stage}
    (hp : s.stage p ≠ .clear ∨ ¬ s.Started) (hfits : Fits T r n stage) :
    Sound T (⟨r, n, Function.update s.stage p stage⟩ : State ρ ι) := by
  refine sound_of_only p (fun q hq ↦ ?_) ?_
  · dsimp only
    rw [Function.update_of_ne hq]
    rcases hp with hp | hn
    · by_contra hc
      exact hq (h.single hc hp)
    · exact h.clear_of_not_started hn q
  · dsimp only
    rw [Function.update_self]
    exact hfits

/-- The invariant rule: a step that meets its condition keeps the compensation single. -/
theorem act (h : Sound T s) {a : Act ρ} (hok : Ok T s p a) : Sound T (s.act p a) := by
  cases a with
  | idle => exact h
  | write r =>
    obtain ⟨howes, hleave⟩ := hok
    exact h.write howes hleave
  | claim r =>
    obtain ⟨hfailed, hn⟩ := hok
    exact h.move (.inr hn) ⟨hfailed, paid_of_not_started hn⟩
  | pay =>
    have hp : s.stage p = .due := hok
    obtain ⟨hfailed, hzero⟩ := h.due hp
    exact h.move (.inl (by rw [hp]; decide)) ⟨by omega, fun _ ↦ hfailed, fun _ ↦ by omega⟩
  | payFirst =>
    have hn : ¬ s.Started := hok
    have hzero := paid_of_not_started hn
    exact h.move (.inr hn) (show s.paid + 1 = 1 by omega)
  | save r =>
    obtain ⟨hp, hr⟩ := hok
    have hone := h.unsaved hp
    exact h.move (.inl (by rw [hp]; decide)) ⟨h.paid_le, fun _ ↦ hr, fun _ ↦ by omega⟩
  | drop =>
    rcases hok with ⟨hp, howes⟩ | ⟨hp, hfailed⟩
    · have hzero := (h.due hp).2
      exact h.move (.inl (by rw [hp]; decide))
        ⟨h.paid_le, fun hn ↦ absurd hzero hn, fun ho ↦ absurd ho howes⟩
    · have hone := h.unsaved hp
      exact h.move (.inl (by rw [hp]; decide))
        ⟨h.paid_le, fun _ ↦ hfailed, fun _ ↦ by omega⟩

end Sound

/-- Before anything has happened to a row that owes nothing. -/
theorem sound_start [Nonempty ι] {r : ρ} (howes : ¬ T.Owes r) :
    Sound T (⟨r, 0, fun _ ↦ .clear⟩ : State ρ ι) :=
  sound_of_only (Classical.arbitrary ι) (fun _ _ ↦ rfl)
    ⟨Nat.zero_le 1, fun hn ↦ absurd rfl hn, fun ho ↦ absurd ho howes⟩

end AllAiTools.Foundation.Compensation
