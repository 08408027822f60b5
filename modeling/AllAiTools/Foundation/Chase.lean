import Mathlib

namespace AllAiTools.Foundation.Chase

open Relation

variable {α : Type} (next : α → Option α)

def Link (a b : α) : Prop := next a = some b

/-- The links from `a` lead to `b`, which has none. -/
def Ends (a b : α) : Prop := ReflTransGen (Link next) a b ∧ next b = none

/-- The links from `a` lead round. -/
def Cycles (a : α) : Prop :=
  ∃ b, ReflTransGen (Link next) a b ∧ TransGen (Link next) b b

variable {next}

theorem Ends.of_link {a b e : α} (h : Link next a b) : Ends next a e ↔ Ends next b e := by
  constructor
  · intro he
    refine ⟨?_, he.2⟩
    rcases ReflTransGen.cases_head he.1 with rfl | ⟨c, hc, hce⟩
    · exact absurd (h.symm.trans he.2) (by simp)
    · rwa [Option.some.inj (h.symm.trans hc)]
  · intro he
    exact ⟨he.1.head h, he.2⟩

theorem Cycles.of_link {a b : α} (h : Link next a b) : Cycles next a ↔ Cycles next b := by
  constructor
  · intro hc
    obtain ⟨c, hac, hcc⟩ := hc
    rcases ReflTransGen.cases_head hac with rfl | ⟨d, hd, hdc⟩
    · obtain ⟨d, hd, hda⟩ := TransGen.head'_iff.mp hcc
      rw [Option.some.inj (h.symm.trans hd)]
      exact ⟨d, .refl, TransGen.tail' hda hd⟩
    · rw [Option.some.inj (h.symm.trans hd)]
      exact ⟨c, hdc, hcc⟩
  · intro hc
    obtain ⟨c, hbc, hcc⟩ := hc
    exact ⟨c, hbc.head h, hcc⟩

theorem ends_of_none {a b : α} (h : next a = none) : Ends next a b ↔ b = a := by
  constructor
  · intro he
    rcases ReflTransGen.cases_head he.1 with rfl | ⟨c, hc, -⟩
    · rfl
    · exact absurd (h.symm.trans hc) (by simp)
  · intro hb
    rw [hb]
    exact ⟨.refl, h⟩

theorem not_cycles_of_none {a : α} (h : next a = none) : ¬ Cycles next a := by
  intro hc
  obtain ⟨b, hab, hbb⟩ := hc
  have hstart : ∃ c, Link next a c := by
    rcases ReflTransGen.cases_head hab with rfl | ⟨c, hc, -⟩
    · exact (TransGen.head'_iff.mp hbb).imp fun _ ↦ And.left
    · exact ⟨c, hc⟩
  obtain ⟨c, hc⟩ := hstart
  exact absurd (h.symm.trans hc) (by simp)

theorem Ends.unique {a b c : α} (hb : Ends next a b) (hc : Ends next a c) : b = c := by
  obtain ⟨hab, hend⟩ := hb
  induction hab using ReflTransGen.head_induction_on with
  | refl => exact ((ends_of_none hend).mp hc).symm
  | head hlink _ ih => exact ih ((Ends.of_link hlink).mp hc)

theorem Ends.not_cycles {a b : α} (hb : Ends next a b) : ¬ Cycles next a := by
  obtain ⟨hab, hend⟩ := hb
  induction hab using ReflTransGen.head_induction_on with
  | refl => exact not_cycles_of_none hend
  | head hlink _ ih =>
    intro hc
    exact ih ((Cycles.of_link hlink).mp hc)

variable [DecidableEq α]

/-- Follows the links as long as they lead to something new. -/
def chase (next : α → Option α) : ℕ → α → List α → Option (Except Unit α)
  | 0, _, _ => none
  | fuel + 1, a, met =>
    match next a with
    | none => some (.ok a)
    | some b => if b ∈ met then some (.error ()) else chase next fuel b (b :: met)

theorem chase_ok {fuel : ℕ} {a b : α} {met : List α}
    (h : chase next fuel a met = some (.ok b)) : Ends next a b := by
  induction fuel generalizing a met with
  | zero => simp [chase] at h
  | succ fuel ih =>
    rw [chase] at h
    cases hnext : next a with
    | none =>
      rw [hnext] at h
      cases h
      exact ⟨.refl, hnext⟩
    | some c =>
      simp only [hnext] at h
      by_cases hmet : c ∈ met
      · simp [hmet] at h
      · rw [if_neg hmet] at h
        exact (Ends.of_link hnext).mpr (ih h)

theorem chase_error {fuel : ℕ} {a : α} {met : List α}
    (hmet : ∀ m ∈ met, ReflTransGen (Link next) m a)
    (h : chase next fuel a met = some (.error ())) : Cycles next a := by
  induction fuel generalizing a met with
  | zero => simp [chase] at h
  | succ fuel ih =>
    rw [chase] at h
    cases hnext : next a with
    | none => simp [hnext] at h
    | some c =>
      simp only [hnext] at h
      by_cases hc : c ∈ met
      · exact ⟨a, .refl, TransGen.head' hnext (hmet c hc)⟩
      · rw [if_neg hc] at h
        refine (Cycles.of_link hnext).mpr (ih (fun m hm ↦ ?_) h)
        rcases List.mem_cons.mp hm with rfl | hm
        · exact .refl
        · exact (hmet m hm).tail hnext

/-- The values met are new ones among the ends of links, so that they are fewer than these. -/
theorem chase_returns {start : α} {ends : List α} (hends : ∀ a b, next a = some b → b ∈ ends)
    {fuel : ℕ} {a : α} {met : List α} (hnodup : met.Nodup) (hsub : met ⊆ start :: ends)
    (hfuel : ends.length + 1 < fuel + met.length) : (chase next fuel a met).isSome := by
  induction fuel generalizing a met with
  | zero =>
    have := (hnodup.subperm hsub).length_le
    simp only [List.length_cons] at this
    omega
  | succ fuel ih =>
    rw [chase]
    cases hnext : next a with
    | none => rfl
    | some b =>
      by_cases hb : b ∈ met
      · simp [hb]
      · simp only [hb, ↓reduceIte]
        apply ih (List.nodup_cons.mpr ⟨hb, hnodup⟩)
        · intro c hc
          rcases List.mem_cons.mp hc with rfl | hc
          · exact List.mem_cons_of_mem start (hends a c hnext)
          · exact hsub hc
        · simp only [List.length_cons]
          omega

/-- With fuel for every end of a link, the chase finds out whether the links end, and where. -/
theorem chase_spec {ends : List α} (hends : ∀ a b, next a = some b → b ∈ ends) {fuel : ℕ}
    (hfuel : ends.length < fuel) (a : α) :
    (Cycles next a ∧ chase next fuel a [a] = some (.error ())) ∨
      ∃ b, Ends next a b ∧ chase next fuel a [a] = some (.ok b) := by
  have hsome := @chase_returns _ next _ a ends hends fuel a [a] (List.nodup_singleton a)
    (List.cons_subset_cons a (List.nil_subset _)) (by simpa using hfuel)
  obtain ⟨r, hr⟩ := Option.isSome_iff_exists.mp hsome
  cases r with
  | error u =>
    refine .inl ⟨chase_error (fun m hm ↦ ?_) hr, hr⟩
    rw [List.mem_singleton.mp hm]
  | ok b => exact .inr ⟨b, chase_ok hr, hr⟩

end AllAiTools.Foundation.Chase
