import AllAiTools.Foundation.Chase

namespace AllAiTools.Foundation.Forwarding

open Relation Chase

variable {α ι : Type}

/-- Links that are the same all the way lead to the same end. -/
theorem ends_congr {next next' : α → Option α} {a k : α}
    (hsame : ∀ c, ReflTransGen (Link next) a c → next' c = next c) (h : Ends next a k) : Ends next' a k := by
  obtain ⟨hpath, hend⟩ := h
  have hk := hsame k hpath
  refine ⟨?_, hk.trans hend⟩
  induction hpath using ReflTransGen.head_induction_on with
  | refl => exact .refl
  | head hlink hrest ih =>
    refine ReflTransGen.head ((hsame _ .refl).trans hlink) ?_
    exact ih fun c hc ↦ hsame c (hc.head hlink)

/-- Names that lead on to others, those that are current, and all names ever given with whom they were
given to, the latest first. -/
structure Directory (α ι : Type) where
  current : α → Bool
  forward : α → Option α
  past : List (α × ι)

namespace Directory

section Links

variable {d : Directory α ι}

def next (d : Directory α ι) (a : α) : Option α := if d.current a then none else d.forward a

theorem next_current {a : α} (h : d.current a = true) : d.next a = none := if_pos h

theorem link_iff {a b : α} : Link d.next a b ↔ d.current a = false ∧ d.forward a = some b := by
  rw [Link, next]
  cases d.current a <;> simp

end Links

variable [DecidableEq α]

section Names

variable (d : Directory α ι)

/-- Who was given a name last. -/
def holder (a : α) : Option ι := d.past.lookup a

def Living (i : ι) : Prop := ∃ a, d.current a = true ∧ d.holder a = some i

/-- All names of a living one lead to its current name, and none of another's does. -/
structure Faithful : Prop where
  leads : ∀ k i, d.current k = true → d.holder k = some i → ∀ a, (a, i) ∈ d.past → Ends d.next a k
  apart : ∀ a i k, d.holder a = some i → ReflTransGen (Link d.next) a k → d.current k = true →
    d.holder k = some i

/-- A name leads on to one of the same holder, or of one that is no more. -/
structure Inv : Prop where
  named : ∀ a, d.current a = true → ∃ i, d.holder a = some i
  kept : ∀ a i, (a, i) ∈ d.past → d.Living i → d.holder a = some i
  leads : ∀ k i, d.current k = true → d.holder k = some i → ∀ a, (a, i) ∈ d.past → Ends d.next a k
  forwards : ∀ a b, d.forward a = some b →
    ∃ i j, d.holder a = some i ∧ d.holder b = some j ∧ (j = i ∨ ¬ d.Living j)

def give (a : α) (i : ι) : Directory α ι where
  current := Function.update d.current a true
  forward := d.forward
  past := (a, i) :: d.past

def rename (old new : α) (i : ι) : Directory α ι where
  current := Function.update (Function.update d.current old false) new true
  forward := Function.update d.forward old (some new)
  past := (new, i) :: d.past

end Names

section Steps

variable {d : Directory α ι}

theorem mem_past_of_holder {a : α} {i : ι} (h : d.holder a = some i) : (a, i) ∈ d.past := by
  rw [holder] at h
  obtain ⟨l₁, l₂, hpast, -⟩ := List.lookup_eq_some_iff.mp h
  rw [hpast]
  exact List.mem_append_right l₁ List.mem_cons_self

theorem lookup_cons (past : List (α × ι)) (a b : α) (i : ι) :
    ((a, i) :: past).lookup b = if b = a then some i else past.lookup b := by
  by_cases h : b = a
  · rw [if_pos h, h, List.lookup_cons_self]
  · rw [if_neg h, List.lookup_cons, beq_false_of_ne h]

/-- Along the links the holder stays, but for those who are no more. -/
theorem Inv.along (hinv : d.Inv) {a b : α} {i : ι} (ha : d.holder a = some i)
    (h : ReflTransGen (Link d.next) a b) : ∃ j, d.holder b = some j ∧ (j = i ∨ ¬ d.Living j) := by
  induction h with
  | refl => exact ⟨i, ha, .inl rfl⟩
  | @tail b c hpath hlink ih =>
    obtain ⟨j, hb, hj⟩ := ih
    obtain ⟨j', l, hb', hc, hl⟩ := hinv.forwards b c (link_iff.mp hlink).2
    obtain rfl : j = j' := Option.some.inj (hb.symm.trans hb')
    refine ⟨l, hc, ?_⟩
    obtain rfl | hdead := hl
    · exact hj
    · exact .inr hdead

theorem Inv.faithful (hinv : d.Inv) : d.Faithful where
  leads := hinv.leads
  apart a i k ha hpath hk := by
    obtain ⟨j, hj, hcase⟩ := hinv.along ha hpath
    obtain rfl | hdead := hcase
    · exact hj
    · exact absurd ⟨k, hk, hj⟩ hdead

theorem living_of_give {a : α} {i j : ι} (hj : j ≠ i) (h : (d.give a i).Living j) : d.Living j := by
  obtain ⟨b, hb, hbj⟩ := h
  have hbj := (lookup_cons d.past a b i).symm.trans hbj
  by_cases hba : b = a
  · rw [if_pos hba] at hbj
    exact absurd (Option.some.inj hbj).symm hj
  · rw [if_neg hba] at hbj
    exact ⟨b, (Function.update_of_ne hba _ _).symm.trans hb, hbj⟩

/-- A name that no other leads to and that nobody living had is given to a new one. -/
theorem Inv.give (hinv : d.Inv) {a : α} {i : ι} (hnew : ∀ b, (b, i) ∉ d.past)
    (hfree : ∀ j, (a, j) ∈ d.past → ¬ d.Living j) (hlast : ∀ b, d.forward b ≠ some a) : (d.give a i).Inv := by
  have hpast : (d.give a i).past = (a, i) :: d.past := rfl
  have hholder : ∀ b, (d.give a i).holder b = if b = a then some i else d.holder b :=
    fun b ↦ lookup_cons d.past a b i
  have hcurrent : ∀ b, b ≠ a → (d.give a i).current b = d.current b := fun b hb ↦ Function.update_of_ne hb _ _
  have hother : ∀ b, b ≠ a → (d.give a i).next b = d.next b := by
    intro b hb
    rw [next, hcurrent b hb]
    rfl
  have hliving : ∀ j, j ≠ i → (d.give a i).Living j → d.Living j := fun j ↦ living_of_give
  refine ⟨fun b hb ↦ ?_, fun b j hbj hj ↦ ?_, fun k j hk hkj b hbj ↦ ?_, fun b c hbc ↦ ?_⟩
  · rw [hholder]
    by_cases hba : b = a
    · exact ⟨i, if_pos hba⟩
    · rw [if_neg hba]
      exact hinv.named b ((hcurrent b hba).symm.trans hb)
  · rw [hholder]
    rw [hpast, List.mem_cons, Prod.mk.injEq] at hbj
    obtain ⟨rfl, rfl⟩ | hbj := hbj
    · exact if_pos rfl
    · have hji : j ≠ i := fun h ↦ hnew b (h ▸ hbj)
      have hj := hliving j hji hj
      have hba : b ≠ a := fun h ↦ hfree j (h ▸ hbj) hj
      rw [if_neg hba]
      exact hinv.kept b j hbj hj
  · rw [hholder] at hkj
    rw [hpast, List.mem_cons, Prod.mk.injEq] at hbj
    by_cases hka : k = a
    · rw [if_pos hka] at hkj
      obtain rfl := Option.some.inj hkj
      obtain ⟨rfl, -⟩ | hbj := hbj
      · rw [hka]
        exact (ends_of_none (next_current (Function.update_self _ _ _))).mpr rfl
      · exact absurd hbj (hnew b)
    · rw [if_neg hka] at hkj
      obtain ⟨-, rfl⟩ | hbj := hbj
      · exact absurd (mem_past_of_holder hkj) (hnew k)
      · have hk := (hcurrent k hka).symm.trans hk
        refine ends_congr (fun c hc ↦ hother c fun hca ↦ ?_) (hinv.leads k j hk hkj b hbj)
        obtain hbc | ⟨e, -, hlink⟩ := ReflTransGen.cases_tail hc
        · exact hfree j (hca ▸ hbc ▸ hbj) ⟨k, hk, hkj⟩
        · exact hlast e (hca ▸ (link_iff.mp hlink).2)
  · obtain ⟨j, l, hb, hc, hl⟩ := hinv.forwards b c hbc
    have hca : c ≠ a := fun h ↦ hlast b (h ▸ hbc)
    have hli : l ≠ i := fun h ↦ hnew c (h ▸ mem_past_of_holder hc)
    rw [hholder, hholder, if_neg hca]
    by_cases hba : b = a
    · have hdead : ¬ d.Living l := by
        obtain rfl | hdead := hl
        · exact hfree l (hba ▸ mem_past_of_holder hb)
        · exact hdead
      rw [if_pos hba]
      exact ⟨i, l, rfl, hc, .inr fun h ↦ hdead (hliving l hli h)⟩
    · rw [if_neg hba]
      exact ⟨j, l, hb, hc, hl.imp_right fun hdead h ↦ hdead (hliving l hli h)⟩

/-- A current name is changed for one that no other living one had and that only names of the same
holder lead to. -/
theorem Inv.rename (hinv : d.Inv) {old new : α} {i : ι} (hcur : d.current old = true)
    (hold : d.holder old = some i) (hne : new ≠ old) (hfree : ∀ j, (new, j) ∈ d.past → j ≠ i → ¬ d.Living j)
    (hlast : ∀ b, d.forward b = some new → d.holder b = some i) : (d.rename old new i).Inv := by
  have hpast : (d.rename old new i).past = (new, i) :: d.past := rfl
  have hholder : ∀ b, (d.rename old new i).holder b = if b = new then some i else d.holder b :=
    fun b ↦ lookup_cons d.past new b i
  have hcurrent : ∀ b, b ≠ new → b ≠ old → (d.rename old new i).current b = d.current b := by
    intro b hb hb'
    exact (Function.update_of_ne hb _ _).trans (Function.update_of_ne hb' _ _)
  have hgone : (d.rename old new i).current old = false :=
    (Function.update_of_ne (Ne.symm hne) _ _).trans (Function.update_self _ _ _)
  have hforward : ∀ b, b ≠ old → (d.rename old new i).forward b = d.forward b := fun b hb ↦
    Function.update_of_ne hb _ _
  have hother : ∀ b, b ≠ new → b ≠ old → (d.rename old new i).next b = d.next b := by
    intro b hb hb'
    rw [next, next, hcurrent b hb hb', hforward b hb']
  have hlive : d.Living i := ⟨old, hcur, hold⟩
  have hliving : ∀ j, (d.rename old new i).Living j → d.Living j := by
    intro j hliving
    obtain ⟨b, hb, hbj⟩ := hliving
    rw [hholder] at hbj
    by_cases hbn : b = new
    · rw [if_pos hbn] at hbj
      exact Option.some.inj hbj ▸ hlive
    · have hbo : b ≠ old := by
        rintro rfl
        rw [hgone] at hb
        cases hb
      rw [if_neg hbn] at hbj
      exact ⟨b, (hcurrent b hbn hbo).symm.trans hb, hbj⟩
  have hend : (d.rename old new i).next new = none := next_current (Function.update_self _ _ _)
  have hlink : (d.rename old new i).next old = some new :=
    link_iff.mpr ⟨hgone, Function.update_self _ _ _⟩
  -- the names of the one that is renamed lead to the old name, and so to the new one
  have hown : ∀ b, (b, i) ∈ d.past → Ends (d.rename old new i).next b new := by
    intro b hb
    have hpath := (hinv.leads old i hcur hold b hb).1
    clear hb
    induction hpath using ReflTransGen.head_induction_on with
    | refl => exact (Ends.of_link hlink).mpr ((ends_of_none hend).mpr rfl)
    | @head c e hce hrest ih =>
      by_cases hcn : c = new
      · rw [hcn]
        exact (ends_of_none hend).mpr rfl
      · have hco : c ≠ old := by
          rintro rfl
          exact absurd (next_current hcur) (by rw [hce]; exact Option.some_ne_none e)
        exact (Ends.of_link ((hother c hcn hco).trans hce)).mpr ih
  refine ⟨fun b hb ↦ ?_, fun b j hbj hj ↦ ?_, fun k j hk hkj b hbj ↦ ?_, fun b c hbc ↦ ?_⟩
  · rw [hholder]
    by_cases hbn : b = new
    · exact ⟨i, if_pos hbn⟩
    · by_cases hbo : b = old
      · exact ⟨i, (if_neg hbn).trans (hbo ▸ hold)⟩
      · rw [if_neg hbn]
        exact hinv.named b ((hcurrent b hbn hbo).symm.trans hb)
  · rw [hholder]
    rw [hpast, List.mem_cons, Prod.mk.injEq] at hbj
    obtain ⟨rfl, rfl⟩ | hbj := hbj
    · exact if_pos rfl
    · by_cases hbn : b = new
      · rw [if_pos hbn]
        by_contra hji
        exact hfree j (hbn ▸ hbj) (fun h ↦ hji (h ▸ rfl)) (hliving j hj)
      · rw [if_neg hbn]
        exact hinv.kept b j hbj (hliving j hj)
  · rw [hholder] at hkj
    rw [hpast, List.mem_cons, Prod.mk.injEq] at hbj
    by_cases hkn : k = new
    · rw [if_pos hkn] at hkj
      obtain rfl := Option.some.inj hkj
      rw [hkn]
      obtain ⟨rfl, -⟩ | hbj := hbj
      · exact (ends_of_none hend).mpr rfl
      · exact hown b hbj
    · have hko : k ≠ old := by
        rintro rfl
        rw [hgone] at hk
        cases hk
      rw [if_neg hkn] at hkj
      have hk := (hcurrent k hkn hko).symm.trans hk
      have hleads := hinv.leads k j hk hkj
      have hji : j ≠ i := by
        rintro rfl
        have hmeet := (hleads old (mem_past_of_holder hold)).1
        obtain heq | ⟨e, hlink', -⟩ := ReflTransGen.cases_head hmeet
        · exact hko heq.symm
        · exact absurd (next_current hcur) (by rw [hlink']; exact Option.some_ne_none e)
      obtain ⟨-, rfl⟩ | hbj := hbj
      · exact absurd rfl hji
      · -- the names of the others lead past neither of the two
        have hends := hleads b hbj
        have hlive' : d.Living j := ⟨k, hk, hkj⟩
        refine ends_congr (fun c hc ↦ hother c (fun hcn ↦ ?_) fun hco ↦ ?_) hends
        · obtain hbc | ⟨e, hbe, hec⟩ := ReflTransGen.cases_tail hc
          · exact hfree j (hcn ▸ hbc ▸ hbj) hji hlive'
          · obtain ⟨l, hl, hcase⟩ := hinv.along (hinv.kept b j hbj hlive') hbe
            obtain rfl := Option.some.inj (hl.symm.trans (hlast e (hcn ▸ (link_iff.mp hec).2)))
            exact hcase.elim (fun h ↦ hji h.symm) fun hdead ↦ hdead hlive
        · obtain ⟨l, hl, hcase⟩ := hinv.along (hinv.kept b j hbj hlive') hc
          obtain rfl := Option.some.inj (hl.symm.trans (hco ▸ hold))
          exact hcase.elim (fun h ↦ hji h.symm) fun hdead ↦ hdead hlive
  · rw [hholder, hholder]
    by_cases hbo : b = old
    · have hcn : new = c := by
        have hnew : (d.rename old new i).forward old = some new := Function.update_self _ _ _
        exact Option.some.inj (hnew.symm.trans (hbo ▸ hbc))
      rw [if_pos hcn.symm, if_neg (hbo ▸ Ne.symm hne), hbo]
      exact ⟨i, i, hold, rfl, .inl rfl⟩
    · have hbc := (hforward b hbo).symm.trans hbc
      obtain ⟨j, l, hb, hc, hl⟩ := hinv.forwards b c hbc
      have hstill : ¬ d.Living l → ¬ (d.rename old new i).Living l := fun hdead h ↦ hdead (hliving l h)
      by_cases hcn : c = new
      · have hbi := hlast b (hcn ▸ hbc)
        rw [if_pos hcn, hbi, ite_self]
        exact ⟨i, i, rfl, rfl, .inl rfl⟩
      · rw [if_neg hcn]
        by_cases hbn : b = new
        · rw [if_pos hbn]
          refine ⟨i, l, rfl, hc, ?_⟩
          obtain rfl | hdead := hl
          · by_cases hli : l = i
            · exact .inl hli
            · exact .inr (hstill (hfree l (hbn ▸ mem_past_of_holder hb) hli))
          · exact .inr (hstill hdead)
        · rw [if_neg hbn]
          exact ⟨j, l, hb, hc, hl.imp_right hstill⟩

/-- Names go and links go, but none of those that lead to a name that stays. -/
theorem Inv.shrink (hinv : d.Inv) {d' : Directory α ι} (hpast : d'.past = d.past)
    (hcurrent : ∀ a, d'.current a = true → d.current a = true)
    (hforward : ∀ a b, d'.forward a = some b → d.forward a = some b)
    (hstays : ∀ a b k, d'.current k = true → Ends d.next a k → d.forward a = some b → d.current a = false →
      d'.forward a = some b) : d'.Inv := by
  have hholder : ∀ a, d'.holder a = d.holder a := by
    intro a
    rw [holder, holder, hpast]
  have hliving : ∀ i, d'.Living i → d.Living i := by
    intro i hi
    obtain ⟨a, ha, hai⟩ := hi
    exact ⟨a, hcurrent a ha, (hholder a).symm.trans hai⟩
  refine ⟨fun a ha ↦ ?_, fun a i hai hi ↦ ?_, fun k i hk hki a hai ↦ ?_, fun a b hab ↦ ?_⟩
  · rw [hholder]
    exact hinv.named a (hcurrent a ha)
  · rw [hholder]
    exact hinv.kept a i (hpast ▸ hai) (hliving i hi)
  · have hends := hinv.leads k i (hcurrent k hk) ((hholder k).symm.trans hki) a (hpast ▸ hai)
    obtain ⟨hpath, hend⟩ := hends
    clear hai
    induction hpath using ReflTransGen.head_induction_on with
    | refl => exact (ends_of_none (next_current hk)).mpr rfl
    | @head c e hce hrest ih =>
      obtain ⟨hc, hce'⟩ := link_iff.mp hce
      have hgone : d'.current c = false := by
        by_contra hc'
        rw [hcurrent c (Bool.eq_true_of_not_eq_false hc')] at hc
        cases hc
      have hlink : Link d'.next c e :=
        link_iff.mpr ⟨hgone, hstays c e k hk ⟨hrest.head hce, hend⟩ hce' hc⟩
      exact (Ends.of_link hlink).mpr ih
  · obtain ⟨i, j, ha, hb, hj⟩ := hinv.forwards a b (hforward a b hab)
    rw [hholder, hholder]
    exact ⟨i, j, ha, hb, hj.imp_right fun hdead h ↦ hdead (hliving j h)⟩

end Steps

section Numbered

/-- Names are given to new ones, numbered by how many were given before. -/
def giveAll (d : Directory α ℕ) (names : List α) : Directory α ℕ :=
  names.foldl (fun d a ↦ d.give a d.past.length) d

def Bounded (d : Directory α ℕ) : Prop := ∀ a i, (a, i) ∈ d.past → i < d.past.length

variable {d : Directory α ℕ} {names : List α}

omit [DecidableEq α] in
theorem Bounded.push (hbounded : d.Bounded) {d' : Directory α ℕ} {a : α} {i : ℕ} (hi : i ≤ d.past.length)
    (hpast : d'.past = (a, i) :: d.past) : d'.Bounded := by
  intro b j hbj
  rw [hpast, List.mem_cons, Prod.mk.injEq] at hbj
  rw [hpast, List.length_cons]
  obtain ⟨-, rfl⟩ | hold := hbj
  · exact Nat.lt_succ_of_le hi
  · exact Nat.lt_succ_of_lt (hbounded b j hold)

theorem Inv.giveAll (hinv : d.Inv) (hbounded : d.Bounded) (hnodup : names.Nodup)
    (hfree : ∀ a ∈ names, ∀ j, (a, j) ∈ d.past → ¬ d.Living j)
    (hlast : ∀ a ∈ names, ∀ b, d.forward b ≠ some a) :
    (d.giveAll names).Inv ∧ (d.giveAll names).Bounded := by
  induction names generalizing d with
  | nil => exact ⟨hinv, hbounded⟩
  | cons a names ih =>
    obtain ⟨ha, hnodup⟩ := List.nodup_cons.mp hnodup
    have hnew : ∀ b, (b, d.past.length) ∉ d.past := fun b hb ↦ (hbounded b _ hb).ne rfl
    have hgive := hinv.give hnew (hfree a List.mem_cons_self) (hlast a List.mem_cons_self)
    refine ih hgive (hbounded.push le_rfl rfl) hnodup (fun b hb j hbj hj ↦ ?_) fun b hb ↦
      hlast b (List.mem_cons_of_mem a hb)
    obtain heq | hbj := List.mem_cons.mp hbj
    · exact ha ((Prod.mk.inj heq).1 ▸ hb)
    · exact hfree b (List.mem_cons_of_mem a hb) j hbj (living_of_give (hbounded b j hbj).ne hj)

theorem giveAll_spec (d : Directory α ℕ) (names : List α) :
    (∀ a, (d.giveAll names).current a = true ↔ d.current a = true ∨ a ∈ names) ∧
      (d.giveAll names).forward = d.forward ∧
      (d.giveAll names).past = names.foldl (fun past a ↦ (a, past.length) :: past) d.past := by
  induction names generalizing d with
  | nil => exact ⟨fun a ↦ by simp [giveAll], rfl, rfl⟩
  | cons b names ih =>
    obtain ⟨hcurrent, hforward, hpast⟩ := ih (d.give b d.past.length)
    refine ⟨fun a ↦ (hcurrent a).trans ?_, hforward, hpast⟩
    rw [List.mem_cons]
    by_cases hab : a = b
    · simp [hab, give]
    · simp [hab, give]

end Numbered

end Directory

end AllAiTools.Foundation.Forwarding
