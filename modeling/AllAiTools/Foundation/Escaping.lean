import Mathlib

namespace AllAiTools.Foundation.Escaping

variable {α : Type} [DecidableEq α] (mark : α) (special : List α)

/-- A word with a mark before each letter of a list. -/
def escape (escaped word : List α) : List α :=
  word.flatMap fun c ↦ if c ∈ escaped then [mark, c] else [c]

/-- A text spells a word where every letter with a meaning, and every mark, has a mark before it. -/
inductive Spells : List α → List α → Prop
  | nil : Spells [] []
  | plain {c : α} {text word : List α} : c ≠ mark → c ∉ special → Spells text word →
      Spells (c :: text) (c :: word)
  | marked {c : α} {text word : List α} : Spells text word → Spells (mark :: c :: text) (c :: word)

/-- A letter with a meaning has no mark before it. -/
inductive Bare : List α → Prop
  | here {c : α} {text : List α} : c ≠ mark → c ∈ special → Bare (c :: text)
  | plain {c : α} {text : List α} : c ≠ mark → Bare text → Bare (c :: text)
  | marked {c : α} {text : List α} : Bare text → Bare (mark :: c :: text)

/-- The word that a text spells. -/
def unescape : List α → Option (List α)
  | [] => some []
  | [c] => if c = mark ∨ c ∈ special then none else some [c]
  | c :: d :: text =>
    if c = mark then (unescape text).map (d :: ·)
    else if c ∈ special then none
    else (unescape (d :: text)).map (c :: ·)

variable {mark special}

theorem escape_cons (escaped : List α) (c : α) (word : List α) :
    escape mark escaped (c :: word) =
      (if c ∈ escaped then [mark, c] else [c]) ++ escape mark escaped word :=
  List.flatMap_cons

theorem escape_eq_self {escaped word : List α} (h : ∀ c ∈ word, c ∉ escaped) :
    escape mark escaped word = word := by
  induction word with
  | nil => rfl
  | cons c word ih =>
    obtain ⟨hc, hword⟩ := List.forall_mem_cons.mp h
    rw [escape_cons, if_neg hc, ih hword]
    rfl

theorem spells_escape {escaped word : List α} (hmark : mark ∈ escaped)
    (h : ∀ c ∈ word, c ∈ special → c ∈ escaped) : Spells mark special (escape mark escaped word) word := by
  induction word with
  | nil => exact .nil
  | cons c word ih =>
    obtain ⟨hc, hword⟩ := List.forall_mem_cons.mp h
    rw [escape_cons]
    split
    · exact .marked (ih hword)
    · rename_i hescaped
      exact .plain (fun heq ↦ hescaped (heq ▸ hmark)) (fun hspecial ↦ hescaped (hc hspecial)) (ih hword)

theorem bare_escape {escaped word : List α} (hmark : mark ∈ escaped) {c : α} (hc : c ∈ word)
    (hspecial : c ∈ special) (hescaped : c ∉ escaped) : Bare mark special (escape mark escaped word) := by
  induction word with
  | nil => cases hc
  | cons d word ih =>
    rw [escape_cons]
    obtain rfl | hc := List.mem_cons.mp hc
    · rw [if_neg hescaped]
      exact .here (fun heq ↦ hescaped (heq ▸ hmark)) hspecial
    · split
      · exact .marked (ih hc)
      · rename_i hd
        exact .plain (fun heq ↦ hd (heq ▸ hmark)) (ih hc)

theorem unescape_of_spells {text word : List α} (h : Spells mark special text word) :
    unescape mark special text = some word := by
  induction h with
  | nil => rfl
  | @plain c text word hmark hspecial h ih =>
    cases text with
    | nil =>
      cases h
      exact if_neg (not_or.mpr ⟨hmark, hspecial⟩)
    | cons d text => rw [unescape, if_neg hmark, if_neg hspecial, ih, Option.map_some]
  | marked h ih => rw [unescape, if_pos rfl, ih, Option.map_some]

theorem unescape_of_bare {text : List α} (h : Bare mark special text) :
    unescape mark special text = none := by
  induction h with
  | @here c text hmark hspecial =>
    cases text with
    | nil => exact if_pos (.inr hspecial)
    | cons d text => rw [unescape, if_neg hmark, if_pos hspecial]
  | @plain c text hmark h ih =>
    cases text with
    | nil => cases h
    | cons d text =>
      rw [unescape, if_neg hmark, ih]
      exact ite_self none
  | marked h ih => rw [unescape, if_pos rfl, ih, Option.map_none]

omit [DecidableEq α] in
/-- A letter with a meaning stays one among more. -/
theorem Bare.mono {special' : List α} (hsub : special ⊆ special') {text : List α}
    (h : Bare mark special text) : Bare mark special' text := by
  induction h with
  | here hmark hspecial => exact .here hmark (hsub hspecial)
  | plain hmark h ih => exact .plain hmark ih
  | marked h ih => exact .marked ih

end AllAiTools.Foundation.Escaping
