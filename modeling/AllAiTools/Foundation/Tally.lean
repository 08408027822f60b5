import Mathlib

namespace AllAiTools.Foundation.Tally

variable {α β : Type}

/-- How many entries of a list come to one key. -/
def tally [DecidableEq β] (key : α → Option β) (l : List α) (b : β) : ℕ :=
  l.countP fun a ↦ key a = some b

variable [DecidableEq β] (key : α → Option β)

theorem tally_append (l l' : List α) (b : β) :
    tally key (l ++ l') b = tally key l b + tally key l' b := List.countP_append

theorem tally_singleton (a : α) (b : β) : tally key [a] b = if key a = some b then 1 else 0 := by
  simp [tally]

theorem tally_congr {key' : α → Option β} {l : List α} {b : β}
    (h : ∀ a ∈ l, key a = some b ↔ key' a = some b) : tally key l b = tally key' l b :=
  List.countP_congr fun a ha ↦ by simpa using h a ha

theorem tally_map {f : α → α} {l : List α} {b : β}
    (h : ∀ a ∈ l, key (f a) = some b ↔ key a = some b) :
    tally key (l.map f) b = tally key l b := by
  rw [tally, List.countP_map]
  exact tally_congr (key ∘ f) h

theorem tally_eq_zero {l : List α} {b : β} :
    tally key l b = 0 ↔ ∀ a ∈ l, key a ≠ some b := by
  simp [tally, List.countP_eq_zero]

/-- One key takes over the entries of another. -/
theorem tally_move {f : α → α} {l : List α} {b b' : β} (hne : b ≠ b')
    (h : ∀ a ∈ l, key (f a) = some b' ↔ key a = some b ∨ key a = some b') :
    tally key (l.map f) b' = tally key l b + tally key l b' := by
  induction l with
  | nil => rfl
  | cons a l ih =>
    have hrest := ih fun x hx ↦ h x (List.mem_cons_of_mem a hx)
    have hhead := h a List.mem_cons_self
    simp only [tally] at hrest ⊢
    rw [List.map_cons, List.countP_cons, List.countP_cons, List.countP_cons, hrest]
    by_cases hb : key a = some b
    · have hb' : key a ≠ some b' := by
        rw [hb]
        exact fun heq ↦ hne (Option.some.inj heq)
      simp only [hhead, hb, true_or, decide_true, if_true]
      simp [hne]
      omega
    · simp only [hhead, hb, false_or, decide_false]
      simp
      omega

/-- One entry leaves its key. -/
theorem tally_leave {l : List α} {i : ℕ} {a : α} {f : α → α} (hi : l[i]? = some a)
    (hleft : key (f a) = none) (b : β) :
    tally key (l.modify i f) b + (if key a = some b then 1 else 0) = tally key l b := by
  induction l generalizing i with
  | nil => cases hi
  | cons x l ih =>
    cases i with
    | zero =>
      have hx : x = a := Option.some.inj hi
      simp only [tally, List.modify_zero_cons, List.countP_cons, hx, hleft]
      simp
    | succ i =>
      have hrest := ih (i := i) hi
      simp only [tally] at hrest ⊢
      rw [List.modify_succ_cons, List.countP_cons, List.countP_cons]
      omega

end AllAiTools.Foundation.Tally
