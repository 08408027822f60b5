import AllAiTools.Foundation.Pieces
import Mathlib

namespace AllAiTools.Foundation.Increments

variable {α : Type} [DecidableEq α]

/-- What is sent when a text that was shown turns into another: the rest of it, or all of it if
it does not go on from the one shown. -/
def increment (shown next : List α) : List α :=
  if shown <+: next then next.drop shown.length else next

def increments : List α → List (List α) → List α
  | _, [] => []
  | shown, next :: texts => increment shown next ++ increments next texts

@[simp] theorem increments_nil (shown : List α) : increments shown [] = [] := rfl

@[simp] theorem increments_cons (shown next : List α) (texts : List (List α)) :
    increments shown (next :: texts) = increment shown next ++ increments next texts := rfl

theorem increment_self (shown : List α) : increment shown shown = [] := by
  simp [increment]

theorem append_increment {shown next : List α} (h : shown <+: next) :
    shown ++ increment shown next = next := by
  rw [increment, if_pos h]
  exact List.prefix_iff_eq_append.mp h

theorem length_le_increment (shown next : List α) :
    next.length ≤ shown.length + (increment shown next).length := by
  by_cases h : shown <+: next
  · have hlength := congrArg List.length (append_increment h)
    rw [List.length_append] at hlength
    exact hlength.ge
  · rw [increment, if_neg h]
    exact Nat.le_add_left _ _

theorem length_le_increments (shown : List α) (texts : List (List α)) :
    (texts.getLastD shown).length ≤ shown.length + (increments shown texts).length := by
  induction texts generalizing shown with
  | nil => exact Nat.le_add_right _ _
  | cons next texts ih =>
    have hnext := length_le_increment shown next
    have hrest := ih next
    rw [List.getLastD_cons, increments_cons, List.length_append]
    omega

/-- What was sent adds up to the last text exactly when every text goes on from the one before. A
text sent all over again is never made up for. -/
theorem append_increments_iff (shown : List α) (texts : List (List α)) :
    shown ++ increments shown texts = texts.getLastD shown ↔
      (shown :: texts).IsChain (· <+: ·) := by
  induction texts generalizing shown with
  | nil => simp
  | cons next texts ih =>
    rw [List.getLastD_cons, increments_cons, List.isChain_cons_cons, ← ih next]
    by_cases h : shown <+: next
    · rw [← List.append_assoc, append_increment h]
      exact (and_iff_right h).symm
    · refine iff_of_false (fun heq ↦ h ?_) (fun hchain ↦ h hchain.1)
      have hlength := congrArg List.length heq
      have hrest := length_le_increments next texts
      rw [increment, if_neg h, List.length_append, List.length_append] at hlength
      have hshown : shown.length = 0 := by omega
      rw [List.eq_nil_of_length_eq_zero hshown]
      exact List.nil_prefix

omit [DecidableEq α] in
/-- Relations that agree where a chain holds have the same chains there. -/
theorem isChain_congr {R S T : α → α → Prop} (h : ∀ a b, R a b → (S a b ↔ T a b)) {l : List α}
    (hl : l.IsChain R) : l.IsChain S ↔ l.IsChain T := by
  induction hl with
  | nil => simp
  | singleton a => simp
  | cons_cons hab _ ih => rw [List.isChain_cons_cons, List.isChain_cons_cons, h _ _ hab, ih]

end AllAiTools.Foundation.Increments

namespace AllAiTools.Foundation.Breaks

variable {α : Type} (mark : α)

/-- Pieces with so many marks behind each. -/
def spread (pieces : List (List α × ℕ)) : List α :=
  pieces.flatMap fun piece ↦ piece.1 ++ List.replicate piece.2 mark

/-- So many marks behind the pieces come to one behind each, as far as there is something between the
marks. -/
def Level : ℕ → ℕ → List (List α × ℕ) → Prop
  | x, y, [] => x + 1 = y
  | x, y, (piece, n) :: pieces => (x = y ∨ ∀ c ∈ piece, c = mark) ∧ Level (x + n) (y + 1) pieces

/-- One mark more between the pieces. -/
def marks : List (List α × ℕ) → List (List α × ℕ)
  | [] => []
  | [piece] => [piece]
  | (piece, n) :: next :: pieces => (piece, n + 1) :: marks (next :: pieces)

/-- Chunks of pieces come to one mark between all pieces. -/
def Agree (chunks : List (List (List α × ℕ))) : Prop :=
  chunks.flatten = [] ∨ Level mark 0 0 (chunks.flatMap marks)

variable {mark}

theorem level_add {x y : ℕ} {pieces : List (List α × ℕ)} (k : ℕ) :
    Level mark (k + x) (k + y) pieces ↔ Level mark x y pieces := by
  induction pieces generalizing x y with
  | nil =>
    rw [Level, Level, Nat.add_assoc, Nat.add_left_cancel_iff]
  | cons piece pieces ih =>
    obtain ⟨piece, n⟩ := piece
    rw [Level, Level, Nat.add_assoc, Nat.add_assoc, ih, Nat.add_left_cancel_iff]

/-- What stands shifted by marks before itself is nothing but marks. -/
theorem marks_of_shift {k : ℕ} {piece u v : List α}
    (h : List.replicate (k + 1) mark ++ (piece ++ u) = piece ++ v) : ∀ c ∈ piece, c = mark := by
  induction piece generalizing u v with
  | nil => exact fun c hc ↦ absurd hc List.not_mem_nil
  | cons c piece ih =>
    rw [List.replicate_succ, List.cons_append, List.cons_append] at h
    obtain ⟨rfl, htail⟩ := List.cons.inj h
    have hshift : List.replicate (k + 1) mark ++ (piece ++ u) = piece ++ v := by
      rw [List.replicate_succ', List.append_assoc]
      exact htail
    exact List.forall_mem_cons.mpr ⟨rfl, ih hshift⟩

theorem marks_of_shifted {x y : ℕ} (hne : x ≠ y) {piece u v : List α}
    (h : List.replicate x mark ++ (piece ++ u) = List.replicate y mark ++ (piece ++ v)) :
    ∀ c ∈ piece, c = mark := by
  obtain hlt | hlt := Nat.lt_or_gt_of_ne hne
  · obtain ⟨k, rfl⟩ := Nat.exists_eq_add_of_lt hlt
    rw [Nat.add_assoc, List.replicate_add, List.append_assoc, List.append_cancel_left_eq] at h
    exact marks_of_shift h.symm
  · obtain ⟨k, rfl⟩ := Nat.exists_eq_add_of_lt hlt
    rw [Nat.add_assoc, List.replicate_add, List.append_assoc, List.append_cancel_left_eq] at h
    exact marks_of_shift h

theorem replicate_append_comm (x k n : ℕ) (rest : List α) :
    List.replicate x mark ++ (List.replicate k mark ++ (List.replicate n mark ++ rest)) =
      List.replicate k mark ++ (List.replicate (x + n) mark ++ rest) := by
  rw [← List.append_assoc, ← List.replicate_add, ← List.append_assoc, ← List.replicate_add,
    ← List.append_assoc, ← List.replicate_add, Nat.add_comm x k, Nat.add_assoc]

theorem spread_eq_iff {x y : ℕ} {pieces : List (List α × ℕ)} :
    List.replicate x mark ++ (spread mark pieces ++ [mark]) =
      List.replicate y mark ++ (pieces.map Prod.fst).flatMap (· ++ [mark]) ↔ Level mark x y pieces := by
  induction pieces generalizing x y with
  | nil =>
    have hleft : List.replicate x mark ++ [mark] = List.replicate (x + 1) mark := List.replicate_succ'.symm
    rw [Level, spread, List.flatMap_nil, List.nil_append, List.map_nil, List.flatMap_nil,
      List.append_nil, hleft]
    constructor
    · intro h
      simpa using congrArg List.length h
    · exact fun h ↦ h ▸ rfl
  | cons piece pieces ih =>
    obtain ⟨piece, n⟩ := piece
    have hspread : spread mark ((piece, n) :: pieces) ++ [mark] =
        piece ++ (List.replicate n mark ++ (spread mark pieces ++ [mark])) := by
      rw [spread, List.flatMap_cons, List.append_assoc, List.append_assoc]
      rfl
    have hsingle : ((((piece, n) :: pieces).map Prod.fst).flatMap (· ++ [mark])) =
        piece ++ (List.replicate 1 mark ++ (pieces.map Prod.fst).flatMap (· ++ [mark])) := by
      rw [List.map_cons, List.flatMap_cons, List.append_assoc]
      rfl
    rw [Level, hspread, hsingle]
    by_cases hxy : x = y
    · subst hxy
      rw [List.append_cancel_left_eq, List.append_cancel_left_eq, ih, level_add]
      exact ⟨fun h ↦ ⟨.inl rfl, h⟩, fun h ↦ h.2⟩
    · have hmarks : (∀ c ∈ piece, c = mark) → (List.replicate x mark ++
          (piece ++ (List.replicate n mark ++ (spread mark pieces ++ [mark]))) =
            List.replicate y mark ++ (piece ++ (List.replicate 1 mark ++
              (pieces.map Prod.fst).flatMap (· ++ [mark]))) ↔ Level mark (x + n) (y + 1) pieces) := by
        intro hall
        rw [List.eq_replicate_of_mem hall, replicate_append_comm, replicate_append_comm,
          List.append_cancel_left_eq, ih]
      constructor
      · intro h
        have hall := marks_of_shifted hxy h
        exact ⟨.inr hall, (hmarks hall).mp h⟩
      · intro h
        have hall := h.1.resolve_left hxy
        exact (hmarks hall).mpr h.2

theorem spread_append (pieces pieces' : List (List α × ℕ)) :
    spread mark (pieces ++ pieces') = spread mark pieces ++ spread mark pieces' := List.flatMap_append

theorem spread_marks (pieces : List (List α × ℕ)) :
    spread mark (marks pieces) =
      [mark].intercalate (pieces.map fun piece ↦ piece.1 ++ List.replicate piece.2 mark) := by
  fun_induction marks pieces with
  | case1 => rfl
  | case2 piece => simp [spread]
  | case3 piece n next pieces ih =>
    have hjoin : [mark].intercalate (((piece, n) :: next :: pieces).map fun piece ↦
        piece.1 ++ List.replicate piece.2 mark) = piece ++ List.replicate n mark ++ [mark] ++
          [mark].intercalate ((next :: pieces).map fun piece ↦ piece.1 ++ List.replicate piece.2 mark) :=
      List.intercalate_cons_cons ..
    rw [hjoin, ← ih, spread, List.flatMap_cons, List.replicate_succ', ← List.append_assoc]
    rfl

theorem map_fst_marks (pieces : List (List α × ℕ)) : (marks pieces).map Prod.fst = pieces.map Prod.fst := by
  fun_induction marks pieces with
  | case1 => rfl
  | case2 piece => rfl
  | case3 piece n next pieces ih => exact congrArg (piece :: ·) ih

/-- Chunks whose pieces are joined by themselves make the text of all pieces joined exactly when the
marks behind them agree. -/
theorem flatMap_intercalate_eq_iff (chunks : List (List (List α × ℕ))) :
    (chunks.flatMap fun pieces ↦
        [mark].intercalate (pieces.map fun piece ↦ piece.1 ++ List.replicate piece.2 mark)) =
      [mark].intercalate (chunks.flatten.map Prod.fst) ↔ Agree mark chunks := by
  have hleft : (chunks.flatMap fun pieces ↦
      [mark].intercalate (pieces.map fun piece ↦ piece.1 ++ List.replicate piece.2 mark)) =
        spread mark (chunks.flatMap marks) := by
    induction chunks with
    | nil => rfl
    | cons pieces chunks ih => rw [List.flatMap_cons, List.flatMap_cons, spread_append, ih, spread_marks]
  have hfst : (chunks.flatMap marks).map Prod.fst = chunks.flatten.map Prod.fst := by
    rw [List.map_flatMap, List.map_flatten]
    simp only [map_fst_marks]
    rfl
  rw [hleft, Agree]
  by_cases hnil : chunks.flatten = []
  · have hmarks : chunks.flatMap marks = [] := by
      rw [hnil, List.map_nil] at hfst
      exact List.map_eq_nil_iff.mp hfst
    rw [hnil, hmarks]
    exact ⟨fun _ ↦ .inl rfl, fun _ ↦ rfl⟩
  · have hne : chunks.flatten.map Prod.fst ≠ [] := fun h ↦ hnil (List.map_eq_nil_iff.mp h)
    have hiff : _ ↔ Level mark 0 0 (chunks.flatMap marks) := spread_eq_iff
    rw [List.replicate_zero, List.nil_append, List.nil_append, hfst, ← Pieces.intercalate_append [mark] hne,
      List.append_cancel_right_eq] at hiff
    rw [hiff]
    exact ⟨.inr, fun h ↦ h.resolve_left hnil⟩

end AllAiTools.Foundation.Breaks
