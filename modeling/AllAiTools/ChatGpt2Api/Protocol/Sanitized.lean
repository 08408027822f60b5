import AllAiTools.ChatGpt2Api.Protocol.Conversation

namespace AllAiTools.ChatGpt2Api.Protocol.Sanitized

open Text Conversation

section Annotations

theorem dropUnclosed_append (text rest : Str) :
    dropUnclosed text <+: dropUnclosed (text ++ rest) := by
  induction text with
  | nil => exact List.nil_prefix
  | cons c text ih =>
    simp only [List.cons_append, dropUnclosed]
    by_cases h : c = '\ue200' ∧ '\ue201' ∉ text
    · rw [if_pos h]
      exact List.nil_prefix
    · have hrest : ¬(c = '\ue200' ∧ '\ue201' ∉ text ++ rest) := by
        intro hboth
        exact h ⟨hboth.1, fun hmem ↦ hboth.2 (List.mem_append_left rest hmem)⟩
      rw [if_neg h, if_neg hrest, List.cons_prefix_cons]
      exact ⟨rfl, ih⟩

/-- What follows an open annotation does not matter. -/
theorem dropUnclosed_open {payload : Str} (hopen : '\ue201' ∉ payload) (text rest : Str) :
    dropUnclosed (text ++ '\ue200' :: payload) <+: dropUnclosed (text ++ rest) := by
  induction text with
  | nil => simp [dropUnclosed, hopen]
  | cons c text ih =>
    simp only [List.cons_append, dropUnclosed]
    by_cases h : c = '\ue200' ∧ '\ue201' ∉ text ++ '\ue200' :: payload
    · rw [if_pos h]
      exact List.nil_prefix
    · have hrest : ¬(c = '\ue200' ∧ '\ue201' ∉ text ++ rest) := by
        intro hboth
        refine h ⟨hboth.1, fun hmem ↦ ?_⟩
        rcases List.mem_append.mp hmem with hmem | hmem
        · exact hboth.2 (List.mem_append_left rest hmem)
        · rcases List.mem_cons.mp hmem with hchar | hmem
          · exact absurd hchar (by decide)
          · exact hopen hmem
      rw [if_neg h, if_neg hrest, List.cons_prefix_cons]
      exact ⟨rfl, ih⟩

/-- The annotation that is open after a text. -/
def openAfter : Option Str → Str → Option Str
  | opened, [] => opened
  | none, c :: text => openAfter (if c = '\ue200' then some [] else none) text
  | some payload, c :: text =>
    openAfter (if c = '\ue201' then none else some (payload ++ [c])) text

/-- What the annotations of a text leave before the one that is open after it. -/
def replacedBefore : Option Str → Str → Str
  | _, [] => []
  | none, c :: text =>
    if c = '\ue200' then replacedBefore (some []) text else c :: replacedBefore none text
  | some payload, c :: text =>
    if c = '\ue201' then replaceAnnotation payload ++ replacedBefore none text
    else replacedBefore (some (payload ++ [c])) text

theorem replaceAnnotations_append (opened : Option Str) (text rest : Str) :
    replaceAnnotations opened (text ++ rest) =
      replacedBefore opened text ++ replaceAnnotations (openAfter opened text) rest := by
  induction text generalizing opened with
  | nil => cases opened <;> rfl
  | cons c text ih =>
    cases opened with
    | none =>
      by_cases hc : c = '\ue200'
      · simp [replaceAnnotations, replacedBefore, openAfter, hc, ih]
      · simp [replaceAnnotations, replacedBefore, openAfter, hc, ih]
    | some payload =>
      by_cases hc : c = '\ue201'
      · simp [replaceAnnotations, replacedBefore, openAfter, hc, ih]
      · simp [replaceAnnotations, replacedBefore, openAfter, hc, ih]

theorem openAfter_payload {opened : Option Str} (hopened : ∀ p ∈ opened, '\ue201' ∉ p)
    (text : Str) : ∀ p ∈ openAfter opened text, '\ue201' ∉ p := by
  induction text generalizing opened with
  | nil => exact hopened
  | cons c text ih =>
    cases opened with
    | none =>
      apply ih
      by_cases hc : c = '\ue200' <;> simp [hc]
    | some payload =>
      apply ih
      by_cases hc : c = '\ue201'
      · simp [hc]
      · have hpayload := hopened payload rfl
        simp [hc, hpayload, Ne.symm hc]

/-- Text that follows adds to the visible text. -/
theorem visibleText_append (text rest : Str) :
    visibleText text <+: visibleText (text ++ rest) := by
  have htext : replaceAnnotations none text =
      replacedBefore none text ++ replaceAnnotations (openAfter none text) [] := by
    simpa using replaceAnnotations_append none text []
  rw [visibleText, visibleText, htext, replaceAnnotations_append]
  have hpayload := @openAfter_payload none (by simp) text
  cases hopen : openAfter none text with
  | none =>
    simp only [replaceAnnotations, List.append_nil]
    exact dropUnclosed_append _ _
  | some payload =>
    exact dropUnclosed_open (hpayload payload hopen) _ _

end Annotations

section Blanks

/-- The blanks at the end of a text, after those held back before it. -/
def heldBack : Str → Str → Str
  | blanks, [] => blanks
  | blanks, c :: text => if isSpace c then heldBack (blanks ++ [c]) text else heldBack [] text

/-- What is kept of a text but for the blanks at its end. -/
def kept : Str → Str → Str
  | _, [] => []
  | blanks, c :: text =>
    if isSpace c then kept (blanks ++ [c]) text
    else if isPunctuation c then c :: kept [] text
    else blanks ++ c :: kept [] text

theorem dropBlanks_append (blanks text rest : Str) :
    dropBlanks blanks (text ++ rest) = kept blanks text ++ dropBlanks (heldBack blanks text) rest := by
  induction text generalizing blanks with
  | nil => rfl
  | cons c text ih =>
    simp only [List.cons_append, dropBlanks, kept, heldBack, ih]
    by_cases hspace : isSpace c
    · simp [hspace]
    · by_cases hpunctuation : isPunctuation c
      · simp [hspace, hpunctuation]
      · simp [hspace, hpunctuation]

theorem heldBack_blank {blanks : Str} (hblanks : ∀ c ∈ blanks, isSpace c) (text : Str) :
    ∀ c ∈ heldBack blanks text, isSpace c := by
  induction text generalizing blanks with
  | nil => exact hblanks
  | cons c text ih =>
    rw [heldBack]
    by_cases hspace : isSpace c
    · rw [if_pos hspace]
      apply ih
      intro d hd
      rcases List.mem_append.mp hd with hd | hd
      · exact hblanks d hd
      · rwa [List.mem_singleton.mp hd]
    · rw [if_neg hspace]
      exact ih (by simp)

theorem heldBack_eq_nil (blanks text : Str) :
    heldBack blanks text = [] ↔
      (text = [] → blanks = []) ∧ ∀ c ∈ text.getLast?, isSpace c = false := by
  induction text generalizing blanks with
  | nil => simp [heldBack]
  | cons c text ih =>
    rw [heldBack]
    by_cases hspace : isSpace c
    · rw [if_pos hspace, ih]
      cases text with
      | nil => simp [hspace]
      | cons d text => simp [List.getLast?_cons_cons]
    · rw [if_neg hspace, ih]
      cases text with
      | nil => simp [hspace]
      | cons d text => simp [List.getLast?_cons_cons]

/-- Blanks held back are kept unless punctuation comes next. -/
theorem prefix_dropBlanks {blanks : Str} (hblanks : ∀ c ∈ blanks, isSpace c) (more rest : Str) :
    blanks <+: dropBlanks (blanks ++ more) rest ↔
      blanks = [] ∨ ∀ c ∈ (rest.dropWhile isSpace).head?, isPunctuation c = false := by
  induction rest generalizing more with
  | nil => simp [dropBlanks]
  | cons c rest ih =>
    rw [dropBlanks]
    by_cases hspace : isSpace c
    · rw [if_pos hspace, List.dropWhile_cons_of_pos hspace, List.append_assoc]
      exact ih (more ++ [c])
    · rw [if_neg hspace, List.dropWhile_cons_of_neg hspace]
      by_cases hpunctuation : isPunctuation c
      · rw [if_pos hpunctuation]
        cases blanks with
        | nil => simp
        | cons b blanks =>
          have hb : b ≠ c := by
            intro hbc
            exact hspace (hbc ▸ hblanks b List.mem_cons_self)
          simp [List.cons_prefix_cons, hb, hpunctuation]
      · simp [hpunctuation, List.append_assoc]

/-- A text ends in white space and its continuation goes on with punctuation. -/
def blankBeforePunctuation (shown next : Str) : Bool :=
  shown.getLast?.any isSpace && ((next.drop shown.length).dropWhile isSpace).head?.any isPunctuation

theorem dropBlanks_prefix_iff (text rest : Str) :
    dropBlanks [] text <+: dropBlanks [] (text ++ rest) ↔
      blankBeforePunctuation text (text ++ rest) = false := by
  have hblank := @heldBack_blank [] (by simp) text
  have htext : dropBlanks [] text = kept [] text ++ heldBack [] text := by
    simpa [dropBlanks] using dropBlanks_append [] text []
  rw [htext, dropBlanks_append, List.prefix_append_right_inj]
  have hpre := prefix_dropBlanks hblank [] rest
  rw [List.append_nil] at hpre
  rw [hpre, heldBack_eq_nil, blankBeforePunctuation, List.drop_left, Bool.and_eq_false_iff]
  refine or_congr ?_ ?_
  · cases text.getLast? <;> simp
  · cases (rest.dropWhile isSpace).head? <;> simp

end Blanks

/-- The text a client sees grows with the raw text unless a blank it has seen comes to stand before
punctuation. -/
theorem sanitizeOutputText_prefix_iff {raw next : Str} (h : raw <+: next) :
    sanitizeOutputText raw <+: sanitizeOutputText next ↔
      blankBeforePunctuation (visibleText raw) (visibleText next) = false := by
  obtain ⟨rest, rfl⟩ := h
  obtain ⟨more, hmore⟩ := visibleText_append raw rest
  rw [sanitizeOutputText, sanitizeOutputText, ← hmore]
  exact dropBlanks_prefix_iff (visibleText raw) more

end AllAiTools.ChatGpt2Api.Protocol.Sanitized
