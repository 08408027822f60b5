import AllAiTools.ChatGpt2Api.Protocol.ToolUseText

namespace AllAiTools.ChatGpt2Api.Protocol.ToolCallsKept

open Text Json ToolMarkup ToolUseText

section Patterns

variable {α : Type} {pattern : Str → Option (α × Str)} {same : Char → Char → Bool}

/-- The pattern matches nowhere in the first text, before the second. -/
def NoMatch (pattern : Str → Option (α × Str)) : Str → Str → Prop
  | [], _ => True
  | c :: text, rest => pattern (c :: (text ++ rest)) = none ∧ NoMatch pattern text rest

theorem search_append {text rest : Str} (h : NoMatch pattern text rest) :
    search pattern (text ++ rest) = search pattern rest := by
  induction text with
  | nil => rfl
  | cons c text ih =>
    rw [List.cons_append, search, h.1, ih h.2]
    rfl

theorem findMatches_append {text rest : Str} (h : NoMatch pattern text rest) (turns : ℕ) :
    findMatches pattern (text.length + turns) (text ++ rest) = findMatches pattern turns rest := by
  induction text with
  | nil => rw [List.length_nil, Nat.zero_add, List.nil_append]
  | cons c text ih =>
    rw [List.length_cons, Nat.add_right_comm, List.cons_append, findMatches, h.1]
    exact ih h.2

theorem removeMatches_of_search {text : Str} (h : search pattern text = none) {turns : ℕ} :
    removeMatches pattern turns text = text := by
  induction turns generalizing text with
  | zero => rfl
  | succ turns ih =>
    cases text with
    | nil => rfl
    | cons c text =>
      rw [search, Option.orElse_eq_none] at h
      rw [removeMatches, h.1]
      exact congrArg _ (ih h.2)

theorem noMatch_append {first second rest : Str} (hfirst : NoMatch pattern first (second ++ rest))
    (hsecond : NoMatch pattern second rest) : NoMatch pattern (first ++ second) rest := by
  induction first with
  | nil => exact hsecond
  | cons c first ih =>
    rw [List.cons_append, NoMatch, List.append_assoc]
    exact ⟨hfirst.1, ih hfirst.2⟩

end Patterns

section Literals

def openTag (tag : String) (rest : Str) : Str := '<' :: (tag.toList ++ '>' :: rest)

/-- A closing tag behind its bracket. -/
def closing (tag : String) : Str := '/' :: (tag.toList ++ [('>')])

def closeTag (tag : String) (rest : Str) : Str := '<' :: '/' :: (tag.toList ++ '>' :: rest)

theorem openTag_append (tag : String) (text rest : Str) :
    openTag tag text ++ rest = openTag tag (text ++ rest) := by
  rw [openTag, openTag, List.cons_append, List.append_assoc, List.cons_append]

theorem closeTag_append (tag : String) (text rest : Str) :
    closeTag tag text ++ rest = closeTag tag (text ++ rest) := by
  rw [closeTag, closeTag, List.cons_append, List.cons_append, List.append_assoc, List.cons_append]

theorem toLower_eq_bracket {c : Char} (h : c.toLower = '<') : c = '<' := by
  rw [Char.toLower] at h
  split at h
  · rename_i hupper
    have hhigh : c.toNat ≤ 90 := hupper.2
    have hsum : (c.toNat + 32) % 4294967296 = 60 := congrArg (fun d ↦ d.val.toNat) h
    have hlow : 65 ≤ c.toNat := hupper.1
    omega
  · exact h

theorem sameLetter_bracket {c : Char} (hc : c ≠ '<') : sameLetter '<' c = false := by
  have hlower : c.toLower ≠ '<' := fun h ↦ hc (toLower_eq_bracket h)
  rw [sameLetter, decide_eq_false hlower]
  rfl

theorem afterLiteral_bracket {c : Char} (hc : c ≠ '<') (literal text : Str) :
    afterLiteral sameLetter ('<' :: literal) (c :: text) = none := by
  rw [afterLiteral, sameLetter_bracket hc]
  rfl

theorem element_bracket {c : Char} (hc : c ≠ '<') (lib : Library) (name : String) (text : Str) :
    element lib name (c :: text) = none := by
  rw [element, opening, afterLiteral_bracket hc]
  rfl

theorem elements_bracket {c : Char} (hc : c ≠ '<') (lib : Library) (names : List String) (text : Str) :
    elements lib names (c :: text) = none := by
  rw [elements, List.findSome?_eq_none_iff]
  exact fun name _ ↦ element_bracket hc lib name text

/-- A literal begins with a bracket, so it is not in a text without one. -/
theorem noMatch_of_not_mem {α : Type} {pattern : Str → Option (α × Str)}
    (hpattern : ∀ c text, c ≠ '<' → pattern (c :: text) = none) {text : Str} (h : '<' ∉ text) (rest : Str) :
    NoMatch pattern text rest := by
  induction text with
  | nil => trivial
  | cons c text ih =>
    rw [List.mem_cons, not_or] at h
    exact ⟨hpattern c _ (Ne.symm h.1), ih h.2⟩

variable {same : Char → Char → Bool}

/-- A match over the end of a text takes the last character of it. -/
theorem afterLiteral_append (text : Str) {literal rest after : Str} {last : Char}
    (h : afterLiteral same literal (text ++ last :: rest) = some after)
    (hlast : ∀ letter ∈ literal, same letter last = false) :
    ∃ after', afterLiteral same literal (text ++ [last]) = some after' := by
  induction text generalizing literal with
  | nil =>
    cases literal with
    | nil => exact ⟨_, rfl⟩
    | cons letter literal =>
      rw [List.nil_append, afterLiteral, hlast letter List.mem_cons_self] at h
      cases h
  | cons c text ih =>
    cases literal with
    | nil => exact ⟨_, rfl⟩
    | cons letter literal =>
      rw [List.cons_append, afterLiteral] at h ⊢
      split at h
      · rename_i hsame
        rw [if_pos hsame]
        exact ih h fun letter hletter ↦ hlast letter (List.mem_cons_of_mem _ hletter)
      · cases h

/-- `.*?` up to a literal goes over a text without it, whose last character is none of the literal. -/
theorem untilLiteral_append {literal : Str} {last : Char}
    (hlast : ∀ letter ∈ literal, same letter last = false) {text : Str} (rest : Str)
    (h : untilLiteral same literal (text ++ [last]) = none) :
    untilLiteral same literal (text ++ last :: rest) =
      (untilLiteral same literal rest).map fun found ↦ (text ++ last :: found.1, found.2) := by
  induction text with
  | nil =>
    have hnone : afterLiteral same literal (last :: rest) = none := by
      by_contra hsome
      obtain ⟨after', hafter⟩ := Option.ne_none_iff_exists'.mp hsome
      obtain ⟨after'', hafter'⟩ := afterLiteral_append [] hafter hlast
      rw [List.nil_append] at h hafter'
      rw [untilLiteral, hafter'] at h
      cases h
    rw [List.nil_append, untilLiteral, hnone]
    rfl
  | cons c text ih =>
    have hnone : afterLiteral same literal (c :: (text ++ last :: rest)) = none := by
      by_contra hsome
      obtain ⟨after', hafter⟩ := Option.ne_none_iff_exists'.mp hsome
      obtain ⟨after'', hafter'⟩ := afterLiteral_append (c :: text) hafter hlast
      rw [List.cons_append] at h hafter'
      rw [untilLiteral, hafter'] at h
      cases h
    rw [List.cons_append, untilLiteral] at h
    split at h
    · cases h
    · rw [Option.map_eq_none_iff] at h
      rw [List.cons_append, untilLiteral, hnone]
      dsimp only
      rw [ih h, Option.map_map]
      rfl

/-- A literal as a pattern. -/
def literalPattern (same : Char → Char → Bool) (literal text : Str) : Option (Unit × Str) :=
  (afterLiteral same literal text).map fun rest ↦ ((), rest)

theorem untilLiteral_noMatch {literal text rest : Str} (h : NoMatch (literalPattern same literal) text rest) :
    untilLiteral same literal (text ++ rest) =
      (untilLiteral same literal rest).map fun found ↦ (text ++ found.1, found.2) := by
  induction text with
  | nil =>
    rw [List.nil_append]
    exact Option.map_id'.symm
  | cons c text ih =>
    have hnone : afterLiteral same literal (c :: (text ++ rest)) = none := Option.map_eq_none_iff.mp h.1
    rw [List.cons_append, untilLiteral, hnone]
    dsimp only
    rw [ih h.2, Option.map_map]
    rfl

def isLowered (s : Str) : Bool := s.all fun c ↦ c.toLower = c

theorem lower_of_isLowered {s : Str} (h : isLowered s = true) : ∀ c ∈ s, c.toLower = c :=
  fun c hc ↦ of_decide_eq_true (List.all_eq_true.mp h c hc)

theorem afterLiteral_self {literal : Str} (h : ∀ c ∈ literal, c.toLower = c) (rest : Str) :
    afterLiteral sameLetter literal (literal ++ rest) = some rest := by
  induction literal with
  | nil => rfl
  | cons c literal ih =>
    obtain ⟨hc, hliteral⟩ := List.forall_mem_cons.mp h
    rw [List.cons_append, afterLiteral, if_pos, ih hliteral]
    rw [sameLetter, hc, decide_eq_true rfl]
    rfl

theorem untilLiteral_self {c : Char} {literal : Str} (h : ∀ d ∈ c :: literal, d.toLower = d) (rest : Str) :
    untilLiteral sameLetter (c :: literal) (c :: literal ++ rest) = some ([], rest) := by
  have hafter := afterLiteral_self h rest
  rw [List.cons_append] at hafter ⊢
  rw [untilLiteral, hafter]

/-- The content of an element goes up to its closing tag. -/
theorem element_tag (lib : Library) {tag : String} (htag : isLowered ('<' :: tag.toList) = true) {text : Str}
    {found : Str × Str} (h : untilLiteral sameLetter ("</".toList ++ tag.toList ++ [('>')]) text = some found) :
    element lib tag (openTag tag text) = some found := by
  have hafter : afterLiteral sameLetter ('<' :: tag.toList) (openTag tag text) = some ('>' :: text) :=
    afterLiteral_self (lower_of_isLowered htag) _
  have hopening : opening lib tag (openTag tag text) = some ('>' :: text) := by
    rw [opening, hafter]
    rfl
  rw [element, hopening]
  exact h

end Literals

section Calls

theorem strip_of_ends {c last : Char} (hc : isSpace c = false) (hlast : isSpace last = false) {s text : Str}
    (hfirst : s = c :: text) (hend : ∃ text, s = text ++ [last]) : strip s = s := by
  obtain ⟨front, hfront⟩ := hend
  have hleft : lstrip s = s := by
    rw [hfirst, lstrip, List.dropWhile_cons_of_neg]
    rw [hc]
    exact Bool.false_ne_true
  rw [strip, hleft, rstrip, hfront, List.rdropWhile_concat_neg]
  rw [hlast]
  exact Bool.false_ne_true

theorem length_openTag (tag : String) (rest : Str) :
    (openTag tag rest).length = tag.toList.length + 2 + rest.length := by
  rw [openTag, List.length_cons, List.length_append, List.length_cons]
  omega

theorem length_closeTag (tag : String) (rest : Str) :
    (closeTag tag rest).length = tag.toList.length + 3 + rest.length := by
  rw [closeTag, List.length_cons, List.length_cons, List.length_append, List.length_cons]
  omega

/-- What stands between the tags of a call. -/
def body (name params : Str) : Str :=
  openTag "tool_name" (name ++ closeTag "tool_name"
    (openTag "parameters" (params ++ closeTag "parameters" [])))

theorem append_parts {opening first second third middle fourth fifth closing sixth seventh eighth : Str}
    (hopening : opening = first ++ (second ++ third)) (hmiddle : middle = fourth ++ fifth)
    (hclosing : closing = sixth ++ (seventh ++ eighth)) (name params rest : Str) :
    opening ++ name ++ middle ++ params ++ closing ++ rest =
      first ++ (second ++ ((third ++ (name ++ (fourth ++ (fifth ++ (params ++ sixth))))) ++
        (seventh ++ (eighth ++ rest)))) := by
  rw [hopening, hmiddle, hclosing]
  simp only [List.append_assoc]

theorem toolUseText_eq (name params rest : Str) : toolUseText name params ++ rest =
    openTag "tool_calls" (openTag "tool_call"
      (body name params ++ closeTag "tool_call" (closeTag "tool_calls" rest))) := by
  have hopening : "<tool_calls><tool_call><tool_name>".toList =
      openTag "tool_calls" [] ++ (openTag "tool_call" [] ++ openTag "tool_name" []) := by
    decide +kernel
  have hmiddle : "</tool_name><parameters>".toList = closeTag "tool_name" [] ++ openTag "parameters" [] := by
    decide +kernel
  have hclosing : "</parameters></tool_call></tool_calls>".toList =
      closeTag "parameters" [] ++ (closeTag "tool_call" [] ++ closeTag "tool_calls" []) := by
    decide +kernel
  refine (append_parts hopening hmiddle hclosing name params rest).trans ?_
  simp only [body, openTag_append, closeTag_append, List.nil_append, List.append_assoc]

section Tags

variable {α : Type} {pattern : Str → Option (α × Str)}
  (hpattern : ∀ c text, c ≠ '<' → pattern (c :: text) = none) {tag : String} (htag : '<' ∉ tag.toList)

include hpattern htag

theorem noMatch_openTag (hfirst : ∀ rest, pattern (openTag tag rest) = none) (rest : Str) :
    NoMatch pattern (openTag tag []) rest := by
  refine ⟨?_, noMatch_of_not_mem hpattern ?_ rest⟩
  · have htext := hfirst rest
    rw [← List.nil_append rest, ← openTag_append] at htext
    exact htext
  · rw [List.mem_append, not_or]
    exact ⟨htag, by decide⟩

theorem noMatch_closeTag (hfirst : ∀ rest, pattern (closeTag tag rest) = none) (rest : Str) :
    NoMatch pattern (closeTag tag []) rest := by
  refine ⟨?_, hpattern _ _ (by decide), noMatch_of_not_mem hpattern ?_ rest⟩
  · have htext := hfirst rest
    rw [← List.nil_append rest, ← closeTag_append] at htext
    exact htext
  · rw [List.mem_append, not_or]
    exact ⟨htag, by decide⟩

variable (hopen : ∀ rest, pattern (openTag tag rest) = none)
    (hclose : ∀ rest, pattern (closeTag tag rest) = none)

include hopen in
theorem search_openTag (rest : Str) : search pattern (openTag tag rest) = search pattern rest := by
  have hskip := search_append (noMatch_openTag hpattern htag hopen rest)
  rwa [openTag_append, List.nil_append] at hskip

include hclose in
theorem search_closeTag (rest : Str) : search pattern (closeTag tag rest) = search pattern rest := by
  have hskip := search_append (noMatch_closeTag hpattern htag hclose rest)
  rwa [closeTag_append, List.nil_append] at hskip

include hopen in
theorem findMatches_openTag (turns : ℕ) (rest : Str) :
    findMatches pattern (tag.toList.length + 2 + turns)
      (openTag tag rest) = findMatches pattern turns rest := by
  have hskip := findMatches_append (noMatch_openTag hpattern htag hopen rest) turns
  rw [openTag_append, List.nil_append, openTag, List.length_cons, List.length_append] at hskip
  exact hskip

include hclose in
theorem findMatches_closeTag (turns : ℕ) (rest : Str) :
    findMatches pattern (tag.toList.length + 3 + turns)
      (closeTag tag rest) = findMatches pattern turns rest := by
  have hskip := findMatches_append (noMatch_closeTag hpattern htag hclose rest) turns
  rw [closeTag_append, List.nil_append, closeTag, List.length_cons, List.length_cons,
    List.length_append] at hskip
  exact hskip

end Tags

section Contents

variable {literal : Str}

theorem literalPattern_bracket (literal : Str) {c : Char} (text : Str) (hc : c ≠ '<') :
    literalPattern sameLetter ('<' :: literal) (c :: text) = none := by
  rw [literalPattern, afterLiteral_bracket hc]
  rfl

theorem untilLiteral_openTag {tag : String} (htag : '<' ∉ tag.toList)
    (hopen : ∀ rest, literalPattern sameLetter ('<' :: literal) (openTag tag rest) = none) (rest : Str) :
    untilLiteral sameLetter ('<' :: literal) (openTag tag rest) =
      (untilLiteral sameLetter ('<' :: literal) rest).map fun found ↦ (openTag tag found.1, found.2) := by
  have hskip := untilLiteral_noMatch
    (noMatch_openTag (fun _ ↦ literalPattern_bracket literal) htag hopen rest)
  simp only [openTag_append, List.nil_append] at hskip
  exact hskip

theorem untilLiteral_closeTag {tag : String} (htag : '<' ∉ tag.toList)
    (hclose : ∀ rest, literalPattern sameLetter ('<' :: literal) (closeTag tag rest) = none) (rest : Str) :
    untilLiteral sameLetter ('<' :: literal) (closeTag tag rest) =
      (untilLiteral sameLetter ('<' :: literal) rest).map fun found ↦ (closeTag tag found.1, found.2) := by
  have hskip := untilLiteral_noMatch
    (noMatch_closeTag (fun _ ↦ literalPattern_bracket literal) htag hclose rest)
  simp only [closeTag_append, List.nil_append] at hskip
  exact hskip

theorem untilLiteral_name {name : Str} (hname : '<' ∉ name) (rest : Str) :
    untilLiteral sameLetter ('<' :: literal) (name ++ rest) =
      (untilLiteral sameLetter ('<' :: literal) rest).map fun found ↦ (name ++ found.1, found.2) :=
  untilLiteral_noMatch (noMatch_of_not_mem (fun _ ↦ literalPattern_bracket literal) hname rest)

theorem untilLiteral_params {params : Str} (hbrace : ∃ text, params = text ++ ['\x7d'])
    (hlast : (literal.all fun letter ↦ sameLetter letter '\x7d' = false) = true)
    (h : untilLiteral sameLetter literal params = none) (rest : Str) :
    untilLiteral sameLetter literal (params ++ rest) =
      (untilLiteral sameLetter literal rest).map fun found ↦ (params ++ found.1, found.2) := by
  obtain ⟨text, rfl⟩ := hbrace
  have hskip := untilLiteral_append
    (fun letter hletter ↦ of_decide_eq_true (List.all_eq_true.mp hlast letter hletter)) rest h
  simp only [List.append_assoc, List.singleton_append]
  exact hskip

theorem untilLiteral_close {tag : String} (htag : isLowered ('<' :: closing tag) = true) (rest : Str) :
    untilLiteral sameLetter ('<' :: closing tag) (closeTag tag rest) = some ([], rest) := by
  have hself : untilLiteral sameLetter ('<' :: closing tag) (closeTag tag [] ++ rest) = some ([], rest) :=
    untilLiteral_self (lower_of_isLowered htag) rest
  rwa [closeTag_append, List.nil_append] at hself

theorem element_name (lib : Library) {name : Str} (hname : '<' ∉ name) (rest : Str) :
    element lib "tool_name" (openTag "tool_name" (name ++ closeTag "tool_name" rest)) = some (name, rest) := by
  refine element_tag lib rfl ?_
  change untilLiteral sameLetter ('<' :: closing "tool_name") _ = _
  rw [untilLiteral_name hname, untilLiteral_close rfl, Option.map_some, List.append_nil]

theorem element_parameters (lib : Library) {params : Str} (hbrace : ∃ text, params = text ++ ['\x7d'])
    (h : untilLiteral sameLetter ('<' :: closing "parameters") params = none) :
    element lib "parameters" (openTag "parameters" (params ++ closeTag "parameters" [])) = some (params, []) := by
  refine element_tag lib rfl ?_
  change untilLiteral sameLetter ('<' :: closing "parameters") _ = _
  rw [untilLiteral_params hbrace rfl h, untilLiteral_close rfl,
    Option.map_some, List.append_nil]

theorem element_call (lib : Library) {name params : Str} (hname : '<' ∉ name)
    (hbrace : ∃ text, params = text ++ ['\x7d'])
    (h : untilLiteral sameLetter ('<' :: closing "tool_call") params = none) (rest : Str) :
    element lib "tool_call" (openTag "tool_call" (body name params ++ closeTag "tool_call" rest)) =
      some (body name params, rest) := by
  refine element_tag lib rfl ?_
  change untilLiteral sameLetter ('<' :: closing "tool_call") _ = _
  have hbody : body name params ++ closeTag "tool_call" rest =
      openTag "tool_name" (name ++ closeTag "tool_name"
        (openTag "parameters" (params ++ closeTag "parameters" (closeTag "tool_call" rest)))) := by
    simp only [body, openTag_append, closeTag_append, List.nil_append, List.append_assoc]
  rw [hbody, untilLiteral_openTag (by decide) (fun _ ↦ rfl), untilLiteral_name hname,
    untilLiteral_closeTag (by decide) (fun _ ↦ rfl), untilLiteral_openTag (by decide) (fun _ ↦ rfl),
    untilLiteral_params hbrace rfl h, untilLiteral_closeTag (by decide) (fun _ ↦ rfl),
    untilLiteral_close rfl]
  rfl

end Contents

variable {python : Python} (call : ToolCall python)

section Name

variable (hpython : python.Documented)

theorem isSpace_of_isAlphanum {c : Char} (h : c.isAlphanum = true) : isSpace c = false := by
  have hrange : (48 ≤ c.toNat ∧ c.toNat ≤ 57) ∨ (65 ≤ c.toNat ∧ c.toNat ≤ 90) ∨
      (97 ≤ c.toNat ∧ c.toNat ≤ 122) := by
    rw [Char.isAlphanum, Char.isAlpha, Char.isUpper, Char.isLower, Char.isDigit] at h
    simp only [Bool.or_eq_true, Bool.and_eq_true, decide_eq_true_eq] at h
    obtain (h | h) | h := h
    · exact .inr (.inl h)
    · exact .inr (.inr h)
    · exact .inl h
  rw [isSpace, Bool.or_eq_false_iff, Bool.and_eq_false_iff]
  simp only [decide_eq_false_iff_not, List.mem_cons, List.not_mem_nil, or_false]
  omega

include hpython in
theorem isSpace_of_isNameChar {c : Char} (h : isNameChar python.library c = true) : isSpace c = false := by
  rw [isNameChar, isWord, Bool.or_eq_true, Bool.or_eq_true, Bool.or_eq_true, Bool.or_eq_true,
    Bool.and_eq_true, decide_eq_true_eq, decide_eq_true_eq, decide_eq_true_eq, decide_eq_true_eq] at h
  obtain (((h | rfl) | ⟨-, h⟩) | rfl) | rfl := h
  · exact isSpace_of_isAlphanum h
  · decide
  · exact hpython.not_isSpace c h
  · decide
  · decide

theorem not_isNameChar_bracket : isNameChar python.library '<' = false := rfl

theorem not_isNameChar_amp : isNameChar python.library '&' = false := rfl

theorem bracket_not_mem_name : '<' ∉ call.name := by
  intro hmem
  exact absurd (call.name_chars _ hmem) (by rw [not_isNameChar_bracket]; exact Bool.false_ne_true)

theorem amp_not_mem_name : '&' ∉ call.name := by
  intro hmem
  exact absurd (call.name_chars _ hmem) (by rw [not_isNameChar_amp]; exact Bool.false_ne_true)

include hpython in
theorem strip_name : strip call.name = call.name := by
  obtain ⟨c, text, htext⟩ := List.exists_cons_of_ne_nil call.name_ne_nil
  have hc : c ∈ call.name := htext ▸ List.mem_cons_self
  have hlast := List.getLast_mem call.name_ne_nil
  exact strip_of_ends (isSpace_of_isNameChar hpython (call.name_chars c hc))
    (isSpace_of_isNameChar hpython (call.name_chars _ hlast)) htext
    ⟨_, (List.dropLast_append_getLast call.name_ne_nil).symm⟩

end Name

section Blocks

theorem cdata_of_head {c : Char} (hc : c ≠ '<') (text : Str) : cdata (c :: text) = none := by
  have hnone : afterLiteral sameLetter "<![cdata[".toList (c :: text) = none :=
    afterLiteral_bracket hc "![cdata[".toList text
  rw [cdata, hnone]

theorem search_of_openTag {α : Type} {pattern : Str → Option (α × Str)} {tag : String} {rest : Str}
    {found : α × Str} (h : pattern (openTag tag rest) = some found) :
    search pattern (openTag tag rest) = some found := by
  rw [openTag] at h ⊢
  rw [search, h]
  rfl

/-- The value of a tag is its content, if that has no white space at its ends, no bracket at its head
and no entities. -/
theorem xmlValue_of_search {lib : Library} {text content rest : Str} {tag : String} {c : Char}
    (hsearch : search (element lib tag) text = some (content, rest)) (hstrip : strip content = content)
    (hhead : content.head? = some c) (hc : c ≠ '<') (hunescape : lib.unescape content = content) :
    xmlValue lib text tag = content := by
  obtain ⟨tail, rfl⟩ := List.head?_eq_some_iff.mp hhead
  rw [xmlValue, hsearch]
  simp only [hstrip, cdata_of_head hc, Option.getD_none, hunescape]

/-- The rendering of the parameters holds no closing tag and no entity. -/
structure Plain : Prop where
  parameters : untilLiteral sameLetter "</parameters>".toList call.params = none
  toolCall : untilLiteral sameLetter "</tool_call>".toList call.params = none
  unescape : python.unescape call.params = call.params

variable {call} (hpython : python.Documented)

include hpython

theorem xmlValue_name : xmlValue python.library (body call.name call.params) "tool_name" = call.name := by
  obtain ⟨c, text, htext⟩ := List.exists_cons_of_ne_nil call.name_ne_nil
  have hc : c ≠ '<' := by
    rintro rfl
    exact bracket_not_mem_name call (htext ▸ List.mem_cons_self)
  exact xmlValue_of_search (search_of_openTag (element_name python.library (bracket_not_mem_name call) _))
    (strip_name call hpython) (htext ▸ rfl) hc (hpython.unescape_eq _ (amp_not_mem_name call))

omit hpython in
theorem params_braces (call : ToolCall python) :
    ∃ text, call.params = '\x7b' :: (text ++ ['\x7d']) := dumps_obj call.input

omit hpython in
theorem strip_params : strip call.params = call.params := by
  obtain ⟨text, htext⟩ := params_braces call
  exact strip_of_ends (by decide) (by decide) htext ⟨'\x7b' :: text, htext⟩

omit hpython in
theorem params_brace : ∃ text, call.params = text ++ ['\x7d'] := by
  obtain ⟨text, htext⟩ := params_braces call
  exact ⟨'\x7b' :: text, htext⟩

omit hpython in
theorem xmlValue_params (hplain : Plain call) :
    xmlValue python.library (body call.name call.params) "parameters" = call.params := by
  have hbracket : ∀ c text, c ≠ '<' → element python.library "parameters" (c :: text) = none :=
    fun c text hc ↦ element_bracket hc python.library "parameters" text
  have hsearch : search (element python.library "parameters") (body call.name call.params) =
      some (call.params, []) := by
    rw [body, search_openTag hbracket (by decide) (fun _ ↦ rfl),
      search_append (noMatch_of_not_mem hbracket (bracket_not_mem_name call) _),
      search_closeTag hbracket (by decide) (fun _ ↦ rfl)]
    exact search_of_openTag (element_parameters python.library params_brace hplain.parameters)
  obtain ⟨text, htext⟩ := params_braces call
  have hhead : call.params.head? = some '\x7b' := by
    rw [htext]
    rfl
  exact xmlValue_of_search hsearch strip_params hhead (by decide) hplain.unescape

theorem parseBlock_body (hplain : Plain call) :
    parseBlock python.library (body call.name call.params) = some (call.name, call.input) := by
  have hname : firstValue python.library (body call.name call.params) ["tool_name", "name", "function"] =
      call.name := by
    rw [firstValue, List.map_cons, xmlValue_name hpython, List.find?_cons_of_pos]
    · rfl
    · exact decide_eq_true call.name_ne_nil
  have hne : call.params ≠ [] := by
    obtain ⟨text, htext⟩ := params_braces call
    rw [htext]
    exact List.cons_ne_nil _ _
  have hparams : firstValue python.library (body call.name call.params) ["parameters", "input", "arguments"] =
      call.params := by
    rw [firstValue, List.map_cons, xmlValue_params hplain, List.find?_cons_of_pos]
    · rfl
    · exact decide_eq_true hne
  have hloads : python.library.loads call.params = some (.obj call.input) := loads_dumps call.distinct
  rw [parseBlock, hname, hparams]
  simp only [if_neg call.name_ne_nil, if_neg hne, parseToolParams, strip_params, hloads]

end Blocks

section Texts

/-- The names of the tags that a call may stand in. -/
def callTags : List String := ["tool_call", "function_call", "invoke"]

theorem rendered_cons (textMapper : Str → Str) (call : ToolCall python) (calls : List (ToolCall python)) :
    rendered textMapper (call :: calls) = openTag "tool_calls" (openTag "tool_call"
      (body call.name call.params ++ closeTag "tool_call" (closeTag "tool_calls" (rendered textMapper calls)))) := by
  rw [rendered, List.flatMap_cons, blockText_block, toolUseText_eq]
  rfl

theorem findMatches_of_openTag {α : Type} {pattern : Str → Option (α × Str)} {tag : String} {rest after : Str}
    {found : α} (h : pattern (openTag tag rest) = some (found, after)) (turns : ℕ) :
    findMatches pattern (turns + 1) (openTag tag rest) = found :: findMatches pattern turns after := by
  rw [openTag] at h ⊢
  rw [findMatches, h]

theorem findMatches_rendered (textMapper : Str → Str) {calls : List (ToolCall python)}
    (h : ∀ call ∈ calls, Plain call) {turns : ℕ} (hturns : (rendered textMapper calls).length ≤ turns) :
    findMatches (elements python.library callTags) turns (rendered textMapper calls) =
      calls.map fun call ↦ body call.name call.params := by
  have hbracket : ∀ c text, c ≠ '<' → elements python.library callTags (c :: text) = none :=
    fun c text hc ↦ elements_bracket hc python.library callTags text
  induction calls generalizing turns with
  | nil =>
    cases turns with
    | zero => rfl
    | succ turns => rfl
  | cons call calls ih =>
    obtain ⟨hcall, hcalls⟩ := List.forall_mem_cons.mp h
    rw [rendered_cons] at hturns ⊢
    have hlength : "tool_calls".toList.length = 10 := rfl
    rw [length_openTag, length_openTag, List.length_append, length_closeTag, length_closeTag,
      hlength] at hturns
    have hsplit : turns = "tool_calls".toList.length + 2 +
        ("tool_calls".toList.length + 3 + (turns - 26) + 1) := by omega
    have hcallTag : ∀ rest, elements python.library callTags (openTag "tool_call"
        (body call.name call.params ++ closeTag "tool_call" rest)) = some (body call.name call.params, rest) := by
      intro rest
      rw [elements, callTags, List.findSome?_cons,
        element_call python.library (bracket_not_mem_name call) params_brace hcall.toolCall]
    rw [hsplit, findMatches_openTag hbracket (by decide) (fun _ ↦ rfl), findMatches_of_openTag (hcallTag _),
      findMatches_closeTag hbracket (by decide) (fun _ ↦ rfl), ih hcalls (by omega)]
    rfl

theorem toolUseText_last (name params : Str) : ∃ text, toolUseText name params = text ++ [('>')] := by
  have hclosing : "</parameters></tool_call></tool_calls>".toList =
      "</parameters></tool_call></tool_calls".toList ++ [('>')] := by decide +kernel
  exact ⟨_, (congrArg _ hclosing).trans (List.append_assoc _ _ _).symm⟩

theorem rendered_last (textMapper : Str → Str) (call : ToolCall python) (calls : List (ToolCall python)) :
    ∃ text, rendered textMapper (call :: calls) = text ++ [('>')] := by
  induction calls generalizing call with
  | nil =>
    obtain ⟨text, htext⟩ := toolUseText_last call.name call.params
    exact ⟨text, by rw [rendered, List.flatMap_singleton, blockText_block, htext]⟩
  | cons next calls ih =>
    obtain ⟨text, htext⟩ := ih next
    rw [rendered] at htext ⊢
    rw [List.flatMap_cons, htext, ← List.append_assoc]
    exact ⟨_, rfl⟩

theorem strip_rendered (textMapper : Str → Str) (calls : List (ToolCall python)) :
    strip (rendered textMapper calls) = rendered textMapper calls := by
  cases calls with
  | nil => rfl
  | cons call calls =>
    exact strip_of_ends (by decide) (by decide) (rendered_cons textMapper call calls)
      (rendered_last textMapper call calls)

/-- Calls are read back from what they are rendered as, where that has no fence, and no parameters have
a closing tag or an entity. -/
theorem tool_calls_round_trip (hpython : python.Documented) (textMapper : Str → Str)
    {calls : List (ToolCall python)} (hfence : search fence (rendered textMapper calls) = none)
    (h : ∀ call ∈ calls, Plain call) :
    parseToolCalls python.library (rendered textMapper calls) =
      calls.map fun call ↦ (call.name, call.input) := by
  have hunfenced : strip (removeMatches fence (rendered textMapper calls).length (rendered textMapper calls)) =
      rendered textMapper calls := by
    rw [removeMatches_of_search hfence, strip_rendered]
  have hblocks : ∀ calls : List (ToolCall python), (∀ call ∈ calls, Plain call) →
      (calls.map fun call ↦ body call.name call.params).filterMap (parseBlock python.library) =
        calls.map fun call ↦ (call.name, call.input) := by
    intro calls hcalls
    rw [List.filterMap_map]
    refine (List.filterMap_congr fun call hcall ↦ parseBlock_body hpython (hcalls call hcall)).trans ?_
    exact congrFun (List.filterMap_eq_map (f := fun call : ToolCall python ↦ (call.name, call.input))) calls
  rw [parseToolCalls]
  simp only [hunfenced]
  exact (congrArg _ (findMatches_rendered textMapper h (Nat.le_refl _))).trans (hblocks calls h)

end Texts

end Calls

section Example

open Foundation.JsonText

def fractionText (q : ℚ) : Str :=
  integerText q.num ++ if q.den = 1 then [] else 'e' :: Nat.toDigits 10 q.den

def fractionValue (text : Str) : ℚ :=
  let digits := (text.dropWhile (· ≠ 'e')).tail
  integerValue (text.takeWhile (· ≠ 'e')) / if digits = [] then 1 else (Nat.ofDigitChars 10 digits 0 : ℚ)

theorem not_mem_integerText (n : ℤ) : 'e' ∉ integerText n := by
  have hdigits : 'e' ∉ Nat.toDigits 10 n.natAbs := fun h ↦ absurd (isDigitChar_of_mem_toDigits h) (by decide)
  rw [integerText]
  split
  · rw [List.mem_cons, not_or]
    exact ⟨by decide, hdigits⟩
  · exact hdigits

theorem fractionValue_text (q : ℚ) : fractionValue (fractionText q) = q := by
  have hdigits : ∀ c ∈ integerText q.num, decide (c ≠ 'e') = true := by
    intro c hc
    rw [decide_eq_true_eq]
    rintro rfl
    exact not_mem_integerText _ hc
  rw [fractionValue, fractionText, List.takeWhile_append_of_pos hdigits, List.dropWhile_append_of_pos hdigits]
  by_cases hden : q.den = 1
  · rw [if_pos hden]
    change (integerValue (integerText q.num ++ []) : ℚ) / 1 = q
    rw [List.append_nil, integerValue_text, div_one]
    exact Rat.den_eq_one_iff q |>.mp hden
  · rw [if_neg hden]
    change (integerValue (integerText q.num ++ []) : ℚ) /
      (if Nat.toDigits 10 q.den = [] then 1 else (Nat.ofDigitChars 10 (Nat.toDigits 10 q.den) 0 : ℚ)) = q
    rw [List.append_nil, integerValue_text, if_neg Nat.toDigits_ne_nil, Nat.ofDigitChars_ten_toDigits]
    exact Rat.num_div_den q

/-- Integers as JSON has them, and the other numbers in a form of their own. -/
def exampleNumbers : Numbers ℚ where
  text := fractionText
  read text := if fractionText (fractionValue text) = text then some (fractionValue text) else none
  read_text q := by rw [fractionValue_text, if_pos rfl]
  text_ne_nil q h := integers.text_ne_nil q.num (List.append_eq_nil_iff.mp h).1
  text_chars q c hc := by
    obtain hc | hc := List.mem_append.mp hc
    · exact integers.text_chars q.num c hc
    · split at hc
      · cases hc
      · obtain rfl | hc := List.mem_cons.mp hc
        · decide
        · exact Bool.or_eq_true_iff.mpr (.inl (isDigitChar_of_mem_toDigits hc))

/-- `html.unescape` on texts with no other entity. -/
def unescapeLess : Str → Str
  | [] => []
  | '&' :: 'l' :: 't' :: ';' :: text => '<' :: unescapeLess text
  | c :: text => c :: unescapeLess text

def examplePython : Python := ⟨fun _ ↦ false, id, unescapeLess, exampleNumbers, fun _ ↦ []⟩

theorem examplePython_documented : examplePython.Documented where
  not_isSpace c hc := by cases hc
  unescape_eq s hs := by
    induction s with
    | nil => rfl
    | cons c s ih =>
      rw [List.mem_cons, not_or] at hs
      change unescapeLess (c :: s) = c :: s
      rw [unescapeLess]
      · exact congrArg _ (ih hs.2)
      · intro text heq
        exact absurd heq.symm hs.1

def exampleCall (s : String) : ToolCall examplePython where
  id := "toolu".toList
  name := "f".toList
  name_ne_nil := List.cons_ne_nil _ _
  name_chars := List.forall_mem_singleton.mpr rfl
  input := [("a".toList, .str s.toList)]
  distinct := ⟨List.nodup_singleton _, trivial, trivial⟩

theorem tool_calls_round_trip_greeting :
    parseToolCalls examplePython.library (rendered id [exampleCall "<b>hi</b>\n", exampleCall "```"]) =
      [("f".toList, [("a".toList, .str "<b>hi</b>\n".toList)]), ("f".toList, [("a".toList, .str "```".toList)])] := by
  refine tool_calls_round_trip examplePython_documented id (by decide +kernel) fun call hcall ↦ ?_
  rw [List.mem_cons, List.mem_singleton] at hcall
  obtain rfl | rfl := hcall
  · exact ⟨by decide +kernel, by decide +kernel, by decide +kernel⟩
  · exact ⟨by decide +kernel, by decide +kernel, by decide +kernel⟩

/-- The arguments of the calls that are read, as texts. -/
def arguments (calls : List (Str × Fields)) : List (List Str) :=
  calls.map fun call ↦ call.2.map fun field ↦ strOr examplePython (some field.2)

/-- A closing tag, a fence and an entity in an argument are each read as markup. -/
theorem tool_calls_round_trip_not :
    parseToolCalls examplePython.library (rendered id [exampleCall "</tool_call>"]) ≠
        [("f".toList, [("a".toList, .str "</tool_call>".toList)])] ∧
      parseToolCalls examplePython.library (rendered id [exampleCall "```a```"]) ≠
        [("f".toList, [("a".toList, .str "```a```".toList)])] ∧
      parseToolCalls examplePython.library (rendered id [exampleCall "&lt;"]) ≠
        [("f".toList, [("a".toList, .str "&lt;".toList)])] := by
  have htag : arguments (parseToolCalls examplePython.library (rendered id [exampleCall "</tool_call>"])) =
      [[]] := by decide +kernel
  have hfence : arguments (parseToolCalls examplePython.library (rendered id [exampleCall "```a```"])) =
      [[[]]] := by decide +kernel
  have hentity : arguments (parseToolCalls examplePython.library (rendered id [exampleCall "&lt;"])) =
      [[['<']]] := by decide +kernel
  refine ⟨fun heq ↦ ?_, fun heq ↦ ?_, fun heq ↦ ?_⟩
  · rw [heq] at htag
    exact absurd htag (by decide)
  · rw [heq] at hfence
    exact absurd hfence (by decide)
  · rw [heq] at hentity
    exact absurd hentity (by decide)

end Example

end AllAiTools.ChatGpt2Api.Protocol.ToolCallsKept
