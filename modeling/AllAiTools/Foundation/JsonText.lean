import Mathlib

namespace AllAiTools.Foundation.JsonText

/-- A value of JSON with numbers of a type. -/
inductive Value (N : Type)
  | null
  | bool (value : Bool)
  | num (value : N)
  | str (value : List Char)
  | arr (items : List (Value N))
  | obj (fields : List (List Char × Value N))

def isDigitChar (c : Char) : Bool := '0' ≤ c && c ≤ '9'

def isNumberChar (c : Char) : Bool := isDigitChar c || ['-', '+', '.', 'e', 'E'].contains c

/-- How numbers are written and read. -/
structure Numbers (N : Type) where
  text : N → List Char
  read : List Char → Option N
  read_text : ∀ n, read (text n) = some n
  text_ne_nil : ∀ n, text n ≠ []
  text_chars : ∀ n, ∀ c ∈ text n, isNumberChar c = true

section Characters

def hexDigit (n : ℕ) : Char := (['0', '1', '2', '3', '4', '5', '6', '7', '8', '9', 'a', 'b', 'c', 'd', 'e',
  'f'][n]?).getD '0'

def hexValue (c : Char) : Option ℕ :=
  if '0' ≤ c ∧ c ≤ '9' then some (c.toNat - 48)
  else if 'a' ≤ c ∧ c ≤ 'f' then some (c.toNat - 87)
  else if 'A' ≤ c ∧ c ≤ 'F' then some (c.toNat - 55)
  else none

/-- A character of a string as it is written; those beyond ASCII stand for themselves. -/
def escape (c : Char) : List Char :=
  if c = '"' then ['\\', '"']
  else if c = '\\' then ['\\', '\\']
  else if c = '\n' then ['\\', 'n']
  else if c = '\r' then ['\\', 'r']
  else if c = '\t' then ['\\', 't']
  else if c = '\x08' then ['\\', 'b']
  else if c = '\x0c' then ['\\', 'f']
  else if c.toNat < 32 then ['\\', 'u', '0', '0', hexDigit (c.toNat / 16), hexDigit (c.toNat % 16)]
  else [c]

def printString (s : List Char) : List Char := '"' :: (s.flatMap escape ++ ['"'])

def readHex : List Char → Option (ℕ × List Char)
  | a :: b :: c :: d :: rest => do
    let a ← hexValue a
    let b ← hexValue b
    let c ← hexValue c
    let d ← hexValue d
    some (((a * 16 + b) * 16 + c) * 16 + d, rest)
  | _ => none

/-- What follows `\u`. Two surrogates make a character; one alone is none. -/
def readUnicode (text : List Char) : Option (Char × List Char) :=
  (readHex text).bind fun (high, rest) ↦
    if high < 0xD800 ∨ 0xE000 ≤ high then some (Char.ofNat high, rest)
    else
      match rest with
      | '\\' :: 'u' :: rest =>
        (readHex rest).bind fun (low, rest) ↦
          if high < 0xDC00 ∧ 0xDC00 ≤ low ∧ low < 0xE000 then
            some (Char.ofNat (0x10000 + (high - 0xD800) * 0x400 + (low - 0xDC00)), rest)
          else none
      | _ => none

/-- What follows a backslash. -/
def readEscape : List Char → Option (Char × List Char)
  | '"' :: rest => some ('"', rest)
  | '\\' :: rest => some ('\\', rest)
  | '/' :: rest => some ('/', rest)
  | 'b' :: rest => some ('\x08', rest)
  | 'f' :: rest => some ('\x0c', rest)
  | 'n' :: rest => some ('\n', rest)
  | 'r' :: rest => some ('\r', rest)
  | 't' :: rest => some ('\t', rest)
  | 'u' :: rest => readUnicode rest
  | _ => none

/-- The string up to its closing quote. -/
def parseString : ℕ → List Char → Option (List Char × List Char)
  | 0, _ => none
  | _ + 1, [] => none
  | fuel + 1, c :: rest =>
    if c = '"' then some ([], rest)
    else if c = '\\' then
      (readEscape rest).bind fun (c, rest) ↦ (parseString fuel rest).map fun (s, rest) ↦ (c :: s, rest)
    else if c.toNat < 32 then none
    else (parseString fuel rest).map fun (s, rest) ↦ (c :: s, rest)

end Characters

section Printing

variable {N : Type} (numbers : Numbers N) (itemGap keyGap : List Char)

def printField (key value : List Char) : List Char := printString key ++ ':' :: (keyGap ++ value)

mutual

/-- A value as it is written, with what stands behind commas and colons. -/
def print : Value N → List Char
  | .null => "null".toList
  | .bool true => "true".toList
  | .bool false => "false".toList
  | .num n => numbers.text n
  | .str s => printString s
  | .arr items => '[' :: printItems items
  | .obj fields => '\x7b' :: printFields fields

def printItems : List (Value N) → List Char
  | [] => [']']
  | item :: items => print item ++ printMoreItems items

def printMoreItems : List (Value N) → List Char
  | [] => [']']
  | item :: items => ',' :: (itemGap ++ (print item ++ printMoreItems items))

def printFields : List (List Char × Value N) → List Char
  | [] => ['\x7d']
  | (key, value) :: fields => printField keyGap key (print value) ++ printMoreFields fields

def printMoreFields : List (List Char × Value N) → List Char
  | [] => ['\x7d']
  | (key, value) :: fields =>
    ',' :: (itemGap ++ (printField keyGap key (print value) ++ printMoreFields fields))

end

end Printing

section Parsing

variable {N : Type} (numbers : Numbers N)

def isWhitespace (c : Char) : Bool := [' ', '\t', '\n', '\r'].contains c

def skipWhitespace (text : List Char) : List Char := text.dropWhile isWhitespace

/-- `fields[key] = value`. -/
def assign (fields : List (List Char × Value N)) (field : List Char × Value N) :
    List (List Char × Value N) :=
  if fields.any (·.1 = field.1) then fields.map fun old ↦ if old.1 = field.1 then field else old
  else fields ++ [field]

/-- The object with the fields in their order, the last value of a key in the place of its first. -/
def object (fields : List (List Char × Value N)) : Value N := .obj (fields.foldl assign [])

def parseNumber (text : List Char) : Option (Value N × List Char) :=
  (numbers.read (text.takeWhile isNumberChar)).map fun n ↦ (.num n, text.dropWhile isNumberChar)

mutual

def parseValue : ℕ → List Char → Option (Value N × List Char)
  | 0, _ => none
  | fuel + 1, text =>
    match text with
    | 'n' :: 'u' :: 'l' :: 'l' :: rest => some (.null, rest)
    | 't' :: 'r' :: 'u' :: 'e' :: rest => some (.bool true, rest)
    | 'f' :: 'a' :: 'l' :: 's' :: 'e' :: rest => some (.bool false, rest)
    | '"' :: rest => (parseString rest.length rest).map fun (s, rest) ↦ (.str s, rest)
    | '[' :: rest =>
      match skipWhitespace rest with
      | ']' :: rest => some (.arr [], rest)
      | rest => (parseItems fuel rest).map fun (items, rest) ↦ (.arr items, rest)
    | '\x7b' :: rest =>
      match skipWhitespace rest with
      | '\x7d' :: rest => some (.obj [], rest)
      | rest => (parseFields fuel rest).map fun (fields, rest) ↦ (object fields, rest)
    | text => parseNumber numbers text

def parseItems : ℕ → List Char → Option (List (Value N) × List Char)
  | 0, _ => none
  | fuel + 1, text =>
    (parseValue fuel text).bind fun (item, rest) ↦
      match skipWhitespace rest with
      | ']' :: rest => some ([item], rest)
      | ',' :: rest =>
        (parseItems fuel (skipWhitespace rest)).map fun (items, rest) ↦ (item :: items, rest)
      | _ => none

def parseFields : ℕ → List Char → Option (List (List Char × Value N) × List Char)
  | 0, _ => none
  | fuel + 1, text =>
    match text with
    | '"' :: rest =>
      (parseString rest.length rest).bind fun (key, rest) ↦
        match skipWhitespace rest with
        | ':' :: rest =>
          (parseValue fuel (skipWhitespace rest)).bind fun (value, rest) ↦
            match skipWhitespace rest with
            | '\x7d' :: rest => some ([(key, value)], rest)
            | ',' :: rest =>
              (parseFields fuel (skipWhitespace rest)).map fun (fields, rest) ↦
                ((key, value) :: fields, rest)
            | _ => none
        | _ => none
    | _ => none

end

/-- The value of a whole text. -/
def parse (text : List Char) : Option (Value N) :=
  (parseValue numbers (text.length + 1) (skipWhitespace text)).bind fun (value, rest) ↦
    if skipWhitespace rest = [] then some value else none

end Parsing

section Strings

theorem hexValue_hexDigit : ∀ n < 16, hexValue (hexDigit n) = some n := by decide

theorem readUnicode_control {c : Char} (h : c.toNat < 32) (text : List Char) :
    readUnicode ('0' :: '0' :: hexDigit (c.toNat / 16) :: hexDigit (c.toNat % 16) :: text) =
      some (c, text) := by
  have hhigh := hexValue_hexDigit (c.toNat / 16) (by omega)
  have hlow := hexValue_hexDigit (c.toNat % 16) (by omega)
  have hzero : hexValue '0' = some 0 := by decide
  have hvalue : ((0 * 16 + 0) * 16 + c.toNat / 16) * 16 + c.toNat % 16 = c.toNat := by omega
  have hread : readHex ('0' :: '0' :: hexDigit (c.toNat / 16) :: hexDigit (c.toNat % 16) :: text) =
      some (c.toNat, text) := by
    simp only [readHex, hhigh, hlow, hzero, Option.bind_eq_bind, Option.bind_some, hvalue]
  rw [readUnicode, hread, Option.bind_some]
  refine (if_pos (.inl (by omega))).trans ?_
  rw [Char.ofNat_toNat]

/-- A character is read back from what is written of it. -/
theorem parseString_escape (fuel : ℕ) (c : Char) (text : List Char) :
    parseString (fuel + 1) (escape c ++ text) =
      (parseString fuel text).map fun (s, rest) ↦ (c :: s, rest) := by
  rw [escape]
  split
  · subst c
    rfl
  split
  · subst c
    rfl
  split
  · subst c
    rfl
  split
  · subst c
    rfl
  split
  · subst c
    rfl
  split
  · subst c
    rfl
  split
  · subst c
    rfl
  split
  · rename_i hcontrol
    change (readUnicode ('0' :: '0' :: hexDigit _ :: hexDigit _ :: text)).bind _ = _
    rw [readUnicode_control hcontrol]
    rfl
  · rename_i hquote hslash _ _ _ _ _ hcontrol
    rw [List.singleton_append, parseString, if_neg hquote, if_neg hslash, if_neg hcontrol]

theorem parseString_print (s : List Char) {fuel : ℕ} (h : s.length < fuel) (rest : List Char) :
    parseString fuel (s.flatMap escape ++ '"' :: rest) = some (s, rest) := by
  induction s generalizing fuel with
  | nil =>
    obtain ⟨fuel, rfl⟩ := Nat.exists_eq_add_one.mpr h
    rfl
  | cons c s ih =>
    obtain ⟨fuel, rfl⟩ := Nat.exists_eq_add_one.mpr (Nat.zero_lt_of_lt h)
    rw [List.flatMap_cons, List.append_assoc, parseString_escape, ih (Nat.lt_of_succ_lt_succ h)]
    rfl

theorem escape_ne_nil (c : Char) : escape c ≠ [] := by
  rw [escape]
  split_ifs <;> exact List.cons_ne_nil _ _

theorem length_le_flatMap_escape (s : List Char) : s.length ≤ (s.flatMap escape).length := by
  induction s with
  | nil => exact Nat.le_refl 0
  | cons c s ih =>
    have hpos := List.length_pos_iff.mpr (escape_ne_nil c)
    rw [List.flatMap_cons, List.length_append, List.length_cons]
    omega

/-- A string is read back from what stands behind its first quote. -/
theorem parseString_printString (s rest : List Char) :
    parseString (s.flatMap escape ++ '"' :: rest).length (s.flatMap escape ++ '"' :: rest) = some (s, rest) := by
  refine parseString_print s ?_ rest
  have hle := length_le_flatMap_escape s
  rw [List.length_append, List.length_cons]
  omega

theorem printString_append (s rest : List Char) :
    printString s ++ rest = '"' :: (s.flatMap escape ++ '"' :: rest) := by
  rw [printString, List.cons_append, List.append_assoc, List.singleton_append]

def isPrintable (c : Char) : Bool := 32 ≤ c.toNat && c.toNat < 127

theorem isPrintable_hexDigit (n : ℕ) : isPrintable (hexDigit n) = true := by
  by_cases hn : n < 16
  · revert n
    decide
  · rw [hexDigit, List.getElem?_eq_none (Nat.le_of_not_lt hn)]
    decide

/-- What is written of a character is printable, or the character. -/
theorem escape_chars (c : Char) : (escape c).all isPrintable = true ∨ (escape c = [c] ∧ 32 ≤ c.toNat) := by
  rw [escape]
  split
  · exact .inl rfl
  split
  · exact .inl rfl
  split
  · exact .inl rfl
  split
  · exact .inl rfl
  split
  · exact .inl rfl
  split
  · exact .inl rfl
  split
  · exact .inl rfl
  split
  · refine .inl ?_
    simp only [List.all_cons, isPrintable_hexDigit]
    rfl
  · rename_i hcontrol
    exact .inr ⟨rfl, Nat.le_of_not_lt hcontrol⟩

end Strings

end AllAiTools.Foundation.JsonText
