import AllAiTools.Foundation.JsonText

namespace AllAiTools.Foundation.JsonText

section Values

variable {N : Type}

mutual

/-- Every object in the value has each key once. -/
def Value.Distinct : Value N → Prop
  | .arr items => DistinctItems items
  | .obj fields => (fields.map Prod.fst).Nodup ∧ DistinctFields fields
  | _ => True

def DistinctItems : List (Value N) → Prop
  | [] => True
  | item :: items => item.Distinct ∧ DistinctItems items

def DistinctFields : List (List Char × Value N) → Prop
  | [] => True
  | (_, value) :: fields => value.Distinct ∧ DistinctFields fields

end

mutual

/-- The characters of the strings in the value, keys included. -/
def Value.chars : Value N → List Char
  | .str s => s
  | .arr items => charsOfItems items
  | .obj fields => charsOfFields fields
  | _ => []

def charsOfItems : List (Value N) → List Char
  | [] => []
  | item :: items => item.chars ++ charsOfItems items

def charsOfFields : List (List Char × Value N) → List Char
  | [] => []
  | (key, value) :: fields => key ++ value.chars ++ charsOfFields fields

end

theorem foldl_assign (fields acc : List (List Char × Value N))
    (h : ((acc ++ fields).map Prod.fst).Nodup) : fields.foldl assign acc = acc ++ fields := by
  induction fields generalizing acc with
  | nil => rw [List.foldl_nil, List.append_nil]
  | cons field fields ih =>
    have hnew : ¬ acc.any (·.1 = field.1) = true := by
      intro hany
      obtain ⟨old, hold, heq⟩ := List.any_eq_true.mp hany
      rw [List.map_append, List.nodup_append] at h
      exact h.2.2 _ (List.mem_map_of_mem hold) _ (List.mem_map_of_mem List.mem_cons_self)
        (of_decide_eq_true heq)
    rw [List.append_cons] at h ⊢
    rw [List.foldl_cons, assign, if_neg hnew]
    exact ih _ h

theorem object_eq {fields : List (List Char × Value N)} (h : (fields.map Prod.fst).Nodup) :
    object fields = .obj fields := by
  rw [object, foldl_assign fields [] h, List.nil_append]

end Values

section Heads

variable {N : Type} (numbers : Numbers N) (itemGap keyGap : List Char)

/-- What follows a number does not go on with it. -/
def Stops (rest : List Char) : Prop := ∀ c ∈ rest.head?, isNumberChar c = false

/-- A value begins with a character that is no blank and closes nothing. -/
theorem print_head (v : Value N) : ∃ c text, print numbers itemGap keyGap v = c :: text ∧
    isWhitespace c = false ∧ c ≠ ']' := by
  cases v with
  | null => exact ⟨_, _, rfl, by decide⟩
  | bool value => cases value <;> exact ⟨_, _, rfl, by decide⟩
  | num n =>
    obtain ⟨c, text, htext⟩ := List.exists_cons_of_ne_nil (numbers.text_ne_nil n)
    have hc : isNumberChar c = true := numbers.text_chars n c (htext ▸ List.mem_cons_self)
    refine ⟨c, text, htext, ?_, ?_⟩
    · by_contra hblank
      rw [Bool.not_eq_false, isWhitespace, List.contains_iff_mem] at hblank
      simp only [List.mem_cons, List.not_mem_nil, or_false] at hblank
      obtain rfl | rfl | rfl | rfl := hblank <;> exact absurd hc (by decide)
    · rintro rfl
      exact absurd hc (by decide)
  | str s => exact ⟨_, _, rfl, by decide⟩
  | arr items => exact ⟨_, _, by rw [print], by decide⟩
  | obj fields => exact ⟨_, _, by rw [print], by decide⟩

theorem skipWhitespace_of_head {c : Char} (h : isWhitespace c = false) (text : List Char) :
    skipWhitespace (c :: text) = c :: text := by
  rw [skipWhitespace, List.dropWhile_cons_of_neg]
  rw [h]
  exact Bool.false_ne_true

@[simp] theorem skipWhitespace_print (v : Value N) (rest : List Char) :
    skipWhitespace (print numbers itemGap keyGap v ++ rest) = print numbers itemGap keyGap v ++ rest := by
  obtain ⟨c, text, htext, hc, -⟩ := print_head numbers itemGap keyGap v
  rw [htext, List.cons_append, skipWhitespace_of_head hc]

theorem skipWhitespace_gap {gap : List Char} (h : ∀ c ∈ gap, isWhitespace c = true) (text : List Char) :
    skipWhitespace (gap ++ text) = skipWhitespace text :=
  List.dropWhile_append_of_pos h

theorem printItems_head (item : Value N) (items : List (Value N)) (rest : List Char) :
    ∃ c text, printItems numbers itemGap keyGap (item :: items) ++ rest = c :: text ∧
      isWhitespace c = false ∧ c ≠ ']' := by
  obtain ⟨c, text, htext, hc⟩ := print_head numbers itemGap keyGap item
  rw [printItems, htext, List.cons_append, List.cons_append]
  exact ⟨c, _, rfl, hc⟩

theorem printFields_head (field : List Char × Value N) (fields : List (List Char × Value N))
    (rest : List Char) :
    ∃ text, printFields numbers itemGap keyGap (field :: fields) ++ rest = '"' :: text := by
  rw [printFields, printField, printString, List.append_assoc, List.append_assoc, List.cons_append]
  exact ⟨_, rfl⟩

end Heads

section Reading

variable {N : Type} (numbers : Numbers N) (itemGap keyGap : List Char)

/-- Values are read back by turns of that number. -/
def ReadsValue (fuel : ℕ) : Prop :=
  ∀ (v : Value N) (rest : List Char), v.Distinct → Stops rest →
    (print numbers itemGap keyGap v).length ≤ fuel →
      parseValue numbers fuel (print numbers itemGap keyGap v ++ rest) = some (v, rest)

def ReadsItems (fuel : ℕ) : Prop :=
  ∀ (item : Value N) (items : List (Value N)) (rest : List Char), DistinctItems (item :: items) →
    (printItems numbers itemGap keyGap (item :: items)).length ≤ fuel →
      parseItems numbers fuel (printItems numbers itemGap keyGap (item :: items) ++ rest) =
        some (item :: items, rest)

def ReadsFields (fuel : ℕ) : Prop :=
  ∀ (field : List Char × Value N) (fields : List (List Char × Value N)) (rest : List Char),
    DistinctFields (field :: fields) →
      (printFields numbers itemGap keyGap (field :: fields)).length ≤ fuel →
        parseFields numbers fuel (printFields numbers itemGap keyGap (field :: fields) ++ rest) =
          some (field :: fields, rest)

variable {numbers itemGap keyGap}

theorem parseNumber_text (n : N) {rest : List Char} (h : Stops rest) :
    parseNumber numbers (numbers.text n ++ rest) = some (.num n, rest) := by
  have htake : (numbers.text n ++ rest).takeWhile isNumberChar = numbers.text n := by
    rw [List.takeWhile_append_of_pos (numbers.text_chars n)]
    cases rest with
    | nil => rw [List.takeWhile_nil, List.append_nil]
    | cons c rest => rw [List.takeWhile_cons_of_neg (by simp [h c rfl]), List.append_nil]
  have hdrop : (numbers.text n ++ rest).dropWhile isNumberChar = rest := by
    rw [List.dropWhile_append_of_pos (numbers.text_chars n)]
    cases rest with
    | nil => rfl
    | cons c rest => rw [List.dropWhile_cons_of_neg (by simp [h c rfl])]
  rw [parseNumber, htake, hdrop, numbers.read_text]
  rfl

/-- A text that begins like a number is read as one. -/
theorem parseValue_number {fuel : ℕ} {c : Char} (h : isNumberChar c = true) (text : List Char) :
    parseValue numbers (fuel + 1) (c :: text) = parseNumber numbers (c :: text) := by
  have hne : ∀ d : Char, isNumberChar d = false → c ≠ d := by
    intro d hd heq
    rw [← heq, h] at hd
    cases hd
  rw [parseValue]
  · intro rest heq
    exact hne 'n' (by decide) (List.cons.inj heq).1
  · intro rest heq
    exact hne 't' (by decide) (List.cons.inj heq).1
  · intro rest heq
    exact hne 'f' (by decide) (List.cons.inj heq).1
  · intro rest heq
    exact hne '"' (by decide) (List.cons.inj heq).1
  · intro rest heq
    exact hne '[' (by decide) (List.cons.inj heq).1
  · intro rest heq
    exact hne '\x7b' (by decide) (List.cons.inj heq).1

theorem stops_of_head {c : Char} (h : isNumberChar c = false) (text : List Char) : Stops (c :: text) := by
  intro d hd
  obtain rfl := Option.some.inj hd
  exact h

theorem readsValue_succ {fuel : ℕ} (hitems : ReadsItems numbers itemGap keyGap fuel)
    (hfields : ReadsFields numbers itemGap keyGap fuel) :
    ReadsValue numbers itemGap keyGap (fuel + 1) := by
  intro v rest hdistinct hstops hlength
  cases v with
  | null => rw [print]; rfl
  | bool value => cases value <;> (rw [print]; rfl)
  | num n =>
    rw [print]
    obtain ⟨c, text, htext⟩ := List.exists_cons_of_ne_nil (numbers.text_ne_nil n)
    have hc : isNumberChar c = true := numbers.text_chars n c (htext ▸ List.mem_cons_self)
    have hnumber : parseNumber numbers (numbers.text n ++ rest) = some (.num n, rest) :=
        parseNumber_text n hstops
    rw [htext, List.cons_append] at hnumber ⊢
    rw [parseValue_number hc, hnumber]
  | str s =>
    rw [print, printString_append, parseValue, parseString_printString]
    rfl
  | arr items =>
    rw [print, List.length_cons] at hlength
    rw [print, List.cons_append, parseValue]
    cases items with
    | nil => rw [printItems]; rfl
    | cons item items =>
      obtain ⟨c, text, htext, hblank, hclose⟩ := printItems_head numbers itemGap keyGap item items rest
      have hread := hitems item items rest hdistinct (Nat.le_of_succ_le_succ hlength)
      rw [htext] at hread ⊢
      rw [skipWhitespace_of_head hblank]
      split
      · rename_i heq
        exact absurd (List.cons.inj heq).1 hclose
      · rw [hread]
        rfl
  | obj fields =>
    rw [print, List.length_cons] at hlength
    rw [print, List.cons_append, parseValue]
    cases fields with
    | nil => rw [printFields]; rfl
    | cons field fields =>
      obtain ⟨text, htext⟩ := printFields_head numbers itemGap keyGap field fields rest
      have hread := hfields field fields rest hdistinct.2 (Nat.le_of_succ_le_succ hlength)
      rw [htext] at hread ⊢
      rw [skipWhitespace_of_head (by decide)]
      change (parseFields numbers fuel ('"' :: text)).map _ = _
      rw [hread, ← object_eq hdistinct.1]
      rfl

theorem printMoreItems_length (items : List (Value N)) :
    1 ≤ (printMoreItems numbers itemGap keyGap items).length := by
  cases items with
  | nil => rw [printMoreItems]; rfl
  | cons item items =>
    rw [printMoreItems, List.length_cons]
    exact Nat.le_add_left 1 _

theorem stops_printMoreItems (items : List (Value N)) (rest : List Char) :
    Stops (printMoreItems numbers itemGap keyGap items ++ rest) := by
  cases items with
  | nil =>
    rw [printMoreItems]
    exact stops_of_head (by decide) _
  | cons item items =>
    rw [printMoreItems]
    exact stops_of_head (by decide) _

theorem readsItems_succ (hgap : ∀ c ∈ itemGap, isWhitespace c = true) {fuel : ℕ}
    (hvalue : ReadsValue numbers itemGap keyGap fuel) (hitems : ReadsItems numbers itemGap keyGap fuel) :
    ReadsItems numbers itemGap keyGap (fuel + 1) := by
  intro item items rest hdistinct hlength
  rw [printItems, List.length_append] at hlength
  have hmore : 1 ≤ (printMoreItems numbers itemGap keyGap items).length := printMoreItems_length items
  have hread := hvalue item (printMoreItems numbers itemGap keyGap items ++ rest) hdistinct.1
    (stops_printMoreItems items rest) (by omega)
  rw [printItems, List.append_assoc, parseItems, hread, Option.bind_some]
  cases items with
  | nil => rw [printMoreItems]; rfl
  | cons item' items =>
    rw [printMoreItems, List.length_cons, List.length_append] at hlength
    have hread' := hitems item' items rest hdistinct.2 (by rw [printItems]; omega)
    rw [printItems] at hread'
    rw [printMoreItems, List.cons_append, List.append_assoc]
    change (parseItems numbers fuel (skipWhitespace _)).map _ = _
    rw [skipWhitespace_gap hgap, List.append_assoc, skipWhitespace_print, ← List.append_assoc, hread']
    rfl

theorem printMoreFields_length (fields : List (List Char × Value N)) :
    1 ≤ (printMoreFields numbers itemGap keyGap fields).length := by
  cases fields with
  | nil => rw [printMoreFields]; rfl
  | cons field fields =>
    rw [printMoreFields, List.length_cons]
    exact Nat.le_add_left 1 _

theorem stops_printMoreFields (fields : List (List Char × Value N)) (rest : List Char) :
    Stops (printMoreFields numbers itemGap keyGap fields ++ rest) := by
  cases fields with
  | nil =>
    rw [printMoreFields]
    exact stops_of_head (by decide) _
  | cons field fields =>
    rw [printMoreFields]
    exact stops_of_head (by decide) _

theorem printField_append (key value rest : List Char) : printField keyGap key value ++ rest =
    '"' :: (key.flatMap escape ++ '"' :: ':' :: (keyGap ++ (value ++ rest))) := by
  rw [printField, List.append_assoc, printString_append, List.cons_append, List.append_assoc]

theorem length_printField (key value : List Char) :
    value.length + 2 ≤ (printField keyGap key value).length := by
  rw [printField, List.length_append, printString, List.length_cons, List.length_cons, List.length_append,
    List.length_append, List.length_singleton]
  omega

theorem readsFields_succ (hitemGap : ∀ c ∈ itemGap, isWhitespace c = true)
    (hkeyGap : ∀ c ∈ keyGap, isWhitespace c = true) {fuel : ℕ}
    (hvalue : ReadsValue numbers itemGap keyGap fuel) (hfields : ReadsFields numbers itemGap keyGap fuel) :
    ReadsFields numbers itemGap keyGap (fuel + 1) := by
  intro field fields rest hdistinct hlength
  obtain ⟨key, value⟩ := field
  rw [printFields, List.length_append] at hlength
  have hmore : 1 ≤ (printMoreFields numbers itemGap keyGap fields).length := printMoreFields_length fields
  have hfield : _ ≤ (printField keyGap key (print numbers itemGap keyGap value)).length :=
    length_printField key _
  have hread := hvalue value (printMoreFields numbers itemGap keyGap fields ++ rest) hdistinct.1
    (stops_printMoreFields fields rest) (by omega)
  rw [printFields, List.append_assoc, printField_append, parseFields, parseString_printString]
  change (parseValue numbers fuel (skipWhitespace _)).bind _ = _
  rw [skipWhitespace_gap hkeyGap, skipWhitespace_print, hread, Option.bind_some]
  cases fields with
  | nil => rw [printMoreFields]; rfl
  | cons field' fields =>
    obtain ⟨key', value'⟩ := field'
    rw [printMoreFields, List.length_cons, List.length_append] at hlength
    have hread' := hfields (key', value') fields rest hdistinct.2 (by rw [printFields]; omega)
    rw [printFields, List.append_assoc, printField_append] at hread'
    rw [printMoreFields, List.cons_append, List.append_assoc]
    change (parseFields numbers fuel (skipWhitespace _)).map _ = _
    rw [skipWhitespace_gap hitemGap, List.append_assoc, printField_append,
      skipWhitespace_of_head (by decide), hread']
    rfl

/-- What is written is read back, when there are turns enough. -/
theorem reads (hitemGap : ∀ c ∈ itemGap, isWhitespace c = true)
    (hkeyGap : ∀ c ∈ keyGap, isWhitespace c = true) (fuel : ℕ) :
    ReadsValue numbers itemGap keyGap fuel ∧ ReadsItems numbers itemGap keyGap fuel ∧
      ReadsFields numbers itemGap keyGap fuel := by
  induction fuel with
  | zero =>
    refine ⟨fun v rest _ _ hlength ↦ ?_, fun item items rest _ hlength ↦ ?_,
      fun field fields rest _ hlength ↦ ?_⟩
    · obtain ⟨c, text, htext, -⟩ := print_head numbers itemGap keyGap v
      rw [htext] at hlength
      exact absurd hlength (Nat.not_succ_le_zero _)
    · have hmore : 1 ≤ (printMoreItems numbers itemGap keyGap items).length := printMoreItems_length items
      rw [printItems, List.length_append] at hlength
      omega
    · have hmore : 1 ≤ (printMoreFields numbers itemGap keyGap fields).length := printMoreFields_length fields
      rw [printFields, List.length_append] at hlength
      omega
  | succ fuel ih =>
    obtain ⟨hvalue, hitems, hfields⟩ := ih
    exact ⟨readsValue_succ hitems hfields, readsItems_succ hitemGap hvalue hitems,
      readsFields_succ hitemGap hkeyGap hvalue hfields⟩

theorem parse_print (hitemGap : ∀ c ∈ itemGap, isWhitespace c = true)
    (hkeyGap : ∀ c ∈ keyGap, isWhitespace c = true) {v : Value N} (h : v.Distinct) :
    parse numbers (print numbers itemGap keyGap v) = some v := by
  obtain ⟨hvalue, -⟩ : ReadsValue numbers itemGap keyGap _ ∧ _ :=
    reads hitemGap hkeyGap ((print numbers itemGap keyGap v).length + 1)
  have hread := hvalue v [] h (fun c hc ↦ by cases hc) (Nat.le_succ _)
  have hskip := skipWhitespace_print numbers itemGap keyGap v []
  rw [List.append_nil] at hread hskip
  rw [parse, hskip, hread]
  rfl

end Reading

section Characters

variable {N : Type} {numbers : Numbers N} {itemGap keyGap : List Char} {p : Char → Prop}

theorem isPrintable_of_isNumberChar {c : Char} (h : isNumberChar c = true) : isPrintable c = true := by
  rw [isNumberChar, Bool.or_eq_true, isDigitChar, Bool.and_eq_true, decide_eq_true_eq, decide_eq_true_eq,
    List.contains_iff_mem] at h
  obtain ⟨hlow, hhigh⟩ | h := h
  · have hlow' : 48 ≤ c.toNat := hlow
    have hhigh' : c.toNat ≤ 57 := hhigh
    rw [isPrintable, Bool.and_eq_true, decide_eq_true_eq, decide_eq_true_eq]
    omega
  · simp only [List.mem_cons, List.not_mem_nil, or_false] at h
    obtain rfl | rfl | rfl | rfl | rfl := h <;> decide

theorem printString_chars (hp : ∀ c, isPrintable c = true → p c) {s : List Char}
    (h : ∀ c ∈ s, 32 ≤ c.toNat → p c) : ∀ c ∈ printString s, p c := by
  intro d hd
  rw [printString, List.mem_cons, List.mem_append, List.mem_singleton] at hd
  obtain rfl | hd | rfl := hd
  · exact hp _ (by decide)
  · obtain ⟨c, hc, hd⟩ := List.mem_flatMap.mp hd
    obtain hall | ⟨hsame, hcontrol⟩ := escape_chars c
    · exact hp d (List.all_eq_true.mp hall d hd)
    · rw [hsame, List.mem_singleton] at hd
      exact hd ▸ h c hc hcontrol
  · exact hp _ (by decide)

theorem printField_chars (hp : ∀ c, isPrintable c = true → p c)
    (hkeyGap : ∀ c ∈ keyGap, isPrintable c = true) {key value : List Char}
    (hkey : ∀ c ∈ key, 32 ≤ c.toNat → p c) (hvalue : ∀ c ∈ value, p c) :
    ∀ c ∈ printField keyGap key value, p c := by
  rw [printField, List.forall_mem_append, List.forall_mem_cons, List.forall_mem_append]
  exact ⟨printString_chars hp hkey, hp _ (by decide), fun c hc ↦ hp c (hkeyGap c hc), hvalue⟩

mutual

/-- What is written of a value is printable but for what its strings hold, control characters apart. -/
theorem print_chars (hp : ∀ c, isPrintable c = true → p c)
    (hitemGap : ∀ c ∈ itemGap, isPrintable c = true) (hkeyGap : ∀ c ∈ keyGap, isPrintable c = true) :
    ∀ v : Value N, (∀ c ∈ v.chars, 32 ≤ c.toNat → p c) → ∀ c ∈ print numbers itemGap keyGap v, p c
  | .null, _ => by
    rw [print]
    exact fun c hc ↦ hp c (List.all_eq_true.mp (by decide : "null".toList.all isPrintable = true) c hc)
  | .bool true, _ => by
    rw [print]
    exact fun c hc ↦ hp c (List.all_eq_true.mp (by decide : "true".toList.all isPrintable = true) c hc)
  | .bool false, _ => by
    rw [print]
    exact fun c hc ↦ hp c (List.all_eq_true.mp (by decide : "false".toList.all isPrintable = true) c hc)
  | .num n, _ => by
    rw [print]
    exact fun c hc ↦ hp c (isPrintable_of_isNumberChar (numbers.text_chars n c hc))
  | .str s, h => by
    rw [Value.chars] at h
    rw [print]
    exact printString_chars hp h
  | .arr items, h => by
    rw [Value.chars] at h
    rw [print, List.forall_mem_cons]
    exact ⟨hp _ (by decide), printItems_chars hp hitemGap hkeyGap items h⟩
  | .obj fields, h => by
    rw [Value.chars] at h
    rw [print, List.forall_mem_cons]
    exact ⟨hp _ (by decide), printFields_chars hp hitemGap hkeyGap fields h⟩

theorem printItems_chars (hp : ∀ c, isPrintable c = true → p c)
    (hitemGap : ∀ c ∈ itemGap, isPrintable c = true) (hkeyGap : ∀ c ∈ keyGap, isPrintable c = true) :
    ∀ items : List (Value N), (∀ c ∈ charsOfItems items, 32 ≤ c.toNat → p c) →
      ∀ c ∈ printItems numbers itemGap keyGap items, p c
  | [], _ => by
    rw [printItems, List.forall_mem_singleton]
    exact hp _ (by decide)
  | item :: items, h => by
    rw [charsOfItems, List.forall_mem_append] at h
    rw [printItems, List.forall_mem_append]
    exact ⟨print_chars hp hitemGap hkeyGap item h.1, printMoreItems_chars hp hitemGap hkeyGap items h.2⟩

theorem printMoreItems_chars (hp : ∀ c, isPrintable c = true → p c)
    (hitemGap : ∀ c ∈ itemGap, isPrintable c = true) (hkeyGap : ∀ c ∈ keyGap, isPrintable c = true) :
    ∀ items : List (Value N), (∀ c ∈ charsOfItems items, 32 ≤ c.toNat → p c) →
      ∀ c ∈ printMoreItems numbers itemGap keyGap items, p c
  | [], _ => by
    rw [printMoreItems, List.forall_mem_singleton]
    exact hp _ (by decide)
  | item :: items, h => by
    rw [charsOfItems, List.forall_mem_append] at h
    rw [printMoreItems, List.forall_mem_cons, List.forall_mem_append, List.forall_mem_append]
    exact ⟨hp _ (by decide), fun c hc ↦ hp c (hitemGap c hc), print_chars hp hitemGap hkeyGap item h.1,
      printMoreItems_chars hp hitemGap hkeyGap items h.2⟩

theorem printFields_chars (hp : ∀ c, isPrintable c = true → p c)
    (hitemGap : ∀ c ∈ itemGap, isPrintable c = true) (hkeyGap : ∀ c ∈ keyGap, isPrintable c = true) :
    ∀ fields : List (List Char × Value N), (∀ c ∈ charsOfFields fields, 32 ≤ c.toNat → p c) →
      ∀ c ∈ printFields numbers itemGap keyGap fields, p c
  | [], _ => by
    rw [printFields, List.forall_mem_singleton]
    exact hp _ (by decide)
  | (key, value) :: fields, h => by
    rw [charsOfFields, List.forall_mem_append, List.forall_mem_append] at h
    rw [printFields, List.forall_mem_append]
    exact ⟨printField_chars hp hkeyGap h.1.1 (print_chars hp hitemGap hkeyGap value h.1.2),
      printMoreFields_chars hp hitemGap hkeyGap fields h.2⟩

theorem printMoreFields_chars (hp : ∀ c, isPrintable c = true → p c)
    (hitemGap : ∀ c ∈ itemGap, isPrintable c = true) (hkeyGap : ∀ c ∈ keyGap, isPrintable c = true) :
    ∀ fields : List (List Char × Value N), (∀ c ∈ charsOfFields fields, 32 ≤ c.toNat → p c) →
      ∀ c ∈ printMoreFields numbers itemGap keyGap fields, p c
  | [], _ => by
    rw [printMoreFields, List.forall_mem_singleton]
    exact hp _ (by decide)
  | (key, value) :: fields, h => by
    rw [charsOfFields, List.forall_mem_append, List.forall_mem_append] at h
    rw [printMoreFields, List.forall_mem_cons, List.forall_mem_append, List.forall_mem_append]
    exact ⟨hp _ (by decide), fun c hc ↦ hp c (hitemGap c hc),
      printField_chars hp hkeyGap h.1.1 (print_chars hp hitemGap hkeyGap value h.1.2),
      printMoreFields_chars hp hitemGap hkeyGap fields h.2⟩

end

end Characters

section Integers

def integerText (n : ℤ) : List Char :=
  if n < 0 then '-' :: Nat.toDigits 10 n.natAbs else Nat.toDigits 10 n.natAbs

def integerValue (text : List Char) : ℤ :=
  if text.head? = some '-' then -(Nat.ofDigitChars 10 text.tail 0 : ℕ) else (Nat.ofDigitChars 10 text 0 : ℕ)

theorem isDigitChar_of_mem_toDigits {n : ℕ} {c : Char} (h : c ∈ Nat.toDigits 10 n) :
    isDigitChar c = true := by
  have hdigit := Nat.isDigit_of_mem_toDigits (by decide) (Nat.le_refl 10) h
  rw [Char.isDigit, Bool.and_eq_true] at hdigit
  rw [isDigitChar, Bool.and_eq_true]
  exact hdigit

theorem integerValue_text (n : ℤ) : integerValue (integerText n) = n := by
  rw [integerText, integerValue]
  split
  · rw [List.head?_cons, if_pos rfl, List.tail_cons, Nat.ofDigitChars_ten_toDigits]
    omega
  · rw [if_neg, Nat.ofDigitChars_ten_toDigits]
    · omega
    · intro hhead
      exact absurd (isDigitChar_of_mem_toDigits (List.mem_of_mem_head? hhead)) (by decide)

/-- The numbers of JSON that are integers. -/
def integers : Numbers ℤ where
  text := integerText
  read text := if integerText (integerValue text) = text then some (integerValue text) else none
  read_text n := by rw [integerValue_text, if_pos rfl]
  text_ne_nil n := by
    rw [integerText]
    split
    · exact List.cons_ne_nil _ _
    · exact Nat.toDigits_ne_nil
  text_chars n c hc := by
    have hdigits : ∀ c ∈ Nat.toDigits 10 n.natAbs, isNumberChar c = true :=
      fun c hc ↦ Bool.or_eq_true_iff.mpr (.inl (isDigitChar_of_mem_toDigits hc))
    rw [integerText] at hc
    split at hc
    · exact List.forall_mem_cons.mpr ⟨by decide, hdigits⟩ c hc
    · exact hdigits c hc

end Integers

end AllAiTools.Foundation.JsonText
