import AllAiTools.Foundation.Doc
import AllAiTools.Foundation.Joined
import AllAiTools.NewApi.Common.Str

namespace AllAiTools.NewApi.Relay.ParamOverride

open Foundation
open Foundation.Joined (before replaceFirst joined)
open Common.Str (isSpace)

abbrev Text := List Char

section Documents

/-- A JSON value that is neither an object nor an array; a number is the one it stands for. -/
inductive Scalar
  | null
  | bool (b : Bool)
  | num (x : ℚ)
  | str (s : Text)
  deriving DecidableEq

abbrev Json := Doc Text Scalar

def digits (n : ℕ) : Text := Nat.toDigits 10 n

def value (digits : Text) : ℕ := Nat.ofDigits 10 (digits.reverse.map fun c ↦ c.toNat - '0'.toNat)

def parseUint (segment : Text) : Option ℕ :=
  if segment ≠ [] ∧ segment.all Char.isDigit then some (value segment) else none

/-- A segment of a path as an index of an array, spelled without leading zeros. -/
def index (segment : Text) : Option ℕ := (parseUint segment).filter fun n ↦ digits n = segment

def segments (path : Text) : List Text := path.splitOn '.'

def dotted (segments : List Text) : Text := joined '.' segments

/-- What `gjson` and `sjson` do with a document and a path. -/
structure PathLibrary where
  getBytes : Json → Text → Option Json
  setBytes : Json → Text → Json → Except String Json
  deleteBytes : Json → Text → Except String Json

def specialChars : Text :=
  ['\\', '*', '?', '|', '#', '@', '!', ':', '~', '%', '<', '>', '=', '"', '(', ')', '[', ']',
    '\x7b', '\x7d']

/-- A path in which only dots have a meaning. -/
def Dotted (path : Text) : Prop :=
  (∀ c ∈ path, c ∉ specialChars) ∧ (path = [] ∨ [] ∉ segments path)

/-- A dotted path that spells every index without leading zeros. -/
def Plain (path : Text) : Prop :=
  Dotted path ∧ path ≠ [] ∧
    ∀ segment ∈ segments path, segment.all Char.isDigit = true → (index segment).isSome

/-- For a dotted path the libraries read, set and delete the node it addresses. `-1` has a meaning
of its own where something is set or deleted. -/
structure PathLibrary.Exact (lib : PathLibrary) : Prop where
  get : ∀ data path, Dotted path → lib.getBytes data path = data.get parseUint (segments path)
  set : ∀ data path value, Dotted path → path ≠ [] → ['-', '1'] ∉ segments path →
    (lib.setBytes data path value).toOption = data.set parseUint .null (segments path) value
  delete : ∀ data path, Dotted path → path ≠ [] → ['-', '1'] ∉ segments path →
    lib.deleteBytes data path = .ok (data.delete parseUint (segments path))

theorem parseUint_eq_index {k : Text} (hk : k.all Char.isDigit = true → (index k).isSome) :
    parseUint k = index k := by
  cases hparse : parseUint k with
  | none => rw [index, hparse, Option.filter_none]
  | some n =>
    have hdigits : k.all Char.isDigit = true := by
      unfold parseUint at hparse
      split at hparse
      · rename_i hk'
        exact hk'.2
      · cases hparse
    obtain ⟨m, hm⟩ := Option.isSome_iff_exists.mp (hk hdigits)
    rw [hm, ← hparse]
    exact (Option.filter_eq_some_iff.mp hm).1

theorem isDigit_of_mem_digits {c : Char} {n : ℕ} (hc : c ∈ digits n) : c.isDigit = true :=
  Nat.isDigit_of_mem_toDigits (by decide) (by decide) hc

theorem digits_ne_nil (n : ℕ) : digits n ≠ [] := Nat.toDigits_ne_nil

theorem value_snoc (ds : Text) (c : Char) :
    value (ds ++ [c]) = c.toNat - '0'.toNat + 10 * value ds := by
  unfold value
  rw [List.reverse_append, List.reverse_singleton, List.singleton_append, List.map_cons,
    Nat.ofDigits_cons]

theorem value_digits (n : ℕ) : value (digits n) = n := by
  induction n using Nat.strong_induction_on with
  | _ n ih =>
    by_cases hn : n < 10
    · rw [digits, Nat.toDigits_of_lt_base hn, ← List.nil_append [n.digitChar], value_snoc]
      have hc := Nat.toNat_digitChar_of_lt_ten hn
      simp [value, hc]
    · have hrest := ih (n / 10) (by omega)
      have hc := Nat.toNat_digitChar_of_lt_ten (Nat.mod_lt n (by decide : 10 > 0))
      rw [digits, Nat.toDigits_of_base_le (by decide) (by omega), value_snoc, hc]
      rw [digits] at hrest
      rw [hrest]
      simp
      omega

theorem parseUint_digits (n : ℕ) : parseUint (digits n) = some n := by
  unfold parseUint
  have hall := List.all_eq_true.mpr fun c (hc : c ∈ digits n) ↦ isDigit_of_mem_digits hc
  rw [if_pos ⟨digits_ne_nil n, hall⟩, value_digits]

theorem index_digits (n : ℕ) : index (digits n) = some n := by
  rw [index, parseUint_digits]
  exact Option.filter_eq_some_iff.mpr ⟨rfl, decide_eq_true rfl⟩

/-- A key of one word is a plain path. -/
theorem plain_word {path : Text} (hspecial : ∀ c ∈ path, c ∉ specialChars) (hdot : '.' ∉ path)
    (hword : path.all Char.isDigit = false) : Plain path := by
  have hne : path ≠ [] := by
    rintro rfl
    cases hword
  have hsegments : segments path = [path] := List.splitOn_eq_singleton hdot
  refine ⟨⟨hspecial, .inr ?_⟩, hne, ?_⟩
  · rw [hsegments, List.mem_singleton]
    exact hne.symm
  · intro segment hsegment hdigits
    rw [hsegments, List.mem_singleton] at hsegment
    subst hsegment
    cases hword.symm.trans hdigits

/-- For a plain path they do so by the spelling of its indices. -/
theorem Plain.index_eq {path : Text} (hpath : Plain path) :
    ∀ k ∈ segments path, parseUint k = index k :=
  fun k hk ↦ parseUint_eq_index (hpath.2.2 k hk)

namespace PathLibrary.Exact

variable {lib : PathLibrary} (hlib : lib.Exact) {path : Text} (hpath : Plain path)

include hlib hpath

theorem get_plain (data : Json) : lib.getBytes data path = data.get index (segments path) := by
  rw [hlib.get data path hpath.1, Doc.get_congr hpath.index_eq]

theorem set_plain (hlast : ['-', '1'] ∉ segments path) {data v result : Json}
    (h : lib.setBytes data path v = .ok result) :
    data.set index .null (segments path) v = some result := by
  have hset := hlib.set data path v hpath.1 hpath.2.1 hlast
  rw [h, Doc.set_congr hpath.index_eq] at hset
  exact hset.symm

theorem delete_plain (hlast : ['-', '1'] ∉ segments path) (data : Json) :
    lib.deleteBytes data path = .ok (data.delete index (segments path)) := by
  rw [hlib.delete data path hpath.1 hpath.2.1 hlast, Doc.delete_congr hpath.index_eq]

end PathLibrary.Exact

/-- A segment of a dotted path. -/
structure Segment (s : Text) : Prop where
  dots : '.' ∉ s
  full : s ≠ []
  plain : ∀ c ∈ s, c ∉ specialChars

theorem segments_dotted {segs : List Text} (hsegs : ∀ s ∈ segs, Segment s) (hne : segs ≠ []) :
    segments (dotted segs) = segs :=
  Joined.splitOn_joined (fun s hs ↦ (hsegs s hs).dots) hne

theorem dotted_dotted {segs : List Text} (hsegs : ∀ s ∈ segs, Segment s) :
    Dotted (dotted segs) := by
  constructor
  · intro c hc
    rcases Joined.mem_joined hc with rfl | ⟨s, hs, hc⟩
    · decide
    · exact (hsegs s hs).plain c hc
  · by_cases hne : segs = []
    · subst hne
      exact .inl rfl
    · rw [segments_dotted hsegs hne]
      exact .inr fun hnil ↦ (hsegs [] hnil).full rfl

theorem segment_of_mem {path s : Text} (hpath : Dotted path) (hne : path ≠ [])
    (hs : s ∈ segments path) : Segment s := by
  refine ⟨Joined.not_mem_of_mem_splitOn hs, ?_, fun c hc ↦ hpath.1 c ?_⟩
  · rintro rfl
    exact hpath.2.resolve_left hne hs
  · rw [← Joined.joined_splitOn '.' path]
    exact Joined.mem_joined_of_mem hs hc

/-- The libraries on dotted paths. -/
def exactLibrary : PathLibrary where
  getBytes data path := data.get parseUint (segments path)
  setBytes data path value := match data.set parseUint .null (segments path) value with
    | some result => .ok result
    | none => .error "cannot set array element for non-numeric key"
  deleteBytes data path := .ok (data.delete parseUint (segments path))

theorem exactLibrary_exact : exactLibrary.Exact where
  get _ _ _ := rfl
  set data path value _ _ _ := by
    unfold exactLibrary
    dsimp only
    cases data.set parseUint .null (segments path) value with
    | none => rfl
    | some result => rfl
  delete _ _ _ _ _ := rfl

end Documents

section NegativeIndices

/-- What `-\d+` matches at the start of a text. -/
def leadingNegative : Text → Option Text
  | '-' :: rest => if rest.takeWhile Char.isDigit = [] then none
      else some ('-' :: rest.takeWhile Char.isDigit)
  | _ => none

/-- The submatches of `\.(-\d+)`; none begins inside another. -/
def negativeMatches : Text → List Text
  | [] => []
  | c :: rest => if c = '.' then (leadingNegative rest).toList ++ negativeMatches rest
      else negativeMatches rest

def atoi (negIndex : Text) : ℤ := -value (negIndex.drop 1)

/-- `strings.HasSuffix(path, ".")` and the cut. -/
def trimDot (path : Text) : Text := if path.getLast? = some '.' then path.dropLast else path

variable (lib : PathLibrary)

def processNegativeIndex (data : Json) (path : Text) : Text :=
  (negativeMatches path).foldl (fun result negIndex ↦
    match lib.getBytes data (trimDot (before negIndex path)) with
    | some (.arr items) =>
      let actualIndex := items.length + atoi negIndex
      if 0 ≤ actualIndex ∧ actualIndex < items.length then
        replaceFirst ('.' :: negIndex) ('.' :: digits actualIndex.toNat) result
      else result
    | _ => result) path

end NegativeIndices

section Values

variable (lib : PathLibrary)

def moveValue (data : Json) (fromPath toPath : Text) : Except String Json :=
  match lib.getBytes data fromPath with
  | none => .error ("source path does not exist: " ++ String.ofList fromPath)
  | some sourceValue => match lib.setBytes data toPath sourceValue with
    | .error e => .error e
    | .ok result => lib.deleteBytes result fromPath

/-- `strings.TrimSpace`. -/
def trimSpace (s : Text) : Text := (s.dropWhile isSpace).rdropWhile isSpace

def deleteValue (data : Json) (path : Text) : Except String Json :=
  if trimSpace path = [] then .ok data else lib.deleteBytes data path

end Values

section Wildcards

/-- `strconv.Atoi`, which takes a sign; none where the text is no number. -/
def atoiSegment : Text → Option ℤ
  | '-' :: ds => (parseUint ds).map fun n ↦ -(n : ℤ)
  | '+' :: ds => (parseUint ds).map fun n ↦ (n : ℤ)
  | ds => (parseUint ds).map fun n ↦ (n : ℤ)

/-- `lo.Keys` and `sort.Strings`. -/
def sortedKeys (fields : List (Text × Json)) : List Text :=
  ((fields.map Prod.fst).dedup).insertionSort (· ≤ ·)

def collectWildcardPaths : List Text → Json → List Text → List Text
  | [], _, pre => [dotted pre]
  | raw :: rest, node, pre =>
    let segment := trimSpace raw
    if segment = [] then []
    else if segment = ['*'] then match node with
      | .obj fields => (sortedKeys fields).flatMap fun key ↦
          ((Doc.lookup fields key).map fun c ↦ collectWildcardPaths rest c (pre ++ [key])).getD []
      | .arr items => items.zipIdx.flatMap fun (item, i) ↦
          collectWildcardPaths rest item (pre ++ [digits i])
      | .leaf _ => []
    else match node with
      | .obj fields => if rest = [] then [dotted (pre ++ [segment])]
          else ((Doc.lookup fields segment).map fun c ↦
            collectWildcardPaths rest c (pre ++ [segment])).getD []
      | .arr items => match atoiSegment segment with
        | none => []
        | some i => if i < 0 then [] else match items[i.toNat]? with
          | none => []
          | some c => if rest = [] then [dotted (pre ++ [segment])]
              else collectWildcardPaths rest c (pre ++ [segment])
      | .leaf _ => []

/-- `lo.Uniq` keeps the first of equal paths. -/
def expandWildcardPaths (data : Json) (path : Text) : List Text :=
  (collectWildcardPaths (segments path) data []).eraseDups

def resolveOperationPaths (data : Json) (path : Text) : List Text :=
  if '*' ∈ path then expandWildcardPaths data path else [path]

variable (lib : PathLibrary)

def deleteMode (data : Json) (path : Text) : Except String Json :=
  (resolveOperationPaths data path).foldlM (deleteValue lib) data

def setMode (keepOrigin : Bool) (value data : Json) (path : Text) : Except String Json :=
  (resolveOperationPaths data path).foldlM (fun result path ↦
    if keepOrigin && (lib.getBytes result path).isSome then .ok result
    else lib.setBytes result path value) data

end Wildcards

section Conditions

/-- How `gjson` writes a value as a text, and Go's letter cases. -/
structure TextLibrary where
  string : Json → Text
  toLower : Text → Text
  toUpper : Text → Text

structure ConditionOperation where
  path : Text
  mode : Text
  value : Json
  invert : Bool := false
  passMissingKey : Bool := false

/-- `gjson.Type`. -/
inductive Kind
  | null
  | ofFalse
  | number
  | string
  | ofTrue
  | json
  deriving DecidableEq

def Kind.name : Kind → String
  | .null => "Null"
  | .ofFalse => "False"
  | .number => "Number"
  | .string => "String"
  | .ofTrue => "True"
  | .json => "JSON"

def Kind.isBool (k : Kind) : Bool := k = .ofTrue || k = .ofFalse

def kind : Json → Kind
  | .leaf .null => .null
  | .leaf (.bool b) => if b then .ofTrue else .ofFalse
  | .leaf (.num _) => .number
  | .leaf (.str _) => .string
  | _ => .json

variable (lib : PathLibrary) (text : TextLibrary)

def compareEqual (jsonValue targetValue : Json) : Except String Bool :=
  if kind jsonValue = .null ∨ kind targetValue = .null then
    .ok (kind jsonValue = .null && kind targetValue = .null)
  else if (kind jsonValue).isBool ∧ (kind targetValue).isBool then
    .ok (kind jsonValue = kind targetValue)
  else if kind jsonValue ≠ kind targetValue then
    .error ("compare for different types, got " ++ (kind jsonValue).name ++ " and " ++
      (kind targetValue).name)
  else match jsonValue, targetValue with
    | .leaf (.num x), .leaf (.num y) => .ok (x = y)
    | _, _ => .ok (text.string jsonValue = text.string targetValue)

def compareNumeric (jsonValue targetValue : Json) (operator : Text) : Except String Bool :=
  match jsonValue, targetValue with
  | .leaf (.num x), .leaf (.num y) =>
    if operator = "gt".toList then .ok (y < x)
    else if operator = "gte".toList then .ok (y ≤ x)
    else if operator = "lt".toList then .ok (x < y)
    else if operator = "lte".toList then .ok (x ≤ y)
    else .error ("unsupported numeric operator: " ++ String.ofList operator)
  | _, _ => .error ("numeric comparison requires both values to be numbers, got " ++
      (kind jsonValue).name ++ " and " ++ (kind targetValue).name)

def compareGjsonValues (jsonValue targetValue : Json) (mode : Text) : Except String Bool :=
  if mode = "full".toList then compareEqual text jsonValue targetValue
  else if mode = "prefix".toList then .ok (text.string targetValue <+: text.string jsonValue)
  else if mode = "suffix".toList then .ok (text.string targetValue <:+ text.string jsonValue)
  else if mode = "contains".toList then .ok (text.string targetValue <:+: text.string jsonValue)
  else if mode = "gt".toList ∨ mode = "gte".toList ∨ mode = "lt".toList ∨ mode = "lte".toList then
    compareNumeric jsonValue targetValue mode
  else .error ("unsupported comparison mode: " ++ String.ofList mode)

/-- The context is none where its text is empty. -/
def checkSingleCondition (data : Json) (context : Option Json) (condition : ConditionOperation) :
    Except String Bool :=
  match (lib.getBytes data (processNegativeIndex lib data condition.path)).or
      (context.bind fun c ↦ lib.getBytes c condition.path) with
  | none => .ok condition.passMissingKey
  | some found =>
    match compareGjsonValues text found condition.value (text.toLower condition.mode) with
    | .error e => .error ("comparison failed for path " ++ String.ofList condition.path ++ ": " ++ e)
    | .ok result => .ok (if condition.invert then !result else result)

def checkConditions (data : Json) (context : Option Json) (conditions : List ConditionOperation)
    (logic : Text) : Except String Bool :=
  if conditions.isEmpty then .ok true
  else (conditions.mapM (checkSingleCondition lib text data context)).map fun results ↦
    if text.toUpper logic = "AND".toList then results.all id else results.any id

end Conditions

section Pruning

structure PruneObjectsOptions where
  conditions : List ConditionOperation
  logic : Text
  recursive : Bool

variable (lib : PathLibrary) (text : TextLibrary) (options : PruneObjectsOptions)
  (context : Option Json)

def shouldPruneObject (fields : List (Text × Json)) : Except String Bool :=
  checkConditions lib text (.obj fields) context options.conditions options.logic

mutual

/-- A node that is dropped is returned with `true`. -/
def pruneObjectsNode : Json → Bool → Except String (Json × Bool)
  | .arr items, _ => (pruneItems items).map fun items' ↦ (.arr items', false)
  | .obj fields, isRoot => (shouldPruneObject lib text options context fields).bind fun shouldDrop ↦
    if shouldDrop && !isRoot then .ok (.leaf .null, true)
    else if !options.recursive then .ok (.obj fields, false)
    else (pruneFields fields).map fun fields' ↦ (.obj fields', false)
  | .leaf s, _ => .ok (.leaf s, false)

def pruneItems : List Json → Except String (List Json)
  | [] => .ok []
  | item :: items => (pruneObjectsNode item false).bind fun (next, drop) ↦
    (pruneItems items).map fun rest ↦ if drop then rest else next :: rest

def pruneFields : List (Text × Json) → Except String (List (Text × Json))
  | [] => .ok []
  | (key, child) :: fields => (pruneObjectsNode child false).bind fun (next, drop) ↦
    (pruneFields fields).map fun rest ↦ if drop then rest else (key, next) :: rest

end

mutual

/-- What is decoded into Go's values and encoded again: of two fields with one key the last counts,
and the keys are sorted. -/
def recoded : Json → Json
  | .leaf s => .leaf s
  | .arr items => .arr (recodedItems items)
  | .obj fields => .obj ((recodedFields fields).insertionSort fun p q ↦ p.1 ≤ q.1)

def recodedItems : List Json → List Json
  | [] => []
  | item :: items => recoded item :: recodedItems items

def recodedFields : List (Text × Json) → List (Text × Json)
  | [] => []
  | (key, child) :: fields => if key ∈ fields.map Prod.fst then recodedFields fields
      else (key, recoded child) :: recodedFields fields

end

def pruneObjects (data : Json) (path : Text) : Except String Json :=
  if path = [] then
    (pruneObjectsNode lib text options context (recoded data) true).map Prod.fst
  else match lib.getBytes data path with
    | none => .ok data
    | some target => (pruneObjectsNode lib text options context (recoded target) true).bind
        fun (cleaned, _) ↦ lib.setBytes data path cleaned

end Pruning

section Operations

structure ParamOperation where
  path : Text
  mode : Text
  value : Json
  keepOrigin : Bool
  fromPath : Text
  toPath : Text
  conditions : List ConditionOperation
  logic : Text

variable (lib : PathLibrary) (text : TextLibrary) (context : Option Json)
  (otherMode : ParamOperation → Json → Except String Json)

def applyOperation (result : Json) (op : ParamOperation) : Except String Json :=
  match checkConditions lib text result context op.conditions op.logic with
  | .error e => .error e
  | .ok false => .ok result
  | .ok true =>
    if op.mode = "delete".toList then
      deleteMode lib result (processNegativeIndex lib result op.path)
    else if op.mode = "set".toList then
      setMode lib op.keepOrigin op.value result (processNegativeIndex lib result op.path)
    else if op.mode = "move".toList then
      moveValue lib result (processNegativeIndex lib result op.fromPath)
        (processNegativeIndex lib result op.toPath)
    else otherMode op result

def applyOperations (data : Json) (operations : List ParamOperation) : Except String Json :=
  operations.foldlM (applyOperation lib text context otherMode) data

end Operations

end AllAiTools.NewApi.Relay.ParamOverride
