import AllAiTools.ChatGpt2Api.Text
import AllAiTools.Foundation.JsonRoundTrip

namespace AllAiTools.ChatGpt2Api.Services.LogService

open Text Foundation.JsonText

section Lines

/-- The characters that end a line for `str.splitlines`. -/
def isLineBreak (c : Char) : Bool :=
  ['\n', '\r', '\x0b', '\x0c', '\x1c', '\x1d', '\x1e', '\u0085', '\u2028', '\u2029'].contains c

/-- `str.splitlines`. -/
def splitlines : Str → List Str
  | [] => []
  | '\r' :: '\n' :: text => [] :: splitlines text
  | c :: text =>
    if isLineBreak c then [] :: splitlines text
    else
      match splitlines text with
      | [] => [[c]]
      | line :: lines => (c :: line) :: lines

/-- What `read_text` makes of line ends. -/
def universalNewlines : Str → Str
  | [] => []
  | '\r' :: '\n' :: text => '\n' :: universalNewlines text
  | c :: text => (if c = '\r' then '\n' else c) :: universalNewlines text

def readLines (content : Str) : List Str := splitlines (universalNewlines content)

end Lines

/-- A dictionary of JSON values, with each key once. -/
abbrev Detail (N : Type) := {fields : List (Str × Value N) // (Value.obj fields).Distinct}

/-- What `uuid4` draws. -/
abbrev Id := {s : Str // s ≠ [] ∧ s.all isPrintable = true}

/-- What `strftime` writes. -/
abbrev Time := {s : Str // s.all isPrintable = true}

/-- What the functions here call besides: how numbers are written and read, which are zero, `str` of
what is no text, and the digest of a line with its number. -/
structure Library (N : Type) where
  numbers : Numbers N
  isZero : N → Bool
  str : Value N → Str
  digest : ℕ → Str → Str

/-- The filter of `list`. -/
structure Filter where
  type : Str
  startDate : Str
  endDate : Str

variable {N : Type} (lib : Library N)

abbrev Item (N : Type) := List (Str × Value N)

def get (item : Item N) (key : String) : Option (Value N) := item.lookup key.toList

def truthy : Value N → Bool
  | .null => false
  | .bool value => value
  | .num n => !lib.isZero n
  | .str s => s ≠ []
  | .arr items => !items.isEmpty
  | .obj fields => !fields.isEmpty

def toStr : Value N → Str
  | .str s => s
  | value => lib.str value

/-- `str(value or default)`. -/
def strOr (value : Option (Value N)) (default : Str) : Str :=
  match value with
  | some value => if truthy lib value then toStr lib value else default
  | none => default

def isText (value : Option (Value N)) (text : Str) : Bool :=
  match value with
  | some (.str s) => s = text
  | _ => false

def parseLine (rawLine : Str) (lineNumber : ℕ) : Option (Item N) :=
  match parse lib.numbers rawLine with
  | some (.obj item) =>
    some (assign item ("id".toList, .str (strOr lib (get item "id") (lib.digest lineNumber rawLine))))
  | _ => none

def serializeItem (item : Item N) : Str := print lib.numbers [] [] (.obj item)

def matchesFilters (item : Item N) (filter : Filter) : Bool :=
  let day := (strOr lib (get item "time") []).take 10
  if filter.type ≠ [] ∧ isText (get item "type") filter.type = false then false
  else if filter.startDate ≠ [] ∧ day < filter.startDate then false
  else if filter.endDate ≠ [] ∧ filter.endDate < day then false
  else true

/-- An entry of the log. -/
structure Entry (N : Type) where
  id : Id
  time : Time
  type : Str
  summary : Str
  detail : Detail N

def Entry.item (entry : Entry N) : Item N :=
  [("id".toList, .str entry.id.val), ("time".toList, .str entry.time.val), ("type".toList, .str entry.type),
    ("summary".toList, .str entry.summary), ("detail".toList, .obj entry.detail.val)]

/-- The arguments of `add`, with the id and the time that it draws. -/
structure AddCall (N : Type) where
  id : Id
  time : Time
  type : Str
  summary : Str
  detail : Option (Detail N)
  data : Detail N

/-- `detail or data`. -/
def orData (detail : Option (Detail N)) (data : Detail N) : Detail N :=
  match detail with
  | some detail => if detail.val.isEmpty then data else detail
  | none => data

def AddCall.entry (call : AddCall N) : Entry N :=
  ⟨call.id, call.time, call.type, call.summary, orData call.detail call.data⟩

/-- The file of the log, once there is one. -/
abbrev File := Option Str

def add (file : File) (call : AddCall N) : File :=
  some (file.getD [] ++ (serializeItem lib call.entry.item ++ ['\n']))

/-- The loop of `list` over the lines that are left, the last first. -/
def listLoop (filter : Filter) (limit : ℤ) : List (Str × ℕ) → List (Item N) → List (Item N)
  | [], items => items
  | (line, lineNumber) :: lines, items =>
    match parseLine lib line lineNumber with
    | none => listLoop filter limit lines items
    | some item =>
      if matchesFilters lib item filter = false then listLoop filter limit lines items
      else if limit ≤ (items ++ [item]).length then items ++ [item]
      else listLoop filter limit lines (items ++ [item])

def list (file : File) (filter : Filter) (limit : ℤ) : List (Item N) :=
  match file with
  | none => []
  | some content => listLoop lib filter limit (readLines content).zipIdx.reverse []

def targetIds (ids : List Str) : List Str := (ids.map strip).filter (· ≠ [])

/-- What `delete` keeps of a line. -/
def keptLine (targets : List Str) (line : Str × ℕ) : Option Str :=
  match parseLine lib line.1 line.2 with
  | none => some line.1
  | some item =>
    if targets.contains (strOr lib (get item "id") []) then none else some (serializeItem lib item)

/-- Lines joined by newlines, with one more at the end if there is something. -/
def writeLines (lines : List Str) : Str :=
  let content := ['\n'].intercalate lines
  if content = [] then [] else content ++ ['\n']

/-- `delete`, with the number of entries that it removed. -/
def delete (file : File) (ids : List Str) : File × ℕ :=
  match file with
  | none => (none, 0)
  | some content =>
    if targetIds ids = [] then (some content, 0)
    else
      let lines := (readLines content).zipIdx
      let kept := lines.filterMap (keptLine lib (targetIds ids))
      (some (writeLines kept), lines.length - kept.length)

end AllAiTools.ChatGpt2Api.Services.LogService
