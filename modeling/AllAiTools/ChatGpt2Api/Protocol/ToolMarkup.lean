import AllAiTools.ChatGpt2Api.Json

namespace AllAiTools.ChatGpt2Api.Protocol.ToolMarkup

open Text Json

/-- What the functions here call: `isalnum` and the lower case beyond ASCII, `html.unescape`,
`json.loads` and `json.dumps`. -/
structure Library where
  isAlnum : Char → Bool
  lowerChar : Char → Char
  unescape : Str → Str
  loads : Str → Option Json
  dumps : Json → Str

section Patterns

/-- Whether a letter of a pattern, in lower case, matches a character whatever its case. -/
def sameLetter (letter c : Char) : Bool :=
  c.toLower = letter || (letter = 'i' && (c = '\u0130' || c = '\u0131')) ||
    (letter = 's' && c = '\u017f') || (letter = 'k' && c = '\u212a')

/-- What follows a literal at the head of a text. -/
def afterLiteral (same : Char → Char → Bool) : Str → Str → Option Str
  | [], text => some text
  | _ :: _, [] => none
  | letter :: literal, c :: text => if same letter c then afterLiteral same literal text else none

/-- `.*?` up to a literal: what stands before it and what follows it. -/
def untilLiteral (same : Char → Char → Bool) (literal : Str) : Str → Option (Str × Str)
  | [] => none
  | c :: text =>
    match afterLiteral same literal (c :: text) with
    | some rest => some ([], rest)
    | none => (untilLiteral same literal text).map fun found ↦ (c :: found.1, found.2)

/-- `[^>]*>`. -/
def afterBracket (text : Str) : Option Str :=
  match text.dropWhile (· ≠ '>') with
  | [] => none
  | _ :: rest => some rest

variable {α : Type} (pattern : Str → Option (α × Str))

/-- The first match of a pattern that matches no empty text. -/
def search : Str → Option (α × Str)
  | [] => none
  | c :: text => pattern (c :: text) <|> search text

/-- The text without the matches, which are looked for from the left. -/
def removeMatches : ℕ → Str → Str
  | 0, text => text
  | _ + 1, [] => []
  | turns + 1, c :: text =>
    match pattern (c :: text) with
    | some (_, rest) => removeMatches turns rest
    | none => c :: removeMatches turns text

def findMatches : ℕ → Str → List α
  | 0, _ => []
  | _ + 1, [] => []
  | turns + 1, c :: text =>
    match pattern (c :: text) with
    | some (found, rest) => found :: findMatches turns rest
    | none => findMatches turns text

end Patterns

variable (lib : Library)

def isWord (c : Char) : Bool := c.isAlphanum || c = '_' || (128 ≤ c.toNat && lib.isAlnum c)

/-- Whether a word goes on here. -/
def atWord (text : Str) : Bool := text.head?.any (isWord lib)

/-- `<name\b`. -/
def opening (name : String) (text : Str) : Option Str :=
  match afterLiteral sameLetter ('<' :: name.toList) text with
  | some rest => if atWord lib rest then none else some rest
  | none => none

/-- `<name\b[^>]*>(.*?)</name>`. -/
def element (name : String) (text : Str) : Option (Str × Str) :=
  ((opening lib name text).bind afterBracket).bind
    (untilLiteral sameLetter ("</".toList ++ name.toList ++ [('>')]))

def elements (names : List String) (text : Str) : Option (Str × Str) :=
  names.findSome? fun name ↦ element lib name text

def markupNames : List String := ["tool_calls", "tool_call", "function_call", "invoke"]

def stripToolMarkup (text : Str) : Str :=
  strip (removeMatches (elements lib markupNames) text.length text)

/-- The text before the first marker, if there is one. -/
def beforeMarker : Str → Option Str
  | [] => none
  | c :: text =>
    if markupNames.any fun name ↦ (opening lib name (c :: text)).isSome then some []
    else (beforeMarker text).map (c :: ·)

def streamableText (text : Str) : Str :=
  match beforeMarker lib text with
  | some before => rstrip before
  | none => text

section ToolCalls

def cdata (value : Str) : Option Str :=
  match afterLiteral sameLetter "<![cdata[".toList value with
  | some rest => if "]]>".toList <:+ rest then some (rest.rdrop 3) else none
  | none => none

def xmlValue (text : Str) (tag : String) : Str :=
  match search (element lib tag) text with
  | none => []
  | some (body, _) => strip (lib.unescape ((cdata (strip body)).getD (strip body)))

/-- The first tag with a value. -/
def firstValue (text : Str) (tags : List String) : Str :=
  ((tags.map (xmlValue lib text)).find? (· ≠ [])).getD []

def parseToolValue (raw : Str) : Json :=
  let value := xmlValue lib ("<x>".toList ++ raw ++ "</x>".toList) "x"
  (lib.loads value).getD (.str value)

def isNameChar (c : Char) : Bool := isWord lib c || c = '.' || c = '-'

def sameLower (c d : Char) : Bool :=
  let low := fun (e : Char) ↦ if 128 ≤ e.toNat then lib.lowerChar e else e.toLower
  low c = low d

/-- `<([\w.-]+)\b[^>]*>(.*?)</\1>` with a name of that length. -/
def paramOfLength (text : Str) (length : ℕ) : Option ((Str × Str) × Str) :=
  let name := text.take length
  let rest := text.drop length
  if atWord lib name.reverse = atWord lib rest then none
  else
    ((afterBracket rest).bind
      (untilLiteral (sameLower lib) ("</".toList ++ name ++ [('>')]))).map
        fun found ↦ ((name, found.1), found.2)

/-- The longest name is tried first. -/
def param : Str → Option ((Str × Str) × Str)
  | [] => none
  | c :: text =>
    if c = '<' then
      (((List.range (text.takeWhile (isNameChar lib)).length).map (· + 1)).reverse).findSome?
        (paramOfLength lib text)
    else none

/-- `fields[key] = value`. -/
def setField (fields : Fields) (key : Str) (value : Json) : Fields :=
  if fields.any (·.1 = key) then fields.map fun field ↦ if field.1 = key then (key, value) else field
  else fields ++ [(key, value)]

def parseToolParams (raw : Str) : Fields :=
  match lib.loads (strip raw) with
  | some (.obj fields) => fields
  | some _ => []
  | none =>
    (findMatches (param lib) (strip raw).length (strip raw)).foldl
      (fun fields found ↦ setField fields found.1 (parseToolValue lib found.2)) []

def fence (text : Str) : Option (Str × Str) :=
  (afterLiteral sameLetter "```".toList text).bind (untilLiteral sameLetter "```".toList)

def parseBlock (block : Str) : Option (Str × Fields) :=
  let name := firstValue lib block ["tool_name", "name", "function"]
  let params := firstValue lib block ["parameters", "input", "arguments"]
  if name = [] then none
  else some (name, parseToolParams lib (if params = [] then "\x7b\x7d".toList else params))

def parseToolCalls (text : Str) : List (Str × Fields) :=
  let unfenced := strip (removeMatches fence text.length text)
  (findMatches (elements lib ["tool_call", "function_call", "invoke"]) unfenced.length
    unfenced).filterMap (parseBlock lib)

end ToolCalls

end AllAiTools.ChatGpt2Api.Protocol.ToolMarkup
