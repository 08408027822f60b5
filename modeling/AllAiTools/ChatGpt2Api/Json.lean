import AllAiTools.ChatGpt2Api.Text

namespace AllAiTools.ChatGpt2Api

open Text

/-- What `json.loads` returns. The keys of an object are distinct. -/
inductive Json
  | null
  | bool (value : Bool)
  | num (value : ℚ)
  | str (value : Str)
  | arr (items : List Json)
  | obj (fields : List (Str × Json))

namespace Json

abbrev Fields := List (Str × Json)

/-- The truth value Python gives it. -/
def truthy : Json → Bool
  | null => false
  | bool value => value
  | num value => value ≠ 0
  | str value => value ≠ []
  | arr items => !items.isEmpty
  | obj fields => !fields.isEmpty

/-- `fields.get(key)`, which has a truth value also without the key. -/
def get (fields : Fields) (key : String) : Option Json := fields.lookup key.toList

def isTrue (value : Option Json) : Bool := value.any truthy

/-- Equality with a text. -/
def isText (value : Option Json) (text : String) : Bool :=
  match value with
  | some (str s) => s == text.toList
  | _ => false

/-- A value without the attribute that is asked for. -/
inductive AttributeError
  | get
  deriving DecidableEq

/-- `(value or {})` where it is a dictionary. -/
def orDict (value : Option Json) : Except AttributeError Fields :=
  if isTrue value then
    match value with
    | some (obj fields) => .ok fields
    | _ => .error .get
  else .ok []

end Json

end AllAiTools.ChatGpt2Api
