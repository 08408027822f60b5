import AllAiTools.ChatGpt2Api.JsonDumps
import AllAiTools.ChatGpt2Api.Protocol.ToolMarkup

namespace AllAiTools.ChatGpt2Api.Protocol.ToolUseText

open Text Json ToolMarkup

/-- What the functions here call of Python: `isalnum` and the lower case beyond ASCII, `html.unescape`,
how numbers are written and read, and `str` of what is no text. -/
structure Python where
  isAlnum : Char → Bool
  lowerChar : Char → Char
  unescape : Str → Str
  numbers : Foundation.JsonText.Numbers ℚ
  str : Json → Str

/-- What holds of it: letters and digits are no white space, and a text without `&` has no entities. -/
structure Python.Documented (python : Python) : Prop where
  not_isSpace : ∀ c, python.isAlnum c = true → isSpace c = false
  unescape_eq : ∀ s, '&' ∉ s → python.unescape s = s

variable (python : Python)

def Python.library : Library where
  isAlnum := python.isAlnum
  lowerChar := python.lowerChar
  unescape := python.unescape
  loads := loads python.numbers
  dumps := dumps python.numbers

section Rendering

/-- `str(value or "")`. -/
def strOr (value : Option Json) : Str :=
  match value with
  | some (.str s) => s
  | some value => if truthy value then python.str value else []
  | none => []

/-- `value or {}`. -/
def orObject (value : Option Json) : Json := if isTrue value then value.getD .null else .obj []

def textBlock (text : Str) : Json := .obj [("type".toList, .str "text".toList), ("text".toList, .str text)]

def toolUseText (name params : Str) : Str :=
  "<tool_calls><tool_call><tool_name>".toList ++ name ++ "</tool_name><parameters>".toList ++ params ++
    "</parameters></tool_call></tool_calls>".toList

/-- `_preprocess_block`. -/
def preprocessBlock (textMapper : Str → Str) : Json → Json
  | .obj block =>
    let blockType := strOr python (get block "type")
    if blockType = "text".toList then
      .obj (setField block "text".toList (.str (textMapper (strOr python (get block "text")))))
    else if blockType = "tool_use".toList then
      textBlock (toolUseText (strOr python (get block "name"))
        (dumps python.numbers (orObject (get block "input"))))
    else if blockType = "tool_result".toList then
      textBlock ("Tool result ".toList ++ strOr python (get block "tool_use_id") ++ ": ".toList ++
        strOr python (get block "content"))
    else .obj block
  | block => block

/-- The text of a block. -/
def blockText : Json → Str
  | .obj block => strOr python (get block "text")
  | _ => []

/-- A call of a tool, with a name of word characters, dots and hyphens. -/
structure ToolCall where
  id : Str
  name : Str
  name_ne_nil : name ≠ []
  name_chars : ∀ c ∈ name, isNameChar python.library c = true
  input : Fields
  distinct : (Json.obj input).Distinct

variable {python}

def ToolCall.block (call : ToolCall python) : Json :=
  .obj [("type".toList, .str "tool_use".toList), ("id".toList, .str call.id), ("name".toList, .str call.name),
    ("input".toList, .obj call.input)]

def ToolCall.params (call : ToolCall python) : Str := dumps python.numbers (.obj call.input)

/-- The texts that the calls are rendered as, one after the other. -/
def rendered (textMapper : Str → Str) (calls : List (ToolCall python)) : Str :=
  calls.flatMap fun call ↦ blockText python (preprocessBlock python textMapper call.block)

theorem blockText_block (textMapper : Str → Str) (call : ToolCall python) :
    blockText python (preprocessBlock python textMapper call.block) = toolUseText call.name call.params := by
  have hinput : orObject (some (.obj call.input)) = .obj call.input := by
    rw [orObject]
    cases hfields : call.input with
    | nil => rfl
    | cons field fields => rfl
  have htext : preprocessBlock python textMapper call.block =
      textBlock (toolUseText call.name (dumps python.numbers (orObject (some (.obj call.input))))) := rfl
  rw [htext, hinput]
  rfl

end Rendering

end AllAiTools.ChatGpt2Api.Protocol.ToolUseText
