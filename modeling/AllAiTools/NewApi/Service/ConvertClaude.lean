import Mathlib
import AllAiTools.NewApi.Common.Str

namespace AllAiTools.NewApi.Dto.OpenAIRequest

structure MessageImageUrl where
  url : String
  detail : String := ""
  mimeType : String := ""
  deriving DecidableEq, Repr

structure MediaContent where
  type : String
  text : String := ""
  imageUrl : Option MessageImageUrl := none
  cacheControl : String := ""
  deriving DecidableEq, Repr

def contentTypeText : String := "text"

/-- The content of a message: absent, a text or a list of parts. -/
inductive Content where
  | null
  | text (s : String)
  | media (contents : List MediaContent)
  deriving DecidableEq, Repr

/-- `J` is what a value of any type decodes to. -/
structure FunctionRequest (J : Type) where
  description : String := ""
  name : String
  parameters : Option J := none
  arguments : String := ""

structure ToolCallRequest (J : Type) where
  id : String := ""
  type : String
  function : FunctionRequest J

structure Message (J : Type) where
  role : String
  content : Content := .null
  name : Option String := none
  toolCalls : List (ToolCallRequest J) := []
  toolCallId : String := ""

inductive Stop where
  | one (s : String)
  | many (l : List String)

structure RequestReasoning where
  enabled : Bool := false
  maxTokens : ℤ := 0

structure GeneralOpenAIRequest (J : Type) where
  model : String
  messages : List (Message J) := []
  stream : Option Bool := none
  maxTokens : Option ℕ := none
  temperature : Option ℚ := none
  topP : Option ℚ := none
  topK : Option ℤ := none
  n : Option ℤ := none
  stop : Option Stop := none
  tools : List (ToolCallRequest J) := []
  verbosity : Option String := none
  reasoning : Option RequestReasoning := none

def Message.parseContent {J : Type} (m : Message J) : List MediaContent :=
  match m.content with
  | .null => []
  | .text s => [{ type := contentTypeText, text := s }]
  | .media contents => contents

/-- A conversion fails with an error or, in a slip of its own, with a panic. -/
inductive Failure where
  | error (e : String)
  | panic

end AllAiTools.NewApi.Dto.OpenAIRequest

namespace AllAiTools.NewApi.Service.ConvertClaude

open Common.Str Dto.OpenAIRequest

section Requests

/-- A value of any type, told apart only where it is a text. -/
inductive Value (J : Type) where
  | text (s : String)
  | other (j : J)

structure ClaudeMessageSource (J : Type) where
  mediaType : String
  data : Value J
  url : String

structure ClaudeMediaMessage (J : Type) where
  type : String
  text : Option String := none
  source : Option (ClaudeMessageSource J) := none
  cacheControl : String := ""
  id : String := ""
  name : String := ""
  input : Option J := none
  content : Option (Value J) := none
  toolUseId : String := ""

/-- The content of a message: a text, a list of blocks or what neither can be read as. -/
inductive ClaudeContent (J : Type) where
  | text (s : String)
  | blocks (l : List (ClaudeMediaMessage J))
  | unreadable (e : String)

structure ClaudeMessage (J : Type) where
  role : String
  content : ClaudeContent J

structure Thinking where
  type : String
  budgetTokens : Option ℤ

structure Tool (J : Type) where
  name : String
  description : String
  inputSchema : J

/-- The system prompt and the tools as they are read, empty where they cannot be. -/
inductive System (J : Type) where
  | absent
  | text (s : String)
  | blocks (l : List (ClaudeMediaMessage J))

structure ClaudeRequest (J : Type) where
  model : String
  system : System J
  messages : List (ClaudeMessage J)
  maxTokens : Option ℕ
  stopSequences : List String
  temperature : Option ℚ
  topP : Option ℚ
  topK : Option ℤ
  stream : Option Bool
  tools : List (Tool J)
  efforts : String
  thinking : Option Thinking

structure RelayInfo where
  isOpenRouter : Bool
  originModelName : String
  upstreamModelName : String

/-- How values are written: as JSON, as the text of `fmt`'s `%s`, and as the JSON of the media they
are read as. -/
structure Codec (J : Type) where
  toJSONString : Option J → String
  sprint : J → String
  mediaJSON : Option J → String

end Requests

section Blocks

variable {J : Type} (codec : Codec J)

def ClaudeMessage.parseContent (m : ClaudeMessage J) : Except String (List (ClaudeMediaMessage J)) :=
  match m.content with
  | .text _ => .error "json: cannot unmarshal string into Go value"
  | .blocks l => .ok l
  | .unreadable e => .error e

def Value.format : Value J → String
  | .text s => s
  | .other j => codec.sprint j

/-- The first block with the id, wherever it stands. -/
def ClaudeRequest.searchToolNameByToolCallId (request : ClaudeRequest J) (toolCallId : String) :
    String :=
  let contents := request.messages.flatMap fun m ↦ m.parseContent.toOption.getD []
  ((contents.find? (·.id = toolCallId)).map (·.name)).getD ""

/-- What the blocks read so far of a message have led to. -/
structure Parts (J : Type) where
  toolMessages : List (Message J)
  toolCalls : List (ToolCallRequest J)
  mediaMessages : List MediaContent

def dataUrl (mediaType data : String) : String := "data:" ++ mediaType ++ ";base64," ++ data

def toolMessage (request : ClaudeRequest J) (block : ClaudeMediaMessage J) : Message J where
  role := "tool"
  name := some (if block.name = "" then request.searchToolNameByToolCallId block.toolUseId
    else block.name)
  toolCallId := block.toolUseId
  content := match block.content with
    | some (.text s) => .text s
    | some (.other j) => .text (codec.mediaJSON (some j))
    | none => .text (codec.mediaJSON none)

def convertBlock (request : ClaudeRequest J) (parts : Parts J) (block : ClaudeMediaMessage J) :
    Except Failure (Parts J) :=
  if block.type = "text" ∨ block.type = "input_text" then
    .ok { parts with mediaMessages := parts.mediaMessages ++
      [{ type := "text", text := block.text.getD "", cacheControl := block.cacheControl }] }
  else if block.type = "image" then
    match block.source with
    | none => .error .panic
    | some source => .ok { parts with mediaMessages := parts.mediaMessages ++
        [{ type := "image_url"
           imageUrl := some { url := dataUrl source.mediaType (source.data.format codec) } }] }
  else if block.type = "tool_use" then
    .ok { parts with toolCalls := parts.toolCalls ++
      [{ id := block.id
         type := "function"
         function := { name := block.name, arguments := codec.toJSONString block.input } }] }
  else if block.type = "tool_result" then
    .ok { parts with toolMessages := parts.toolMessages ++ [toolMessage codec request block] }
  else .ok parts

/-- The messages a message becomes: its tool results, then what is kept of the rest. -/
def convertMessage (request : ClaudeRequest J) (m : ClaudeMessage J) :
    Except Failure (List (Message J)) :=
  let keep (openAIMessage : Message J) : List (Message J) :=
    if openAIMessage.parseContent ≠ [] ∨ openAIMessage.toolCalls.length > 0 then [openAIMessage]
    else []
  match m.content with
  | .text s => .ok (keep { role := m.role, content := .text s })
  | _ => do
    let contents ← m.parseContent.mapError .error
    let parts ← contents.foldlM (convertBlock codec request) ⟨[], [], []⟩
    return parts.toolMessages ++ keep {
      role := m.role
      toolCalls := parts.toolCalls
      content := if parts.mediaMessages ≠ [] ∧ parts.toolCalls = [] then .media parts.mediaMessages
        else .null }

end Blocks

section Request

variable {J : Type} (codec : Codec J)

def systemMessages (request : ClaudeRequest J) (info : RelayInfo) : List (Message J) :=
  let fromBlocks (systems : List (ClaudeMediaMessage J)) : List (Message J) :=
    if systems = [] then []
    else if info.isOpenRouter ∧ hasPrefix info.upstreamModelName "anthropic/claude" then
      [{ role := "system"
         content := .media (systems.map fun system ↦
           { type := "text", text := system.text.getD "", cacheControl := system.cacheControl }) }]
    else
      [{ role := "system"
         content := .text (String.join (systems.map fun system ↦ system.text.getD "")) }]
  match request.system with
  | .absent => []
  | .text s => if s ≠ "" then [{ role := "system", content := .text s }] else []
  | .blocks systems => fromBlocks systems

def openRouterReasoning (thinking : Thinking) : RequestReasoning :=
  if thinking.type = "enabled" then
    { enabled := true, maxTokens := thinking.budgetTokens.getD 0 }
  else if thinking.type = "adaptive" then { enabled := true }
  else {}

def claudeToOpenAIRequest (request : ClaudeRequest J) (info : RelayInfo) :
    Except Failure (GeneralOpenAIRequest J) := do
  let messages ← request.messages.mapM (convertMessage codec request)
  return {
    model := if ¬info.isOpenRouter ∧ hasSuffix info.originModelName "-thinking" ∧
        ¬hasSuffix request.model "-thinking" then request.model ++ "-thinking" else request.model
    temperature := request.temperature
    maxTokens := request.maxTokens
    topP := request.topP
    topK := request.topK
    stream := request.stream
    verbosity := if info.isOpenRouter ∧ request.efforts ≠ "" then some request.efforts else none
    reasoning := if info.isOpenRouter then request.thinking.map openRouterReasoning else none
    stop := match request.stopSequences with
      | [] => none
      | [s] => some (.one s)
      | l => some (.many l)
    tools := request.tools.map fun tool ↦
      { type := "function"
        function := {
          name := tool.name
          description := tool.description
          parameters := some tool.inputSchema } }
    messages := systemMessages request info ++ messages.flatten }

end Request

end AllAiTools.NewApi.Service.ConvertClaude
