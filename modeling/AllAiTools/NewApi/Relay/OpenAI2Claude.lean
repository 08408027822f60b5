import AllAiTools.NewApi.Service.ChatToResponses

namespace AllAiTools.NewApi.Relay.OpenAI2Claude

open ChatViaResponses (Text)
open Service.ChatToResponses (Content MediaContent ToolCallRequest systemRole assistantRole toolRole userRole)

section Messages

/-- A message of the request; its calls are none where the field is missing. -/
structure Message (J : Type) where
  role : Text
  content : Content J := .null
  toolCalls : Option (List ToolCallRequest) := none
  toolCallId : Text := []

structure FileSource where
  data : Text
  mimeType : Text := []

/-- What the conversion uses of others: the decoding of a JSON object, which an empty text is not, and
the loading of a file with its type. -/
structure Library (J : Type) where
  unmarshalObject : Text → Option J
  emptyObject : J
  getBase64Data : FileSource → Except String (Text × Text)
  unmarshal_nil : unmarshalObject [] = none

inductive ClaudeBlock (J : Type)
  | text (text : Text)
  | media (type mediaType data : Text)
  | toolUse (id name : Text) (input : J)
  | toolResult (toolUseId : Text) (content : Content J)

inductive ClaudeContent (J : Type)
  | string (s : Text)
  | blocks (l : List (ClaudeBlock J))

structure ClaudeMessage (J : Type) where
  role : Text
  content : ClaudeContent J

structure ClaudeRequest (J : Type) where
  system : List Text
  messages : List (ClaudeMessage J)

variable {J : Type}

def isStringContent : Content J → Bool
  | .text _ => true
  | _ => false

def stringContent : Content J → Text
  | .text s => s
  | _ => []

def parseContent : Content J → List MediaContent
  | .null => []
  | .text s => [.text s]
  | .value _ parts => parts

def ClaudeContent.asBlocks : ClaudeContent J → List (ClaudeBlock J)
  | .string s => [.text s]
  | .blocks l => l

def dots : Text := ['.', '.', '.']

end Messages

section Formatting

variable {J : Type}

/-- `strings.Trim` of quotation marks. -/
def trimQuotes (s : Text) : Text := ((s.dropWhile (· = '"')).reverse.dropWhile (· = '"')).reverse

structure FormatState (J : Type) where
  formatMessages : List (Message J) := []
  lastMessage : Message J := { role := toolRole }

def fillContent (content : Content J) : Content J :=
  match content with
  | .null => .text dots
  | .text s => if s = [] then .text dots else .text s
  | .value raw parts => .value raw parts

/-- A round of the first loop. -/
def formatStep (st : FormatState J) (message : Message J) : FormatState J :=
  let merges := st.lastMessage.role = message.role ∧ st.lastMessage.role ≠ toolRole ∧
    isStringContent st.lastMessage.content = true ∧ isStringContent message.content = true
  let content := if merges then
      .text (trimQuotes (stringContent st.lastMessage.content ++ ' ' :: stringContent message.content))
    else message.content
  let fmtMessage : Message J :=
    { role := message.role
      content := fillContent content
      toolCallId := if message.role = toolRole then message.toolCallId else []
      toolCalls := if message.role = assistantRole then message.toolCalls else none }
  { formatMessages := (if merges then st.formatMessages.dropLast else st.formatMessages) ++ [fmtMessage]
    lastMessage := fmtMessage }

def formatMessages (messages : List (Message J)) : List (Message J) :=
  (messages.foldl formatStep {}).formatMessages

end Formatting

section Conversion

variable {J : Type} (library : Library J)

def toFileSource : MediaContent → Option FileSource
  | .imageUrl img => if img.url = [] then none else some { data := img.url }
  | .inputAudio audio =>
    if audio.data = [] then none
    else some { data := audio.data, mimeType := if audio.format ≠ [] then "audio/".toList ++ audio.format else [] }
  | .file file => if file.fileData = [] then none else some { data := file.fileData }
  | .videoUrl video => if video.url = [] then none else some { data := video.url }
  | .text _ => none
  | .other _ => none

def mediaBlock (mimeType data : Text) : ClaudeBlock J :=
  .media (if "application/pdf".toList.isPrefixOf mimeType then "document".toList else "image".toList) mimeType data

def mediaBlocks : List MediaContent → Except String (List (ClaudeBlock J))
  | [] => .ok []
  | .text s :: parts => do
    let blocks ← mediaBlocks parts
    return if s ≠ [] then .text s :: blocks else blocks
  | part :: parts =>
    match toFileSource part with
    | none => mediaBlocks parts
    | some source => do
      let (base64Data, mimeType) ← library.getBase64Data source
      let blocks ← mediaBlocks parts
      return mediaBlock mimeType base64Data :: blocks

/-- The calls whose arguments are a JSON object. -/
def toolUseBlocks (toolCalls : List ToolCallRequest) : List (ClaudeBlock J) :=
  toolCalls.filterMap fun toolCall ↦
    (library.unmarshalObject toolCall.arguments).map (.toolUse toolCall.id toolCall.name)

def claudeContent (message : Message J) : Except String (ClaudeContent J) :=
  if isStringContent message.content ∧ message.toolCalls.isNone then
    let text := stringContent message.content
    .ok (.string (if text = [] then dots else text))
  else do
    let blocks ← mediaBlocks library (parseContent message.content)
    return .blocks (blocks ++ toolUseBlocks library (message.toolCalls.getD []))

def systemTexts (message : Message J) : List Text :=
  match message.content with
  | .text s => if s ≠ [] then [s] else []
  | content => (parseContent content).filterMap fun
    | .text s => if s ≠ [] then some s else none
    | _ => none

structure ClaudeState (J : Type) where
  claudeMessages : List (ClaudeMessage J) := []
  isFirstMessage : Bool := true
  systemMessages : List Text := []

def addToolResult (claudeMessages : List (ClaudeMessage J)) (message : Message J) : List (ClaudeMessage J) :=
  let result := ClaudeBlock.toolResult message.toolCallId message.content
  match claudeMessages.getLast? with
  | some lastMessage =>
    if lastMessage.role = userRole then
      claudeMessages.dropLast ++
        [{ lastMessage with content := .blocks (lastMessage.content.asBlocks ++ [result]) }]
    else claudeMessages ++ [{ role := userRole, content := .blocks [result] }]
  | none => claudeMessages ++ [{ role := userRole, content := .blocks [result] }]

/-- A round of the second loop. -/
def claudeStep (st : ClaudeState J) (message : Message J) : Except String (ClaudeState J) :=
  if message.role = systemRole then
    .ok { st with systemMessages := st.systemMessages ++ systemTexts message }
  else
    let claudeMessages := if st.isFirstMessage ∧ message.role ≠ userRole then
        st.claudeMessages ++ [{ role := userRole, content := .blocks [.text dots] }]
      else st.claudeMessages
    if message.role = toolRole then
      .ok { st with isFirstMessage := false, claudeMessages := addToolResult claudeMessages message }
    else (claudeContent library message).map fun content ↦
      { st with
        isFirstMessage := false
        claudeMessages := claudeMessages ++ [{ role := message.role, content := content }] }

def claudeLoop : List (Message J) → ClaudeState J → Except String (ClaudeState J)
  | [], st => .ok st
  | message :: messages, st => do
    let st ← claudeStep library st message
    claudeLoop messages st

def requestOpenAI2ClaudeMessage (messages : List (Message J)) : Except String (ClaudeRequest J) :=
  (claudeLoop library (formatMessages messages) {}).map fun st ↦
    { system := st.systemMessages, messages := st.claudeMessages }

end Conversion

end AllAiTools.NewApi.Relay.OpenAI2Claude
