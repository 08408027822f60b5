import AllAiTools.Foundation.Joined
import AllAiTools.NewApi.Relay.ChatViaResponses

namespace AllAiTools.NewApi.Service.ChatToResponses

open Foundation
open Relay.ChatViaResponses (Text trimSpace)

section Requests

structure MessageImageUrl where
  url : Text
  detail : Text
  deriving DecidableEq

structure MessageInputAudio where
  data : Text
  format : Text
  deriving DecidableEq

structure MessageFile where
  fileName : Text
  fileData : Text
  fileId : Text
  deriving DecidableEq

structure MessageVideoUrl where
  url : Text
  deriving DecidableEq

inductive MediaContent
  | text (text : Text)
  | imageUrl (imageUrl : MessageImageUrl)
  | inputAudio (inputAudio : MessageInputAudio)
  | file (file : MessageFile)
  | videoUrl (videoUrl : MessageVideoUrl)
  | other (type : Text)
  deriving DecidableEq

/-- The content of a message: none, a text, or any other value, with the parts that `ParseContent`
finds in it. -/
inductive Content (J : Type)
  | null
  | text (s : Text)
  | value (raw : J) (parts : List MediaContent)

structure ToolCallRequest where
  id : Text
  type : Text
  name : Text
  arguments : Text
  deriving DecidableEq

/-- A message, with its calls as `ParseToolCalls` finds them. -/
structure Message (J : Type) where
  role : Text
  content : Content J := .null
  toolCalls : List ToolCallRequest := []
  toolCallId : Text := []

structure GeneralOpenAIRequest (J : Type) where
  model : Text
  n : Option ℤ := none
  messages : List (Message J)

end Requests

section Responses

inductive ImageSource
  | url (url : Text)
  | value (imageUrl : MessageImageUrl)
  deriving DecidableEq

inductive ContentPart
  | text (type text : Text)
  | inputImage (imageUrl : ImageSource)
  | inputAudio (inputAudio : MessageInputAudio)
  | inputFile (file : MessageFile)
  | inputVideo (videoUrl : MessageVideoUrl)
  | other (type : Text)
  deriving DecidableEq

inductive ItemContent
  | text (s : Text)
  | parts (contentParts : List ContentPart)
  deriving DecidableEq

inductive InputItem
  | message (role : Text) (content : ItemContent)
  | functionCall (callId name arguments : Text)
  | functionCallOutput (callId output : Text)
  deriving DecidableEq

structure OpenAIResponsesRequest where
  model : Text
  input : List InputItem
  instructions : Option Text
  deriving DecidableEq

end Responses

section Roles

def systemRole : Text := ['s', 'y', 's', 't', 'e', 'm']
def developerRole : Text := ['d', 'e', 'v', 'e', 'l', 'o', 'p', 'e', 'r']
def assistantRole : Text := ['a', 's', 's', 'i', 's', 't', 'a', 'n', 't']
def toolRole : Text := ['t', 'o', 'o', 'l']
def functionRole : Text := ['f', 'u', 'n', 'c', 't', 'i', 'o', 'n']
def userRole : Text := ['u', 's', 'e', 'r']
def functionType : Text := ['f', 'u', 'n', 'c', 't', 'i', 'o', 'n']

end Roles

section Conversion

variable {J : Type}

def Message.parseContent (msg : Message J) : List MediaContent :=
  match msg.content with
  | .null => []
  | .text s => [.text s]
  | .value _ parts => parts

def missingCallId : Text := "[tool_output_missing_call_id] ".toList

/-- The output of a tool message; `marshal` is the JSON encoding of a content. -/
def toolOutput (marshal : J → Text) (msg : Message J) : Text :=
  match msg.content with
  | .null => []
  | .text s => s
  | .value raw _ => marshal raw

def toolItem (marshal : J → Text) (msg : Message J) : InputItem :=
  let callId := trimSpace msg.toolCallId
  if callId = [] then .message userRole (.text (missingCallId ++ toolOutput marshal msg))
  else .functionCallOutput callId (toolOutput marshal msg)

/-- The texts of the parts that are not blank, line by line. -/
def systemLines (parts : List MediaContent) : Text :=
  Joined.joined '\n' (parts.filterMap fun
    | .text text => if trimSpace text = [] then none else some text
    | _ => none)

def instructionsPart (msg : Message J) : Option Text :=
  let s := match msg.content with
    | .null => []
    | .text s => trimSpace s
    | .value _ parts => trimSpace (systemLines parts)
  if s = [] then none else some s

def functionCallItem (tc : ToolCallRequest) : Option InputItem :=
  if trimSpace tc.id = [] then none
  else if tc.type ≠ [] ∧ tc.type ≠ functionType then none
  else
    let name := trimSpace tc.name
    if name = [] then none else some (.functionCall tc.id name tc.arguments)

def normalizeChatImageURLToString (v : MessageImageUrl) : ImageSource :=
  if v.url ≠ [] then .url v.url else .value v

def convertPart (role : Text) : MediaContent → ContentPart
  | .text text => .text (if role = assistantRole then "output_text".toList else "input_text".toList) text
  | .imageUrl imageUrl => .inputImage (normalizeChatImageURLToString imageUrl)
  | .inputAudio inputAudio => .inputAudio inputAudio
  | .file file => .inputFile file
  | .videoUrl videoUrl => .inputVideo videoUrl
  | .other type => .other type

def itemContent (role : Text) (msg : Message J) : ItemContent :=
  match msg.content with
  | .null => .text []
  | .text s => .text s
  | .value _ parts => .parts (parts.map (convertPart role))

/-- What a round of the loop appends to the input. -/
def convertMessage (marshal : J → Text) (msg : Message J) : List InputItem :=
  let role := trimSpace msg.role
  if role = [] then []
  else if role = toolRole ∨ role = functionRole then [toolItem marshal msg]
  else if role = systemRole ∨ role = developerRole then []
  else .message role (itemContent role msg) ::
    if role = assistantRole then msg.toolCalls.filterMap functionCallItem else []

/-- What a round of the loop appends to the instructions. -/
def convertInstructions (msg : Message J) : Option Text :=
  let role := trimSpace msg.role
  if role = systemRole ∨ role = developerRole then instructionsPart msg else none

def paragraphs (parts : List Text) : Text := ['\n', '\n'].intercalate parts

def chatCompletionsRequestToResponsesRequest (marshal : J → Text) (req : GeneralOpenAIRequest J) :
    Except String OpenAIResponsesRequest :=
  if req.model = [] then .error "model is required"
  else if req.n.getD 1 > 1 then .error "n>1 is not supported in responses compatibility mode"
  else
    let instructionsParts := req.messages.filterMap convertInstructions
    .ok {
      model := req.model
      input := req.messages.flatMap (convertMessage marshal)
      instructions := if instructionsParts ≠ [] then some (paragraphs instructionsParts) else none }

end Conversion

end AllAiTools.NewApi.Service.ChatToResponses
