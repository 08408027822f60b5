import AllAiTools.NewApi.Service.ConvertClaude

namespace AllAiTools.NewApi.Service.ConvertGemini

open Dto.OpenAIRequest ConvertClaude

section Requests

structure GeminiInlineData where
  mimeType : String
  data : String

structure GeminiFileData where
  mimeType : String
  fileUri : String

structure FunctionCall (J : Type) where
  functionName : String
  arguments : Option J

structure GeminiFunctionResponse (J : Type) where
  name : String
  response : Option J

structure GeminiPart (J : Type) where
  text : String := ""
  inlineData : Option GeminiInlineData := none
  functionCall : Option (FunctionCall J) := none
  functionResponse : Option (GeminiFunctionResponse J) := none
  fileData : Option GeminiFileData := none

structure GeminiChatContent (J : Type) where
  role : String
  parts : List (GeminiPart J)

/-- A slice with what its array holds behind it. -/
structure Slice (α : Type) where
  elems : List α
  spare : List α

def Slice.cap {α : Type} (s : Slice α) : ℕ := s.elems.length + s.spare.length

/-- `s[:n]`, which reaches behind the slice but not behind its array. -/
def Slice.upTo {α : Type} (s : Slice α) (n : ℕ) : Except Failure (List α) :=
  if n ≤ s.cap then .ok ((s.elems ++ s.spare).take n) else .error .panic

structure GeminiChatGenerationConfig where
  temperature : Option ℚ
  topP : Option ℚ
  topK : Option ℚ
  maxOutputTokens : Option ℕ
  candidateCount : Option ℤ
  stopSequences : Slice String

/-- The declarations of a tool as they are read, where it has any. -/
structure GeminiChatTool (J : Type) where
  functionDeclarations : Option (Except String (List (FunctionRequest J)))

structure GeminiChatRequest (J : Type) where
  contents : List (GeminiChatContent J)
  generationConfig : GeminiChatGenerationConfig
  tools : List (GeminiChatTool J)
  systemInstructions : Option (GeminiChatContent J)

structure RelayInfo where
  upstreamModelName : String
  isStream : Bool

end Requests

section Parts

variable {J : Type} (toJSONString : Option J → String)

def convertGeminiRoleToOpenAI (geminiRole : String) : String :=
  if geminiRole = "user" then "user"
  else if geminiRole = "model" then "assistant"
  else if geminiRole = "function" then "function"
  else "user"

def extractTextFromGeminiParts (parts : List (GeminiPart J)) : String :=
  String.intercalate "\n" ((parts.map (·.text)).filter (· ≠ ""))

def callId (n : ℕ) : String := "call_" ++ toString n

/-- What the parts read so far of a content have led to. -/
structure Collected (J : Type) where
  toolMessages : List (Message J)
  mediaContents : List MediaContent
  toolCalls : List (ToolCallRequest J)

def convertPart (collected : Collected J) (part : GeminiPart J) : Collected J :=
  if part.text ≠ "" then
    { collected with
      mediaContents := collected.mediaContents ++ [{ type := "text", text := part.text }] }
  else match part.inlineData with
  | some inlineData =>
    { collected with
      mediaContents := collected.mediaContents ++ [{
        type := "image_url"
        imageUrl := some {
          url := dataUrl inlineData.mimeType inlineData.data
          detail := "auto"
          mimeType := inlineData.mimeType } }] }
  | none => match part.fileData with
  | some fileData =>
    { collected with
      mediaContents := collected.mediaContents ++ [{
        type := "image_url"
        imageUrl := some {
          url := fileData.fileUri
          detail := "auto"
          mimeType := fileData.mimeType } }] }
  | none => match part.functionCall with
  | some functionCall =>
    { collected with
      toolCalls := collected.toolCalls ++ [{
        id := callId (collected.toolCalls.length + 1)
        type := "function"
        function := {
          name := functionCall.functionName
          arguments := toJSONString functionCall.arguments } }] }
  | none => match part.functionResponse with
  | some functionResponse =>
    { collected with
      toolMessages := collected.toolMessages ++ [{
        role := "tool"
        toolCallId := callId collected.toolCalls.length
        content := .text (toJSONString functionResponse.response) }] }
  | none => collected

def messageContent (mediaContents : List MediaContent) : Content :=
  match mediaContents with
  | [] => .null
  | [media] => if media.type = "text" then .text media.text else .media [media]
  | _ => .media mediaContents

def convertContent (content : GeminiChatContent J) : List (Message J) :=
  let collected := content.parts.foldl (convertPart toJSONString) ⟨[], [], []⟩
  let message : Message J := {
    role := convertGeminiRoleToOpenAI content.role
    toolCalls := collected.toolCalls
    content := if collected.toolCalls.length > 0 then .null
      else messageContent collected.mediaContents }
  collected.toolMessages ++
    if message.parseContent.length > 0 ∨ message.toolCalls.length > 0 then [message] else []

end Parts

section Request

variable {J : Type} (toJSONString : Option J → String)

def convertTool (tool : GeminiChatTool J) : List (ToolCallRequest J) :=
  match tool.functionDeclarations with
  | some (.ok functionDeclarations) => functionDeclarations.map fun function ↦
    { type := "function"
      function := {
        name := function.name
        description := function.description
        parameters := function.parameters } }
  | _ => []

def systemMessages (geminiRequest : GeminiChatRequest J) : List (Message J) :=
  match geminiRequest.systemInstructions with
  | none => []
  | some instructions =>
    [{ role := "system", content := .text (extractTextFromGeminiParts instructions.parts) }]

/-- At most four sequences may stop an OpenAI request. -/
def openAIStop (stopSequences : Slice String) : Except Failure (Option Stop) :=
  if stopSequences.elems.length > 0 then
    (stopSequences.upTo 4).map fun sequences ↦ some (.many sequences)
  else .ok none

def geminiToOpenAIRequest (geminiRequest : GeminiChatRequest J) (info : RelayInfo) :
    Except Failure (GeneralOpenAIRequest J) := do
  let config := geminiRequest.generationConfig
  let stop ← openAIStop config.stopSequences
  return {
    model := info.upstreamModelName
    stream := some info.isStream
    temperature := config.temperature
    topP := config.topP.filter (· > 0)
    topK := (config.topK.filter (· > 0)).map Int.floor
    maxTokens := config.maxOutputTokens.filter (· > 0)
    stop := stop
    n := config.candidateCount.filter (· > 0)
    tools := geminiRequest.tools.flatMap convertTool
    messages := systemMessages geminiRequest ++
      geminiRequest.contents.flatMap (convertContent toJSONString) }

end Request

end AllAiTools.NewApi.Service.ConvertGemini
