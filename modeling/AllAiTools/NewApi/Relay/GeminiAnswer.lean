import AllAiTools.NewApi.Dto.OpenAIResponse

namespace AllAiTools.NewApi.Relay.GeminiAnswer

open Dto.OpenAIResponse (Text Function)

section Dto

structure GeminiInlineData where
  mimeType : Text
  data : Text

/-- A call of a function, with arguments of a type. -/
structure FunctionCall (A : Type) where
  functionName : Text
  arguments : A

structure GeminiPartExecutableCode where
  language : Text
  code : Text

structure GeminiPartCodeExecutionResult where
  output : Text

structure GeminiPart (A : Type) where
  text : Text := []
  thought : Bool := false
  inlineData : Option GeminiInlineData := none
  functionCall : Option (FunctionCall A) := none
  executableCode : Option GeminiPartExecutableCode := none
  codeExecutionResult : Option GeminiPartCodeExecutionResult := none

structure GeminiChatCandidate (A : Type) where
  index : ℤ
  parts : List (GeminiPart A)
  finishReason : Option String

structure GeminiChatResponse (A : Type) where
  candidates : List (GeminiChatCandidate A)

/-- A choice of `OpenAITextResponse`. The ids drawn for its calls are left out. -/
structure Choice where
  index : ℤ
  content : Text
  reasoningContent : Option Text
  toolCalls : List Function
  finishReason : String

/-- A choice of `ChatCompletionsStreamResponse`. A call's index is its place. -/
structure StreamChoice where
  index : ℤ
  content : Option Text
  reasoningContent : Option Text
  toolCalls : List Function
  finishReason : Option String

end Dto

section Texts

/-- A `strings.Builder` with the number of texts that `writeSep` was called for. -/
structure Builder where
  content : Text := []
  appended : ℕ := 0

def Builder.write (builder : Builder) (text : Text) : Builder where
  content := builder.content ++ (if 0 < builder.appended then ['\n'] else []) ++ text
  appended := builder.appended + 1

def isImage (inlineData : GeminiInlineData) : Bool := "image".toList.isPrefixOf inlineData.mimeType

def dataLink (label : String) (inlineData : GeminiInlineData) : Text :=
  label.toList ++ "(data:".toList ++ inlineData.mimeType ++ ";base64,".toList ++ inlineData.data ++ [(')')]

def imageLink (inlineData : GeminiInlineData) : Text := dataLink "![image]" inlineData

def mediaLink (inlineData : GeminiInlineData) : Text := dataLink "[media]" inlineData

def codeBlock (executableCode : GeminiPartExecutableCode) : Text :=
  "```".toList ++ executableCode.language ++ ['\n'] ++ executableCode.code ++ "\n```".toList

def outputBlock (codeExecutionResult : GeminiPartCodeExecutionResult) : Text :=
  "```output\n".toList ++ codeExecutionResult.output ++ "\n```".toList

def stop : String := "stop"

def toolCallsReason : String := "tool_calls"

/-- The finish reason for one of Gemini's. -/
def finishReasonOf (finishReason : String) : String :=
  if finishReason = "STOP" then stop
  else if finishReason = "MAX_TOKENS" then "length"
  else "content_filter"

end Texts

variable {A : Type} (marshal : A → Option Text)

def getResponseToolCall (functionCall : FunctionCall A) : Option Function :=
  (marshal functionCall.arguments).map fun arguments ↦ ⟨functionCall.functionName, arguments⟩

section Whole

/-- What the parts read so far of a candidate have led to. -/
structure Message where
  builder : Builder := {}
  reasoningContent : Option Text := none
  toolCalls : List Function := []
  finishReason : String := stop

def Message.write (message : Message) (text : Text) : Message :=
  { message with builder := message.builder.write text }

def onPart (message : Message) (part : GeminiPart A) : Message :=
  match part.inlineData with
  | some inlineData =>
    if isImage inlineData then message.write (imageLink inlineData) else message.write (mediaLink inlineData)
  | none =>
    match part.functionCall with
    | some functionCall =>
      { message with
        finishReason := toolCallsReason
        toolCalls := message.toolCalls ++ (getResponseToolCall marshal functionCall).toList }
    | none =>
      if part.thought then { message with reasoningContent := some part.text }
      else
        match part.executableCode with
        | some executableCode => message.write (codeBlock executableCode)
        | none =>
          match part.codeExecutionResult with
          | some codeExecutionResult => message.write (outputBlock codeExecutionResult)
          | none => if part.text ≠ ['\n'] then message.write part.text else message

/-- The choice of a candidate, with the flag that candidates share. -/
def convertCandidate (isToolCall : Bool) (candidate : GeminiChatCandidate A) : Choice × Bool :=
  let message := candidate.parts.foldl (onPart marshal) {}
  let isToolCall := isToolCall || !message.toolCalls.isEmpty
  let finishReason := (candidate.finishReason.map finishReasonOf).getD message.finishReason
  ({ index := candidate.index
     content := message.builder.content
     reasoningContent := message.reasoningContent
     toolCalls := message.toolCalls
     finishReason := if isToolCall then toolCallsReason else finishReason }, isToolCall)

def convertCandidates : Bool → List (GeminiChatCandidate A) → List Choice
  | _, [] => []
  | isToolCall, candidate :: candidates =>
    let converted := convertCandidate marshal isToolCall candidate
    converted.1 :: convertCandidates converted.2 candidates

def responseGeminiChat2OpenAI (response : GeminiChatResponse A) : List Choice :=
  convertCandidates marshal false response.candidates

end Whole

section Stream

/-- What the parts read so far of a candidate have led to. -/
structure StreamMessage where
  builder : Builder := {}
  toolCalls : List Function := []
  isTools : Bool := false
  isThought : Bool := false

def StreamMessage.write (message : StreamMessage) (text : Text) : StreamMessage :=
  { message with builder := message.builder.write text }

def onStreamPart (message : StreamMessage) (part : GeminiPart A) : StreamMessage :=
  match part.inlineData with
  | some inlineData => if isImage inlineData then message.write (imageLink inlineData) else message
  | none =>
    match part.functionCall with
    | some functionCall =>
      { message with
        isTools := true
        toolCalls := message.toolCalls ++ (getResponseToolCall marshal functionCall).toList }
    | none =>
      if part.thought then { message.write part.text with isThought := true }
      else
        match part.executableCode with
        | some executableCode => message.write (codeBlock executableCode ++ ['\n'])
        | none =>
          match part.codeExecutionResult with
          | some codeExecutionResult => message.write (outputBlock codeExecutionResult ++ ['\n'])
          | none => if part.text ≠ ['\n'] then message.write part.text else message

/-- A candidate whose finish reason is `STOP` is converted without one. -/
def convertStreamCandidate (candidate : GeminiChatCandidate A) : StreamChoice :=
  let message := candidate.parts.foldl (onStreamPart marshal) {}
  let finishReason := if candidate.finishReason = some "STOP" then none else candidate.finishReason
  { index := candidate.index
    content := if message.isThought then none else some message.builder.content
    reasoningContent := if message.isThought then some message.builder.content else none
    toolCalls := message.toolCalls
    finishReason := if message.isTools then some toolCallsReason else finishReason.map finishReasonOf }

/-- The choices of a chunk, and whether one of its candidates stops. -/
def streamResponseGeminiChat2OpenAI (response : GeminiChatResponse A) : List StreamChoice × Bool :=
  (response.candidates.map (convertStreamCandidate marshal),
    response.candidates.any fun candidate ↦ candidate.finishReason = some "STOP")

end Stream

end AllAiTools.NewApi.Relay.GeminiAnswer
