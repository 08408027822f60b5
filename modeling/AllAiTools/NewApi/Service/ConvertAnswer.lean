import AllAiTools.NewApi.Dto.OpenAIResponse

namespace AllAiTools.NewApi.Service.ConvertAnswer

open Dto.OpenAIResponse

section Responses

/-- A `map[string]interface{}`, `none` where it is nil. -/
abbrev Params (V : Type) := Option (List (String × V))

inductive Input (V : Type)
  | params (mapParams : Params V)
  | text (arguments : Text)

structure ClaudeMediaMessage (V : Type) where
  type : String
  text : Option Text := none
  id : String := ""
  name : Text := []
  input : Option (Input V) := none

structure ClaudeResponse (V : Type) where
  content : List (ClaudeMediaMessage V)
  stopReason : String

structure FunctionCall (V : Type) where
  functionName : Text
  arguments : Params V

structure GeminiPart (V : Type) where
  text : Text := []
  functionCall : Option (FunctionCall V) := none

structure GeminiChatContent (V : Type) where
  role : String
  parts : List (GeminiPart V)

structure GeminiChatCandidate (V : Type) where
  content : GeminiChatContent V
  finishReason : Option String
  index : ℤ

structure GeminiChatResponse (V : Type) where
  candidates : List (GeminiChatCandidate V)

end Responses

section Converters

/-- `OpenAIFinishReasonToClaudeStopReason`, whose cases have letters of ASCII only. -/
def stopReasonOpenAI2Claude (reason : String) : String :=
  let lower := reason.toLower
  if lower = "stop" then "end_turn"
  else if lower = "stop_sequence" then "stop_sequence"
  else if lower = "length" ∨ lower = "max_tokens" then "max_tokens"
  else if lower = "content_filter" then "refusal"
  else if lower = "tool_calls" then "tool_use"
  else reason

def finishReasonOpenAI2Gemini (reason : String) : String :=
  if reason = "stop" then "STOP"
  else if reason = "length" then "MAX_TOKENS"
  else if reason = "content_filter" then "SAFETY"
  else if reason = "tool_calls" then "STOP"
  else "STOP"

variable {V : Type} (unmarshal : Text → Option (Params V)) (str : Text → V)

def toolUse (call : ToolCallRequest) : ClaudeMediaMessage V where
  type := "tool_use"
  id := call.id
  name := call.function.name
  input := match unmarshal call.function.arguments with
    | some mapParams => some (.params mapParams)
    | none => some (.text call.function.arguments)

def textBlock (text : Text) : ClaudeMediaMessage V where
  type := "text"
  text := some text

def choiceContents (choice : OpenAITextResponseChoice) : List (ClaudeMediaMessage V) :=
  if choice.finishReason = "tool_calls" then
    choice.message.toolCalls.map (toolUse unmarshal)
  else [textBlock choice.message.stringContent]

def responseOpenAI2Claude (response : OpenAITextResponse) : ClaudeResponse V where
  content := response.choices.flatMap (choiceContents unmarshal)
  stopReason := (response.choices.getLast?.map fun choice ↦
    stopReasonOpenAI2Claude choice.finishReason).getD ""

def parseArguments (arguments : Text) : Params V :=
  if arguments ≠ [] then
    match unmarshal arguments with
    | some args => args
    | none => some [("arguments", str arguments)]
  else some []

def functionCallPart (function : Function) : GeminiPart V where
  functionCall := some {
    functionName := function.name
    arguments := parseArguments unmarshal str function.arguments }

def textParts (textContent : Text) : List (GeminiPart V) :=
  if textContent ≠ [] then [{ text := textContent }] else []

def choiceCandidate (choice : OpenAITextResponseChoice) : GeminiChatCandidate V where
  index := choice.index
  finishReason := some (finishReasonOpenAI2Gemini choice.finishReason)
  content := {
    role := "model"
    parts :=
      if 0 < choice.message.toolCalls.length then
        choice.message.toolCalls.map fun call ↦ functionCallPart unmarshal str call.function
      else textParts choice.message.stringContent }

def responseOpenAI2Gemini (response : OpenAITextResponse) : GeminiChatResponse V where
  candidates := response.choices.map (choiceCandidate unmarshal str)

def deltaParts (delta : Delta) : List (GeminiPart V) :=
  match delta.toolCalls with
  | some calls => calls.map fun call ↦ functionCallPart unmarshal str call.function
  | none => textParts delta.getContentString

def streamCandidate (choice : StreamChoice) : GeminiChatCandidate V where
  index := choice.index
  finishReason := choice.finishReason.map finishReasonOpenAI2Gemini
  content := {
    role := "model"
    parts := deltaParts unmarshal str choice.delta }

def hasContent (choice : StreamChoice) : Bool :=
  0 < choice.delta.getContentString.length || 0 < (choice.delta.toolCalls.getD []).length

def streamResponseOpenAI2Gemini (response : ChatCompletionsStreamResponse) :
    Option (GeminiChatResponse V) :=
  if !response.choices.any hasContent && !response.choices.any (·.finishReason.isSome) then none
  else some { candidates := response.choices.map (streamCandidate unmarshal str) }

end Converters

end AllAiTools.NewApi.Service.ConvertAnswer
