import Mathlib

namespace AllAiTools.NewApi.Dto.OpenAIResponse

/-- A text that a stream may cut, by its characters. -/
abbrev Text := List Char

structure Function where
  name : Text
  arguments : Text
  deriving DecidableEq

structure ToolCallRequest where
  id : String
  function : Function
  deriving DecidableEq

/-- A part of a content that is a list, with what of it is a text. -/
structure ContentItem where
  type : Option String
  text : Option Text

inductive Content
  | text (s : Text)
  | items (l : List ContentItem)
  | other

structure Message where
  role : String := "assistant"
  content : Content
  reasoningContent : Option Text := none
  toolCalls : List ToolCallRequest

def Message.stringContent (message : Message) : Text :=
  match message.content with
  | .text s => s
  | .items l => l.flatMap fun item ↦ if item.type = some "text" then item.text.getD [] else []
  | .other => []

structure OpenAITextResponseChoice where
  index : ℤ
  message : Message
  finishReason : String

structure OpenAITextResponse where
  choices : List OpenAITextResponseChoice

structure ToolCallResponse where
  index : Option ℤ
  id : String
  function : Function
  deriving DecidableEq

structure Delta where
  content : Option Text := none
  reasoningContent : Option Text := none
  role : String := ""
  toolCalls : Option (List ToolCallResponse) := none

def Delta.getContentString (delta : Delta) : Text := delta.content.getD []

structure StreamChoice where
  delta : Delta
  finishReason : Option String
  index : ℤ

structure ChatCompletionsStreamResponse where
  choices : List StreamChoice

end AllAiTools.NewApi.Dto.OpenAIResponse
