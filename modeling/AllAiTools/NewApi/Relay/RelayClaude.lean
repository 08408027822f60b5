import AllAiTools.NewApi.Dto.OpenAIResponse

namespace AllAiTools.NewApi.Relay.RelayClaude

open Dto.OpenAIResponse

section Responses

structure ClaudeMediaMessage (J : Type) where
  type : String
  text : Option Text := none
  stopReason : Option String := none
  partialJson : Option Text := none
  thinking : Option Text := none
  id : String := ""
  name : Text := []
  input : Option J := none

structure ClaudeResponse (J : Type) where
  type : String
  content : List (ClaudeMediaMessage J) := []
  stopReason : String := ""
  index : Option ℤ := none
  contentBlock : Option (ClaudeMediaMessage J) := none
  delta : Option (ClaudeMediaMessage J) := none

variable {J : Type}

def ClaudeMediaMessage.getText (message : ClaudeMediaMessage J) : Text := message.text.getD []

end Responses

/-- `ClaudeStopReasonToOpenAIFinishReason`, whose cases have letters of ASCII only. -/
def stopReasonClaude2OpenAI (reason : String) : String :=
  let lower := reason.toLower
  if lower = "stop_sequence" then "stop"
  else if lower = "end_turn" then "stop"
  else if lower = "max_tokens" then "length"
  else if lower = "tool_use" then "tool_calls"
  else if lower = "refusal" then "content_filter"
  else reason

section Stream

variable {J : Type}

/-- A chunk, nothing, or the end of the program. -/
inductive Converted
  | chunk (choice : StreamChoice)
  | nothing
  | nilDereference

/-- The choice of a chunk, which has no content where it has tools. -/
def choiceWith (delta : Delta) (finishReason : Option String) (tools : List ToolCallResponse) :
    StreamChoice where
  delta :=
    if 0 < tools.length then { delta with content := none, toolCalls := some tools } else delta
  finishReason := finishReason
  index := 0

def onContentBlockStart (fcIdx : ℤ) (contentBlock : ClaudeMediaMessage J) : StreamChoice :=
  let content := if contentBlock.type = "text" then contentBlock.text else none
  let tools : List ToolCallResponse :=
    if contentBlock.type = "tool_use" then
      [{ index := some fcIdx
         id := contentBlock.id
         function := { name := contentBlock.name, arguments := [] } }]
    else []
  choiceWith { content := content } none tools

def onContentBlockDelta (fcIdx : ℤ) (delta : ClaudeMediaMessage J) : Converted :=
  if delta.type = "input_json_delta" then
    match delta.partialJson with
    | some partialJson =>
      .chunk (choiceWith { content := delta.text } none [{
        index := some fcIdx
        id := ""
        function := { name := [], arguments := partialJson } }])
    | none => .nilDereference
  else if delta.type = "signature_delta" then
    .chunk (choiceWith { content := delta.text, reasoningContent := some ['\n'] } none [])
  else if delta.type = "thinking_delta" then
    .chunk (choiceWith { content := delta.text, reasoningContent := delta.thinking } none [])
  else .chunk (choiceWith { content := delta.text } none [])

def onMessageDelta (delta : Option (ClaudeMediaMessage J)) : StreamChoice :=
  let finishReason := (delta.bind (·.stopReason)).map stopReasonClaude2OpenAI
  choiceWith {} (finishReason.filter (· ≠ "null")) []

def streamResponseClaude2OpenAI (claudeResponse : ClaudeResponse J) : Converted :=
  let fcIdx := claudeResponse.index.getD 0
  if claudeResponse.type = "message_start" then
    .chunk (choiceWith { content := some [], role := "assistant" } none [])
  else if claudeResponse.type = "content_block_start" then
    match claudeResponse.contentBlock with
    | some contentBlock => .chunk (onContentBlockStart fcIdx contentBlock)
    | none => .nothing
  else if claudeResponse.type = "content_block_delta" then
    match claudeResponse.delta with
    | some delta => onContentBlockDelta fcIdx delta
    | none => .chunk (choiceWith {} none [])
  else if claudeResponse.type = "message_delta" then
    .chunk (onMessageDelta claudeResponse.delta)
  else .nothing

end Stream

section Response

variable {J : Type} (marshal : Option J → Text)

/-- What the blocks read so far have led to. -/
structure Read where
  responseText : Text
  thinkingContent : Text
  tools : List ToolCallRequest

def readBlock (read : Read) (message : ClaudeMediaMessage J) : Read :=
  if message.type = "tool_use" then
    { read with
      tools := read.tools ++ [{
        id := message.id
        function := { name := message.name, arguments := marshal message.input } }] }
  else if message.type = "thinking" then
    { read with thinkingContent := message.thinking.getD read.thinkingContent }
  else if message.type = "text" then { read with responseText := message.getText }
  else read

def responseClaude2OpenAI (claudeResponse : ClaudeResponse J) : OpenAITextResponseChoice :=
  let first := claudeResponse.content.head?
  let responseThinking := (first.bind (·.thinking)).getD []
  let read := claudeResponse.content.foldl (readBlock marshal)
    ⟨(first.map (·.getText)).getD [], [], []⟩
  { index := 0
    finishReason := stopReasonClaude2OpenAI claudeResponse.stopReason
    message := {
      content := .text read.responseText
      reasoningContent :=
        if read.thinkingContent ≠ [] then some read.thinkingContent
        else if 0 < responseThinking.length then some responseThinking
        else none
      toolCalls := read.tools } }

end Response

end AllAiTools.NewApi.Relay.RelayClaude
