import AllAiTools.NewApi.Dto.OpenAIResponse
import AllAiTools.NewApi.Relay.ChatViaResponses

namespace AllAiTools.NewApi.Relay.OllamaStream

open ChatViaResponses (Text trimSpace)
open Dto.OpenAIResponse (Message Delta StreamChoice ToolCallResponse ChatCompletionsStreamResponse
  OpenAITextResponseChoice)

variable {A : Type}

structure FunctionCall (A : Type) where
  name : Text
  arguments : A

structure ChunkMessage (A : Type) where
  content : Text := []
  thinking : Text := []
  toolCalls : List (FunctionCall A) := []

structure OllamaChatStreamChunk (A : Type) where
  model : Text := []
  message : Option (ChunkMessage A) := none
  response : Text := []
  done : Bool := false
  doneReason : String := ""
  promptEvalCount : ℤ := 0
  evalCount : ℤ := 0

/-- What the handlers use of the JSON library: decoding a chunk and a JSON text, encoding the
arguments of a call. -/
structure Codec (A : Type) where
  unmarshal : Text → Except Text (OllamaChatStreamChunk A)
  unmarshalString : Text → Option Text
  marshal : A → Text

structure Usage where
  promptTokens : ℤ := 0
  completionTokens : ℤ := 0
  totalTokens : ℤ := 0
  deriving DecidableEq

inductive Frame
  | response (model : Text) (r : ChatCompletionsStreamResponse) (usage : Option Usage)
  | done

section Chunks

def usageOf (chunk : OllamaChatStreamChunk A) : Usage where
  promptTokens := chunk.promptEvalCount
  completionTokens := chunk.evalCount
  totalTokens := chunk.promptEvalCount + chunk.evalCount

def finishReasonOf (chunk : OllamaChatStreamChunk A) : String :=
  if chunk.doneReason = "" then "stop" else chunk.doneReason

variable (codec : Codec A)

/-- The thinking of a message, where it has one to report. -/
def thinkingOf (message : ChunkMessage A) : Option Text :=
  let raw := trimSpace message.thinking
  if message.thinking = [] then none
  else if raw = [] ∨ raw = "null".toList then none
  else some ((codec.unmarshalString message.thinking).getD raw)

/-- The calls of a chunk, numbered from an index on. -/
def toolCallResponses : ℕ → List (FunctionCall A) → List ToolCallResponse
  | _, [] => []
  | toolCallIndex, tc :: calls =>
    { index := some toolCallIndex, id := "call_" ++ toString toolCallIndex,
      function := { name := tc.name, arguments := codec.marshal tc.arguments } } ::
        toolCallResponses (toolCallIndex + 1) calls

end Chunks

section Stream

def generateStartEmptyResponse (model : Text) : Frame :=
  .response model { choices := [{ delta := { role := "assistant", content := some [] }, finishReason := none,
                                  index := 0 }] } none

def generateStopResponse (model : Text) (finishReason : String) : Frame :=
  .response model { choices := [{ delta := {}, finishReason := some finishReason, index := 0 }] } none

def generateFinalUsageResponse (model : Text) (usage : Usage) : Frame :=
  .response model { choices := [] } (some usage)

/-- The longest line a `bufio.Scanner` delivers, in bytes. -/
def maxLineSize : ℕ := 65535

def byteSize (line : Text) : ℕ := (line.map fun c ↦ c.utf8Size).sum

/-- The lines a `bufio.Scanner` delivers: it stops for good at one that is too long for it. -/
def scan (lines : List Text) : List Text := lines.takeWhile fun line ↦ byteSize line ≤ maxLineSize

structure StreamState where
  model : Text
  toolCallIndex : ℕ := 0

structure Streamed where
  sent : List Frame
  usage : Usage := {}
  err : Option Text := none

variable (codec : Codec A)

def deltaResponse (model : Text) (toolCallIndex : ℕ) (chunk : OllamaChatStreamChunk A) : Frame :=
  let content := match chunk.message with
    | some message => message.content
    | none => chunk.response
  let calls := match chunk.message with
    | some message => message.toolCalls
    | none => []
  .response model
    { choices := [{
        delta := {
          role := "assistant"
          content := if content = [] then none else some content
          reasoningContent := chunk.message.bind (thinkingOf codec)
          toolCalls := if calls = [] then none else some (toolCallResponses codec toolCallIndex calls) }
        finishReason := none
        index := 0 }] } none

def streamLoop : List Text → StreamState → Streamed
  | [], _ => { sent := [] }
  | line :: lines, st =>
    if trimSpace line = [] then streamLoop lines st
    else match codec.unmarshal (trimSpace line) with
      | .error err => { sent := [], err := some err }
      | .ok chunk =>
        let model := if chunk.model = [] then st.model else chunk.model
        if chunk.done then
          { sent := [generateStopResponse model (finishReasonOf chunk),
              generateFinalUsageResponse model (usageOf chunk), .done],
            usage := usageOf chunk }
        else
          let calls := match chunk.message with
            | some message => message.toolCalls
            | none => []
          let rest := streamLoop lines ⟨model, st.toolCallIndex + calls.length⟩
          { rest with sent := deltaResponse codec model st.toolCallIndex chunk :: rest.sent }

def ollamaStreamHandler (upstreamModelName body : Text) : Streamed :=
  let streamed := streamLoop codec (scan (body.splitOn '\n')) { model := upstreamModelName }
  { streamed with sent := generateStartEmptyResponse upstreamModelName :: streamed.sent }

end Stream

section Chat

structure Aggregate (A : Type) where
  content : Text := []
  reasoning : Text := []
  lastChunk : OllamaChatStreamChunk A := {}
  parsedAny : Bool := false

structure Answer where
  model : Text
  choice : OpenAITextResponseChoice
  usage : Usage

variable (codec : Codec A)

/-- The content of a chunk, as the loop over the lines takes it. -/
def contentOf (ck : OllamaChatStreamChunk A) : Text :=
  match ck.message with
  | some message => if message.content ≠ [] then message.content else ck.response
  | none => ck.response

def Aggregate.add (agg : Aggregate A) (ck : OllamaChatStreamChunk A) : Aggregate A where
  content := agg.content ++ contentOf ck
  reasoning := agg.reasoning ++ (ck.message.bind (thinkingOf codec)).getD []
  lastChunk := ck
  parsedAny := true

def aggregateLines (only : Bool) : List Text → Aggregate A → Except Text (Aggregate A)
  | [], agg => .ok agg
  | ln :: lines, agg =>
    if trimSpace ln = [] then aggregateLines only lines agg
    else match codec.unmarshal (trimSpace ln) with
      | .error err => if only then .error err else aggregateLines only lines agg
      | .ok ck => aggregateLines only lines (agg.add codec ck)

/-- The body as one chunk, for one that spreads over several lines. -/
def aggregateSingle (body : Text) : Except Text (Aggregate A) :=
  (codec.unmarshal body).map fun single ↦
    { content := match single.message with
        | some message => message.content
        | none => single.response
      reasoning := (single.message.bind (thinkingOf codec)).getD []
      lastChunk := single }

def contentPtr (s : Text) : Dto.OpenAIResponse.Content := if s = [] then .other else .text s

def Aggregate.answer (upstreamModelName : Text) (agg : Aggregate A) : Answer where
  model := if agg.lastChunk.model = [] then upstreamModelName else agg.lastChunk.model
  choice :=
    { index := 0
      message :=
        { content := contentPtr agg.content
          reasoningContent := if agg.reasoning = [] then none else some agg.reasoning
          toolCalls := [] }
      finishReason := finishReasonOf agg.lastChunk }
  usage := usageOf agg.lastChunk

def ollamaChatHandler (upstreamModelName body : Text) : Except Text Answer := do
  let lines := body.splitOn '\n'
  let agg ← aggregateLines codec (lines.length == 1) lines {}
  let agg ← if agg.parsedAny then .ok agg else aggregateSingle codec body
  return agg.answer upstreamModelName

end Chat

end AllAiTools.NewApi.Relay.OllamaStream
