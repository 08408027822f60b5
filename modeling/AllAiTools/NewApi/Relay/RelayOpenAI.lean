import AllAiTools.NewApi.Dto.OpenAIResponse

namespace AllAiTools.NewApi.Relay.RelayOpenAI

open Dto.OpenAIResponse (Text)

structure Delta where
  content : Option Text := none
  reasoningContent : Option Text := none
  reasoning : Option Text := none

namespace Delta

def setContentString (delta : Delta) (s : Text) : Delta := { delta with content := some s }

def getContentString (delta : Delta) : Text := delta.content.getD []

def getReasoningContent (delta : Delta) : Text :=
  match delta.reasoningContent, delta.reasoning with
  | some s, _ => s
  | none, some s => s
  | none, none => []

/-- Both fields that can hold reasoning are set to nil. -/
def dropReasoning (delta : Delta) : Delta := { delta with reasoningContent := none, reasoning := none }

end Delta

section Stream

/-- A choice of a chunk, with what the handler only passes on. -/
structure StreamChoice (ρ : Type) where
  delta : Delta
  rest : ρ

structure ChatCompletionsStreamResponse (ρ τ : Type) where
  choices : List (StreamChoice ρ)
  rest : τ

variable {ρ τ : Type}

/-- A copy whose choices all have a text for their content, and no reasoning. -/
def ChatCompletionsStreamResponse.tagged (chunk : ChatCompletionsStreamResponse ρ τ) (s : Text) :
    ChatCompletionsStreamResponse ρ τ :=
  { chunk with choices := chunk.choices.map fun choice ↦
      { choice with delta := (choice.delta.setContentString s).dropReasoning } }

structure ThinkingContentInfo where
  isFirstThinkingContent : Bool := true
  sendLastThinkingContent : Bool := false
  hasSentThinkingContent : Bool := false

def opening : Text := "<think>\n".toList

def closing : Text := "\n</think>\n".toList

def hasThinkingContent (chunk : ChatCompletionsStreamResponse ρ τ) : Bool :=
  chunk.choices.any fun choice ↦ choice.delta.getReasoningContent ≠ []

def hasContent (chunk : ChatCompletionsStreamResponse ρ τ) : Bool :=
  chunk.choices.any fun choice ↦ choice.delta.getContentString ≠ []

def thinkingContent (chunk : ChatCompletionsStreamResponse ρ τ) : Text :=
  chunk.choices.flatMap fun choice ↦ choice.delta.getReasoningContent

/-- A choice after the pass over a chunk: reasoning takes the place of content. -/
def convertChoice (chunk : ChatCompletionsStreamResponse ρ τ) (choice : StreamChoice ρ) :
    StreamChoice ρ :=
  if choice.delta.getReasoningContent ≠ [] then
    { choice with delta :=
        (choice.delta.setContentString choice.delta.getReasoningContent).dropReasoning }
  else if !hasThinkingContent chunk && !hasContent chunk then
    { choice with delta := choice.delta.dropReasoning }
  else choice

/-- The pass over the choices of a chunk: what is sent on the way, the choices, and the flags. -/
def processChoices (chunk : ChatCompletionsStreamResponse ρ τ) :
    ThinkingContentInfo → List (StreamChoice ρ) →
      List (ChatCompletionsStreamResponse ρ τ) × List (StreamChoice ρ) × ThinkingContentInfo
  | info, [] => ([], [], info)
  | info, choice :: choices =>
    if hasContent chunk && !info.sendLastThinkingContent && info.hasSentThinkingContent then
      -- what the pass has set so far in the copy is overwritten
      let (sent, converted, info) :=
        processChoices chunk { info with sendLastThinkingContent := true } choices
      (chunk.tagged closing :: sent, convertChoice chunk choice :: converted, info)
    else
      let (sent, converted, info) := processChoices chunk info choices
      (sent, convertChoice chunk choice :: converted, info)

/-- `sendStreamData` with `thinking_to_content` on, from the chunk its data holds. -/
def sendStreamData (info : ThinkingContentInfo) (chunk : ChatCompletionsStreamResponse ρ τ) :
    List (ChatCompletionsStreamResponse ρ τ) × ThinkingContentInfo :=
  if info.isFirstThinkingContent && hasThinkingContent chunk then
    ([chunk.tagged (opening ++ thinkingContent chunk)],
      { info with isFirstThinkingContent := false, hasSentThinkingContent := true })
  else if chunk.choices.isEmpty then ([chunk], info)
  else
    let (sent, converted, info) := processChoices chunk info chunk.choices
    (sent ++ [{ chunk with choices := converted }], info)

end Stream

end AllAiTools.NewApi.Relay.RelayOpenAI
