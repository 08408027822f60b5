import AllAiTools.ChatGpt2Api.Protocol.ToolMarkup

namespace AllAiTools.ChatGpt2Api.Protocol.AnthropicMessages

open Text Json ToolMarkup

inductive StopReason
  | toolUse
  | endTurn
  deriving DecidableEq

inductive Block
  | text (text : Str)
  | toolUse (id name : Str) (input : Fields)

/-- A message that is being answered, with the values drawn for it. -/
structure Request where
  tools : Json
  model : Str
  messageId : Str
  toolIds : ℕ → Str
  inputTokens : ℕ
  outputTokens : Str → ℕ
  created : ℕ

/-- `isinstance(tools, list) and bool(tools)`. -/
def Request.toolMode (request : Request) : Bool :=
  match request.tools with
  | .arr tools => !tools.isEmpty
  | _ => false

/-- What counts of a chunk. A text that is missing or null is empty. -/
structure Chunk where
  content : Str
  finishReason : Str

inductive BlockHead
  | text
  | toolUse (id name : Str)
  deriving DecidableEq

inductive Delta
  | text (text : Str)
  | inputJson (partialJson : Str)
  deriving DecidableEq

inductive Event
  | messageStart (id model : Str) (inputTokens : ℕ)
  | blockStart (index : ℕ) (head : BlockHead)
  | blockDelta (index : ℕ) (delta : Delta)
  | blockStop (index : ℕ)
  | messageDelta (stopReason : StopReason) (outputTokens : ℕ)
  | messageStop (created : ℕ)
  deriving DecidableEq

variable (lib : Library) (request : Request)

def toolCalls (text : Str) : List (Str × Fields) :=
  if request.toolMode then parseToolCalls lib text else []

def toolBlocks (text : Str) : List Block :=
  (toolCalls lib request text).mapIdx fun n call ↦ .toolUse (request.toolIds n) call.1 call.2

def textBlocks (text : Str) : List Block :=
  if stripToolMarkup lib text = [] then [] else [.text (stripToolMarkup lib text)]

def contentBlocks (text : Str) : List Block × StopReason :=
  if toolCalls lib request text = [] then ([.text (stripToolMarkup lib text)], .endTurn)
  else (textBlocks lib text ++ toolBlocks lib request text, .toolUse)

/-- The local variables of the loop. -/
structure StreamState where
  currentText : Str
  streamedText : Str
  toolStarted : Bool
  textOpen : Bool

def visibleText (text : Str) : Str :=
  if request.toolMode then streamableText lib text else text

/-- What is sent of a text that goes on from the one that was sent. -/
def streamText (st : StreamState) (visible : Str) : StreamState × List Event :=
  if st.streamedText <+: visible ∧ visible.drop st.streamedText.length ≠ [] then
    ({ st with streamedText := visible, textOpen := true },
      (if st.textOpen then [] else [.blockStart 0 .text]) ++
        [.blockDelta 0 (.text (visible.drop st.streamedText.length))])
  else (st, [])

def onContent (st : StreamState) (content : Str) : StreamState × List Event :=
  if content = [] then (st, [])
  else
    let st := { st with currentText := st.currentText ++ content }
    if st.toolStarted then (st, [])
    else
      let visible := visibleText lib request st.currentText
      let sent := streamText st visible
      ({ sent.1 with toolStarted := request.toolMode && visible ≠ st.currentText }, sent.2)

def headOf : Block → BlockHead
  | .text _ => .text
  | .toolUse id name _ => .toolUse id name

def deltaOf : Block → Delta
  | .text text => .text text
  | .toolUse _ _ input => .inputJson (lib.dumps (.obj input))

def streamBufferedBlocks : List Block → ℕ → List Event
  | [], _ => []
  | block :: content, index =>
    [.blockStart index (headOf block), .blockDelta index (deltaOf lib block), .blockStop index] ++
      streamBufferedBlocks content (index + 1)

/-- The text of the message beyond what was sent of it. -/
def streamRemaining (st : StreamState) (text : Str) : List Event :=
  let remaining := text.drop st.streamedText.length
  if remaining = [] then []
  else
    (if st.textOpen then [] else [.blockStart 0 .text]) ++ [.blockDelta 0 (.text remaining)] ++
      (if st.textOpen then [] else [.blockStop 0])

def streamToolUse (st : StreamState) : List Block → List Event
  | .text text :: content => streamRemaining st text ++ streamBufferedBlocks lib content 1
  | content => streamBufferedBlocks lib content (if st.textOpen then 1 else 0)

def onFinish (st : StreamState) : List Event :=
  let message := contentBlocks lib request st.currentText
  (if st.textOpen then [.blockStop 0] else []) ++
    (if message.2 = .toolUse then streamToolUse lib st message.1 else []) ++
    [.messageDelta message.2 (request.outputTokens st.currentText)]

/-- The loop over the chunks, which ends at the first one with a reason to finish. -/
def streamChunks (st : StreamState) : List Chunk → List Event
  | [] => []
  | chunk :: chunks =>
    let next := onContent lib request st chunk.content
    next.2 ++
      if chunk.finishReason = [] then streamChunks next.1 chunks else onFinish lib request next.1

def initial : StreamState := ⟨[], [], false, !request.toolMode⟩

def streamEvents (chunks : List Chunk) : List Event :=
  [.messageStart request.messageId request.model request.inputTokens] ++
    (if request.toolMode then [] else [.blockStart 0 .text]) ++
    streamChunks lib request (initial request) chunks ++ [.messageStop request.created]

end AllAiTools.ChatGpt2Api.Protocol.AnthropicMessages
