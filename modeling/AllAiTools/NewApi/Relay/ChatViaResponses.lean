import AllAiTools.NewApi.Common.Str

namespace AllAiTools.NewApi.Relay.ChatViaResponses

/-- A text by its characters. -/
abbrev Text := List Char

/-- `strings.TrimSpace`. -/
def trimSpace (s : Text) : Text :=
  ((s.dropWhile Common.Str.isSpace).reverse.dropWhile Common.Str.isSpace).reverse

structure ResponsesOutput where
  type : Text
  id : Text
  callId : Text
  name : Text
  arguments : Text

/-- The events of a stream of responses, by their types. -/
inductive ResponsesEvent
  | created
  | reasoningSummaryTextDelta (delta : Text)
  | reasoningSummaryTextDone
  | outputTextDelta (delta : Text)
  | outputItem (item : Option ResponsesOutput)
  | functionCallArgumentsDelta (itemId delta : Text)
  | functionCallArgumentsDone
  | completed
  | failed
  | other

structure ToolCall where
  index : ℕ
  id : Text
  name : Text
  arguments : Text
  deriving DecidableEq

inductive FinishReason
  | stop
  | toolCalls
  deriving DecidableEq

inductive ChatChunk
  | start
  | reasoning (delta : Text)
  | content (delta : Text)
  | tool (call : ToolCall)
  | stop (finishReason : FinishReason)
  deriving DecidableEq

/-- The variables of the handler. A map is a function with the zero value where it has nothing;
`toolCallIds` has the identifiers in the order of their indices. -/
structure HandlerState where
  outputText : Text
  sentStart : Bool
  sentStop : Bool
  sawToolCall : Bool
  toolCallIds : List Text
  toolCallName : Text → Text
  toolCallArgs : Text → Text
  toolCallNameSent : Text → Bool
  canonicalId : Text → Text
  hasSentReasoningSummary : Bool
  needsSeparator : Bool
  failed : Bool
  chunks : List ChatChunk

namespace HandlerState

variable (s : HandlerState)

def sendChatChunk (chunk : ChatChunk) : HandlerState := { s with chunks := s.chunks ++ [chunk] }

def sendStartIfNeeded : HandlerState :=
  if s.sentStart then s else { s.sendChatChunk .start with sentStart := true }

def sendReasoningSummaryDelta (delta : Text) : HandlerState :=
  if delta = [] then s
  else
    let separated :=
      if !s.needsSeparator then delta
      else if "\n\n".toList <+: delta then delta
      else if "\n".toList <+: delta then "\n".toList ++ delta
      else "\n\n".toList ++ delta
    { s.sendStartIfNeeded.sendChatChunk (.reasoning separated) with
      needsSeparator := false
      hasSentReasoningSummary := true }

/-- The tool call that is sent, once its identifier has an index and its name is known. -/
def toolCall (callId name argsDelta : Text) : ToolCall where
  index := s.toolCallIds.idxOf callId
  id := callId
  name :=
    let known := if s.toolCallName callId ≠ [] then s.toolCallName callId else name
    if known ≠ [] ∧ !s.toolCallNameSent callId then known else []
  arguments := argsDelta

/-- The identifier gets an index, and the name is kept. -/
def register (callId name : Text) : HandlerState :=
  { s with
    toolCallIds :=
      if s.toolCallIds.contains callId then s.toolCallIds else s.toolCallIds ++ [callId]
    toolCallName :=
      if name ≠ [] then Function.update s.toolCallName callId name else s.toolCallName }

def sendToolCall (call : ToolCall) : HandlerState :=
  { s.sendChatChunk (.tool call) with
    sawToolCall := true
    toolCallNameSent :=
      if call.name ≠ [] then Function.update s.toolCallNameSent call.id true
      else s.toolCallNameSent }

def sendToolCallDelta (callId name argsDelta : Text) : HandlerState :=
  if callId = [] then s
  else if s.outputText ≠ [] then s
  else
    let registered := s.sendStartIfNeeded.register callId name
    registered.sendToolCall (registered.toolCall callId name argsDelta)

def onOutputTextDelta (delta : Text) : HandlerState :=
  let started := s.sendStartIfNeeded
  if delta = [] then started
  else { started.sendChatChunk (.content delta) with outputText := started.outputText ++ delta }

def functionCall : Text := "function_call".toList

/-- The identifier a call goes by. -/
def callIdOf (item : ResponsesOutput) : Text :=
  if trimSpace item.callId = [] then trimSpace item.id else trimSpace item.callId

/-- What is new in the arguments of an item. -/
def argsDelta (prevArgs newArgs : Text) : Text :=
  if newArgs = [] then []
  else if prevArgs <+: newArgs then newArgs.drop prevArgs.length
  else newArgs

def learn (item : ResponsesOutput) : HandlerState :=
  { s with
    canonicalId :=
      if trimSpace item.id ≠ [] ∧ callIdOf item ≠ [] then
        Function.update s.canonicalId (trimSpace item.id) (callIdOf item)
      else s.canonicalId
    toolCallName :=
      if trimSpace item.name ≠ [] then
        Function.update s.toolCallName (callIdOf item) (trimSpace item.name)
      else s.toolCallName
    toolCallArgs :=
      if item.arguments ≠ [] then Function.update s.toolCallArgs (callIdOf item) item.arguments
      else s.toolCallArgs }

def onOutputItem (item : ResponsesOutput) : HandlerState :=
  if item.type ≠ functionCall then s
  else
    (s.learn item).sendToolCallDelta (callIdOf item) (trimSpace item.name)
      (argsDelta (s.toolCallArgs (callIdOf item)) item.arguments)

def onArgumentsDelta (itemId delta : Text) : HandlerState :=
  let canonical := s.canonicalId (trimSpace itemId)
  let callId := if canonical = [] then trimSpace itemId else canonical
  if callId = [] then s
  else
    { s with
      toolCallArgs :=
        Function.update s.toolCallArgs callId
          (s.toolCallArgs callId ++ delta) }.sendToolCallDelta callId [] delta

def finishReason : FinishReason :=
  if s.sawToolCall ∧ s.outputText = [] then .toolCalls else .stop

def finish : HandlerState :=
  let started := s.sendStartIfNeeded
  if started.sentStop then started
  else { started.sendChatChunk (.stop started.finishReason) with sentStop := true }

/-- After an error nothing more is read. -/
def onEvent (event : ResponsesEvent) : HandlerState :=
  if s.failed then s
  else match event with
    | .reasoningSummaryTextDelta delta => s.sendReasoningSummaryDelta delta
    | .reasoningSummaryTextDone =>
      if s.hasSentReasoningSummary then { s with needsSeparator := true } else s
    | .outputTextDelta delta => s.onOutputTextDelta delta
    | .outputItem (some item) => s.onOutputItem item
    | .functionCallArgumentsDelta itemId delta => s.onArgumentsDelta itemId delta
    | .completed => s.finish
    | .failed => { s with failed := true }
    | _ => s

def initial : HandlerState where
  outputText := []
  sentStart := false
  sentStop := false
  sawToolCall := false
  toolCallIds := []
  toolCallName := fun _ ↦ []
  toolCallArgs := fun _ ↦ []
  toolCallNameSent := fun _ ↦ false
  canonicalId := fun _ ↦ []
  hasSentReasoningSummary := false
  needsSeparator := false
  failed := false
  chunks := []

def read (events : List ResponsesEvent) : HandlerState := events.foldl onEvent initial

end HandlerState

/-- The chunks of `OaiResponsesToChatStreamHandler`, whose writes all succeed. -/
def oaiResponsesToChatStream (events : List ResponsesEvent) : List ChatChunk :=
  let s := HandlerState.read events
  if s.failed then s.chunks else s.finish.chunks

end AllAiTools.NewApi.Relay.ChatViaResponses
