import AllAiTools.NewApi.Service.ConvertAnswer

namespace AllAiTools.NewApi.Service.StreamOpenAI2Claude

open Dto.OpenAIResponse (Text Function ToolCallResponse)
open ConvertAnswer (stopReasonOpenAI2Claude)

section Chunks

structure PromptTokensDetails where
  cachedTokens : ℤ := 0
  cachedCreationTokens : ℤ := 0

structure Usage where
  promptTokens : ℤ
  completionTokens : ℤ
  promptTokensDetails : PromptTokensDetails := {}
  claudeCacheCreation5mTokens : ℤ := 0
  claudeCacheCreation1hTokens : ℤ := 0

structure Delta where
  content : Option Text := none
  reasoningContent : Option Text := none
  reasoning : Option Text := none
  toolCalls : List ToolCallResponse := []

def Delta.getContentString (delta : Delta) : Text := delta.content.getD []

def Delta.getReasoningContent (delta : Delta) : Text :=
  match delta.reasoningContent, delta.reasoning with
  | none, none => []
  | some reasoningContent, _ => reasoningContent
  | none, some reasoning => reasoning

structure StreamChoice where
  delta : Delta := {}
  finishReason : Option String := none

def StreamChoice.finished (choice : StreamChoice) : Bool :=
  match choice.finishReason with
  | none => false
  | some finishReason => finishReason ≠ ""

structure ChatCompletionsStreamResponse where
  id : String := ""
  model : String := ""
  choices : List StreamChoice
  usage : Option Usage := none

end Chunks

section Events

structure ClaudeCacheCreationUsage where
  ephemeral5mInputTokens : ℤ
  ephemeral1hInputTokens : ℤ

structure ClaudeUsage where
  inputTokens : ℤ
  outputTokens : ℤ
  cacheCreationInputTokens : ℤ := 0
  cacheReadInputTokens : ℤ := 0
  cacheCreation : Option ClaudeCacheCreationUsage := none

inductive ContentBlock
  | text
  | thinking
  | toolUse (id : String) (name : Text)

inductive BlockDelta
  | textDelta (text : Text)
  | thinkingDelta (thinking : Text)
  | inputJsonDelta (partialJson : Text)

/-- The events of a Claude stream, by their types. -/
inductive ClaudeResponse
  | messageStart (id model : String) (usage : ClaudeUsage)
  | contentBlockStart (index : ℤ) (contentBlock : ContentBlock)
  | contentBlockDelta (index : ℤ) (delta : BlockDelta)
  | contentBlockStop (index : ℤ)
  | messageDelta (usage : ClaudeUsage) (stopReason : String)
  | messageStop

def normalizeCacheCreationSplit (totalTokens tokens5m tokens1h : ℤ) : ℤ × ℤ :=
  (tokens5m + max (totalTokens - tokens5m - tokens1h) 0, tokens1h)

def buildClaudeUsageFromOpenAIUsage (oaiUsage : Usage) : ClaudeUsage :=
  let (cacheCreation5m, cacheCreation1h) := normalizeCacheCreationSplit
    oaiUsage.promptTokensDetails.cachedCreationTokens oaiUsage.claudeCacheCreation5mTokens
    oaiUsage.claudeCacheCreation1hTokens
  { inputTokens := oaiUsage.promptTokens
    outputTokens := oaiUsage.completionTokens
    cacheCreationInputTokens := oaiUsage.promptTokensDetails.cachedCreationTokens
    cacheReadInputTokens := oaiUsage.promptTokensDetails.cachedTokens
    cacheCreation :=
      if 0 < cacheCreation5m ∨ 0 < cacheCreation1h then some ⟨cacheCreation5m, cacheCreation1h⟩ else none }

end Events

section Converter

inductive LastMessageType
  | none
  | text
  | tools
  | thinking
  deriving DecidableEq

/-- What a request knows of its stream. -/
structure RelayInfo where
  estimatePromptTokens : ℤ
  sendResponseCount : ℕ := 0
  lastMessagesType : LastMessageType := .none
  index : ℤ := 0
  usage : Option Usage := none
  finishReason : String := ""
  done : Bool := false
  toolCallBaseIndex : ℤ := 0
  toolCallMaxIndexOffset : ℤ := 0

variable (info : RelayInfo)

def stopOpenBlocks : List ClaudeResponse :=
  match info.lastMessagesType with
  | .none => []
  | .text | .thinking => [.contentBlockStop info.index]
  | .tools =>
    (List.range (info.toolCallMaxIndexOffset + 1).toNat).map fun (offset : ℕ) ↦
      .contentBlockStop (info.toolCallBaseIndex + offset)

/-- What `stopOpenBlocksAndAdvance` makes of the state, besides the events of `stopOpenBlocks`. -/
def advance : RelayInfo :=
  match info.lastMessagesType with
  | .none => info
  | .tools =>
    { info with
      index := info.toolCallBaseIndex + info.toolCallMaxIndexOffset + 1
      toolCallBaseIndex := 0
      toolCallMaxIndexOffset := 0
      lastMessagesType := .none }
  | .text | .thinking => { info with index := info.index + 1, lastMessagesType := .none }

/-- `content_block_start` with the type of its deltas. -/
def blockOf : BlockDelta → ContentBlock
  | .textDelta _ => .text
  | .thinkingDelta _ => .thinking
  | .inputJsonDelta _ => .toolUse "" []

def typeOf : BlockDelta → LastMessageType
  | .textDelta _ => .text
  | .thinkingDelta _ => .thinking
  | .inputJsonDelta _ => .tools

/-- The delta of a choice's text: its reasoning, or else its content. -/
def spoken (delta : Delta) : Option BlockDelta :=
  if delta.getReasoningContent ≠ [] then some (.thinkingDelta delta.getReasoningContent)
  else if delta.getContentString ≠ [] then some (.textDelta delta.getContentString)
  else none

/-- The first chunk starts a block for its text in any case. -/
def speakFirst (delta : BlockDelta) : RelayInfo × List ClaudeResponse :=
  let stops := if info.lastMessagesType ≠ typeOf delta then stopOpenBlocks info else []
  let info := if info.lastMessagesType ≠ typeOf delta then advance info else info
  ({ info with lastMessagesType := typeOf delta },
    stops ++ [.contentBlockStart info.index (blockOf delta), .contentBlockDelta info.index delta])

def speak (delta : BlockDelta) : RelayInfo × List ClaudeResponse :=
  if info.lastMessagesType ≠ typeOf delta then
    let stops := stopOpenBlocks info
    let info := advance info
    ({ info with lastMessagesType := typeOf delta },
      stops ++ [.contentBlockStart info.index (blockOf delta), .contentBlockDelta info.index delta])
  else (info, [.contentBlockDelta info.index delta])

/-- A fragment of a call, at the index of its block. -/
def toolEvents (index : ℤ) (toolCall : ToolCallResponse) : List ClaudeResponse :=
  (if toolCall.function.name ≠ [] then
    [.contentBlockStart index (.toolUse toolCall.id toolCall.function.name)] else []) ++
  if toolCall.function.arguments ≠ [] then
    [.contentBlockDelta index (.inputJsonDelta toolCall.function.arguments)] else []

/-- The fragments with the offsets of their calls. -/
def offsets (toolCalls : List ToolCallResponse) : List (ℤ × ToolCallResponse) :=
  toolCalls.mapIdx fun i toolCall ↦ (toolCall.index.getD i, toolCall)

def callTools (toolCalls : List ToolCallResponse) : RelayInfo × List ClaudeResponse :=
  let stops := if info.lastMessagesType ≠ .tools then stopOpenBlocks info else []
  let info :=
    if info.lastMessagesType ≠ .tools then
      let info := advance info
      { info with toolCallBaseIndex := info.index, toolCallMaxIndexOffset := 0 }
    else info
  let base := info.toolCallBaseIndex
  let maxOffset := (offsets toolCalls).foldl (fun maxOffset p ↦ max maxOffset p.1) info.toolCallMaxIndexOffset
  ({ info with lastMessagesType := .tools, toolCallMaxIndexOffset := maxOffset, index := base + maxOffset },
    stops ++ (offsets toolCalls).flatMap fun p ↦ toolEvents (base + p.1) p.2)

def messageEnd (oaiUsage : Option Usage) (stopReason : String) : List ClaudeResponse :=
  (match oaiUsage with
    | some oaiUsage => [.messageDelta (buildClaudeUsageFromOpenAIUsage oaiUsage) stopReason]
    | none => []) ++ [.messageStop]

/-- The first chunk's call, of which there is only one. -/
def callFirst (toolCall : ToolCallResponse) : RelayInfo × List ClaudeResponse :=
  ({ info with lastMessagesType := .tools, toolCallBaseIndex := 0, toolCallMaxIndexOffset := 0 },
    .contentBlockStart 0 (.toolUse toolCall.id toolCall.function.name) ::
      if toolCall.function.arguments ≠ [] then
        [.contentBlockDelta 0 (.inputJsonDelta toolCall.function.arguments)] else [])

def finish (oaiUsage : Option Usage) : RelayInfo × List ClaudeResponse :=
  ({ info with done := true },
    stopOpenBlocks info ++ messageEnd oaiUsage (stopReasonOpenAI2Claude info.finishReason))

def tellFirst (delta : Delta) : RelayInfo × List ClaudeResponse :=
  let (info, called) :=
    match delta.toolCalls with
    | [] => (info, [])
    | toolCall :: _ => callFirst info toolCall
  match spoken delta with
  | none => (info, called)
  | some said =>
    let (info, events) := speakFirst info said
    (info, called ++ events)

def tellNext (delta : Delta) : RelayInfo × List ClaudeResponse :=
  match delta.toolCalls, spoken delta with
  | [], none => (info, [])
  | [], some said => speak info said
  | toolCalls, _ => callTools info toolCalls

/-- The first choice of the first chunk. -/
def convertFirst (usage : Option Usage) (choice : StreamChoice) : RelayInfo × List ClaudeResponse :=
  let (info, told) := tellFirst info choice.delta
  if choice.finished then
    let (info, ended) := finish { info with finishReason := choice.finishReason.getD "" } (usage.or info.usage)
    (info, told ++ ended)
  else (info, told)

/-- The first choice of a later chunk. One that ends the answer is put off until there is a usage. -/
def convertNext (usage : Option Usage) (choice : StreamChoice) : RelayInfo × List ClaudeResponse :=
  if choice.finished then
    let info := { info with finishReason := choice.finishReason.getD "" }
    if usage.isNone then (info, [])
    else
      let (info, told) := tellNext info choice.delta
      let (info, ended) := finish info (usage.or info.usage)
      (info, told ++ ended)
  else tellNext info choice.delta

def streamResponseOpenAI2Claude (openAIResponse : ChatCompletionsStreamResponse) :
    RelayInfo × List ClaudeResponse :=
  if info.done then (info, [])
  else if info.sendResponseCount = 1 then
    let start := .messageStart openAIResponse.id openAIResponse.model
      { inputTokens := info.estimatePromptTokens, outputTokens := 0 }
    match openAIResponse.choices with
    | [] => (info, [start])
    | choice :: _ =>
      let (info, events) := convertFirst info openAIResponse.usage choice
      (info, start :: events)
  else
    match openAIResponse.choices, openAIResponse.usage.or info.usage with
    | [], none => (info, [])
    | [], some oaiUsage =>
      let stopReason := stopReasonOpenAI2Claude info.finishReason
      ({ info with done := true },
        stopOpenBlocks info ++ messageEnd (some oaiUsage) (if stopReason = "" then "end_turn" else stopReason))
    | choice :: _, _ => convertNext info openAIResponse.usage choice

end Converter

section Stream

/-- `HandleStreamFormat` for a client of Claude; data that does not parse is `none`. -/
def handleStreamFormat (info : RelayInfo) (data : Option ChatCompletionsStreamResponse) :
    RelayInfo × List ClaudeResponse :=
  let info := { info with sendResponseCount := info.sendResponseCount + 1 }
  match data with
  | none => (info, [])
  | some streamResponse =>
    streamResponseOpenAI2Claude { info with usage := streamResponse.usage.or info.usage } streamResponse

def handleFinalResponse (usage : Usage) (info : RelayInfo)
    (lastStreamData : Option ChatCompletionsStreamResponse) :
    RelayInfo × List ClaudeResponse :=
  match lastStreamData with
  | none => (info, [])
  | some streamResponse =>
    let (info, claudeResponses) :=
      streamResponseOpenAI2Claude { info with usage := some usage } streamResponse
    ({ info with done := true }, claudeResponses)

def handleAll (info : RelayInfo) :
    List (Option ChatCompletionsStreamResponse) → RelayInfo × List ClaudeResponse
  | [] => (info, [])
  | data :: rest =>
    let (info, claudeResponses) := handleStreamFormat info data
    let (info, others) := handleAll info rest
    (info, claudeResponses ++ others)

/-- What `OaiStreamHandler` sends to a client of Claude: each chunk once the next has come, and the last
with the usage that the stream has been billed for. -/
def oaiStreamHandler (estimatePromptTokens : ℤ) (usage : Usage)
    (chunks : List (Option ChatCompletionsStreamResponse)) : List ClaudeResponse :=
  match chunks.getLast? with
  | none => []
  | some lastStreamData =>
    let (info, claudeResponses) := handleAll { estimatePromptTokens := estimatePromptTokens } chunks.dropLast
    claudeResponses ++ (handleFinalResponse usage info lastStreamData).2

end Stream

end AllAiTools.NewApi.Service.StreamOpenAI2Claude
