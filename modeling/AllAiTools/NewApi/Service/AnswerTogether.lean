import AllAiTools.Foundation.Pieces
import AllAiTools.NewApi.Service.ConvertAnswer

namespace AllAiTools.NewApi.Service.ConvertAnswer

open Dto.OpenAIResponse Foundation

variable {V : Type} (unmarshal : Text → Option (Params V)) (str : Text → V)

section Property

/-- A text that is read as an object. -/
def IsObject (arguments : Text) : Prop :=
  arguments ≠ [] ∧ ∃ fields, unmarshal arguments = some (some fields)

def functionsOf (message : Message) : List Function := message.toolCalls.map (·.function)

structure Answer where
  response : OpenAITextResponse
  objects : ∀ choice ∈ response.choices, ∀ function ∈ functionsOf choice.message,
    IsObject unmarshal function.arguments

/-- The text of calls put together from fragments, which name a call by its index and begin with
the first call. -/
structure Assembles (fragments : List ToolCallResponse) (functions : List Function) : Prop where
  order : (fragments.map (·.index)).eraseDups =
    (List.range functions.length).map fun k : ℕ ↦ some (k : ℤ)
  name : ∀ k (h : k < functions.length),
    (fragments.filter (·.index = some (k : ℤ))).flatMap (·.function.name) = functions[k].name
  arguments : ∀ k (h : k < functions.length),
    (fragments.filter (·.index = some (k : ℤ))).flatMap (·.function.arguments) =
      functions[k].arguments

/-- What the chunks have for a choice. -/
def deltasOf (index : ℤ) (chunks : List ChatCompletionsStreamResponse) : List Delta :=
  ((chunks.flatMap (·.choices)).filter (·.index = index)).map (·.delta)

def fragmentsOf (deltas : List Delta) : List ToolCallResponse :=
  deltas.flatMap (·.toolCalls.getD [])

structure Chunking (answer : Answer unmarshal) where
  chunks : List ChatCompletionsStreamResponse
  text : ∀ choice ∈ answer.response.choices,
    (deltasOf choice.index chunks).flatMap (·.getContentString) = choice.message.stringContent
  calls : ∀ choice ∈ answer.response.choices,
    Assembles (fragmentsOf (deltasOf choice.index chunks)) (functionsOf choice.message)

/-- A call with its arguments as they are to be read. -/
def parsed (function : Function) : FunctionCall V where
  functionName := function.name
  arguments := (unmarshal function.arguments).join

def claudeText (response : ClaudeResponse V) : Text :=
  response.content.flatMap (·.text.getD [])

def Input.mapParams : Option (Input V) → Params V
  | some (.params mapParams) => mapParams
  | _ => none

/-- The call of a tool in use, if the block is one. -/
def ClaudeMediaMessage.call (block : ClaudeMediaMessage V) : Option (FunctionCall V) :=
  if block.type = "tool_use" then
    some { functionName := block.name, arguments := Input.mapParams block.input }
  else none

def claudeCalls (response : ClaudeResponse V) : List (FunctionCall V) :=
  response.content.filterMap (·.call)

def partsText (parts : List (GeminiPart V)) : Text := parts.flatMap (·.text)

def partsCalls (parts : List (GeminiPart V)) : List (FunctionCall V) :=
  parts.filterMap (·.functionCall)

/-- The parts of a candidate over the responses of a stream, put together. -/
def accumulated (index : ℤ) (responses : List (GeminiChatResponse V)) : List (GeminiPart V) :=
  ((responses.flatMap (·.candidates)).filter (·.index = index)).flatMap (·.content.parts)

def geminiStream (chunks : List ChatCompletionsStreamResponse) : List (GeminiChatResponse V) :=
  chunks.filterMap (streamResponseOpenAI2Gemini unmarshal str)

variable {unmarshal}

/-- The text and every tool call come out together. -/
structure Together (answer : Answer unmarshal) (chunking : Chunking unmarshal answer) : Prop where
  claudeText : claudeText (responseOpenAI2Claude unmarshal answer.response) =
    answer.response.choices.flatMap (·.message.stringContent)
  claudeCalls : claudeCalls (responseOpenAI2Claude unmarshal answer.response) =
    answer.response.choices.flatMap fun choice ↦
      (functionsOf choice.message).map (parsed unmarshal)
  gemini : List.Forall₂ (fun choice candidate ↦
      partsText candidate.content.parts = choice.message.stringContent ∧
        partsCalls candidate.content.parts =
          (functionsOf choice.message).map (parsed unmarshal))
    answer.response.choices (responseOpenAI2Gemini unmarshal str answer.response).candidates
  stream : ∀ choice ∈ answer.response.choices,
    partsText (accumulated choice.index (geminiStream unmarshal str chunking.chunks)) =
        choice.message.stringContent ∧
      partsCalls (accumulated choice.index (geminiStream unmarshal str chunking.chunks)) =
        (functionsOf choice.message).map (parsed unmarshal)

/-- Text and tool calls come apart, with one fragment for each call. -/
structure Apart (answer : Answer unmarshal) (chunking : Chunking unmarshal answer) : Prop where
  finished : ∀ choice ∈ answer.response.choices,
    if choice.finishReason = "tool_calls" then choice.message.stringContent = []
    else choice.message.toolCalls = []
  whole : ∀ choice ∈ answer.response.choices,
    (fragmentsOf (deltasOf choice.index chunking.chunks)).length =
      choice.message.toolCalls.length
  silent : ∀ choice ∈ answer.response.choices, ∀ delta ∈ deltasOf choice.index chunking.chunks,
    delta.toolCalls ≠ none → delta.getContentString = []

end Property

section Claude

theorem claudeText_contents (choice : OpenAITextResponseChoice) :
    (choiceContents unmarshal choice).flatMap (fun block ↦ block.text.getD []) =
      if choice.finishReason = "tool_calls" then [] else choice.message.stringContent := by
  rw [choiceContents]
  split
  · rw [List.flatMap_map]
    exact List.flatMap_eq_nil_iff.mpr fun _ _ ↦ rfl
  · exact List.append_nil _

theorem claudeText_response (response : OpenAITextResponse) :
    claudeText (responseOpenAI2Claude unmarshal response) =
      response.choices.flatMap fun choice ↦
        if choice.finishReason = "tool_calls" then [] else
          choice.message.stringContent := by
  rw [claudeText, responseOpenAI2Claude, List.flatMap_assoc]
  simp only [claudeText_contents]

theorem toolUse_call (call : ToolCallRequest) :
    (toolUse unmarshal call).call = some (parsed unmarshal call.function) := by
  have hinput : Input.mapParams (toolUse unmarshal call).input =
      (unmarshal call.function.arguments).join := by
    simp only [toolUse]
    cases unmarshal call.function.arguments <;> rfl
  have htype : (toolUse unmarshal call).type = "tool_use" := rfl
  rw [ClaudeMediaMessage.call, if_pos htype, hinput]
  rfl

theorem textBlock_call (text : Text) : (textBlock text : ClaudeMediaMessage V).call = none :=
  if_neg (show ("text" : String) ≠ "tool_use" by decide)

theorem claudeCalls_contents (choice : OpenAITextResponseChoice) :
    (choiceContents unmarshal choice).filterMap (·.call) =
      if choice.finishReason = "tool_calls" then
        (functionsOf choice.message).map (parsed unmarshal)
      else [] := by
  rw [choiceContents]
  split
  · rw [List.filterMap_map, functionsOf, List.map_map, ← List.filterMap_eq_map]
    exact congrArg (List.filterMap · _) (funext fun call ↦ toolUse_call unmarshal call)
  · rw [List.filterMap_cons, textBlock_call]
    rfl

theorem claudeCalls_response (response : OpenAITextResponse) :
    claudeCalls (responseOpenAI2Claude unmarshal response) =
      response.choices.flatMap fun choice ↦
        if choice.finishReason = "tool_calls" then
          (functionsOf choice.message).map (parsed unmarshal)
        else [] := by
  rw [claudeCalls, responseOpenAI2Claude, List.filterMap_flatMap]
  simp only [claudeCalls_contents]

theorem claude_iff (response : OpenAITextResponse) :
    (claudeText (responseOpenAI2Claude unmarshal response) =
        response.choices.flatMap (·.message.stringContent) ∧
      claudeCalls (responseOpenAI2Claude unmarshal response) =
        response.choices.flatMap fun choice ↦
          (functionsOf choice.message).map (parsed unmarshal)) ↔
    ∀ choice ∈ response.choices,
      if choice.finishReason = "tool_calls" then choice.message.stringContent = []
      else choice.message.toolCalls = [] := by
  rw [claudeText_response, claudeCalls_response, Pieces.flatMap_eq_iff, Pieces.flatMap_eq_iff,
    ← forall₂_and]
  · refine forall₂_congr fun choice _ ↦ ?_
    split
    · exact (and_iff_left rfl).trans eq_comm
    · refine (and_iff_right rfl).trans (eq_comm.trans ?_)
      rw [List.map_eq_nil_iff, functionsOf, List.map_eq_nil_iff]
  all_goals
    intro choice _
    split
    all_goals simp

end Claude

section Gemini

theorem partsText_textParts (text : Text) : partsText (textParts text : List (GeminiPart V)) =
    text := by
  rw [textParts]
  split
  · exact List.append_nil text
  · next h => exact (not_not.mp h).symm

theorem partsCalls_textParts (text : Text) :
    partsCalls (textParts text : List (GeminiPart V)) = [] := by
  rw [textParts]
  split <;> rfl

def called (function : Function) : FunctionCall V where
  functionName := function.name
  arguments := parseArguments unmarshal str function.arguments

theorem called_object {function : Function} (h : IsObject unmarshal function.arguments) :
    called unmarshal str function = parsed unmarshal function := by
  obtain ⟨hne, fields, hfields⟩ := h
  rw [called, parsed, parseArguments, if_pos hne, hfields]
  rfl

theorem partsText_calls (functions : List Function) :
    partsText (functions.map (functionCallPart unmarshal str)) = [] := by
  rw [partsText, List.flatMap_map]
  exact List.flatMap_eq_nil_iff.mpr fun _ _ ↦ rfl

theorem partsCalls_calls (functions : List Function) :
    partsCalls (functions.map (functionCallPart unmarshal str)) =
      functions.map (called unmarshal str) := by
  rw [partsCalls, List.filterMap_map, ← List.filterMap_eq_map]
  rfl

theorem choiceCandidate_parts (choice : OpenAITextResponseChoice) :
    (choiceCandidate unmarshal str choice).content.parts =
      if choice.message.toolCalls = [] then textParts choice.message.stringContent
      else (functionsOf choice.message).map (functionCallPart unmarshal str) := by
  rw [choiceCandidate, functionsOf, List.map_map]
  cases choice.message.toolCalls <;> rfl

theorem candidate_iff {choice : OpenAITextResponseChoice}
    (hobjects : ∀ function ∈ functionsOf choice.message, IsObject unmarshal function.arguments) :
    (partsText (choiceCandidate unmarshal str choice).content.parts =
        choice.message.stringContent ∧
      partsCalls (choiceCandidate unmarshal str choice).content.parts =
        (functionsOf choice.message).map (parsed unmarshal)) ↔
    (choice.message.stringContent = [] ∨ choice.message.toolCalls = []) := by
  rw [choiceCandidate_parts]
  by_cases hcalls : choice.message.toolCalls = []
  · have hnone : functionsOf choice.message = [] := by rw [functionsOf, hcalls]; rfl
    rw [if_pos hcalls, partsText_textParts, partsCalls_textParts, hnone]
    exact iff_of_true ⟨rfl, rfl⟩ (Or.inr hcalls)
  · have hread : (functionsOf choice.message).map (called unmarshal str) =
        (functionsOf choice.message).map (parsed unmarshal) :=
      List.map_congr_left fun function hfunction ↦
        called_object unmarshal str (hobjects function hfunction)
    rw [if_neg hcalls, partsText_calls, partsCalls_calls, or_iff_left hcalls]
    exact (and_iff_left hread).trans eq_comm

end Gemini

section Stream

theorem partsText_delta (delta : Delta) :
    partsText (deltaParts unmarshal str delta) =
      if delta.toolCalls = none then delta.getContentString else [] := by
  rw [deltaParts]
  cases delta.toolCalls with
  | none => exact partsText_textParts _
  | some calls =>
    have h := partsText_calls unmarshal str (calls.map (·.function))
    rw [List.map_map] at h
    exact h

theorem partsCalls_delta (delta : Delta) :
    partsCalls (deltaParts unmarshal str delta) =
      (delta.toolCalls.getD []).map fun call ↦ called unmarshal str call.function := by
  rw [deltaParts]
  cases delta.toolCalls with
  | none => exact partsCalls_textParts _
  | some calls =>
    have h := partsCalls_calls unmarshal str (calls.map (·.function))
    rw [List.map_map, List.map_map] at h
    exact h

/-- Choices without content leave no parts. -/
theorem deltaParts_empty {choice : StreamChoice} (h : hasContent choice = false) :
    deltaParts unmarshal str choice.delta = [] := by
  rw [hasContent, Bool.or_eq_false_iff, decide_eq_false_iff_not, decide_eq_false_iff_not,
    not_lt, not_lt, Nat.le_zero, Nat.le_zero, List.length_eq_zero_iff,
    List.length_eq_zero_iff] at h
  rw [deltaParts]
  cases hcalls : choice.delta.toolCalls with
  | none => exact if_neg (not_not.mpr h.1)
  | some calls =>
    have hnil : calls = [] := by simpa [hcalls] using h.2
    rw [hnil]
    rfl

/-- A chunk that is left out has nothing for any choice. -/
theorem accumulated_chunk (index : ℤ) (chunk : ChatCompletionsStreamResponse) :
    accumulated index (streamResponseOpenAI2Gemini unmarshal str chunk).toList =
      (deltasOf index [chunk]).flatMap (deltaParts unmarshal str) := by
  have hdeltas : deltasOf index [chunk] =
      (chunk.choices.filter (·.index = index)).map (·.delta) := by
    rw [deltasOf, List.flatMap_singleton]
  rw [hdeltas, List.flatMap_map, streamResponseOpenAI2Gemini]
  split
  · next h =>
    have hnone : ∀ choice ∈ chunk.choices, hasContent choice = false := by
      intro choice hchoice
      have hany : chunk.choices.any hasContent = false := by
        simpa using (Bool.and_eq_true_iff.mp h).1
      exact Bool.eq_false_iff.mpr (List.any_eq_false.mp hany choice hchoice)
    refine (List.flatMap_eq_nil_iff.mpr fun choice hchoice ↦ ?_).symm
    exact deltaParts_empty unmarshal str (hnone choice (List.mem_filter.mp hchoice).1)
  · rw [accumulated, Option.toList_some, List.flatMap_singleton, List.filter_map, List.flatMap_map]
    rfl

theorem deltasOf_cons (index : ℤ) (chunk : ChatCompletionsStreamResponse)
    (chunks : List ChatCompletionsStreamResponse) :
    deltasOf index (chunk :: chunks) = deltasOf index [chunk] ++ deltasOf index chunks := by
  rw [deltasOf, deltasOf, deltasOf, List.flatMap_cons, List.filter_append, List.map_append,
    List.flatMap_singleton]

theorem accumulated_append (index : ℤ) (before after : List (GeminiChatResponse V)) :
    accumulated index (before ++ after) = accumulated index before ++ accumulated index after := by
  rw [accumulated, List.flatMap_append, List.filter_append, List.flatMap_append]
  rfl

theorem accumulated_stream (index : ℤ) (chunks : List ChatCompletionsStreamResponse) :
    accumulated index (geminiStream unmarshal str chunks) =
      (deltasOf index chunks).flatMap (deltaParts unmarshal str) := by
  induction chunks with
  | nil => rfl
  | cons chunk chunks ih =>
    have hstream : geminiStream unmarshal str (chunk :: chunks) =
        (streamResponseOpenAI2Gemini unmarshal str chunk).toList ++
          geminiStream unmarshal str chunks := by
      rw [geminiStream, List.filterMap_cons]
      cases streamResponseOpenAI2Gemini unmarshal str chunk <;> rfl
    rw [hstream, accumulated_append, accumulated_chunk, ih, deltasOf_cons index chunk chunks,
      List.flatMap_append]

theorem streamText (index : ℤ) (chunks : List ChatCompletionsStreamResponse) :
    partsText (accumulated index (geminiStream unmarshal str chunks)) =
      (deltasOf index chunks).flatMap fun delta ↦
        if delta.toolCalls = none then delta.getContentString else [] := by
  rw [accumulated_stream, partsText, List.flatMap_assoc]
  simp only [← partsText_delta unmarshal str, partsText]

/-- Each fragment becomes a call of its own. -/
theorem streamCalls (index : ℤ) (chunks : List ChatCompletionsStreamResponse) :
    partsCalls (accumulated index (geminiStream unmarshal str chunks)) =
      (fragmentsOf (deltasOf index chunks)).map fun call ↦
        called unmarshal str call.function := by
  rw [accumulated_stream, partsCalls, List.filterMap_flatMap, fragmentsOf, List.map_flatMap]
  simp only [← partsCalls_delta unmarshal str, partsCalls]

end Stream

section Fragments

/-- As many fragments as calls are the calls themselves. -/
theorem Assembles.whole {fragments : List ToolCallResponse} {functions : List Function}
    (h : Assembles fragments functions) (hlen : fragments.length = functions.length) :
    fragments.map (·.function) = functions := by
  have hindices : fragments.map (·.index) =
      (List.range functions.length).map fun k : ℕ ↦ some (k : ℤ) := by
    rw [Pieces.eraseDups_eq_self_iff h.order]
    simpa using hlen
  have hnodup : (fragments.map (·.index)).Nodup := by
    rw [hindices]
    exact List.nodup_range.map fun j k hjk ↦ by simpa using hjk
  refine List.ext_getElem (by simpa using hlen) fun k hk hk' ↦ ?_
  have hlt : k < fragments.length := by simpa using hk
  have hindex : fragments[k].index = some (k : ℤ) := by
    have hget : (fragments.map (·.index))[k]? = some (some (k : ℤ)) := by
      rw [hindices, List.getElem?_map, List.getElem?_range hk']
      rfl
    simpa [hlt] using hget
  have hone := Pieces.filter_key_eq_singleton hnodup (List.getElem_mem hlt)
  rw [hindex] at hone
  have hname := h.name k hk'
  have harguments := h.arguments k hk'
  rw [hone, List.flatMap_singleton] at hname harguments
  rw [List.getElem_map]
  exact Function.mk.injEq .. ▸ ⟨hname, harguments⟩

variable {unmarshal} {answer : Answer unmarshal} (chunking : Chunking unmarshal answer)

theorem stream_iff {choice : OpenAITextResponseChoice} (hchoice : choice ∈ answer.response.choices) :
    (partsText (accumulated choice.index (geminiStream unmarshal str chunking.chunks)) =
        choice.message.stringContent ∧
      partsCalls (accumulated choice.index (geminiStream unmarshal str chunking.chunks)) =
        (functionsOf choice.message).map (parsed unmarshal)) ↔
    (fragmentsOf (deltasOf choice.index chunking.chunks)).length =
        choice.message.toolCalls.length ∧
      ∀ delta ∈ deltasOf choice.index chunking.chunks,
        delta.toolCalls ≠ none → delta.getContentString = [] := by
  have htext : partsText (accumulated choice.index (geminiStream unmarshal str chunking.chunks)) =
      choice.message.stringContent ↔ ∀ delta ∈ deltasOf choice.index chunking.chunks,
        delta.toolCalls ≠ none → delta.getContentString = [] := by
    rw [streamText, ← chunking.text choice hchoice, Pieces.flatMap_eq_iff]
    · refine forall₂_congr fun delta _ ↦ ?_
      by_cases hnone : delta.toolCalls = none
      · rw [if_pos hnone]
        exact iff_of_true rfl fun h ↦ absurd hnone h
      · rw [if_neg hnone]
        exact eq_comm.trans ⟨fun h _ ↦ h, fun h ↦ h hnone⟩
    · intro delta _
      split
      · exact le_rfl
      · exact Nat.zero_le _
  have hcalls :
      partsCalls (accumulated choice.index (geminiStream unmarshal str chunking.chunks)) =
        (functionsOf choice.message).map (parsed unmarshal) ↔
      (fragmentsOf (deltasOf choice.index chunking.chunks)).length =
        choice.message.toolCalls.length := by
    rw [streamCalls]
    constructor
    · intro h
      simpa [functionsOf] using congrArg List.length h
    · intro hlen
      have hassembles := chunking.calls choice hchoice
      have hwhole := hassembles.whole (by simpa [functionsOf] using hlen)
      have hcalled : (fragmentsOf (deltasOf choice.index chunking.chunks)).map (fun call ↦
          called unmarshal str call.function) =
            (functionsOf choice.message).map (called unmarshal str) := by
        rw [← hwhole, List.map_map]
        rfl
      rw [hcalled]
      exact List.map_congr_left fun function hfunction ↦
        called_object unmarshal str (answer.objects choice hchoice function hfunction)
  rw [htext, hcalls, and_comm]

end Fragments

section Result

variable {unmarshal}

/-- Text and tool calls stay together exactly where the finish reason of each choice fits all that
it has, and a stream does not cut calls or mix them with text. -/
theorem together_iff_apart (answer : Answer unmarshal) (chunking : Chunking unmarshal answer) :
    Together str answer chunking ↔ Apart answer chunking := by
  have hclaude := claude_iff unmarshal answer.response
  have hgemini : List.Forall₂ (fun choice candidate ↦
      partsText candidate.content.parts = choice.message.stringContent ∧
        partsCalls candidate.content.parts =
          (functionsOf choice.message).map (parsed unmarshal))
      answer.response.choices (responseOpenAI2Gemini unmarshal str answer.response).candidates ↔
        ∀ choice ∈ answer.response.choices,
          choice.message.stringContent = [] ∨ choice.message.toolCalls = [] := by
    rw [responseOpenAI2Gemini, List.forall₂_map_right_iff, List.forall₂_same]
    exact forall₂_congr fun choice hchoice ↦
      candidate_iff unmarshal str (answer.objects choice hchoice)
  constructor
  · intro h
    have hstream := fun choice hchoice ↦
      (stream_iff str chunking hchoice).mp (h.stream choice hchoice)
    exact ⟨hclaude.mp ⟨h.claudeText, h.claudeCalls⟩,
      fun choice hchoice ↦ (hstream choice hchoice).1,
      fun choice hchoice ↦ (hstream choice hchoice).2⟩
  · intro h
    have hfinished := hclaude.mpr h.finished
    refine ⟨hfinished.1, hfinished.2, hgemini.mpr fun choice hchoice ↦ ?_,
      fun choice hchoice ↦ (stream_iff str chunking hchoice).mpr
        ⟨h.whole choice hchoice, h.silent choice hchoice⟩⟩
    have hchosen := h.finished choice hchoice
    split at hchosen
    · exact Or.inl hchosen
    · exact Or.inr hchosen

def sayAndCall : OpenAITextResponse where
  choices := [{
    index := 0
    message := {
      content := .text ['H', 'i']
      toolCalls := [{ id := "a", function := { name := ['f'], arguments := ['\x7b', '\x7d'] } }] }
    finishReason := "tool_calls" }]

def fragment (name arguments : Text) : StreamChoice where
  delta := {
    toolCalls := some [{ index := some 0, id := "a", function := ⟨name, arguments⟩ }] }
  finishReason := none
  index := 0

def cutInTwo : List ChatCompletionsStreamResponse :=
  [⟨[{ delta := { content := some ['H', 'i'] }, finishReason := none, index := 0 }]⟩,
    ⟨[fragment ['f'] ['\x7b']]⟩,
    ⟨[fragment [] ['\x7d']]⟩,
    ⟨[{ delta := {}, finishReason := some "tool_calls", index := 0 }]⟩]

/-- What `json.Unmarshal` makes of the only object without fields and of what is no object. -/
def unmarshalEmpty (arguments : Text) : Option (Params Text) :=
  if arguments = ['\x7b', '\x7d'] then some (some []) else none

theorem said_and_called_apart :
    ∃ (answer : Answer unmarshalEmpty) (chunking : Chunking unmarshalEmpty answer),
      answer.response = sayAndCall ∧ chunking.chunks = cutInTwo ∧
        ¬ Together id answer chunking := by
  have hobjects : ∀ choice ∈ sayAndCall.choices, ∀ function ∈ functionsOf choice.message,
      IsObject unmarshalEmpty function.arguments := by
    intro choice hchoice function hfunction
    obtain rfl := List.mem_singleton.mp hchoice
    obtain rfl := List.mem_singleton.mp hfunction
    exact ⟨List.cons_ne_nil _ _, [], rfl⟩
  have htext : ∀ choice ∈ sayAndCall.choices,
      (deltasOf choice.index cutInTwo).flatMap (·.getContentString) =
        choice.message.stringContent := by
    intro choice hchoice
    obtain rfl := List.mem_singleton.mp hchoice
    rfl
  have hcalls : ∀ choice ∈ sayAndCall.choices,
      Assembles (fragmentsOf (deltasOf choice.index cutInTwo)) (functionsOf choice.message) := by
    intro choice hchoice
    obtain rfl := List.mem_singleton.mp hchoice
    refine ⟨rfl, fun k hk ↦ ?_, fun k hk ↦ ?_⟩
    all_goals
      obtain rfl : k = 0 := Nat.lt_one_iff.mp hk
      rfl
  have hlost : claudeText (responseOpenAI2Claude unmarshalEmpty sayAndCall) ≠
      sayAndCall.choices.flatMap (·.message.stringContent) := by decide
  exact ⟨⟨sayAndCall, hobjects⟩, ⟨cutInTwo, htext, hcalls⟩, rfl, rfl,
    fun h ↦ hlost h.claudeText⟩

end Result

end AllAiTools.NewApi.Service.ConvertAnswer
