import AllAiTools.Foundation.Pieces
import AllAiTools.NewApi.Relay.OllamaStream

namespace AllAiTools.NewApi.Relay.OllamaAgrees

open ChatViaResponses (Text trimSpace)
open Dto.OpenAIResponse (Delta StreamChoice Function ToolCallResponse)
open OllamaStream

variable {A β : Type}

abbrev Chunk (A : Type) := OllamaChatStreamChunk A

abbrev linesOf (body : Text) : List Text := body.splitOn '\n'

section Answers

/-- What an answer says, however it is sent. -/
structure Said where
  content : Text
  reasoning : Text
  toolCalls : List Function

variable (codec : Codec A)

def textOf (ck : Chunk A) : Text :=
  (match ck.message with
    | some message => message.content
    | none => []) ++ ck.response

def reasoningOf (ck : Chunk A) : Text := (ck.message.bind (thinkingOf codec)).getD []

def callsOf (ck : Chunk A) : List (FunctionCall A) :=
  match ck.message with
  | some message => message.toolCalls
  | none => []

def functionOf (tc : FunctionCall A) :
    Function := { name := tc.name, arguments := codec.marshal tc.arguments }

/-- All that the chunks of an answer carry. -/
def carried (chunks : List (Chunk A)) : Said where
  content := chunks.flatMap textOf
  reasoning := chunks.flatMap (reasoningOf codec)
  toolCalls := chunks.flatMap fun ck ↦ (callsOf ck).map (functionOf codec)

def chunksOf (lines : List Text) : List (Chunk A) :=
  lines.filterMap fun line ↦
    if trimSpace line = [] then none else (codec.unmarshal (trimSpace line)).toOption

def choicesOf : Frame → List StreamChoice
  | .response _ r _ => r.choices
  | .done => []

def usageIn : Frame → Option Usage
  | .response _ _ usage => usage
  | .done => none

/-- The calls of the frames, in the order in which they are sent. -/
def sentCalls (sent : List Frame) : List ToolCallResponse :=
  (sent.flatMap choicesOf).flatMap fun choice ↦ choice.delta.toolCalls.getD []

def accumulated (sent : List Frame) : Said where
  content := (sent.flatMap choicesOf).flatMap fun choice ↦ choice.delta.getContentString
  reasoning := (sent.flatMap choicesOf).flatMap fun choice ↦ choice.delta.reasoningContent.getD []
  toolCalls := (sentCalls sent).map (·.function)

def finishReasons (sent : List Frame) : List String := (sent.flatMap choicesOf).filterMap (·.finishReason)

def said (answer : Answer) : Said where
  content := answer.choice.message.stringContent
  reasoning := answer.choice.message.reasoningContent.getD []
  toolCalls := answer.choice.message.toolCalls.map (·.function)

/-- Both handlers send all that the chunks carry, under the same report. -/
structure Agrees (upstreamModelName body : Text) : Prop where
  streamed : accumulated (ollamaStreamHandler codec upstreamModelName body).sent =
    carried codec (chunksOf codec (linesOf body))
  returned : ∃ answer, ollamaChatHandler codec upstreamModelName body = .ok answer ∧
    said answer = carried codec (chunksOf codec (linesOf body)) ∧
    finishReasons (ollamaStreamHandler codec upstreamModelName body).sent = [answer.choice.finishReason] ∧
    (ollamaStreamHandler codec upstreamModelName body).sent.filterMap usageIn = [answer.usage] ∧
    (ollamaStreamHandler codec upstreamModelName body).usage = answer.usage
  numbered : (sentCalls (ollamaStreamHandler codec upstreamModelName body).sent).map (·.index) =
    (List.range (sentCalls (ollamaStreamHandler codec upstreamModelName body).sent).length).map
      fun (i : ℕ) ↦ some (i : ℤ)

def isOpen (ck : Chunk A) : Bool := !ck.done

/-- What a done chunk reports of the whole answer. -/
def reportOf (ck : Chunk A) : Usage × String := (usageOf ck, finishReasonOf ck)

/-- The lines up to the first done chunk. -/
def linesToDone : List Text → List Text
  | [] => []
  | line :: lines =>
    line :: if (chunksOf codec [line]).all isOpen then linesToDone lines else []

/-- Nothing of an answer is called, none of it stands where the stream has ended or in a field
beside its message, and its lines fit in the scanner's buffer. -/
structure Plain (lines : List Text) : Prop where
  short : ∀ line ∈ linesToDone codec lines, byteSize line ≤ maxLineSize
  uncalled : ∀ ck ∈ chunksOf codec lines, callsOf ck = []
  apart : ∀ ck ∈ (chunksOf codec lines).takeWhile isOpen, ck.message.isSome → ck.response = []
  spent : ∀ ck ∈ (chunksOf codec lines).dropWhile isOpen, textOf ck = [] ∧ reasoningOf codec ck = []
  report : ((chunksOf codec lines).dropWhile isOpen).head?.map reportOf =
    (chunksOf codec lines).getLast?.map reportOf

end Answers

section Chunks

variable (codec : Codec A)

/-- The stream over chunks that are decoded already. -/
def streamChunks : List (Chunk A) → StreamState → Streamed
  | [], _ => { sent := [] }
  | ck :: chunks, st =>
    let model := if ck.model = [] then st.model else ck.model
    if ck.done then
      { sent := [generateStopResponse model (finishReasonOf ck),
          generateFinalUsageResponse model (usageOf ck), .done],
        usage := usageOf ck }
    else
      let rest := streamChunks chunks ⟨model, st.toolCallIndex + (callsOf ck).length⟩
      { rest with sent := deltaResponse codec model st.toolCallIndex ck :: rest.sent }

/-- A line that is blank or one chunk. -/
def Valid (line : Text) : Prop := trimSpace line = [] ∨ ∃ ck, codec.unmarshal (trimSpace line) = .ok ck

variable {codec}

theorem chunksOf_blank {line : Text} (h : trimSpace line = []) (lines : List Text) :
    chunksOf codec (line :: lines) = chunksOf codec lines := by
  simp [chunksOf, h]

theorem chunksOf_chunk {line : Text} {ck : Chunk A} (hblank : trimSpace line ≠ [])
    (h : codec.unmarshal (trimSpace line) = .ok ck) (lines : List Text) :
    chunksOf codec (line :: lines) = ck :: chunksOf codec lines := by
  simp [chunksOf, hblank, h, Except.toOption]

theorem streamLoop_valid {lines : List Text} (hvalid : ∀ line ∈ lines, Valid codec line) (st : StreamState) :
    streamLoop codec lines st = streamChunks codec (chunksOf codec lines) st := by
  induction lines generalizing st with
  | nil => rfl
  | cons line lines ih =>
    have hrest := fun st ↦ ih (fun l hl ↦ hvalid l (List.mem_cons_of_mem line hl)) st
    rw [streamLoop]
    by_cases hblank : trimSpace line = []
    · rw [if_pos hblank, chunksOf_blank hblank]
      exact hrest st
    · obtain hblank' | ⟨ck, hck⟩ := hvalid line List.mem_cons_self
      · exact absurd hblank' hblank
      · rw [if_neg hblank, chunksOf_chunk hblank hck, streamChunks, hck]
        dsimp only
        rw [hrest]
        rfl

theorem aggregateLines_valid {lines : List Text} (hvalid : ∀ line ∈ lines, Valid codec line) (only : Bool)
    (agg : Aggregate A) :
    aggregateLines codec only lines agg = .ok ((chunksOf codec lines).foldl (Aggregate.add codec) agg) := by
  induction lines generalizing agg with
  | nil => rfl
  | cons line lines ih =>
    have hrest := fun agg ↦ ih (fun l hl ↦ hvalid l (List.mem_cons_of_mem line hl)) agg
    rw [aggregateLines]
    by_cases hblank : trimSpace line = []
    · rw [if_pos hblank, chunksOf_blank hblank]
      exact hrest agg
    · obtain hblank' | ⟨ck, hck⟩ := hvalid line List.mem_cons_self
      · exact absurd hblank' hblank
      · rw [if_neg hblank, chunksOf_chunk hblank hck, hck]
        exact hrest _

end Chunks

section Streaming

variable (codec : Codec A) {ck : Chunk A} (chunks : List (Chunk A)) (st : StreamState)

/-- The text of a chunk that the stream sends. -/
def deltaText (ck : Chunk A) : Text :=
  match ck.message with
  | some message => message.content
  | none => ck.response

/-- What the stream sends of some chunks: all that stands before the first done one, and of a chunk
with a message only what is in the message. -/
def sentOf : Said where
  content := (chunks.takeWhile isOpen).flatMap deltaText
  reasoning := (chunks.takeWhile isOpen).flatMap (reasoningOf codec)
  toolCalls := (chunks.takeWhile isOpen).flatMap fun ck ↦ (callsOf ck).map (functionOf codec)

theorem sent_open (h : ck.done = false) :
    ∃ model, (streamChunks codec (ck :: chunks) st).sent =
      deltaResponse codec model st.toolCallIndex ck ::
        (streamChunks codec chunks ⟨model, st.toolCallIndex + (callsOf ck).length⟩).sent := by
  refine ⟨if ck.model = [] then st.model else ck.model, ?_⟩
  rw [streamChunks, if_neg (by rw [h]; exact Bool.false_ne_true)]

theorem sent_done (h : ck.done = true) :
    ∃ model, (streamChunks codec (ck :: chunks) st).sent =
      [generateStopResponse model (finishReasonOf ck), generateFinalUsageResponse model (usageOf ck),
        .done] := by
  refine ⟨if ck.model = [] then st.model else ck.model, ?_⟩
  rw [streamChunks, if_pos h]

theorem usage_open (h : ck.done = false) :
    ∃ model, (streamChunks codec (ck :: chunks) st).usage =
      (streamChunks codec chunks ⟨model, st.toolCallIndex + (callsOf ck).length⟩).usage := by
  refine ⟨if ck.model = [] then st.model else ck.model, ?_⟩
  rw [streamChunks, if_neg (by rw [h]; exact Bool.false_ne_true)]

theorem choicesOf_deltaResponse (model : Text) (toolCallIndex : ℕ) (ck : Chunk A) :
    choicesOf (deltaResponse codec model toolCallIndex ck) =
      [{ delta := {
          role := "assistant"
          content := if deltaText ck = [] then none else some (deltaText ck)
          reasoningContent := ck.message.bind (thinkingOf codec)
          toolCalls := if callsOf ck = [] then none else
            some (toolCallResponses codec toolCallIndex (callsOf ck)) }
         finishReason := none
         index := 0 }] :=
  rfl

theorem getD_ite_nil {α β : Type} {l : List α} {m : List β} (h : l = [] → m = []) :
    (if l = [] then none else some m).getD [] = m := by
  split
  · exact (h ‹_›).symm
  · rfl

theorem toolCallResponses_functions (toolCallIndex : ℕ) (calls : List (FunctionCall A)) :
    (toolCallResponses codec toolCallIndex calls).map (·.function) = calls.map (functionOf codec) := by
  induction calls generalizing toolCallIndex with
  | nil => rfl
  | cons tc calls ih => exact congrArg (_ :: ·) (ih (toolCallIndex + 1))

theorem toolCallResponses_indices (toolCallIndex : ℕ) (calls : List (FunctionCall A)) :
    (toolCallResponses codec toolCallIndex calls).map (·.index) =
      (List.range' toolCallIndex calls.length).map fun (i : ℕ) ↦ some (i : ℤ) := by
  induction calls generalizing toolCallIndex with
  | nil => rfl
  | cons tc calls ih => exact congrArg (_ :: ·) (ih (toolCallIndex + 1))

theorem sentCalls_open (h : ck.done = false) :
    ∃ model, sentCalls (streamChunks codec (ck :: chunks) st).sent =
      toolCallResponses codec st.toolCallIndex (callsOf ck) ++
        sentCalls (streamChunks codec chunks ⟨model, st.toolCallIndex + (callsOf ck).length⟩).sent := by
  obtain ⟨model, hsent⟩ := sent_open codec chunks st h
  refine ⟨model, ?_⟩
  rw [sentCalls, hsent, List.flatMap_cons, choicesOf_deltaResponse, List.flatMap_append]
  refine congrArg (· ++ _) ?_
  rw [List.flatMap_singleton]
  exact getD_ite_nil fun hnil : callsOf ck = [] ↦ by rw [hnil]; rfl

theorem accumulated_streamChunks :
    accumulated (streamChunks codec chunks st).sent = sentOf codec chunks := by
  induction chunks generalizing st with
  | nil => rfl
  | cons ck chunks ih =>
    cases hdone : ck.done with
    | true =>
      obtain ⟨model, hsent⟩ := sent_done codec chunks st hdone
      rw [hsent, sentOf, List.takeWhile_cons_of_neg (by simp [isOpen, hdone])]
      rfl
    | false =>
      obtain ⟨model, hsent⟩ := sent_open codec chunks st hdone
      obtain ⟨model', hcalls⟩ := sentCalls_open codec chunks st hdone
      rw [sentOf, List.takeWhile_cons_of_pos (by simp [isOpen, hdone])]
      rw [accumulated, hcalls, List.map_append, toolCallResponses_functions]
      have hrest := ih ⟨model, st.toolCallIndex + (callsOf ck).length⟩
      have hrest' := ih ⟨model', st.toolCallIndex + (callsOf ck).length⟩
      rw [accumulated, sentOf, Said.mk.injEq] at hrest hrest'
      rw [hsent, List.flatMap_cons, choicesOf_deltaResponse, List.flatMap_append, List.flatMap_append,
        hrest.1, hrest.2.1, hrest'.2.2]
      simp only [Dto.OpenAIResponse.Delta.getContentString, List.flatMap_cons, List.flatMap_nil,
        List.append_nil]
      rw [getD_ite_nil id]
      rfl

theorem numbered_streamChunks :
    (sentCalls (streamChunks codec chunks st).sent).map (·.index) =
      (List.range' st.toolCallIndex (sentCalls (streamChunks codec chunks st).sent).length).map
        fun (i : ℕ) ↦ some (i : ℤ) := by
  induction chunks generalizing st with
  | nil => rfl
  | cons ck chunks ih =>
    cases hdone : ck.done with
    | true =>
      obtain ⟨model, hsent⟩ := sent_done codec chunks st hdone
      rw [hsent]
      rfl
    | false =>
      obtain ⟨model, hcalls⟩ := sentCalls_open codec chunks st hdone
      have hlen : (toolCallResponses codec st.toolCallIndex (callsOf ck)).length = (callsOf ck).length := by
        rw [← List.length_map, toolCallResponses_functions, List.length_map]
      rw [hcalls, List.map_append, ih, toolCallResponses_indices, List.length_append, hlen,
        ← List.range'_append_1, List.map_append]

theorem finishReasons_streamChunks :
    finishReasons (streamChunks codec chunks st).sent =
      ((chunks.dropWhile isOpen).head?.map finishReasonOf).toList := by
  induction chunks generalizing st with
  | nil => rfl
  | cons ck chunks ih =>
    cases hdone : ck.done with
    | true =>
      obtain ⟨model, hsent⟩ := sent_done codec chunks st hdone
      rw [hsent, List.dropWhile_cons_of_neg (by simp [isOpen, hdone])]
      rfl
    | false =>
      obtain ⟨model, hsent⟩ := sent_open codec chunks st hdone
      rw [List.dropWhile_cons_of_pos (by simp [isOpen, hdone]), ← ih, finishReasons, hsent]
      rfl

theorem usages_streamChunks :
    (streamChunks codec chunks st).sent.filterMap usageIn =
      ((chunks.dropWhile isOpen).head?.map usageOf).toList := by
  induction chunks generalizing st with
  | nil => rfl
  | cons ck chunks ih =>
    cases hdone : ck.done with
    | true =>
      obtain ⟨model, hsent⟩ := sent_done codec chunks st hdone
      rw [hsent, List.dropWhile_cons_of_neg (by simp [isOpen, hdone])]
      rfl
    | false =>
      obtain ⟨model, hsent⟩ := sent_open codec chunks st hdone
      rw [List.dropWhile_cons_of_pos (by simp [isOpen, hdone]), ← ih, hsent]
      rfl

theorem usage_streamChunks :
    (streamChunks codec chunks st).usage = ((chunks.dropWhile isOpen).head?.map usageOf).getD {} := by
  induction chunks generalizing st with
  | nil => rfl
  | cons ck chunks ih =>
    cases hdone : ck.done with
    | true =>
      rw [List.dropWhile_cons_of_neg (by simp [isOpen, hdone]), streamChunks, if_pos hdone]
      rfl
    | false =>
      obtain ⟨model, husage⟩ := usage_open codec chunks st hdone
      rw [List.dropWhile_cons_of_pos (by simp [isOpen, hdone]), ← ih, husage]

end Streaming

section Scanning

variable {codec : Codec A} {lines : List Text}

theorem chunksOf_append (lines rest : List Text) :
    chunksOf codec (lines ++ rest) = chunksOf codec lines ++ chunksOf codec rest :=
  List.filterMap_append

theorem chunksOf_scan_prefix (codec : Codec A) (lines : List Text) :
    chunksOf codec (scan lines) <+: chunksOf codec lines := by
  obtain ⟨rest, hrest⟩ := List.takeWhile_prefix (l := lines) fun line ↦ decide (byteSize line ≤ maxLineSize)
  exact ⟨chunksOf codec rest, by rw [← chunksOf_append, scan, hrest]⟩

/-- The scanner reaches a done chunk exactly when no line up to it is too long. -/
theorem scan_reaches_iff (hdone : ∃ ck ∈ chunksOf codec lines, ck.done = true) :
    (∃ ck ∈ chunksOf codec (scan lines), ck.done = true) ↔
      ∀ line ∈ linesToDone codec lines, byteSize line ≤ maxLineSize := by
  induction lines with
  | nil => exact absurd hdone (by simp [chunksOf])
  | cons line lines ih =>
    rw [linesToDone, List.forall_mem_cons]
    by_cases hshort : byteSize line ≤ maxLineSize
    · have hscan : scan (line :: lines) = line :: scan lines :=
          List.takeWhile_cons_of_pos (by simpa using hshort)
      rw [hscan, ← List.singleton_append, chunksOf_append]
      rw [← List.singleton_append, chunksOf_append] at hdone
      cases hall : (chunksOf codec [line]).all isOpen with
      | true =>
        have hopen : ¬ ∃ ck ∈ chunksOf codec [line], ck.done = true := by
          rintro ⟨ck, hck, h⟩
          have := List.all_eq_true.mp hall ck hck
          simp [isOpen, h] at this
        have hskip : ∀ rest : List (Chunk A),
            (∃ ck ∈ chunksOf codec [line] ++ rest, ck.done = true) ↔ ∃ ck ∈ rest, ck.done = true := by
          intro rest
          constructor
          · rintro ⟨ck, hck, h⟩
            obtain hck | hck := List.mem_append.mp hck
            · exact absurd ⟨ck, hck, h⟩ hopen
            · exact ⟨ck, hck, h⟩
          · rintro ⟨ck, hck, h⟩
            exact ⟨ck, List.mem_append_right _ hck, h⟩
        rw [hskip, ih ((hskip _).mp hdone), if_pos rfl]
        exact (and_iff_right hshort).symm
      | false =>
        obtain ⟨ck, hck, h⟩ := List.all_eq_false.mp hall
        rw [if_neg Bool.false_ne_true]
        refine iff_of_true ⟨ck, List.mem_append_left _ hck, ?_⟩ ⟨hshort, fun _ h ↦ by cases h⟩
        simpa [isOpen] using h
    · have hscan : scan (line :: lines) = [] := List.takeWhile_cons_of_neg (by simpa using hshort)
      rw [hscan]
      exact iff_of_false (by simp [chunksOf]) fun h ↦ hshort h.1

theorem takeWhile_of_prefix {α : Type} {p : α → Bool} {l m : List α} (h : l <+: m) {a : α} (ha : a ∈ l)
    (hp : p a = false) : l.takeWhile p = m.takeWhile p ∧ (l.dropWhile p).head? = (m.dropWhile p).head? := by
  obtain ⟨rest, rfl⟩ := h
  have hall : ¬ ∀ b ∈ l, p b = true := fun h ↦ by simp [h a ha] at hp
  constructor
  · rw [List.takeWhile_append, if_neg]
    intro hlen
    refine hall fun b hb ↦ ?_
    rw [← List.IsPrefix.eq_of_length (List.takeWhile_prefix p) hlen] at hb
    exact List.mem_takeWhile_imp hb
  · have hne : l.dropWhile p ≠ [] := fun h ↦ hall (List.dropWhile_eq_nil_iff.mp h)
    rw [List.dropWhile_append, if_neg (by simpa using hne), List.head?_append_of_ne_nil _ hne]

theorem exists_done_of_head {chunks : List (Chunk A)} {ck : Chunk A}
    (h : (chunks.dropWhile isOpen).head? = some ck) : ck ∈ chunks ∧ ck.done = true := by
  have hmem : ck ∈ chunks.dropWhile isOpen := List.mem_of_mem_head? h
  refine ⟨(List.dropWhile_sublist isOpen).subset hmem, ?_⟩
  have hnot := List.head?_dropWhile_not isOpen chunks
  rw [h] at hnot
  simpa [isOpen] using hnot

end Scanning

section Handlers

variable {codec : Codec A} {body : Text}
  (hvalid : ∀ line ∈ linesOf body, Valid codec line)

include hvalid

theorem stream_valid (upstreamModelName : Text) :
    ollamaStreamHandler codec upstreamModelName body =
      let streamed := streamChunks codec (chunksOf codec (scan (linesOf body)))
        { model := upstreamModelName }
      { streamed with sent := generateStartEmptyResponse upstreamModelName :: streamed.sent } := by
  rw [ollamaStreamHandler, streamLoop_valid]
  exact fun line hline ↦ hvalid line ((List.takeWhile_sublist _).subset hline)

omit hvalid in
theorem foldl_add (chunks : List (Chunk A)) (agg : Aggregate A) :
    chunks.foldl (Aggregate.add codec) agg =
      { content := agg.content ++ chunks.flatMap contentOf
        reasoning := agg.reasoning ++ chunks.flatMap (reasoningOf codec)
        lastChunk := chunks.getLast?.getD agg.lastChunk
        parsedAny := agg.parsedAny || !chunks.isEmpty } := by
  induction chunks generalizing agg with
  | nil => simp
  | cons ck chunks ih =>
    rw [List.foldl_cons, ih]
    cases hlast : chunks.getLast? <;>
      simp [Aggregate.add, reasoningOf, List.getLast?_cons, hlast]

theorem chat_valid (upstreamModelName : Text) {last : Chunk A}
    (hends : (chunksOf codec (linesOf body)).getLast? = some last) :
    ollamaChatHandler codec upstreamModelName body =
      .ok (Aggregate.answer upstreamModelName
        { content := (chunksOf codec (linesOf body)).flatMap contentOf
          reasoning := (chunksOf codec (linesOf body)).flatMap (reasoningOf codec)
          lastChunk := last
          parsedAny := true }) := by
  have hne : (chunksOf codec (linesOf body)).isEmpty = false := by
    rw [List.isEmpty_eq_false_iff]
    intro hnil
    rw [hnil] at hends
    cases hends
  rw [ollamaChatHandler, aggregateLines_valid hvalid, foldl_add, hends, hne]
  rfl

omit hvalid in
theorem said_answer (upstreamModelName : Text) (agg : Aggregate A) :
    said (agg.answer upstreamModelName) =
      { content := agg.content, reasoning := agg.reasoning, toolCalls := [] } := by
  rw [said, Said.mk.injEq]
  refine ⟨?_, getD_ite_nil id, rfl⟩
  rw [Dto.OpenAIResponse.Message.stringContent, Aggregate.answer, contentPtr]
  by_cases hnil : agg.content = []
  · simp [hnil]
  · simp [hnil]

end Handlers

section Agreement

variable {codec : Codec A} {ck : Chunk A}

theorem deltaText_length_le (ck : Chunk A) : (deltaText ck).length ≤ (textOf ck).length := by
  rw [deltaText, textOf]
  cases ck.message with
  | none => exact le_refl _
  | some message => simp

theorem contentOf_length_le (ck : Chunk A) : (contentOf ck).length ≤ (textOf ck).length := by
  rw [contentOf, textOf]
  cases ck.message with
  | none => exact le_refl _
  | some message =>
    dsimp only
    split <;> simp

theorem deltaText_eq_iff : deltaText ck = textOf ck ↔ (ck.message.isSome → ck.response = []) := by
  rw [deltaText, textOf]
  cases ck.message with
  | none => simp
  | some message => simp

theorem contentOf_eq (h : ck.message.isSome → ck.response = []) : contentOf ck = textOf ck := by
  rw [contentOf, textOf]
  cases hmessage : ck.message with
  | none => rfl
  | some message =>
    rw [h (by rw [hmessage]; rfl)]
    by_cases hnil : message.content = [] <;> simp [hnil]

theorem flatMap_split (g : Chunk A → List β) (chunks : List (Chunk A)) :
    chunks.flatMap g = (chunks.takeWhile isOpen).flatMap g ++ (chunks.dropWhile isOpen).flatMap g := by
  rw [← List.flatMap_append, List.takeWhile_append_dropWhile]

/-- What is sent of the chunks before the end of the stream is all there is exactly when nothing
stands beside a message there and nothing follows. -/
theorem sent_eq_carried_iff (codec : Codec A) (chunks : List (Chunk A)) :
    sentOf codec chunks = carried codec chunks ↔
      (∀ ck ∈ chunks.takeWhile isOpen, ck.message.isSome → ck.response = []) ∧
        ∀ ck ∈ chunks.dropWhile isOpen, textOf ck = [] ∧ reasoningOf codec ck = [] ∧ callsOf ck = [] := by
  have hcontent : (chunks.takeWhile isOpen).flatMap deltaText = chunks.flatMap textOf ↔
      (∀ ck ∈ chunks.takeWhile isOpen, ck.message.isSome → ck.response = []) ∧
        ∀ ck ∈ chunks.dropWhile isOpen, textOf ck = [] := by
    rw [flatMap_split textOf, Foundation.Pieces.flatMap_eq_append_iff fun ck _ ↦ deltaText_length_le ck,
      List.flatMap_eq_nil_iff]
    exact and_congr (forall₂_congr fun ck _ ↦ deltaText_eq_iff) Iff.rfl
  have hrest : ∀ {β : Type} (g : Chunk A → List β),
      (chunks.takeWhile isOpen).flatMap g = chunks.flatMap g ↔ ∀ ck ∈ chunks.dropWhile isOpen, g ck = [] := by
    intro β g
    rw [flatMap_split g chunks, List.self_eq_append_right, List.flatMap_eq_nil_iff]
  rw [sentOf, carried, Said.mk.injEq, hcontent, hrest, hrest]
  constructor
  · rintro ⟨⟨hapart, htext⟩, hreasoning, hcalls⟩
    exact ⟨hapart, fun ck hck ↦ ⟨htext ck hck, hreasoning ck hck, List.map_eq_nil_iff.mp (hcalls ck hck)⟩⟩
  · rintro ⟨hapart, hspent⟩
    exact ⟨⟨hapart, fun ck hck ↦ (hspent ck hck).1⟩, fun ck hck ↦ (hspent ck hck).2.1,
      fun ck hck ↦ List.map_eq_nil_iff.mpr (hspent ck hck).2.2⟩

variable {upstreamModelName body : Text}

theorem reported_iff {head : Option (Chunk A)} {last : Chunk A} :
    (head.map finishReasonOf).toList = [finishReasonOf last] ∧ (head.map usageOf).toList = [usageOf last] ∧
        (head.map usageOf).getD {} = usageOf last ↔ head.map reportOf = some (reportOf last) := by
  cases head with
  | none => simp
  | some first =>
    simp only [Option.map_some, Option.toList_some, Option.getD_some, List.cons.injEq, and_true,
      Option.some.injEq, reportOf, Prod.mk.injEq]
    exact ⟨fun h ↦ ⟨h.2.1, h.1⟩, fun h ↦ ⟨h.2, h.1, h.1⟩⟩

/-- The agreement of the handlers, in terms of the chunks of the body and those the scanner reaches. -/
theorem handlers_iff_chunks (hvalid : ∀ line ∈ linesOf body, Valid codec line)
    {last : Chunk A} (hends : (chunksOf codec (linesOf body)).getLast? = some last) :
    Agrees codec upstreamModelName body ↔
      sentOf codec (chunksOf codec (scan (linesOf body))) = carried codec (chunksOf codec (linesOf body)) ∧
      ({ content := (chunksOf codec (linesOf body)).flatMap contentOf
         reasoning := (chunksOf codec (linesOf body)).flatMap (reasoningOf codec)
         toolCalls := [] } : Said) = carried codec (chunksOf codec (linesOf body)) ∧
      ((chunksOf codec (scan (linesOf body))).dropWhile isOpen).head?.map reportOf =
        some (reportOf last) := by
  have hstream := stream_valid hvalid upstreamModelName
  have hchat := chat_valid hvalid upstreamModelName hends
  have haccumulated : accumulated (ollamaStreamHandler codec upstreamModelName body).sent =
      sentOf codec (chunksOf codec (scan (linesOf body))) := by
    rw [hstream]
    exact accumulated_streamChunks _ _ _
  have hfinish : finishReasons (ollamaStreamHandler codec upstreamModelName body).sent =
      (((chunksOf codec (scan (linesOf body))).dropWhile isOpen).head?.map finishReasonOf).toList := by
    rw [hstream]
    exact finishReasons_streamChunks _ _ _
  have husages : (ollamaStreamHandler codec upstreamModelName body).sent.filterMap usageIn =
      (((chunksOf codec (scan (linesOf body))).dropWhile isOpen).head?.map usageOf).toList := by
    rw [hstream]
    exact usages_streamChunks _ _ _
  have husage : (ollamaStreamHandler codec upstreamModelName body).usage =
      (((chunksOf codec (scan (linesOf body))).dropWhile isOpen).head?.map usageOf).getD {} := by
    rw [hstream]
    exact usage_streamChunks _ _ _
  have hnumbered : (sentCalls (ollamaStreamHandler codec upstreamModelName body).sent).map (·.index) =
      (List.range (sentCalls (ollamaStreamHandler codec upstreamModelName body).sent).length).map
        fun (i : ℕ) ↦ some (i : ℤ) := by
    rw [hstream, List.range_eq_range']
    exact numbered_streamChunks _ _ { model := upstreamModelName }
  constructor
  · rintro ⟨hstreamed, ⟨answer, hanswer, hsaid, hreport⟩, -⟩
    rw [hchat] at hanswer
    obtain rfl := Except.ok.inj hanswer
    rw [hfinish, husages, husage] at hreport
    rw [said_answer] at hsaid
    exact ⟨haccumulated ▸ hstreamed, hsaid, reported_iff.mp hreport⟩
  · rintro ⟨hsent, hsaid, hreport⟩
    refine ⟨haccumulated.trans hsent, ⟨_, hchat, (said_answer _ _).trans hsaid, ?_⟩, hnumbered⟩
    rw [hfinish, husages, husage]
    exact reported_iff.mpr hreport

/-- The streamed and the whole answer say all that the chunks do, under one report, exactly when no
chunk calls a tool, none from the first done one on says anything, no text stands beside a message
and no line up to the first done chunk is too long for the scanner. -/
theorem handlers_iff (hvalid : ∀ line ∈ linesOf body, Valid codec line)
    {last : Chunk A} (hends : (chunksOf codec (linesOf body)).getLast? = some last)
    (hdone : last.done = true) :
    Agrees codec upstreamModelName body ↔ Plain codec (linesOf body) := by
  have hmem : ∃ ck ∈ chunksOf codec (linesOf body), ck.done = true :=
    ⟨last, List.mem_of_getLast? hends, hdone⟩
  have hprefix := chunksOf_scan_prefix codec (linesOf body)
  rw [handlers_iff_chunks hvalid hends]
  constructor
  · rintro ⟨hsent, hsaid, hreport⟩
    obtain ⟨first, hfirst, -⟩ := Option.map_eq_some_iff.mp hreport
    obtain ⟨hin, hfirstdone⟩ := exists_done_of_head hfirst
    obtain ⟨htake, hhead⟩ := takeWhile_of_prefix hprefix hin (p := isOpen) (by simp [isOpen, hfirstdone])
    rw [sentOf, htake] at hsent
    rw [carried, Said.mk.injEq] at hsaid
    obtain ⟨hapart, hspent⟩ := (sent_eq_carried_iff codec _).mp hsent
    refine ⟨(scan_reaches_iff hmem).mp ⟨first, hin, hfirstdone⟩, ?_, hapart,
      fun ck hck ↦ ⟨(hspent ck hck).1, (hspent ck hck).2.1⟩, ?_⟩
    · intro ck hck
      exact List.map_eq_nil_iff.mp (List.flatMap_eq_nil_iff.mp hsaid.2.2.symm ck hck)
    · rw [← hhead, hreport, hends]
      rfl
  · rintro ⟨hshort, huncalled, hapart, hspent, hreport⟩
    obtain ⟨ck, hin, hckdone⟩ := (scan_reaches_iff hmem).mpr hshort
    obtain ⟨htake, hhead⟩ := takeWhile_of_prefix hprefix hin (p := isOpen) (by simp [isOpen, hckdone])
    have hwhole := (sent_eq_carried_iff codec (chunksOf codec (linesOf body))).mpr
      ⟨hapart, fun ck hck ↦ ⟨(hspent ck hck).1, (hspent ck hck).2,
        huncalled ck ((List.dropWhile_sublist _).subset hck)⟩⟩
    refine ⟨by rw [sentOf, htake]; exact hwhole, ?_, by rw [hhead, hreport, hends]; rfl⟩
    rw [carried, Said.mk.injEq]
    refine ⟨List.flatMap_congr fun ck hck ↦ contentOf_eq ?_, rfl, ?_⟩
    · rw [← List.takeWhile_append_dropWhile (p := isOpen) (l := chunksOf codec (linesOf body)),
        List.mem_append] at hck
      obtain hck | hck := hck
      · exact hapart ck hck
      · exact fun _ ↦ (List.append_eq_nil_iff.mp (hspent ck hck).1).2
    · exact (List.flatMap_eq_nil_iff.mpr fun ck hck ↦ List.map_eq_nil_iff.mpr (huncalled ck hck)).symm

end Agreement

section Samples

def textLine : Text := "\x7b\"response\":\"a\"\x7d".toList
def callLine : Text :=
  "\x7b\"message\":\x7b\"tool_calls\":[\x7b\"function\":\x7b\"name\":\"f\",\"arguments\":\x7b\x7d\x7d\x7d]\x7d\x7d".toList
def doneLine : Text := "\x7b\"done\":true\x7d".toList

/-- The JSON library on three lines. -/
def sampleCodec : Codec Text where
  unmarshal line :=
    if line = textLine then .ok { response := "a".toList }
    else if line = callLine then
      .ok { message := some { toolCalls := [{ name := "f".toList, arguments := "\x7b\x7d".toList }] } }
    else if line = doneLine then .ok { done := true }
    else .error "invalid character".toList
  unmarshalString _ := none
  marshal arguments := arguments

theorem handlers_text : Agrees sampleCodec [] (textLine ++ '\n' :: doneLine) ↔
    Plain sampleCodec (linesOf (textLine ++ '\n' :: doneLine)) := by
  have hlines : linesOf (textLine ++ '\n' :: doneLine) = [textLine, doneLine] := by decide
  have hends : (chunksOf sampleCodec (linesOf (textLine ++ '\n' :: doneLine))).getLast? =
      some { done := true } := by
    rw [hlines]
    rfl
  refine handlers_iff ?_ hends rfl
  rw [hlines]
  intro line hline
  obtain rfl | rfl := List.mem_pair.mp hline
  · exact .inr ⟨{ response := "a".toList }, rfl⟩
  · exact .inr ⟨{ done := true }, rfl⟩

/-- A call that Ollama makes reaches the client of a stream only. -/
theorem handlers_not : ¬ Agrees sampleCodec [] (callLine ++ '\n' :: doneLine) := by
  intro h
  have hlines : linesOf (callLine ++ '\n' :: doneLine) = [callLine, doneLine] := by decide
  obtain ⟨answer, hanswer, hsaid, -⟩ := h.returned
  have hcalls := congrArg Said.toolCalls hsaid
  rw [hlines] at hcalls
  obtain rfl : _ = answer := Except.ok.inj hanswer
  cases hcalls

end Samples

end AllAiTools.NewApi.Relay.OllamaAgrees
