import AllAiTools.NewApi.Service.ClaudeStreamForms

namespace AllAiTools.NewApi.Service.ClaudeStreamKeeps

open Dto.OpenAIResponse (Text Function ToolCallResponse)
open StreamOpenAI2Claude ClaudeStreamForms

section Said

/-- What is said of a call: which it is, or a part of its arguments. -/
inductive CallPart
  | name (id : String) (name : Text)
  | arguments (partialJson : Text)

/-- A part of an answer. -/
@[ext]
structure Said where
  text : Text := []
  thinking : Text := []
  calls : List CallPart := []

instance : Zero Said := ⟨{}⟩

instance : Add Said := ⟨fun a b ↦ ⟨a.text ++ b.text, a.thinking ++ b.thinking, a.calls ++ b.calls⟩⟩

instance : AddMonoid Said where
  add_assoc a b c :=
    Said.ext (List.append_assoc _ _ _) (List.append_assoc _ _ _) (List.append_assoc _ _ _)
  zero_add a := rfl
  add_zero a := Said.ext (List.append_nil _) (List.append_nil _) (List.append_nil _)
  nsmul := nsmulRec

def callParts (toolCall : ToolCallResponse) : List CallPart :=
  (if toolCall.function.name ≠ [] then [.name toolCall.id toolCall.function.name] else []) ++
  if toolCall.function.arguments ≠ [] then [.arguments toolCall.function.arguments] else []

def deltaSaid (delta : Delta) : Said where
  text := delta.getContentString
  thinking := delta.getReasoningContent
  calls := delta.toolCalls.flatMap callParts

def chunkSaid (chunk : ChatCompletionsStreamResponse) : Said :=
  (chunk.choices.map fun choice ↦ deltaSaid choice.delta).sum

/-- Data that does not parse says nothing. -/
def dataSaid (data : Option ChatCompletionsStreamResponse) : Said := (data.map chunkSaid).getD 0

/-- What a client hears of an event; it hears of a call by its name. -/
def eventSaid : ClaudeResponse → Said
  | .contentBlockStart _ (.toolUse id name) => { calls := if name ≠ [] then [.name id name] else [] }
  | .contentBlockDelta _ (.textDelta text) => { text := text }
  | .contentBlockDelta _ (.thinkingDelta thinking) => { thinking := thinking }
  | .contentBlockDelta _ (.inputJsonDelta partialJson) => { calls := [.arguments partialJson] }
  | _ => 0

def heard (events : List ClaudeResponse) : Said := (events.map eventSaid).sum

end Said

section Whole

/-- A chunk of which everything is heard: only its first choice says anything, and that either a text or
reasoning; and the first chunk not more than one call, a later one no text beside its calls, and nothing
at its finish as long as it has no usage. -/
structure Whole (first : Bool) (chunk : ChatCompletionsStreamResponse) : Prop where
  others : ∀ choice ∈ chunk.choices.tail, deltaSaid choice.delta = 0
  chosen : ∀ choice ∈ chunk.choices.head?, deltaSaid choice.delta = 0 ∨
    (choice.delta.getReasoningContent = [] ∨ choice.delta.getContentString = []) ∧
      if first then ∀ toolCall ∈ choice.delta.toolCalls.tail, callParts toolCall = []
      else ¬ (choice.finished = true ∧ chunk.usage.isNone) ∧
        (choice.delta.toolCalls = [] ∨
          choice.delta.getReasoningContent = [] ∧ choice.delta.getContentString = [])

/-- The message is ended with a chunk. -/
def ends (first usable : Bool) (chunk : ChatCompletionsStreamResponse) : Bool :=
  match chunk.choices with
  | [] => !first && usable
  | choice :: _ => choice.finished && (first || chunk.usage.isSome)

/-- Everything is heard of the chunks after so many, up to that which ends the message; after it nothing
more is said. The last chunk counts as the one before it. -/
def KeptFrom (count : ℕ) (usable : Bool) : List (Option ChatCompletionsStreamResponse) → Prop
  | [] => True
  | [last] => ∀ chunk ∈ last, Whole (count = 1) chunk
  | none :: rest => KeptFrom (count + 1) usable rest
  | some chunk :: rest =>
    Whole (count + 1 = 1) chunk ∧
      if ends (count + 1 = 1) (usable || chunk.usage.isSome) chunk then ∀ data ∈ rest, dataSaid data = 0
      else KeptFrom (count + 1) (usable || chunk.usage.isSome) rest

end Whole

section Parts

/-- What is heard of what is said. -/
structure Part (a b : Said) : Prop where
  text : a.text.Sublist b.text
  thinking : a.thinking.Sublist b.thinking
  calls : a.calls.Sublist b.calls

theorem Part.refl (a : Said) : Part a a := ⟨.refl _, .refl _, .refl _⟩

theorem Part.zero (b : Said) : Part 0 b := ⟨List.nil_sublist _, List.nil_sublist _, List.nil_sublist _⟩

theorem Part.add {a b a' b' : Said} (h : Part a b) (h' : Part a' b') : Part (a + a') (b + b') :=
  ⟨h.text.append h'.text, h.thinking.append h'.thinking, h.calls.append h'.calls⟩

theorem append_eq_iff_of_sublist {α : Type} {a b a' b' : List α} (h : a.Sublist b) (h' : a'.Sublist b') :
    a ++ a' = b ++ b' ↔ a = b ∧ a' = b' := by
  refine ⟨fun heq ↦ ?_, fun ⟨heq, heq'⟩ ↦ by rw [heq, heq']⟩
  have hlength := congrArg List.length heq
  rw [List.length_append, List.length_append] at hlength
  have hle := h.length_le
  have hle' := h'.length_le
  exact ⟨h.eq_of_length (by omega), h'.eq_of_length (by omega)⟩

/-- Everything is heard exactly if everything is heard of each part. -/
theorem Part.add_eq_iff {a b a' b' : Said} (h : Part a b) (h' : Part a' b') :
    a + a' = b + b' ↔ a = b ∧ a' = b' := by
  have htext := append_eq_iff_of_sublist h.text h'.text
  have hthinking := append_eq_iff_of_sublist h.thinking h'.thinking
  have hcalls := append_eq_iff_of_sublist h.calls h'.calls
  refine ⟨fun heq ↦ ?_, fun ⟨heq, heq'⟩ ↦ by rw [heq, heq']⟩
  obtain ⟨ht, ht'⟩ := htext.mp (congrArg Said.text heq)
  obtain ⟨hr, hr'⟩ := hthinking.mp (congrArg Said.thinking heq)
  obtain ⟨hc, hc'⟩ := hcalls.mp (congrArg Said.calls heq)
  exact ⟨Said.ext ht hr hc, Said.ext ht' hr' hc'⟩

theorem Part.eq_zero {a : Said} (h : Part a 0) : a = 0 :=
  Said.ext (List.sublist_nil.mp h.text) (List.sublist_nil.mp h.thinking) (List.sublist_nil.mp h.calls)

theorem sum_eq_zero_iff (l : List Said) : l.sum = 0 ↔ ∀ a ∈ l, a = 0 := by
  induction l with
  | nil => simp
  | cons a l ih =>
    have hiff := (Part.zero a).add_eq_iff (Part.zero l.sum)
    rw [add_zero] at hiff
    rw [List.sum_cons, eq_comm, hiff, eq_comm, List.forall_mem_cons, ← ih]
    exact and_congr_right fun _ ↦ eq_comm

end Parts

section Heard

variable {info : RelayInfo}

@[simp] theorem heard_nil : heard [] = 0 := rfl

theorem heard_cons (event : ClaudeResponse) (events : List ClaudeResponse) :
    heard (event :: events) = eventSaid event + heard events := List.sum_cons

theorem heard_append (first rest : List ClaudeResponse) :
    heard (first ++ rest) = heard first + heard rest := by
  rw [heard, List.map_append, List.sum_append]
  rfl

theorem heard_eq_zero {events : List ClaudeResponse} (h : ∀ event ∈ events, eventSaid event = 0) :
    heard events = 0 := by
  refine (sum_eq_zero_iff _).mpr fun a ha ↦ ?_
  obtain ⟨event, hevent, rfl⟩ := List.mem_map.mp ha
  exact h event hevent

theorem heard_stops : heard (stopOpenBlocks info) = 0 := by
  apply heard_eq_zero
  intro event hevent
  rw [stopOpenBlocks] at hevent
  split at hevent
  · cases hevent
  · rw [List.mem_singleton.mp hevent]
    rfl
  · rw [List.mem_singleton.mp hevent]
    rfl
  · obtain ⟨offset, -, rfl⟩ := List.mem_map.mp hevent
    rfl

theorem heard_messageEnd (oaiUsage : Option Usage) (stopReason : String) :
    heard (messageEnd oaiUsage stopReason) = 0 := by
  cases oaiUsage with
  | none => rfl
  | some oaiUsage => rfl

/-- Only of calls. -/
def ofCalls (calls : List CallPart) : Said := { calls := calls }

theorem ofCalls_append (calls calls' : List CallPart) :
    ofCalls (calls ++ calls') = ofCalls calls + ofCalls calls' :=
  rfl

theorem heard_toolEvents (index : ℤ) (toolCall : ToolCallResponse) :
    heard (toolEvents index toolCall) = ofCalls (callParts toolCall) := by
  have hname : heard (if toolCall.function.name ≠ [] then
      [.contentBlockStart index (.toolUse toolCall.id toolCall.function.name)] else []) =
      ofCalls (if toolCall.function.name ≠ [] then [.name toolCall.id toolCall.function.name] else []) := by
    by_cases hname : toolCall.function.name ≠ []
    · rw [if_pos hname, if_pos hname, heard_cons, eventSaid, if_pos hname, heard_nil, add_zero]
      rfl
    · rw [if_neg hname, if_neg hname]
      rfl
  have harguments : heard (if toolCall.function.arguments ≠ [] then
      [.contentBlockDelta index (.inputJsonDelta toolCall.function.arguments)] else []) =
      ofCalls (if toolCall.function.arguments ≠ [] then [.arguments toolCall.function.arguments] else []) := by
    by_cases harguments : toolCall.function.arguments ≠ []
    · rw [if_pos harguments, if_pos harguments]
      rfl
    · rw [if_neg harguments, if_neg harguments]
      rfl
  rw [toolEvents, callParts, heard_append, ofCalls_append, hname, harguments]

theorem heard_fragments (base : ℤ) (l : List (ℤ × ToolCallResponse)) :
    heard (l.flatMap fun p ↦ toolEvents (base + p.1) p.2) = ofCalls (l.flatMap fun p ↦ callParts p.2) := by
  induction l with
  | nil => rfl
  | cons p l ih =>
    rw [List.flatMap_cons, List.flatMap_cons, heard_append, ofCalls_append, heard_toolEvents, ih]

theorem offsets_flatMap (toolCalls : List ToolCallResponse) :
    ((offsets toolCalls).flatMap fun p ↦ callParts p.2) = toolCalls.flatMap callParts := by
  have hsecond : (offsets toolCalls).map Prod.snd = toolCalls := by
    rw [offsets]
    apply List.ext_getElem
    · rw [List.length_map, List.length_mapIdx]
    · intro i hi hi'
      rw [List.getElem_map, List.getElem_mapIdx]
  conv_rhs => rw [← hsecond, List.flatMap_map]

theorem heard_callTools (toolCalls : List ToolCallResponse) :
    heard (callTools info toolCalls).2 = ofCalls (toolCalls.flatMap callParts) := by
  rw [callTools]
  by_cases hlast : info.lastMessagesType ≠ .tools
  · simp only [if_pos hlast]
    rw [heard_append, heard_stops, zero_add, heard_fragments, offsets_flatMap]
  · simp only [if_neg hlast]
    rw [List.nil_append, heard_fragments, offsets_flatMap]

/-- What is heard of a text. -/
def blockSaid : BlockDelta → Said
  | .textDelta text => { text := text }
  | .thinkingDelta thinking => { thinking := thinking }
  | .inputJsonDelta partialJson => { calls := [.arguments partialJson] }

theorem eventSaid_delta (index : ℤ) (delta : BlockDelta) :
    eventSaid (.contentBlockDelta index delta) = blockSaid delta := by
  cases delta with
  | textDelta text => rfl
  | thinkingDelta thinking => rfl
  | inputJsonDelta partialJson => rfl

theorem eventSaid_start (index : ℤ) (delta : BlockDelta) :
    eventSaid (.contentBlockStart index (blockOf delta)) = 0 := by
  cases delta with
  | textDelta text => rfl
  | thinkingDelta thinking => rfl
  | inputJsonDelta partialJson => rfl

theorem heard_start (index : ℤ) (delta : BlockDelta) :
    heard [.contentBlockStart index (blockOf delta), .contentBlockDelta index delta] = blockSaid delta := by
  rw [heard_cons, heard_cons, heard_nil, eventSaid_start, eventSaid_delta, zero_add, add_zero]

theorem heard_speak (delta : BlockDelta) : heard (speak info delta).2 = blockSaid delta := by
  rw [speak]
  split
  · rw [heard_append, heard_stops, heard_start, zero_add]
  · rw [heard_cons, heard_nil, eventSaid_delta, add_zero]

theorem heard_speakFirst (delta : BlockDelta) : heard (speakFirst info delta).2 = blockSaid delta := by
  rw [speakFirst]
  by_cases hlast : info.lastMessagesType ≠ typeOf delta
  · simp only [if_pos hlast]
    rw [heard_append, heard_stops, heard_start, zero_add]
  · simp only [if_neg hlast]
    rw [List.nil_append, heard_start]

theorem heard_callFirst (toolCall : ToolCallResponse) :
    heard (callFirst info toolCall).2 = ofCalls (callParts toolCall) := by
  have hcall := heard_toolEvents 0 toolCall
  rw [toolEvents, heard_append] at hcall
  rw [callFirst, heard_cons, ← hcall]
  congr 1
  by_cases hname : toolCall.function.name ≠ []
  · rw [if_pos hname, heard_cons, heard_nil, add_zero]
  · rw [if_neg hname, eventSaid, if_neg hname]
    rfl

end Heard

section Chunks

variable {info : RelayInfo}

/-- What is heard of a text: its reasoning, or else its content. -/
def spokenSaid (delta : Delta) : Said := ((spoken delta).map blockSaid).getD 0

def firstSaid (delta : Delta) :
    Said := ofCalls (delta.toolCalls.take 1 |>.flatMap callParts) + spokenSaid delta

def nextSaid (delta : Delta) : Said :=
  if delta.toolCalls = [] then spokenSaid delta else ofCalls (delta.toolCalls.flatMap callParts)

/-- What is heard of a chunk. -/
def heardOf (first : Bool) (chunk : ChatCompletionsStreamResponse) : Said :=
  match chunk.choices with
  | [] => 0
  | choice :: _ =>
    if first then firstSaid choice.delta
    else if choice.finished ∧ chunk.usage.isNone then 0 else nextSaid choice.delta

theorem heard_tellFirst (delta : Delta) : heard (tellFirst info delta).2 = firstSaid delta := by
  rw [tellFirst, firstSaid, spokenSaid]
  cases delta.toolCalls with
  | nil =>
    cases spoken delta with
    | none => rfl
    | some said =>
      dsimp only
      rw [List.nil_append, heard_speakFirst]
      rfl
  | cons toolCall toolCalls =>
    have htake : ((toolCall :: toolCalls).take 1).flatMap callParts = callParts toolCall :=
      List.append_nil (callParts toolCall)
    rw [htake]
    cases spoken delta with
    | none =>
      dsimp only
      rw [heard_callFirst, Option.map_none, Option.getD_none, add_zero]
    | some said =>
      dsimp only
      rw [heard_append, heard_callFirst, heard_speakFirst]
      rfl

theorem heard_tellNext (delta : Delta) : heard (tellNext info delta).2 = nextSaid delta := by
  rw [tellNext, nextSaid, spokenSaid]
  cases htools : delta.toolCalls with
  | nil =>
    rw [if_pos rfl]
    cases spoken delta with
    | none => rfl
    | some said => exact heard_speak said
  | cons toolCall toolCalls =>
    rw [if_neg (List.cons_ne_nil _ _)]
    exact heard_callTools (toolCall :: toolCalls)

theorem heard_convertFirst (usage : Option Usage) (choice : StreamChoice) :
    heard (convertFirst info usage choice).2 = firstSaid choice.delta ∧
      (convertFirst info usage choice).1.done = (choice.finished || info.done) := by
  have hkept : kept (tellFirst info choice.delta).1 = kept info := tellFirst_kept choice.delta
  rw [convertFirst]
  dsimp only
  cases choice.finished with
  | false => exact ⟨heard_tellFirst choice.delta, congrArg Prod.fst hkept⟩
  | true =>
    refine ⟨?_, rfl⟩
    rw [if_pos rfl, heard_append, heard_tellFirst, finish, heard_append, heard_stops, heard_messageEnd,
      add_zero,
      add_zero]

theorem heard_convertNext (usage : Option Usage) (choice : StreamChoice) :
    heard (convertNext info usage choice).2 =
        (if choice.finished ∧ usage.isNone then 0 else nextSaid choice.delta) ∧
      (convertNext info usage choice).1.done = (choice.finished && usage.isSome || info.done) := by
  have hkept : ∀ info', kept (tellNext info' choice.delta).1 = kept info' :=
      fun info' ↦ tellNext_kept choice.delta
  rw [convertNext]
  cases choice.finished with
  | false => exact ⟨heard_tellNext choice.delta, congrArg Prod.fst (hkept info)⟩
  | true =>
    cases usage with
    | none => exact ⟨rfl, rfl⟩
    | some usage =>
      refine ⟨?_, rfl⟩
      rw [if_pos rfl]
      dsimp only
      rw [if_neg (by simp), heard_append, heard_tellNext, finish, heard_append, heard_stops, heard_messageEnd,
        add_zero, add_zero, if_neg (by simp)]

/-- What is heard of a chunk, and whether it ends the message. -/
theorem heard_stream (hdone : info.done = false) (chunk : ChatCompletionsStreamResponse) :
    heard (streamResponseOpenAI2Claude info chunk).2 = heardOf (info.sendResponseCount = 1) chunk ∧
      (streamResponseOpenAI2Claude info chunk).1.done =
        ends (info.sendResponseCount = 1) (chunk.usage.or info.usage).isSome chunk := by
  rw [streamResponseOpenAI2Claude, if_neg (by simp [hdone]), heardOf, ends]
  by_cases hcount : info.sendResponseCount = 1
  · rw [if_pos hcount, decide_eq_true hcount]
    cases chunk.choices with
    | nil => exact ⟨rfl, hdone⟩
    | cons choice rest =>
      obtain ⟨hheard, hends⟩ : heard (convertFirst info chunk.usage choice).2 = firstSaid choice.delta ∧
        (convertFirst info chunk.usage choice).1.done = (choice.finished || info.done) :=
          heard_convertFirst chunk.usage choice
      refine ⟨?_, ?_⟩
      · dsimp only
        rw [heard_cons, hheard]
        rfl
      · rw [hdone, Bool.or_false] at hends
        dsimp only
        rw [Bool.true_or, Bool.and_true]
        exact hends
  · rw [if_neg hcount, decide_eq_false hcount]
    cases chunk.choices with
    | nil =>
      cases chunk.usage.or info.usage with
      | none => exact ⟨rfl, hdone⟩
      | some oaiUsage =>
        refine ⟨?_, rfl⟩
        dsimp only
        rw [heard_append, heard_stops, heard_messageEnd, add_zero]
    | cons choice rest =>
      obtain ⟨hheard, hends⟩ : heard (convertNext info chunk.usage choice).2 =
          (if choice.finished ∧ chunk.usage.isNone then 0 else nextSaid choice.delta) ∧
        (convertNext info chunk.usage choice).1.done = (choice.finished && chunk.usage.isSome || info.done) :=
          heard_convertNext chunk.usage choice
      rw [hdone, Bool.or_false] at hends
      exact ⟨hheard, hends⟩

theorem spokenSaid_part (delta : Delta) :
    (spokenSaid delta).text.Sublist delta.getContentString ∧
      (spokenSaid delta).thinking.Sublist delta.getReasoningContent ∧ (spokenSaid delta).calls = [] := by
  rw [spokenSaid, spoken]
  split
  · exact ⟨List.nil_sublist _, .refl _, rfl⟩
  · split
    · exact ⟨.refl _, List.nil_sublist _, rfl⟩
    · exact ⟨List.nil_sublist _, List.nil_sublist _, rfl⟩

theorem firstSaid_part (delta : Delta) : Part (firstSaid delta) (deltaSaid delta) := by
  obtain ⟨htext, hthinking, hcalls⟩ := spokenSaid_part delta
  refine ⟨htext, hthinking, ?_⟩
  have hfirst : (firstSaid delta).calls =
      (delta.toolCalls.take 1).flatMap callParts ++ (spokenSaid delta).calls := rfl
  rw [hfirst, hcalls, List.append_nil]
  exact (List.take_sublist 1 delta.toolCalls).flatMap callParts

theorem nextSaid_part (delta : Delta) : Part (nextSaid delta) (deltaSaid delta) := by
  obtain ⟨htext, hthinking, hcalls⟩ := spokenSaid_part delta
  rw [nextSaid]
  split
  · refine ⟨htext, hthinking, ?_⟩
    rw [hcalls]
    exact List.nil_sublist _
  · exact ⟨List.nil_sublist _, List.nil_sublist _, .refl _⟩

/-- The reasoning of a text is heard, and its content if it has none. -/
theorem spokenSaid_eq (delta : Delta) :
    (spokenSaid delta).text = (if delta.getReasoningContent = [] then delta.getContentString else []) ∧
      (spokenSaid delta).thinking = delta.getReasoningContent := by
  rw [spokenSaid, spoken]
  by_cases hreasoning : delta.getReasoningContent = []
  · rw [if_neg (not_not_intro hreasoning), if_pos hreasoning, hreasoning]
    by_cases hcontent : delta.getContentString = []
    · rw [if_neg (not_not_intro hcontent), hcontent]
      exact ⟨rfl, rfl⟩
    · rw [if_pos hcontent]
      exact ⟨rfl, rfl⟩
  · rw [if_pos hreasoning, if_neg hreasoning]
    exact ⟨rfl, rfl⟩

theorem spoken_text_iff (delta : Delta) :
    (spokenSaid delta).text = delta.getContentString ↔
      delta.getReasoningContent = [] ∨ delta.getContentString = [] := by
  rw [(spokenSaid_eq delta).1]
  by_cases hreasoning : delta.getReasoningContent = []
  · rw [if_pos hreasoning]
    exact iff_of_true rfl (.inl hreasoning)
  · rw [if_neg hreasoning, or_iff_right hreasoning]
    exact eq_comm

theorem firstSaid_eq_iff (delta : Delta) :
    firstSaid delta = deltaSaid delta ↔
      (delta.getReasoningContent = [] ∨ delta.getContentString = []) ∧
        ∀ toolCall ∈ delta.toolCalls.tail, callParts toolCall = [] := by
  have hcalls : (firstSaid delta).calls = (delta.toolCalls.take 1).flatMap callParts := by
    have hfirst : (firstSaid delta).calls =
        (delta.toolCalls.take 1).flatMap callParts ++ (spokenSaid delta).calls := rfl
    rw [hfirst, (spokenSaid_part delta).2.2, List.append_nil]
  have hrest : (delta.toolCalls.take 1).flatMap callParts = delta.toolCalls.flatMap callParts ↔
      ∀ toolCall ∈ delta.toolCalls.tail, callParts toolCall = [] := by
    cases delta.toolCalls with
    | nil => simp
    | cons toolCall toolCalls => simp
  rw [← spoken_text_iff, ← hrest, Said.ext_iff, hcalls]
  have hthinking : (firstSaid delta).thinking = (deltaSaid delta).thinking := (spokenSaid_eq delta).2
  exact ⟨fun h ↦ ⟨h.1, h.2.2⟩, fun h ↦ ⟨h.1, hthinking, h.2⟩⟩

theorem nextSaid_eq_iff (delta : Delta) :
    nextSaid delta = deltaSaid delta ↔
      (delta.getReasoningContent = [] ∨ delta.getContentString = []) ∧
        (delta.toolCalls = [] ∨ delta.getReasoningContent = [] ∧ delta.getContentString = []) := by
  rw [nextSaid]
  by_cases htools : delta.toolCalls = []
  · have hnone : (deltaSaid delta).calls = [] := by
      rw [deltaSaid, htools]
      rfl
    rw [if_pos htools, ← spoken_text_iff, Said.ext_iff, (spokenSaid_part delta).2.2, hnone]
    exact ⟨fun h ↦ ⟨h.1, .inl htools⟩, fun h ↦ ⟨h.1, (spokenSaid_eq delta).2, rfl⟩⟩
  · rw [if_neg htools, Said.ext_iff]
    constructor
    · intro ⟨htext, hthinking, _⟩
      exact ⟨.inl hthinking.symm, .inr ⟨hthinking.symm, htext.symm⟩⟩
    · intro ⟨_, hor⟩
      obtain ⟨hreasoning, hcontent⟩ := hor.resolve_left htools
      exact ⟨hcontent.symm, hreasoning.symm, rfl⟩

theorem chunkSaid_cons {chunk : ChatCompletionsStreamResponse} {choice : StreamChoice}
    {rest : List StreamChoice}
    (h : chunk.choices = choice :: rest) :
    chunkSaid chunk = deltaSaid choice.delta + (rest.map fun choice ↦ deltaSaid choice.delta).sum := by
  rw [chunkSaid, h, List.map_cons, List.sum_cons]

theorem chosen_part (first : Bool) {chunk : ChatCompletionsStreamResponse} {choice : StreamChoice}
    {rest : List StreamChoice} (h : chunk.choices = choice :: rest) :
    Part (heardOf first chunk) (deltaSaid choice.delta) := by
  rw [heardOf, h]
  dsimp only
  split
  · exact firstSaid_part choice.delta
  · split
    · exact .zero _
    · exact nextSaid_part choice.delta

theorem heardOf_part (first : Bool) (chunk : ChatCompletionsStreamResponse) :
    Part (heardOf first chunk) (chunkSaid chunk) := by
  cases hchoices : chunk.choices with
  | nil =>
    rw [heardOf, hchoices]
    exact .zero _
  | cons choice rest =>
    have hpart := (chosen_part first hchoices).add (Part.zero (rest.map fun choice ↦
        deltaSaid choice.delta).sum)
    rw [add_zero] at hpart
    rw [chunkSaid_cons hchoices]
    exact hpart

theorem chosen_eq_iff (first : Bool) {chunk : ChatCompletionsStreamResponse} {choice : StreamChoice}
    {rest : List StreamChoice} (h : chunk.choices = choice :: rest) :
    heardOf first chunk = deltaSaid choice.delta ↔ deltaSaid choice.delta = 0 ∨
      (choice.delta.getReasoningContent = [] ∨ choice.delta.getContentString = []) ∧
        if first then ∀ toolCall ∈ choice.delta.toolCalls.tail, callParts toolCall = []
        else ¬ (choice.finished = true ∧ chunk.usage.isNone) ∧
          (choice.delta.toolCalls = [] ∨
            choice.delta.getReasoningContent = [] ∧ choice.delta.getContentString = []) := by
  have hpart := chosen_part first h
  by_cases hmute : deltaSaid choice.delta = 0
  · rw [hmute] at hpart ⊢
    exact iff_of_true hpart.eq_zero (.inl rfl)
  · rw [or_iff_right hmute, heardOf, h]
    dsimp only
    cases first with
    | true => exact firstSaid_eq_iff choice.delta
    | false =>
      rw [if_neg Bool.false_ne_true, if_neg Bool.false_ne_true]
      by_cases hput : choice.finished = true ∧ chunk.usage.isNone
      · rw [if_pos hput]
        exact iff_of_false (fun h ↦ hmute h.symm) (fun h ↦ h.2.1 hput)
      · rw [if_neg hput, nextSaid_eq_iff]
        exact and_congr_right fun _ ↦ (and_iff_right hput).symm

/-- All of a chunk is heard. -/
theorem heardOf_eq_iff (first : Bool) (chunk : ChatCompletionsStreamResponse) :
    heardOf first chunk = chunkSaid chunk ↔ Whole first chunk := by
  cases hchoices : chunk.choices with
  | nil =>
    refine iff_of_true ?_ ⟨?_, ?_⟩
    · rw [heardOf, chunkSaid, hchoices]
      rfl
    · intro choice hmem
      rw [hchoices] at hmem
      cases hmem
    · intro choice hmem
      rw [hchoices] at hmem
      cases hmem
  | cons choice rest =>
    have hiff := (chosen_part first hchoices).add_eq_iff (Part.zero (rest.map fun choice ↦
        deltaSaid choice.delta).sum)
    rw [add_zero] at hiff
    have hrest : 0 = (rest.map fun choice ↦ deltaSaid choice.delta).sum ↔
        ∀ choice ∈ rest, deltaSaid choice.delta = 0 := by
      rw [eq_comm, sum_eq_zero_iff, List.forall_mem_map]
    rw [chunkSaid_cons hchoices, hiff, chosen_eq_iff first hchoices, hrest]
    constructor
    · intro ⟨hchosen, hothers⟩
      refine ⟨?_, ?_⟩
      · rw [hchoices]
        exact hothers
      · intro choice' hmem
        rw [hchoices] at hmem
        obtain rfl := Option.some.inj hmem
        exact hchosen
    · intro ⟨hothers, hchosen⟩
      rw [hchoices] at hothers hchosen
      exact ⟨hchosen choice rfl, hothers⟩

end Chunks

section Stream

variable {info : RelayInfo}

/-- What is heard of data that a client is sent for. -/
theorem heard_handle (hdone : info.done = false) (chunk : ChatCompletionsStreamResponse) :
    heard (handleStreamFormat info (some chunk)).2 = heardOf (info.sendResponseCount + 1 = 1) chunk ∧
      (handleStreamFormat info (some chunk)).1.done =
        ends (info.sendResponseCount + 1 = 1) (info.usage.isSome || chunk.usage.isSome) chunk ∧
      (handleStreamFormat info (some chunk)).1.usage.isSome = (info.usage.isSome || chunk.usage.isSome) := by
  let started : RelayInfo :=
    { info with
      sendResponseCount := info.sendResponseCount + 1
      usage := chunk.usage.or info.usage }
  have hopen : started.done = false := hdone
  have husage : started.usage.isSome = (info.usage.isSome || chunk.usage.isSome) :=
      or_isSome chunk.usage info.usage
  have hkept : (kept (streamResponseOpenAI2Claude started chunk).1).2 = (kept started).2 := stream_kept chunk
  obtain ⟨hheard, hends⟩ := heard_stream hopen chunk
  rw [or_isSome, husage, Bool.or_assoc, Bool.or_self] at hends
  refine ⟨hheard, hends, ?_⟩
  rw [← husage]
  exact congrArg (fun k ↦ k.1.isSome) hkept

/-- Nothing is heard after the end of the message. -/
theorem deaf_stream (hdone : info.done = true) (chunk : ChatCompletionsStreamResponse) :
    streamResponseOpenAI2Claude info chunk = (info, []) := by
  rw [streamResponseOpenAI2Claude, if_pos hdone]

theorem deaf_all (hdone : info.done = true) (before : List (Option ChatCompletionsStreamResponse))
    (usage : Usage)
    (last : Option ChatCompletionsStreamResponse) :
    heard ((handleAll info before).2 ++ (handleFinalResponse usage (handleAll info before).1 last).2) =
      0 := by
  induction before generalizing info with
  | nil =>
    cases last with
    | none => rfl
    | some chunk =>
      have hbilled : ({ info with usage := some usage } : RelayInfo).done = true := hdone
      rw [handleAll, List.nil_append, handleFinalResponse]
      dsimp only
      rw [deaf_stream hbilled]
      rfl
  | cons data before ih =>
    have hdeaf : (handleStreamFormat info data).2 = [] ∧ (handleStreamFormat info data).1.done = true := by
      cases data with
      | none => exact ⟨rfl, hdone⟩
      | some chunk =>
        have hstarted : ({ info with
          sendResponseCount := info.sendResponseCount + 1
          usage := chunk.usage.or info.usage } : RelayInfo).done = true := hdone
        rw [handleStreamFormat]
        dsimp only
        rw [deaf_stream hstarted]
        exact ⟨rfl, hdone⟩
    rw [handleAll]
    dsimp only
    rw [hdeaf.1, List.nil_append]
    exact ih hdeaf.2

theorem heard_final (hdone : info.done = false) (usage : Usage)
    (last : Option ChatCompletionsStreamResponse) :
    heard (handleFinalResponse usage info last).2 =
      (last.map (heardOf (info.sendResponseCount = 1))).getD 0 := by
  cases last with
  | none => rfl
  | some chunk =>
    have hbilled : ({ info with usage := some usage } : RelayInfo).done = false := hdone
    exact (heard_stream hbilled chunk).1

theorem final_part (hdone : info.done = false) (usage : Usage) (last : Option ChatCompletionsStreamResponse) :
    Part (heard (handleFinalResponse usage info last).2) (dataSaid last) := by
  rw [heard_final hdone]
  cases last with
  | none => exact .refl 0
  | some chunk => exact heardOf_part _ chunk

theorem heard_part (before : List (Option ChatCompletionsStreamResponse)) (usage : Usage)
    (last : Option ChatCompletionsStreamResponse) :
    Part (heard ((handleAll info before).2 ++ (handleFinalResponse usage (handleAll info before).1 last).2))
      ((before ++ [last]).map dataSaid).sum := by
  induction before generalizing info with
  | nil =>
    cases hdone : info.done with
    | true =>
      rw [deaf_all hdone [] usage last]
      exact .zero _
    | false =>
      rw [List.nil_append, List.map_singleton, List.sum_singleton]
      exact final_part hdone usage last
  | cons data before ih =>
    cases hdone : info.done with
    | true =>
      rw [deaf_all hdone (data :: before) usage last]
      exact .zero _
    | false =>
      rw [handleAll, List.cons_append, List.map_cons, List.sum_cons]
      dsimp only
      rw [List.append_assoc, heard_append]
      refine Part.add ?_ ih
      cases data with
      | none => exact .refl 0
      | some chunk =>
        rw [(heard_handle hdone chunk).1]
        exact heardOf_part _ chunk

theorem keptFrom_none (count : ℕ) (usable : Bool) {rest : List (Option ChatCompletionsStreamResponse)}
    (h : rest ≠ []) : KeptFrom count usable (none :: rest) ↔ KeptFrom (count + 1) usable rest := by
  obtain ⟨data, rest, rfl⟩ := List.exists_cons_of_ne_nil h
  rw [KeptFrom]
  exact List.cons_ne_nil data rest

theorem keptFrom_some (count : ℕ) (usable : Bool) (chunk : ChatCompletionsStreamResponse)
    {rest : List (Option ChatCompletionsStreamResponse)} (h : rest ≠ []) :
    KeptFrom count usable (some chunk :: rest) ↔ Whole (count + 1 = 1) chunk ∧
      if ends (count + 1 = 1) (usable || chunk.usage.isSome) chunk then ∀ data ∈ rest, dataSaid data = 0
      else KeptFrom (count + 1) (usable || chunk.usage.isSome) rest := by
  obtain ⟨data, rest, rfl⟩ := List.exists_cons_of_ne_nil h
  rw [KeptFrom]
  exact List.cons_ne_nil data rest

theorem heard_eq_iff (hdone : info.done = false) (before : List (Option ChatCompletionsStreamResponse))
    (usage : Usage) (last : Option ChatCompletionsStreamResponse) :
    heard ((handleAll info before).2 ++ (handleFinalResponse usage (handleAll info before).1 last).2) =
        ((before ++ [last]).map dataSaid).sum ↔
      KeptFrom info.sendResponseCount info.usage.isSome (before ++ [last]) := by
  induction before generalizing info with
  | nil =>
    rw [handleAll, List.nil_append, heard_final hdone, List.nil_append, List.map_singleton,
      List.sum_singleton,
      KeptFrom]
    cases last with
    | none => exact iff_of_true rfl fun chunk hmem ↦ by cases hmem
    | some chunk =>
      have hiff := heardOf_eq_iff (info.sendResponseCount = 1) chunk
      exact hiff.trans ⟨fun h chunk' hmem ↦ Option.some.inj hmem ▸ h, fun h ↦ h chunk rfl⟩
  | cons data before ih =>
    have hne : before ++ [last] ≠ [] := List.append_ne_nil_of_right_ne_nil before (List.cons_ne_nil last [])
    rw [handleAll, List.cons_append, List.map_cons, List.sum_cons]
    dsimp only
    rw [List.append_assoc, heard_append]
    cases data with
    | none =>
      have hzero : heard (handleStreamFormat info none).2 = 0 := rfl
      have hsaid : dataSaid none = 0 := rfl
      have hopen : (handleStreamFormat info none).1.done = false := hdone
      rw [keptFrom_none _ _ hne, hzero, hsaid, zero_add, zero_add]
      exact ih hopen
    | some chunk =>
      obtain ⟨hheard, hends, husage⟩ := heard_handle hdone chunk
      have hcount : (handleStreamFormat info (some chunk)).1.sendResponseCount = info.sendResponseCount + 1 :=
        handle_count (some chunk)
      have hsaid : dataSaid (some chunk) = chunkSaid chunk := rfl
      have hiff := (heardOf_part (info.sendResponseCount + 1 = 1) chunk).add_eq_iff
        (@heard_part (handleStreamFormat info (some chunk)).1 before usage last)
      rw [keptFrom_some _ _ chunk hne, hheard, hsaid, hiff, heardOf_eq_iff]
      refine and_congr_right fun _ ↦ ?_
      cases hended : ends (info.sendResponseCount + 1 = 1)
        (info.usage.isSome || chunk.usage.isSome) chunk with
      | true =>
        rw [if_pos rfl, deaf_all (hends.trans hended) before usage last, eq_comm, sum_eq_zero_iff,
          List.forall_mem_map]
      | false =>
        rw [if_neg Bool.false_ne_true, ← hcount, ← husage]
        exact ih (hends.trans hended)

/-- Everything that the chunks say is heard exactly if each is heard as a whole. -/
theorem said_heard_iff (estimatePromptTokens : ℤ) (usage : Usage)
    (chunks : List (Option ChatCompletionsStreamResponse)) :
    heard (oaiStreamHandler estimatePromptTokens usage chunks) = (chunks.map dataSaid).sum ↔
      KeptFrom 0 false chunks := by
  obtain rfl | ⟨before, last, rfl⟩ := List.eq_nil_or_concat' chunks
  · exact iff_of_true rfl trivial
  · rw [oaiStream_eq]
    exact heard_eq_iff rfl before usage last

end Stream

end AllAiTools.NewApi.Service.ClaudeStreamKeeps
