import AllAiTools.NewApi.Relay.ChatViaResponses

namespace AllAiTools.NewApi.Relay.ChatViaResponses

section Streams

/-- A function call as the upstream makes it. -/
structure Call where
  itemId : Text
  callId : Text
  name : Text
  arguments : Text

/-- What the source trims of a call. -/
def Call.item (call : Call) : Text := trimSpace call.itemId

def Call.key (call : Call) : Text := trimSpace call.callId

def Call.called (call : Call) : Text := trimSpace call.name

/-- Calls with names and identifiers of their own, no item identifier being a call identifier. -/
structure Calls (ι : Type) where
  call : ι → Call
  key_ne : ∀ k, (call k).key ≠ []
  called_ne : ∀ k, (call k).called ≠ []
  key_inj : ∀ j k, (call j).key = (call k).key → j = k
  item_inj : ∀ j k, (call j).item ≠ [] → (call j).item = (call k).item → j = k
  item_ne_key : ∀ j k, (call j).item ≠ (call k).key

inductive Input (ι : Type)
  | text (delta : Text)
  | added (call : ι)
  | arguments (call : ι) (delta : Text)
  | done (call : ι)

variable {ι : Type} [DecidableEq ι] (calls : Calls ι)

def itemOf (k : ι) (arguments : Text) : ResponsesOutput where
  type := HandlerState.functionCall
  id := (calls.call k).itemId
  callId := (calls.call k).callId
  name := (calls.call k).name
  arguments := arguments

def eventOf : Input ι → ResponsesEvent
  | .text delta => .outputTextDelta delta
  | .added k => .outputItem (some (itemOf calls k []))
  | .arguments k delta => .functionCallArgumentsDelta (calls.call k).itemId delta
  | .done k => .outputItem (some (itemOf calls k (calls.call k).arguments))

/-- The argument deltas of a call, put together. -/
def deltasOf (k : ι) : List (Input ι) → Text
  | [] => []
  | .arguments j delta :: inputs => (if j = k then delta else []) ++ deltasOf k inputs
  | _ :: inputs => deltasOf k inputs

def textOf : List (Input ι) → Text
  | [] => []
  | .text delta :: inputs => delta ++ textOf inputs
  | _ :: inputs => textOf inputs

/-- A stream whose deltas make up the final arguments of each call. -/
structure Stream (calls : Calls ι) where
  inputs : List (Input ι)
  adds_up : ∀ k, deltasOf k inputs = (calls.call k).arguments

def chunksOf (inputs : List (Input ι)) : List ChatChunk :=
  oaiResponsesToChatStream (inputs.map (eventOf calls) ++ [.completed])

end Streams

section Property

def toolCallsOf (chunks : List ChatChunk) : List ToolCall :=
  chunks.filterMap fun chunk ↦ match chunk with | .tool call => some call | _ => none

def contentOf (chunks : List ChatChunk) : Text :=
  (chunks.map fun chunk ↦ match chunk with | .content delta => delta | _ => []).flatten

def namesOf (sent : List ToolCall) : List Text := (sent.map (·.name)).filter (· ≠ [])

def argumentsOf (sent : List ToolCall) : Text := (sent.map (·.arguments)).flatten

variable {ι : Type} [DecidableEq ι] (calls : Calls ι)

/-- Whether a tool call that is sent is part of a call. -/
def Concerns (k : ι) (sent : ToolCall) : Prop :=
  sent.id = (calls.call k).key ∨ sent.id = (calls.call k).item

/-- A call as it has to arrive: under one index that is its own, with its name once and all of its
arguments. -/
def Whole (k : ι) (sent : List ToolCall) : Prop :=
  ∃ index, (∀ call ∈ sent, Concerns calls k call ↔ call.index = index) ∧
    namesOf (sent.filter (·.index = index)) = [(calls.call k).called] ∧
    argumentsOf (sent.filter (·.index = index)) = (calls.call k).arguments

structure Faithful (inputs : List (Input ι)) (chunks : List ChatChunk) : Prop where
  content : contentOf chunks = textOf inputs
  whole : ∀ k, (∃ call ∈ toolCallsOf chunks, Concerns calls k call) →
    Whole calls k (toolCallsOf chunks)
  emitted : ∀ k before after, inputs = before ++ .added k :: after →
    (∀ delta, .text delta ∉ before) → ∃ call ∈ toolCallsOf chunks, Concerns calls k call
  finishReason : .stop .toolCalls ∈ chunks ↔ toolCallsOf chunks ≠ []

end Property

section Progress

/-- What has been read of a call: its item, its final arguments, arguments before any item, and
arguments after the final ones. -/
structure Progress where
  item : Bool
  final : Bool
  early : Bool
  late : Bool
  deriving DecidableEq

variable {ι : Type} [DecidableEq ι]

def Progress.read (k : ι) (progress : Progress) : Input ι → Progress
  | .text _ => progress
  | .added j => if j = k then { progress with item := true } else progress
  | .done j => if j = k then { progress with item := true, final := true } else progress
  | .arguments j delta =>
    if j = k then
      { progress with
        early := progress.early || !progress.item
        late := progress.late || (progress.final && delta ≠ []) }
    else progress

def progressOf (k : ι) (inputs : List (Input ι)) : Progress :=
  inputs.foldl (Progress.read k) ⟨false, false, false, false⟩

variable (calls : Calls ι)

/-- Where the deltas can be told to be of the call, the item comes before them and its final
arguments after; else the final arguments have to come. -/
def Orderly (k : ι) (inputs : List (Input ι)) : Prop :=
  if (calls.call k).item ≠ [] then
    (progressOf k inputs).early = false ∧ (progressOf k inputs).late = false
  else
    (progressOf k inputs).item = true →
      (calls.call k).arguments = [] ∨ (progressOf k inputs).final = true

/-- Whether the input makes the handler send a tool call. -/
def Sends : Input ι → Prop
  | .text _ => False
  | .added _ => True
  | .done _ => True
  | .arguments k _ => (calls.call k).item ≠ []

def isTalk : Input ι → Bool
  | .text delta => delta ≠ []
  | _ => false

/-- The inputs before the first text. -/
def quiet (inputs : List (Input ι)) : List (Input ι) := inputs.takeWhile fun input ↦ !isTalk input

/-- With text no tool call may come before it; without, every call has to be orderly. -/
def Convertible (inputs : List (Input ι)) : Prop :=
  if inputs.any isTalk then ∀ input ∈ quiet inputs, ¬ Sends calls input
  else ∀ k, Orderly calls k inputs

end Progress

section Sending

open HandlerState

variable (s : HandlerState)

theorem toolCallsOf_append (chunks chunks' : List ChatChunk) :
    toolCallsOf (chunks ++ chunks') = toolCallsOf chunks ++ toolCallsOf chunks' :=
  List.filterMap_append

theorem contentOf_append (chunks chunks' : List ChatChunk) :
    contentOf (chunks ++ chunks') = contentOf chunks ++ contentOf chunks' := by
  rw [contentOf, List.map_append, List.flatten_append]
  rfl

/-- What a start chunk leaves of the state. -/
theorem start_eq : ∃ chunks, s.sendStartIfNeeded = { s with sentStart := true, chunks := chunks } ∧
    toolCallsOf chunks = toolCallsOf s.chunks ∧ contentOf chunks = contentOf s.chunks ∧
      ∀ reason, ChatChunk.stop reason ∈ chunks ↔ .stop reason ∈ s.chunks := by
  rw [sendStartIfNeeded]
  cases hstart : s.sentStart with
  | true => exact ⟨s.chunks, by rw [if_pos rfl, ← hstart], rfl, rfl, fun _ ↦ Iff.rfl⟩
  | false =>
    refine ⟨s.chunks ++ [.start], rfl, ?_, ?_, ?_⟩
    · simp [toolCallsOf]
    · simp [contentOf]
    · simp

/-- The tool call that is sent for a delta. -/
def sentCall (id name args : Text) : ToolCall where
  index :=
    (if s.toolCallIds.contains id then s.toolCallIds else s.toolCallIds ++ [id]).idxOf id
  id := id
  name :=
    let known := if name ≠ [] then name else s.toolCallName id
    if known ≠ [] ∧ !s.toolCallNameSent id then known else []
  arguments := args

variable {s}

/-- What sending a tool call leaves of the state, before any text. -/
structure AfterSending (s : HandlerState) (name : Text) (call : ToolCall) (s' : HandlerState) :
    Prop where
  outputText : s'.outputText = s.outputText
  sentStop : s'.sentStop = s.sentStop
  failed : s'.failed = s.failed
  canonicalId : s'.canonicalId = s.canonicalId
  args : s'.toolCallArgs = s.toolCallArgs
  saw : s'.sawToolCall = true
  ids : s'.toolCallIds =
    if call.id ∈ s.toolCallIds then s.toolCallIds else s.toolCallIds ++ [call.id]
  names : s'.toolCallName =
    if name ≠ [] then Function.update s.toolCallName call.id name else s.toolCallName
  nameSent : s'.toolCallNameSent =
    if call.name ≠ [] then Function.update s.toolCallNameSent call.id true else s.toolCallNameSent
  calls : toolCallsOf s'.chunks = toolCallsOf s.chunks ++ [call]
  content : contentOf s'.chunks = contentOf s.chunks
  stops : ∀ reason, ChatChunk.stop reason ∈ s'.chunks ↔ .stop reason ∈ s.chunks

theorem sendToolCallDelta_after (hsilent : s.outputText = []) {id : Text} (hid : id ≠ [])
    (name args : Text) :
    AfterSending s name (sentCall s id name args) (s.sendToolCallDelta id name args) := by
  obtain ⟨chunks, hstart, hcalls, hcontent, hstops⟩ := start_eq s
  have hcall : (s.sendStartIfNeeded.register id name).toolCall id name args =
      sentCall s id name args := by
    rw [hstart, toolCall, sentCall, register]
    by_cases hname : name = []
    · simp only [hname, ne_eq, not_true_eq_false, if_false]
      by_cases hknown : s.toolCallName id = [] <;> simp [hknown]
    · simp [hname]
  rw [sendToolCallDelta, if_neg hid, if_neg (not_not.mpr hsilent)]
  dsimp only
  rw [hcall, hstart]
  refine ⟨rfl, rfl, rfl, rfl, rfl, rfl, ?_, rfl, rfl, ?_, ?_, ?_⟩
  · simp only [sendToolCall, sendChatChunk, register, sentCall, List.contains_iff_mem]
  · exact (toolCallsOf_append chunks _).trans (congrArg (· ++ [sentCall s id name args]) hcalls)
  · exact (contentOf_append chunks _).trans ((List.append_nil _).trans hcontent)
  · intro reason
    simp [sendToolCall, sendChatChunk, register, ← hstops]

end Sending

section Views

variable {ι : Type} [DecidableEq ι] (calls : Calls ι)

/-- What the handler has of a call. -/
structure View where
  canonical : Text
  keyName : Text
  itemName : Text
  nameSent : Bool
  keyArgs : Text
  sent : List ToolCall
  early : List ToolCall

def viewOf (s : HandlerState) (k : ι) : View where
  canonical := s.canonicalId (calls.call k).item
  keyName := s.toolCallName (calls.call k).key
  itemName := s.toolCallName (calls.call k).item
  nameSent := s.toolCallNameSent (calls.call k).key
  keyArgs := s.toolCallArgs (calls.call k).key
  sent := (toolCallsOf s.chunks).filter (·.id = (calls.call k).key)
  early := (toolCallsOf s.chunks).filter (·.id = (calls.call k).item)

/-- What the handler has of a call after what was read of it, in whatever order. -/
structure Follows (call : Call) (view : View) (progress : Progress) (received : Text) : Prop where
  canonical : call.item ≠ [] → view.canonical = if progress.item then call.key else []
  keyName : progress.item = true → view.keyName = call.called
  itemName : call.item ≠ [] → view.itemName = []
  nameSent : view.nameSent = progress.item
  sent : view.sent ≠ [] ↔ progress.item = true
  early : call.item ≠ [] → (view.early ≠ [] ↔ progress.early = true)
  earlyNames : namesOf view.early = []
  names : namesOf view.sent = if progress.item then [call.called] else []
  final : progress.final = true → progress.item = true
  args : (call.item ≠ [] → progress.early = false ∧ progress.late = false) →
    view.keyArgs = argumentsOf view.sent ∧ argumentsOf view.sent =
      if progress.final then call.arguments else if call.item = [] then [] else received
  length : view.keyArgs.length ≤ (argumentsOf view.sent).length
  full : progress.final = true → call.arguments.length ≤ (argumentsOf view.sent).length
  overfull : call.item ≠ [] → progress.late = true →
    call.arguments.length < (argumentsOf view.sent).length

theorem namesOf_append (sent sent' : List ToolCall) :
    namesOf (sent ++ sent') = namesOf sent ++ namesOf sent' := by
  rw [namesOf, List.map_append, List.filter_append]
  rfl

theorem argumentsOf_append (sent sent' : List ToolCall) :
    argumentsOf (sent ++ sent') = argumentsOf sent ++ argumentsOf sent' := by
  rw [argumentsOf, List.map_append, List.flatten_append]
  rfl

theorem argsDelta_nil (prevArgs : Text) : HandlerState.argsDelta prevArgs [] = [] := rfl

theorem append_argsDelta {prevArgs newArgs : Text} (hpre : prevArgs <+: newArgs) :
    prevArgs ++ HandlerState.argsDelta prevArgs newArgs = newArgs := by
  rw [HandlerState.argsDelta]
  by_cases hnew : newArgs = []
  · rw [if_pos hnew, List.append_nil, hnew]
    exact List.prefix_nil.mp (hnew ▸ hpre)
  · rw [if_neg hnew, if_pos hpre]
    exact List.prefix_iff_eq_append.mp hpre

theorem length_le_argsDelta (prevArgs newArgs : Text) :
    newArgs.length ≤ prevArgs.length + (HandlerState.argsDelta prevArgs newArgs).length := by
  by_cases hpre : prevArgs <+: newArgs
  · rw [← List.length_append, append_argsDelta hpre]
  · rw [HandlerState.argsDelta]
    by_cases hnew : newArgs = []
    · simp [hnew]
    · rw [if_neg hnew, if_neg hpre]
      exact Nat.le_add_left _ _

section Reading

variable {call : Call} {view : View} {progress : Progress} {received : Text}

/-- The name goes with the first thing that is sent. -/
theorem Follows.names_item (h : Follows call view progress received) (hcalled : call.called ≠ [])
    (index : ℕ) (key args : Text) :
    namesOf (view.sent ++ [⟨index, key, if view.nameSent then [] else call.called, args⟩]) =
      [call.called] := by
  rw [namesOf_append, h.names, h.nameSent]
  cases progress.item <;> simp [namesOf, hcalled]

/-- An item comes in without arguments. -/
theorem Follows.readAdded (h : Follows call view progress received) (hcalled : call.called ≠ [])
    (index : ℕ) :
    Follows call
      { view with
        canonical := if call.item = [] then view.canonical else call.key
        keyName := call.called
        nameSent := true
        sent := view.sent ++
          [⟨index, call.key, if view.nameSent then [] else call.called, []⟩] }
      { progress with item := true } received := by
  have hargs : argumentsOf (view.sent ++
      [⟨index, call.key, if view.nameSent then [] else call.called, []⟩]) =
        argumentsOf view.sent := by
    rw [argumentsOf_append]
    exact List.append_nil _
  refine ⟨fun hitem ↦ if_neg hitem, fun _ ↦ rfl, h.itemName, rfl, ?_, h.early, h.earlyNames,
    h.names_item hcalled index _ _, fun _ ↦ rfl, ?_, ?_, ?_, ?_⟩
  · exact iff_of_true (by simp) rfl
  · intro horderly
    rw [hargs]
    exact h.args horderly
  · rw [hargs]
    exact h.length
  · rw [hargs]
    exact h.full
  · rw [hargs]
    exact h.overfull

/-- An item comes with its final arguments. -/
theorem Follows.readDone (h : Follows call view progress received) (hcalled : call.called ≠ [])
    (hreceived : received <+: call.arguments) (index : ℕ) :
    Follows call
      { view with
        canonical := if call.item = [] then view.canonical else call.key
        keyName := call.called
        nameSent := true
        keyArgs := if call.arguments ≠ [] then call.arguments else view.keyArgs
        sent := view.sent ++
          [⟨index, call.key, if view.nameSent then [] else call.called,
            HandlerState.argsDelta view.keyArgs call.arguments⟩] }
      { progress with item := true, final := true } received := by
  have hargs : argumentsOf (view.sent ++
      [⟨index, call.key, if view.nameSent then [] else call.called,
        HandlerState.argsDelta view.keyArgs call.arguments⟩]) =
        argumentsOf view.sent ++ HandlerState.argsDelta view.keyArgs call.arguments := by
    rw [argumentsOf_append]
    exact congrArg _ (List.append_nil _)
  have hlength := length_le_argsDelta view.keyArgs call.arguments
  have hsent := h.length
  have hlong : call.arguments.length ≤ (argumentsOf view.sent ++
      HandlerState.argsDelta view.keyArgs call.arguments).length := by
    rw [List.length_append]
    omega
  refine ⟨fun hitem ↦ if_neg hitem, fun _ ↦ rfl, h.itemName, rfl, ?_, h.early, h.earlyNames,
    h.names_item hcalled index _ _, fun _ ↦ rfl, ?_, ?_, ?_, ?_⟩
  · exact iff_of_true (by simp) rfl
  · intro horderly
    obtain ⟨hkey, hsofar⟩ := h.args horderly
    have hpre : view.keyArgs <+: call.arguments := by
      rw [hkey, hsofar]
      split
      · exact List.prefix_rfl
      · split
        · exact List.nil_prefix
        · exact hreceived
    rw [hargs, ← hkey, append_argsDelta hpre]
    refine ⟨?_, rfl⟩
    by_cases hnil : call.arguments = []
    · rw [hnil] at hpre
      rw [if_neg (not_not.mpr hnil), hnil]
      exact List.prefix_nil.mp hpre
    · exact if_pos hnil
  · rw [hargs]
    dsimp only
    split
    · exact hlong
    · rw [List.length_append]
      omega
  · rw [hargs]
    exact fun _ ↦ hlong
  · intro hitem hlate
    have hover := h.overfull hitem hlate
    rw [hargs, List.length_append]
    omega

/-- Arguments come for an item that is known. -/
theorem Follows.readArguments (h : Follows call view progress received)
    (hitem : call.item ≠ []) (hknown : progress.item = true) (index : ℕ) (delta : Text) :
    Follows call
      { view with
        keyArgs := view.keyArgs ++ delta
        sent := view.sent ++ [⟨index, call.key, [], delta⟩] }
      { progress with
        early := progress.early || !progress.item
        late := progress.late || (progress.final && delta ≠ []) }
      (received ++ delta) := by
  have hargs : argumentsOf (view.sent ++ [⟨index, call.key, [], delta⟩]) =
      argumentsOf view.sent ++ delta := by
    rw [argumentsOf_append]
    exact congrArg _ (List.append_nil _)
  have hnames : namesOf (view.sent ++ [⟨index, call.key, [], delta⟩]) = namesOf view.sent := by
    rw [namesOf_append]
    exact List.append_nil _
  have hlength := h.length
  refine ⟨h.canonical, h.keyName, h.itemName, h.nameSent, ?_, ?_, h.earlyNames,
    hnames.trans h.names, h.final, ?_, ?_, ?_, ?_⟩
  · exact iff_of_true (by simp) hknown
  · simpa [hknown] using h.early
  · intro horderly
    obtain ⟨hearly, hlate⟩ := horderly hitem
    simp only [Bool.or_eq_false_iff] at hearly hlate
    obtain ⟨hkey, hsofar⟩ := h.args fun _ ↦ ⟨hearly.1, hlate.1⟩
    rw [hargs, hsofar, hkey, hsofar]
    refine ⟨rfl, ?_⟩
    cases hfinal : progress.final with
    | true => simpa [hfinal] using hlate.2
    | false => simp [hitem]
  · rw [hargs, List.length_append, List.length_append]
    omega
  · intro hfinal
    have hfull := h.full hfinal
    rw [hargs, List.length_append]
    omega
  · intro _ hlate
    rw [hargs, List.length_append]
    rcases Bool.or_eq_true_iff.mp hlate with hbefore | hnow
    · have hover := h.overfull hitem hbefore
      omega
    · simp only [Bool.and_eq_true, decide_eq_true_eq] at hnow
      have hfull := h.full hnow.1
      have hdelta := List.length_pos_of_ne_nil hnow.2
      omega

/-- Arguments come for an item that is not known yet: they are sent for themselves. -/
theorem Follows.readEarly (h : Follows call view progress received)
    (hitem : call.item ≠ []) (hknown : progress.item = false) (index : ℕ) (delta : Text) :
    Follows call
      { view with early := view.early ++ [⟨index, call.item, [], delta⟩] }
      { progress with
        early := progress.early || !progress.item
        late := progress.late || (progress.final && delta ≠ []) }
      (received ++ delta) := by
  have hfinal : progress.final = false := by
    by_contra hfinal
    have hread := h.final (Bool.eq_true_of_not_eq_false hfinal)
    rw [hknown] at hread
    cases hread
  have hnames : namesOf (view.early ++ [⟨index, call.item, [], delta⟩]) = namesOf view.early := by
    rw [namesOf_append]
    exact List.append_nil _
  refine ⟨h.canonical, h.keyName, h.itemName, h.nameSent, h.sent, ?_, hnames.trans h.earlyNames,
    h.names, h.final, ?_, h.length, h.full, ?_⟩
  · exact fun _ ↦ iff_of_true (by simp) (by simp [hknown])
  · intro horderly
    have hearly := (horderly hitem).1
    simp [hknown] at hearly
  · intro _ hlate
    refine h.overfull hitem ?_
    simpa [hfinal] using hlate

/-- Arguments of a call without an item identifier are passed over. -/
theorem Follows.readNothing (h : Follows call view progress received) (hitem : call.item = [])
    (early late : Bool) (received' : Text) :
    Follows call view { progress with early := early, late := late } received' := by
  refine ⟨h.canonical, h.keyName, h.itemName, h.nameSent, h.sent, fun hne ↦ absurd hitem hne,
    h.earlyNames, h.names, h.final, ?_, h.length, h.full, fun hne ↦ absurd hitem hne⟩
  intro _
  have hargs := h.args fun hne ↦ absurd hitem hne
  rw [if_pos hitem] at hargs ⊢
  exact hargs

end Reading

omit [DecidableEq ι] in
/-- What sending a tool call changes of what the handler has of a call. -/
theorem viewOf_send {s s' : HandlerState} {name : Text} {sent : ToolCall}
    (h : AfterSending s name sent s') (k : ι) :
    viewOf calls s' k =
      { viewOf calls s k with
        keyName := if name ≠ [] ∧ (calls.call k).key = sent.id then name
          else (viewOf calls s k).keyName
        itemName := if name ≠ [] ∧ (calls.call k).item = sent.id then name
          else (viewOf calls s k).itemName
        nameSent := (viewOf calls s k).nameSent ||
          (sent.name ≠ [] && (calls.call k).key = sent.id)
        sent := (viewOf calls s k).sent ++ if sent.id = (calls.call k).key then [sent] else []
        early := (viewOf calls s k).early ++
          if sent.id = (calls.call k).item then [sent] else [] } := by
  have hname : ∀ id, s'.toolCallName id =
      if name ≠ [] ∧ id = sent.id then name else s.toolCallName id := by
    intro id
    rw [h.names]
    by_cases hne : name = []
    · simp [hne]
    · by_cases hid : id = sent.id <;> simp [hne, hid]
  have hsent : ∀ id, s'.toolCallNameSent id =
      (s.toolCallNameSent id || (sent.name ≠ [] && id = sent.id)) := by
    intro id
    rw [h.nameSent]
    by_cases hne : sent.name = []
    · simp [hne]
    · by_cases hid : id = sent.id <;> simp [hne, hid]
  have hfilter : ∀ id, (toolCallsOf s'.chunks).filter (·.id = id) =
      (toolCallsOf s.chunks).filter (·.id = id) ++ if sent.id = id then [sent] else [] := by
    intro id
    rw [h.calls, List.filter_append]
    by_cases hid : sent.id = id <;> simp [hid]
  simp only [viewOf, h.canonicalId, h.args, hname, hsent, hfilter]

/-- The handler after some inputs, before any text. -/
structure Inv (s : HandlerState) (seen : List (Input ι)) : Prop where
  outputText : s.outputText = []
  failed : s.failed = false
  sentStop : s.sentStop = false
  canonical : s.canonicalId [] = []
  content : contentOf s.chunks = []
  stops : ∀ reason, ChatChunk.stop reason ∉ s.chunks
  saw : s.sawToolCall = true ↔ toolCallsOf s.chunks ≠ []
  sends : toolCallsOf s.chunks = [] ↔ ∀ input ∈ seen, ¬ Sends calls input
  ids : ∀ sent ∈ toolCallsOf s.chunks,
    sent.id ∈ s.toolCallIds ∧ sent.index = s.toolCallIds.idxOf sent.id ∧ sent.id ≠ []
  follows : ∀ k, Follows (calls.call k) (viewOf calls s k) (progressOf k seen) (deltasOf k seen)

theorem progressOf_snoc (k : ι) (seen : List (Input ι)) (input : Input ι) :
    progressOf k (seen ++ [input]) = (progressOf k seen).read k input := by
  rw [progressOf, List.foldl_append]
  rfl

theorem deltasOf_append (k : ι) (inputs inputs' : List (Input ι)) :
    deltasOf k (inputs ++ inputs') = deltasOf k inputs ++ deltasOf k inputs' := by
  induction inputs with
  | nil => rfl
  | cons input inputs ih => cases input <;> simp [deltasOf, ih]

variable {calls}

/-- Sending one tool call for an input, whatever it is learned from before. -/
theorem Inv.send {s learned s' : HandlerState} {seen : List (Input ι)} {input : Input ι}
    {name : Text} {sent : ToolCall} (hinv : Inv calls s seen)
    (hafter : AfterSending learned name sent s') (htext : learned.outputText = s.outputText)
    (hfailed : learned.failed = s.failed)
    (hstop : learned.sentStop = s.sentStop) (hcanonical : learned.canonicalId [] = [])
    (hchunks : learned.chunks = s.chunks) (hids : learned.toolCallIds = s.toolCallIds)
    (hsends : Sends calls input) (hid : sent.id ≠ [])
    (hindex : sent.index = s'.toolCallIds.idxOf sent.id)
    (hfollows : ∀ k, Follows (calls.call k) (viewOf calls s' k) ((progressOf k seen).read k input)
      (deltasOf k seen ++ deltasOf k [input])) :
    Inv calls s' (seen ++ [input]) where
  outputText := hafter.outputText.trans (htext.trans hinv.outputText)
  failed := hafter.failed.trans (hfailed.trans hinv.failed)
  sentStop := hafter.sentStop.trans (hstop.trans hinv.sentStop)
  canonical := (congrFun hafter.canonicalId []).trans hcanonical
  content := hafter.content.trans (hchunks ▸ hinv.content)
  stops reason := fun h ↦ hinv.stops reason (hchunks ▸ (hafter.stops reason).mp h)
  saw := iff_of_true hafter.saw (by rw [hafter.calls]; simp)
  sends := by
    refine iff_of_false (by rw [hafter.calls]; simp) fun hnone ↦ ?_
    exact hnone input (List.mem_append_right _ List.mem_cons_self) hsends
  ids := by
    intro other hother
    rw [hafter.calls, hchunks] at hother
    rcases List.mem_append.mp hother with hold | hnew
    · obtain ⟨hmem, hindex', hne⟩ := hinv.ids other hold
      rw [hafter.ids, hids]
      split
      · exact ⟨hmem, hindex', hne⟩
      · exact ⟨List.mem_append_left _ hmem,
          hindex'.trans (List.idxOf_append_of_mem hmem).symm, hne⟩
    · rw [List.mem_singleton.mp hnew]
      refine ⟨?_, hindex, hid⟩
      rw [hafter.ids]
      split
      · assumption
      · simp
  follows k := by
    rw [progressOf_snoc, deltasOf_append]
    exact hfollows k

end Views

section Items

variable {ι : Type} [DecidableEq ι] {calls : Calls ι} {s : HandlerState}

omit [DecidableEq ι] in
theorem callIdOf_itemOf (j : ι) (args : Text) :
    HandlerState.callIdOf (itemOf calls j args) = (calls.call j).key :=
  if_neg (calls.key_ne j)

omit [DecidableEq ι] in
theorem learn_view_self (s : HandlerState) (j : ι) (args : Text) :
    viewOf calls (s.learn (itemOf calls j args)) j =
      { viewOf calls s j with
        canonical := if (calls.call j).item = [] then (viewOf calls s j).canonical
          else (calls.call j).key
        keyName := (calls.call j).called
        keyArgs := if args ≠ [] then args else (viewOf calls s j).keyArgs } := by
  have hitem : trimSpace (itemOf calls j args).id = (calls.call j).item := rfl
  have hname : trimSpace (itemOf calls j args).name = (calls.call j).called := rfl
  have hargs : (itemOf calls j args).arguments = args := rfl
  have hne := calls.item_ne_key j j
  have hkey := calls.key_ne j
  have hcalled := calls.called_ne j
  simp only [viewOf, HandlerState.learn, callIdOf_itemOf, hitem, hname, hargs]
  by_cases hnil : (calls.call j).item = [] <;> by_cases hargs' : args = [] <;>
    simp [hnil, hargs', hkey, hcalled, hkey.symm, hne]

omit [DecidableEq ι] in
theorem learn_view_other (s : HandlerState) {j k : ι} (hne : k ≠ j) (args : Text) :
    viewOf calls (s.learn (itemOf calls j args)) k = viewOf calls s k := by
  have hitem : trimSpace (itemOf calls j args).id = (calls.call j).item := rfl
  have hname : trimSpace (itemOf calls j args).name = (calls.call j).called := rfl
  have hargs : (itemOf calls j args).arguments = args := rfl
  have hkeys : (calls.call k).key ≠ (calls.call j).key := fun h ↦ hne (calls.key_inj k j h)
  have hitemKey := calls.item_ne_key k j
  have hitems : (calls.call j).item ≠ [] → (calls.call k).item ≠ (calls.call j).item :=
    fun hnil h ↦ hne (calls.item_inj j k hnil h.symm).symm
  simp only [viewOf, HandlerState.learn, callIdOf_itemOf, hitem, hname, hargs]
  by_cases hnil : (calls.call j).item = []
  · by_cases hargs' : args = [] <;> simp [hnil, hargs', hkeys, hitemKey, calls.called_ne j]
  · have hcanonical := Function.update_of_ne (hitems hnil) (calls.call j).key s.canonicalId
    by_cases hargs' : args = [] <;>
      simp [hnil, hargs', hkeys, hitemKey, calls.called_ne j, calls.key_ne j, hcanonical]

omit [DecidableEq ι] in
/-- What the handler has of the other calls stays. -/
theorem viewOf_other {s' : HandlerState} {name : Text} {sent : ToolCall}
    (hafter : AfterSending s name sent s') {j k : ι} (hne : k ≠ j)
    (hid : sent.id = (calls.call j).key ∨
      (sent.id = (calls.call j).item ∧ (calls.call j).item ≠ [])) :
    viewOf calls s' k = viewOf calls s k := by
  have hkey : sent.id ≠ (calls.call k).key := by
    rcases hid with hid | ⟨hid, -⟩
    · exact fun h ↦ hne (calls.key_inj k j (h.symm.trans hid))
    · exact fun h ↦ calls.item_ne_key j k (hid.symm.trans h)
  have hitem : sent.id ≠ (calls.call k).item := by
    rcases hid with hid | ⟨hid, hnil⟩
    · exact fun h ↦ calls.item_ne_key k j (h.symm.trans hid)
    · exact fun h ↦ hne (calls.item_inj j k hnil (hid.symm.trans h)).symm
  rw [viewOf_send calls hafter]
  simp [hkey, hitem, hkey.symm, hitem.symm]

theorem read_other {j k : ι} (hne : k ≠ j) (progress : Progress) {input : Input ι}
    (hinput : input = .added j ∨ input = .done j ∨ ∃ delta, input = .arguments j delta) :
    progress.read k input = progress ∧ deltasOf k [input] = [] := by
  rcases hinput with rfl | rfl | ⟨delta, rfl⟩ <;> simp [Progress.read, deltasOf, hne.symm]

theorem follows_other {learned s' : HandlerState} {seen : List (Input ι)} {name : Text}
    {sent : ToolCall} (hinv : Inv calls s seen) (hafter : AfterSending learned name sent s')
    {j k : ι} (hne : k ≠ j) (hlearned : viewOf calls learned k = viewOf calls s k)
    (hid : sent.id = (calls.call j).key ∨
      (sent.id = (calls.call j).item ∧ (calls.call j).item ≠ []))
    {input : Input ι}
    (hinput : input = .added j ∨ input = .done j ∨ ∃ delta, input = .arguments j delta) :
    Follows (calls.call k) (viewOf calls s' k) ((progressOf k seen).read k input)
      (deltasOf k seen ++ deltasOf k [input]) := by
  obtain ⟨hprogress, hdeltas⟩ := read_other hne (progressOf k seen) hinput
  rw [viewOf_other hafter hne hid, hlearned, hprogress, hdeltas, List.append_nil]
  exact hinv.follows k

/-- The tool call that is sent for an item. -/
theorem item_after {seen : List (Input ι)} (hinv : Inv calls s seen) (j : ι) (args : Text) :
    ∃ sent, AfterSending (s.learn (itemOf calls j args)) (calls.call j).called sent
        (s.onOutputItem (itemOf calls j args)) ∧
      sent = ⟨(s.onOutputItem (itemOf calls j args)).toolCallIds.idxOf (calls.call j).key,
        (calls.call j).key,
        if (viewOf calls s j).nameSent then [] else (calls.call j).called,
        HandlerState.argsDelta (viewOf calls s j).keyArgs args⟩ := by
  have hstep : s.onOutputItem (itemOf calls j args) =
      (s.learn (itemOf calls j args)).sendToolCallDelta (calls.call j).key (calls.call j).called
        (HandlerState.argsDelta (viewOf calls s j).keyArgs args) := by
    have htype : (itemOf calls j args).type = HandlerState.functionCall := rfl
    rw [HandlerState.onOutputItem, if_neg (not_not.mpr htype), callIdOf_itemOf]
    rfl
  have hafter := sendToolCallDelta_after (s := s.learn (itemOf calls j args)) hinv.outputText
    (calls.key_ne j) (calls.call j).called
      (HandlerState.argsDelta (viewOf calls s j).keyArgs args)
  rw [← hstep] at hafter
  refine ⟨_, hafter, ?_⟩
  rw [hafter.ids]
  have hname : (s.learn (itemOf calls j args)).toolCallNameSent (calls.call j).key =
      (viewOf calls s j).nameSent := rfl
  simp only [sentCall, hname]
  cases (viewOf calls s j).nameSent <;> simp [calls.called_ne j]

/-- What the handler has of a call after an item of it. -/
theorem item_view {seen : List (Input ι)} (hinv : Inv calls s seen) (j : ι) (args : Text) :
    ∃ index, viewOf calls (s.onOutputItem (itemOf calls j args)) j =
      { viewOf calls s j with
        canonical := if (calls.call j).item = [] then (viewOf calls s j).canonical
          else (calls.call j).key
        keyName := (calls.call j).called
        nameSent := true
        keyArgs := if args ≠ [] then args else (viewOf calls s j).keyArgs
        sent := (viewOf calls s j).sent ++
          [⟨index, (calls.call j).key,
            if (viewOf calls s j).nameSent then [] else (calls.call j).called,
            HandlerState.argsDelta (viewOf calls s j).keyArgs args⟩] } := by
  obtain ⟨sent, hafter, hsent⟩ := item_after hinv j args
  have hitem := calls.item_ne_key j j
  refine ⟨(s.onOutputItem (itemOf calls j args)).toolCallIds.idxOf (calls.call j).key, ?_⟩
  rw [viewOf_send calls hafter, learn_view_self, hsent]
  cases hname : (viewOf calls s j).nameSent <;>
    simp [hitem, hitem.symm, calls.called_ne j]

omit [DecidableEq ι] in
theorem canonical_nil_learn (s : HandlerState) (hnil : s.canonicalId [] = []) (j : ι) (args : Text) :
    (s.learn (itemOf calls j args)).canonicalId [] = [] := by
  have hitem : trimSpace (itemOf calls j args).id = (calls.call j).item := rfl
  simp only [HandlerState.learn, hitem]
  split
  · rename_i h
    exact (Function.update_of_ne h.1.symm _ _).trans hnil
  · exact hnil

/-- An item of a call is read. -/
theorem Inv.item {seen : List (Input ι)} (hinv : Inv calls s seen) {j : ι} {args : Text}
    {input : Input ι} (hinput : input = .added j ∨ input = .done j)
    (hfollows : Follows (calls.call j) (viewOf calls (s.onOutputItem (itemOf calls j args)) j)
      ((progressOf j seen).read j input) (deltasOf j seen)) :
    Inv calls (s.onOutputItem (itemOf calls j args)) (seen ++ [input]) := by
  obtain ⟨sent, hafter, hsent⟩ := item_after hinv j args
  have hid : sent.id = (calls.call j).key := congrArg ToolCall.id hsent
  have hdeltas : deltasOf j [input] = [] := by rcases hinput with rfl | rfl <;> rfl
  have hsends : Sends calls input := by rcases hinput with rfl | rfl <;> trivial
  refine hinv.send hafter rfl rfl rfl (canonical_nil_learn s hinv.canonical j args) rfl rfl hsends
    (hid ▸ calls.key_ne j) ?_ fun k ↦ ?_
  · exact (congrArg ToolCall.index hsent).trans (by rw [hid])
  · by_cases hne : k = j
    · subst hne
      rw [hdeltas, List.append_nil]
      exact hfollows
    · exact follows_other hinv hafter hne (learn_view_other s hne args) (.inl hid)
        (hinput.imp_right .inl)

theorem Inv.added {seen : List (Input ι)} (hinv : Inv calls s seen) (j : ι) :
    Inv calls (s.onOutputItem (itemOf calls j [])) (seen ++ [.added j]) := by
  refine hinv.item (.inl rfl) ?_
  obtain ⟨index, hview⟩ := item_view hinv j []
  rw [hview, Progress.read, if_pos rfl, argsDelta_nil, if_neg (not_not.mpr rfl)]
  exact (hinv.follows j).readAdded (calls.called_ne j) index

theorem Inv.done {seen : List (Input ι)} (hinv : Inv calls s seen) (j : ι)
    (hreceived : deltasOf j seen <+: (calls.call j).arguments) :
    Inv calls (s.onOutputItem (itemOf calls j (calls.call j).arguments)) (seen ++ [.done j]) := by
  refine hinv.item (.inr rfl) ?_
  obtain ⟨index, hview⟩ := item_view hinv j (calls.call j).arguments
  rw [hview, Progress.read, if_pos rfl]
  exact (hinv.follows j).readDone (calls.called_ne j) hreceived index

/-- A step that sends nothing for a call nobody can know. -/
theorem Inv.nothing {seen : List (Input ι)} (hinv : Inv calls s seen) {j : ι}
    (hitem : (calls.call j).item = []) (delta : Text) :
    Inv calls (s.onArgumentsDelta (calls.call j).itemId delta) (seen ++ [.arguments j delta]) := by
  have hstep : s.onArgumentsDelta (calls.call j).itemId delta = s := by
    have hid : trimSpace (calls.call j).itemId = [] := hitem
    rw [HandlerState.onArgumentsDelta, hid, hinv.canonical]
    rfl
  rw [hstep]
  refine { hinv with sends := ?_, follows := fun k ↦ ?_ }
  · rw [hinv.sends]
    constructor
    · intro hnone input hinput
      rcases List.mem_append.mp hinput with hold | hnew
      · exact hnone input hold
      · rw [List.mem_singleton.mp hnew]
        exact not_not.mpr hitem
    · exact fun hnone input hinput ↦ hnone input (List.mem_append_left _ hinput)
  · rw [progressOf_snoc, deltasOf_append]
    by_cases hne : k = j
    · subst hne
      rw [Progress.read, if_pos rfl]
      exact (hinv.follows k).readNothing hitem _ _ _
    · obtain ⟨hprogress, hdeltas⟩ := @read_other ι _ j k hne (progressOf k seen)
        (.arguments j delta) (.inr (.inr ⟨delta, rfl⟩))
      rw [hprogress, hdeltas, List.append_nil]
      exact hinv.follows k

/-- The identifier that arguments of a call go by. -/
def argumentsId (calls : Calls ι) (j : ι) (known : Bool) : Text :=
  if known then (calls.call j).key else (calls.call j).item

def withArguments (s : HandlerState) (id delta : Text) : HandlerState :=
  { s with toolCallArgs := Function.update s.toolCallArgs id (s.toolCallArgs id ++ delta) }

theorem arguments_after {seen : List (Input ι)} (hinv : Inv calls s seen) {j : ι}
    (hitem : (calls.call j).item ≠ []) (delta : Text) {known : Bool}
    (hknown : (progressOf j seen).item = known) :
    ∃ sent, AfterSending (withArguments s (argumentsId calls j known) delta) [] sent
        (s.onArgumentsDelta (calls.call j).itemId delta) ∧
      sent = ⟨(s.onArgumentsDelta (calls.call j).itemId delta).toolCallIds.idxOf
        (argumentsId calls j known), argumentsId calls j known, [], delta⟩ := by
  have hfollows := hinv.follows j
  have hid : argumentsId calls j known ≠ [] := by
    cases known
    · exact hitem
    · exact calls.key_ne j
  have hcallId : (if s.canonicalId (trimSpace (calls.call j).itemId) = [] then
      trimSpace (calls.call j).itemId else s.canonicalId (trimSpace (calls.call j).itemId)) =
        argumentsId calls j known := by
    have hcanonical : s.canonicalId (trimSpace (calls.call j).itemId) =
        if (progressOf j seen).item then (calls.call j).key else [] := hfollows.canonical hitem
    rw [hcanonical, hknown]
    cases known
    · rfl
    · exact if_neg (calls.key_ne j)
  have hname : s.toolCallName (argumentsId calls j known) = [] ∨
      s.toolCallNameSent (argumentsId calls j known) = true := by
    cases known with
    | false => exact .inl (hfollows.itemName hitem)
    | true => exact .inr (hfollows.nameSent.trans hknown)
  have hstep : s.onArgumentsDelta (calls.call j).itemId delta =
      (withArguments s (argumentsId calls j known) delta).sendToolCallDelta
        (argumentsId calls j known) [] delta := by
    rw [HandlerState.onArgumentsDelta, hcallId, if_neg hid]
    rfl
  have hsilent : (withArguments s (argumentsId calls j known) delta).outputText = [] :=
    hinv.outputText
  have hafter := sendToolCallDelta_after hsilent hid [] delta
  rw [← hstep] at hafter
  refine ⟨_, hafter, ?_⟩
  rw [hafter.ids]
  rcases hname with hname | hname
  · simp [sentCall, withArguments, hname]
  · simp [sentCall, withArguments, hname]

/-- Arguments of a call are read. -/
theorem Inv.arguments {seen : List (Input ι)} (hinv : Inv calls s seen) (j : ι) (delta : Text) :
    Inv calls (s.onArgumentsDelta (calls.call j).itemId delta) (seen ++ [.arguments j delta]) := by
  by_cases hitem : (calls.call j).item = []
  · exact hinv.nothing hitem delta
  cases hknown : (progressOf j seen).item with
  | false =>
    obtain ⟨sent, hafter, hsent⟩ := arguments_after hinv hitem delta hknown
    have hid : sent.id = (calls.call j).item := congrArg ToolCall.id hsent
    have hview : ∀ k, viewOf calls (withArguments s (argumentsId calls j false) delta) k =
        viewOf calls s k := by
      intro k
      have hkey : (calls.call k).key ≠ (calls.call j).item := (calls.item_ne_key j k).symm
      simp [viewOf, withArguments, argumentsId, hkey]
    refine hinv.send hafter rfl rfl rfl hinv.canonical rfl rfl hitem (hid ▸ hitem) ?_ fun k ↦ ?_
    · exact (congrArg ToolCall.index hsent).trans (by rw [hid]; rfl)
    · by_cases hne : k = j
      · subst hne
        have hread := (hinv.follows k).readEarly hitem hknown sent.index delta
        have hkeys := calls.item_ne_key k k
        have hseen : viewOf calls (s.onArgumentsDelta (calls.call k).itemId delta) k =
            { viewOf calls s k with
              early := (viewOf calls s k).early ++ [⟨sent.index, (calls.call k).item, [], delta⟩] } := by
          rw [viewOf_send calls hafter, hview]
          simp [hsent, argumentsId, hkeys]
        have hdeltas : deltasOf k [.arguments k delta] = delta := by simp [deltasOf]
        rw [hseen, hdeltas, Progress.read, if_pos rfl]
        exact hread
      · exact follows_other hinv hafter hne (hview k) (.inr ⟨hid, hitem⟩)
          (.inr (.inr ⟨delta, rfl⟩))
  | true =>
    obtain ⟨sent, hafter, hsent⟩ := arguments_after hinv hitem delta hknown
    have hid : sent.id = (calls.call j).key := congrArg ToolCall.id hsent
    refine hinv.send hafter rfl rfl rfl hinv.canonical rfl rfl hitem (hid ▸ calls.key_ne j) ?_
      fun k ↦ ?_
    · exact (congrArg ToolCall.index hsent).trans (by rw [hid]; rfl)
    · by_cases hne : k = j
      · subst hne
        have hread := (hinv.follows k).readArguments hitem hknown sent.index delta
        have hkeys := calls.item_ne_key k k
        have hseen : viewOf calls (s.onArgumentsDelta (calls.call k).itemId delta) k =
            { viewOf calls s k with
              keyArgs := (viewOf calls s k).keyArgs ++ delta
              sent := (viewOf calls s k).sent ++ [⟨sent.index, (calls.call k).key, [], delta⟩] } := by
          rw [viewOf_send calls hafter]
          simp [hsent, viewOf, withArguments, argumentsId, hkeys.symm]
        have hdeltas : deltasOf k [.arguments k delta] = delta := by simp [deltasOf]
        rw [hseen, hdeltas, Progress.read, if_pos rfl]
        exact hread
      · have hkey : (calls.call k).key ≠ (calls.call j).key := fun h ↦ hne (calls.key_inj k j h)
        have hview : viewOf calls (withArguments s (argumentsId calls j true) delta) k =
            viewOf calls s k := by
          simp [viewOf, withArguments, argumentsId, hkey]
        exact follows_other hinv hafter hne hview (.inl hid) (.inr (.inr ⟨delta, rfl⟩))

end Items

end AllAiTools.NewApi.Relay.ChatViaResponses
