import AllAiTools.NewApi.Controller.RelayRetry
import AllAiTools.NewApi.Relay.OllamaStream

namespace AllAiTools.NewApi.Controller.OneAnswer

open Common.Str (hasPrefix)
open Model.Channels Model.CachedChannels Service.ChannelSelect RelayRetry
open Relay.ChatViaResponses (Text trimSpace ResponsesEvent ChatChunk HandlerState oaiResponsesToChatStream)
open Relay.OllamaStream (Codec Frame ollamaStreamHandler streamLoop StreamState scan)

section Errors

/-- An error with its message. -/
structure Failure where
  error : NewAPIError
  message : Text

/-- `types.NewOpenAIError` and `types.WithOpenAIError` with the status of an internal server error. -/
def internalServerError (errorCode : String) (message : Text) : Failure where
  error := { errorCode, skipRetry := false, statusCode := 500 }
  message

def resetStatusCode (statusCodeMapping : ℤ → Option ℤ) (err : NewAPIError) : NewAPIError :=
  if err.statusCode = 200 then err
  else { err with statusCode := (statusCodeMapping err.statusCode).getD err.statusCode }

def hasCSAMViolationMarker (message : Text) : Bool :=
  "Failed check: SAFETY_CHECK_TYPE".toList <:+: message ∨
    "Content violates usage guidelines".toList <:+: message

def isViolationFeeCode (code : String) : Bool := hasPrefix code "violation_fee."

def normalizeViolationFeeError (failure : Failure) : NewAPIError :=
  if hasCSAMViolationMarker failure.message then
    { failure.error with errorCode := "violation_fee.grok.csam", skipRetry := true }
  else if isViolationFeeCode failure.error.errorCode then { failure.error with skipRetry := true }
  else failure.error

end Errors

section Attempts

variable {A : Type}

inductive Chunk
  | ollama (frame : Frame)
  | responses (chunk : ChatChunk)
  | other (data : Text)

/-- What an upstream does: it streams a body to `ollamaStreamHandler` or events to
`OaiResponsesToChatStreamHandler`, with the code and the message of its first error event, or what
another handler makes of it is given. -/
inductive Upstream
  | ollama (body : Text)
  | responses (events : List ResponsesEvent) (errorCode : String) (message : Text)
  | other (sent : List Text) (failure : Option Failure)

/-- What an attempt has written to the client, and how it failed. -/
structure Handled where
  sent : List Chunk
  failure : Option Failure

variable (codec : Codec A) (upstreamModelName : Text)

def doResponse : Upstream → Handled
  | .ollama body =>
    let streamed := ollamaStreamHandler codec upstreamModelName body
    { sent := streamed.sent.map .ollama
      failure := streamed.err.map (internalServerError "bad_response_body") }
  | .responses events errorCode message =>
    { sent := (oaiResponsesToChatStream events).map .responses
      failure :=
        if (HandlerState.read events).failed then some (internalServerError errorCode message) else none }
  | .other sent failure => { sent := sent.map .other, failure }

end Attempts

section Loop

variable {A : Type}

/-- The retry loop before an attempt. -/
structure Turn where
  n : ℕ
  inContext : Option Attempt
  param : RetryParam
  ctx : Context

def Turn.increaseRetry (turn : Turn) : Turn where
  n := turn.n + 1
  inContext := none
  param := turn.param.increaseRetry
  ctx := turn.ctx

structure Try where
  attempt : Attempt
  handled : Handled

/-- What a request meets: the settings, the channels, and what is upstream of its attempts. -/
structure Request (A : Type) where
  settings : Settings
  cache : ChannelCache
  rules : RetryRules
  world : World
  codec : Codec A
  upstreamModelName : Text
  statusCodeMapping : Channel → ℤ → Option ℤ
  upstream : ℕ → Upstream

namespace Request

variable (request : Request A)

/-- The channel of the next attempt, unless the loop ends before it. -/
def next (turn : Turn) : Option (Attempt × Turn) :=
  if (turn.param.getRetry : ℤ) ≤ request.settings.retryTimes then
    match getChannel request.settings request.cache request.world turn.n turn.inContext turn.param turn.ctx with
    | (.error _, _, _) => none
    | (.ok attempt, param, ctx) => some (attempt, { turn with param, ctx })
  else none

/-- The error of an attempt is retried. -/
def retries (turn : Turn) (attempt : Attempt) (failure : Failure) : Bool :=
  let err := resetStatusCode (request.statusCodeMapping attempt.channel) failure.error
  shouldRetry request.rules (normalizeViolationFeeError { failure with error := err })
    (request.settings.retryTimes - turn.param.getRetry)

/-- An attempt, and the turn after it where the loop goes on. -/
def step (turn : Turn) : Option (Try × Option Turn) :=
  (request.next turn).map fun (attempt, turn) ↦
    let handled := doResponse request.codec request.upstreamModelName (request.upstream turn.n)
    match handled.failure with
    | none => (⟨attempt, handled⟩, none)
    | some failure =>
      (⟨attempt, handled⟩, if request.retries turn attempt failure then some turn.increaseRetry else none)

/-- The retry loop, with as many rounds as `fuel`. -/
def retryLoop : ℕ → Turn → List Try
  | 0, _ => []
  | fuel + 1, turn =>
    match request.step turn with
    | none => []
    | some (tried, none) => [tried]
    | some (tried, some turn) => tried :: retryLoop fuel turn

/-- The turns of the loop. -/
def turns : ℕ → Turn → List Turn
  | 0, _ => []
  | fuel + 1, turn =>
    turn :: match request.step turn with
    | some (_, some turn) => turns fuel turn
    | _ => []

/-- The first turn of a request, whose channel the distributor has selected. -/
def start (tokenGroup modelName : String) (ctx : Context) : Option Turn :=
  let param : RetryParam := { tokenGroup, modelName, retry := some 0 }
  let selected := cacheGetRandomSatisfiedChannel request.settings request.cache (request.world.draws 0) param ctx
  match selected.channel with
  | .ok (some channel) => some ⟨1, some { place := selected.place, channel }, param, selected.ctx⟩
  | _ => none

end Request

end Loop

section Spec

variable {A : Type}

/-- No attempt but the last has written anything. -/
def AnswersOnce (tries : List Try) : Prop := ∀ tried ∈ tries.dropLast, tried.handled.sent = []

/-- What the client receives. -/
def received (tries : List Try) : List Chunk := tries.flatMap fun tried ↦ tried.handled.sent

/-- A line of a body that is read on from. -/
def Passed (codec : Codec A) (line : Text) : Prop :=
  trimSpace line = [] ∨ ∃ chunk, codec.unmarshal (trimSpace line) = .ok chunk ∧ chunk.done = false

/-- An event that makes the handler send its first chunk. -/
def Sends : ResponsesEvent → Prop
  | .reasoningSummaryTextDelta delta => delta ≠ []
  | .outputTextDelta _ => True
  | .outputItem (some item) => item.type = HandlerState.functionCall ∧ HandlerState.callIdOf item ≠ []
  | .functionCallArgumentsDelta itemId _ => trimSpace itemId ≠ []
  | .completed => True
  | _ => False

/-- An upstream whose attempt fails after something was written: a line of a body that is no chunk, an
error event after one that sends, or as another handler has it. -/
inductive Spoils (codec : Codec A) : Upstream → Failure → Prop
  | ollama {body : Text} {before after : List Text} {line : Text} {message : Text}
      (hlines : scan (body.splitOn '\n') = before ++ line :: after)
      (hbefore : ∀ l ∈ before, Passed codec l) (hline : trimSpace line ≠ [])
      (herror : codec.unmarshal (trimSpace line) = .error message) :
      Spoils codec (.ollama body) (internalServerError "bad_response_body" message)
  | responses {before after : List ResponsesEvent} {errorCode : String} {message : Text}
      (hbefore : ∃ event ∈ before, Sends event) (hnot : .failed ∉ before) :
      Spoils codec (.responses (before ++ .failed :: after) errorCode message)
        (internalServerError errorCode message)
  | other {sent : List Text} {failure : Failure} (hsent : sent ≠ []) :
      Spoils codec (.other sent (some failure)) failure

/-- An attempt that fails after something was written is not retried, or no other attempt follows. -/
def Withheld (request : Request A) (turn : Turn) : Prop :=
  ∀ attempt turn' failure, request.next turn = some (attempt, turn') →
    Spoils request.codec (request.upstream turn'.n) failure → request.retries turn' attempt failure = true →
      request.next turn'.increaseRetry = none

end Spec

section Handlers

variable {A : Type} {codec : Codec A}

/-- The lines up to one that is no chunk. -/
def Undecodable (codec : Codec A) (lines : List Text) (message : Text) : Prop :=
  ∃ before line after, lines = before ++ line :: after ∧ (∀ l ∈ before, Passed codec l) ∧
    trimSpace line ≠ [] ∧ codec.unmarshal (trimSpace line) = .error message

theorem undecodable_cons_of_passed {line : Text} (hpassed : Passed codec line)
    (hdecodes : trimSpace line = [] ∨ ∃ chunk, codec.unmarshal (trimSpace line) = .ok chunk)
    (lines : List Text) (message : Text) :
    Undecodable codec (line :: lines) message ↔ Undecodable codec lines message := by
  constructor
  · intro ⟨before, bad, after, hlines, hbefore, hbad, herror⟩
    cases before with
    | nil =>
      obtain ⟨rfl, rfl⟩ := List.cons.inj hlines
      obtain hblank | ⟨chunk, hchunk⟩ := hdecodes
      · exact absurd hblank hbad
      · rw [herror] at hchunk
        cases hchunk
    | cons first before =>
      obtain ⟨rfl, hrest⟩ := List.cons.inj hlines
      exact ⟨before, bad, after, hrest, (List.forall_mem_cons.mp hbefore).2, hbad, herror⟩
  · intro ⟨before, bad, after, hlines, hbefore, hbad, herror⟩
    exact ⟨line :: before, bad, after, congrArg (line :: ·) hlines,
      List.forall_mem_cons.mpr ⟨hpassed, hbefore⟩, hbad, herror⟩

theorem not_undecodable_cons {line : Text} {chunk : Relay.OllamaStream.OllamaChatStreamChunk A}
    (hline : trimSpace line ≠ []) (hchunk : codec.unmarshal (trimSpace line) = .ok chunk)
    (hdone : chunk.done = true) (lines : List Text) (message : Text) :
    ¬ Undecodable codec (line :: lines) message := by
  intro ⟨before, bad, after, hlines, hbefore, hbad, herror⟩
  cases before with
  | nil =>
    obtain ⟨rfl, rfl⟩ := List.cons.inj hlines
    rw [herror] at hchunk
    cases hchunk
  | cons first before =>
    obtain ⟨rfl, -⟩ := List.cons.inj hlines
    obtain hblank | ⟨passed, hpassed, hopen⟩ := (List.forall_mem_cons.mp hbefore).1
    · exact hline hblank
    · rw [hchunk] at hpassed
      cases hpassed
      exact absurd (hdone.symm.trans hopen) (Ne.symm Bool.false_ne_true)

theorem streamLoop_err_iff (lines : List Text) (st : StreamState) (message : Text) :
    (streamLoop codec lines st).err = some message ↔ Undecodable codec lines message := by
  induction lines generalizing st with
  | nil =>
    constructor
    · intro h
      cases h
    · intro ⟨before, bad, after, hlines, _⟩
      exact absurd hlines.symm (List.append_ne_nil_of_right_ne_nil before (List.cons_ne_nil bad after))
  | cons line lines ih =>
    rw [streamLoop]
    by_cases hblank : trimSpace line = []
    · rw [if_pos hblank, ih, undecodable_cons_of_passed (.inl hblank) (.inl hblank)]
    · rw [if_neg hblank]
      cases hchunk : codec.unmarshal (trimSpace line) with
      | error err =>
        constructor
        · intro h
          obtain rfl := Option.some.inj h
          exact ⟨[], line, lines, rfl, fun l hl ↦ absurd hl List.not_mem_nil, hblank, hchunk⟩
        · intro ⟨before, bad, after, hlines, hbefore, hbad, herror⟩
          cases before with
          | nil =>
            obtain ⟨rfl, rfl⟩ := List.cons.inj hlines
            rw [hchunk] at herror
            exact congrArg some (Except.error.inj herror)
          | cons first before =>
            obtain ⟨rfl, -⟩ := List.cons.inj hlines
            obtain hblank' | ⟨passed, hpassed, -⟩ := (List.forall_mem_cons.mp hbefore).1
            · exact absurd hblank' hblank
            · rw [hchunk] at hpassed
              cases hpassed
      | ok chunk =>
        dsimp only
        cases hdone : chunk.done with
        | true =>
          rw [if_pos rfl]
          constructor
          · intro h
            cases h
          · exact fun h ↦ absurd h (not_undecodable_cons hblank hchunk hdone lines message)
        | false =>
          rw [if_neg Bool.false_ne_true, undecodable_cons_of_passed (.inr ⟨chunk, hchunk, hdone⟩)
            (.inr ⟨chunk, hchunk⟩)]
          exact ih _

/-- A handler that has sent nothing so far. -/
structure Idle (s : HandlerState) : Prop where
  chunks : s.chunks = []
  sentStart : s.sentStart = false
  outputText : s.outputText = []
  canonicalId : ∀ itemId, s.canonicalId itemId = []
  failed : s.failed = false

theorem chunks_prefix_sendStart (s : HandlerState) : s.chunks <+: s.sendStartIfNeeded.chunks := by
  rw [HandlerState.sendStartIfNeeded]
  split
  · exact List.prefix_refl _
  · exact List.prefix_append _ _

theorem chunks_prefix_toolCall (s : HandlerState) (callId name argsDelta : Text) :
    s.chunks <+: (s.sendToolCallDelta callId name argsDelta).chunks := by
  rw [HandlerState.sendToolCallDelta]
  split
  · exact List.prefix_refl _
  · split
    · exact List.prefix_refl _
    · exact (chunks_prefix_sendStart s).trans (List.prefix_append _ _)

theorem chunks_prefix_arguments (s : HandlerState) (args : Text → Text) (callId name delta : Text) :
    s.chunks <+: ({ s with toolCallArgs := args }.sendToolCallDelta callId name delta).chunks :=
  chunks_prefix_toolCall { s with toolCallArgs := args } callId name delta

theorem chunks_prefix_finish (s : HandlerState) : s.chunks <+: s.finish.chunks := by
  rw [HandlerState.finish]
  dsimp only
  split
  · exact chunks_prefix_sendStart s
  · exact (chunks_prefix_sendStart s).trans (List.prefix_append _ _)

/-- What was sent stays sent. -/
theorem chunks_prefix (s : HandlerState) (event : ResponsesEvent) :
    s.chunks <+: (s.onEvent event).chunks := by
  unfold HandlerState.onEvent
  split
  · exact List.prefix_refl _
  · cases event with
    | created => exact List.prefix_refl _
    | reasoningSummaryTextDelta delta =>
      dsimp only
      rw [HandlerState.sendReasoningSummaryDelta]
      split
      · exact List.prefix_refl _
      · exact (chunks_prefix_sendStart s).trans (List.prefix_append _ _)
    | reasoningSummaryTextDone =>
      dsimp only
      split
      · exact List.prefix_refl _
      · exact List.prefix_refl _
    | outputTextDelta delta =>
      dsimp only
      rw [HandlerState.onOutputTextDelta]
      dsimp only
      split
      · exact chunks_prefix_sendStart s
      · exact (chunks_prefix_sendStart s).trans (List.prefix_append _ _)
    | outputItem item =>
      cases item with
      | none => exact List.prefix_refl _
      | some item =>
        dsimp only
        rw [HandlerState.onOutputItem]
        split
        · exact List.prefix_refl _
        · exact chunks_prefix_toolCall (s.learn item) _ _ _
    | functionCallArgumentsDelta itemId delta =>
      dsimp only
      rw [HandlerState.onArgumentsDelta]
      split
      · split
        · exact List.prefix_refl _
        · exact chunks_prefix_arguments ..
      · exact chunks_prefix_arguments ..
    | functionCallArgumentsDone => exact List.prefix_refl _
    | completed => exact chunks_prefix_finish s
    | failed => exact List.prefix_refl _
    | other => exact List.prefix_refl _

theorem sendStart_idle {s : HandlerState} (h : Idle s) : s.sendStartIfNeeded.chunks ≠ [] := by
  rw [HandlerState.sendStartIfNeeded, if_neg (Bool.eq_false_iff.mp h.sentStart)]
  exact List.append_ne_nil_of_right_ne_nil _ (List.cons_ne_nil _ _)

theorem toolCall_idle {s : HandlerState} (houtput : s.outputText = []) {callId : Text} (hcall : callId ≠ [])
    (name argsDelta : Text) : (s.sendToolCallDelta callId name argsDelta).chunks ≠ [] := by
  rw [HandlerState.sendToolCallDelta, if_neg hcall, if_neg (not_not_intro houtput)]
  exact List.append_ne_nil_of_right_ne_nil _ (List.cons_ne_nil _ _)

theorem arguments_idle {s : HandlerState} (houtput : s.outputText = []) {callId : Text} (hcall : callId ≠ [])
    (args : Text → Text) (name delta : Text) :
    ({ s with toolCallArgs := args }.sendToolCallDelta callId name delta).chunks ≠ [] :=
  toolCall_idle (s := { s with toolCallArgs := args }) houtput hcall name delta

theorem onEvent_sends {s : HandlerState} (h : Idle s) {event : ResponsesEvent} (hsends : Sends event) :
    (s.onEvent event).chunks ≠ [] := by
  have hfailed : ¬ s.failed = true := Bool.eq_false_iff.mp h.failed
  unfold HandlerState.onEvent
  rw [if_neg hfailed]
  cases event with
  | created => exact hsends.elim
  | reasoningSummaryTextDelta delta =>
    dsimp only
    rw [HandlerState.sendReasoningSummaryDelta, if_neg hsends]
    exact List.append_ne_nil_of_right_ne_nil _ (List.cons_ne_nil _ _)
  | reasoningSummaryTextDone => exact hsends.elim
  | outputTextDelta delta =>
    dsimp only
    rw [HandlerState.onOutputTextDelta]
    dsimp only
    split
    · exact sendStart_idle h
    · exact List.append_ne_nil_of_right_ne_nil _ (List.cons_ne_nil _ _)
  | outputItem item =>
    cases item with
    | none => exact hsends.elim
    | some item =>
      dsimp only
      rw [HandlerState.onOutputItem, if_neg (not_not_intro hsends.1)]
      exact toolCall_idle (s := s.learn item) h.outputText hsends.2 _ _
  | functionCallArgumentsDelta itemId delta =>
    dsimp only
    rw [HandlerState.onArgumentsDelta, h.canonicalId]
    rw [if_pos rfl, if_neg hsends]
    exact arguments_idle h.outputText hsends _ _ _
  | functionCallArgumentsDone => exact hsends.elim
  | completed =>
    dsimp only
    rw [HandlerState.finish]
    dsimp only
    split
    · exact sendStart_idle h
    · exact List.append_ne_nil_of_right_ne_nil _ (List.cons_ne_nil _ _)
  | failed => exact hsends.elim
  | other => exact hsends.elim

theorem onEvent_idle {s : HandlerState} (h : Idle s) {event : ResponsesEvent} (hsends : ¬ Sends event)
    (hevent : event ≠ .failed) : Idle (s.onEvent event) := by
  have hfailed : ¬ s.failed = true := Bool.eq_false_iff.mp h.failed
  unfold HandlerState.onEvent
  rw [if_neg hfailed]
  cases event with
  | created => exact h
  | reasoningSummaryTextDelta delta =>
    dsimp only
    rw [HandlerState.sendReasoningSummaryDelta, if_pos (not_not.mp hsends)]
    exact h
  | reasoningSummaryTextDone =>
    dsimp only
    split
    · exact ⟨h.chunks, h.sentStart, h.outputText, h.canonicalId, h.failed⟩
    · exact h
  | outputTextDelta delta => exact absurd trivial hsends
  | outputItem item =>
    cases item with
    | none => exact h
    | some item =>
      dsimp only
      rw [HandlerState.onOutputItem]
      split
      · exact h
      · next htype =>
        have hcall : HandlerState.callIdOf item = [] := by
          by_contra hne
          exact hsends ⟨not_not.mp htype, hne⟩
        rw [HandlerState.sendToolCallDelta, if_pos hcall]
        refine ⟨h.chunks, h.sentStart, h.outputText, ?_, h.failed⟩
        intro itemId
        rw [HandlerState.learn]
        dsimp only
        rw [if_neg fun hids ↦ hids.2 hcall]
        exact h.canonicalId itemId
  | functionCallArgumentsDelta itemId delta =>
    dsimp only
    rw [HandlerState.onArgumentsDelta, h.canonicalId]
    rw [if_pos rfl, if_pos (not_not.mp hsends)]
    exact h
  | functionCallArgumentsDone => exact h
  | completed => exact absurd trivial hsends
  | failed => exact absurd rfl hevent
  | other => exact h

theorem foldl_chunks_ne {s : HandlerState} (h : s.chunks ≠ []) (events : List ResponsesEvent) :
    (events.foldl HandlerState.onEvent s).chunks ≠ [] := by
  induction events generalizing s with
  | nil => exact h
  | cons event events ih =>
    apply ih
    intro hnil
    exact h (List.prefix_nil.mp (hnil ▸ chunks_prefix s event))

theorem foldl_sends_iff {s : HandlerState} (h : Idle s) {events : List ResponsesEvent}
    (hnot : .failed ∉ events) :
    (events.foldl HandlerState.onEvent s).chunks ≠ [] ↔ ∃ event ∈ events, Sends event := by
  induction events generalizing s with
  | nil =>
    constructor
    · exact fun hne ↦ absurd h.chunks hne
    · intro ⟨event, hevent, _⟩
      exact absurd hevent List.not_mem_nil
  | cons event events ih =>
    rw [List.exists_mem_cons_iff, List.foldl_cons]
    have hevent : event ≠ .failed := fun heq ↦ hnot (heq ▸ List.mem_cons_self)
    have hrest : .failed ∉ events := fun hmem ↦ hnot (List.mem_cons_of_mem event hmem)
    by_cases hsends : Sends event
    · exact ⟨fun _ ↦ .inl hsends, fun _ ↦ foldl_chunks_ne (onEvent_sends h hsends) events⟩
    · rw [ih (onEvent_idle h hsends hevent) hrest]
      exact ⟨.inr, fun hor ↦ hor.resolve_left hsends⟩

theorem initial_idle : Idle HandlerState.initial := ⟨rfl, rfl, rfl, fun _ ↦ rfl, rfl⟩

theorem onEvent_failed {s : HandlerState} (h : s.failed = true) (event : ResponsesEvent) :
    s.onEvent event = s := by
  unfold HandlerState.onEvent
  exact if_pos h

theorem foldl_failed {s : HandlerState} (h : s.failed = true) (events : List ResponsesEvent) :
    events.foldl HandlerState.onEvent s = s := by
  induction events with
  | nil => rfl
  | cons event events ih => rw [List.foldl_cons, onEvent_failed h, ih]

theorem sendStart_failed (s : HandlerState) : s.sendStartIfNeeded.failed = s.failed := by
  rw [HandlerState.sendStartIfNeeded]
  split
  · rfl
  · rfl

theorem toolCall_failed (s : HandlerState) (callId name argsDelta : Text) :
    (s.sendToolCallDelta callId name argsDelta).failed = s.failed := by
  rw [HandlerState.sendToolCallDelta]
  split
  · rfl
  · split
    · rfl
    · exact sendStart_failed s

theorem onEvent_ok {s : HandlerState} (h : s.failed = false) {event : ResponsesEvent}
    (hevent : event ≠ .failed) :
    (s.onEvent event).failed = false := by
  unfold HandlerState.onEvent
  rw [if_neg (Bool.eq_false_iff.mp h)]
  cases event with
  | created => exact h
  | reasoningSummaryTextDelta delta =>
    dsimp only
    rw [HandlerState.sendReasoningSummaryDelta]
    split
    · exact h
    · exact (sendStart_failed s).trans h
  | reasoningSummaryTextDone =>
    dsimp only
    split
    · exact h
    · exact h
  | outputTextDelta delta =>
    dsimp only
    rw [HandlerState.onOutputTextDelta]
    dsimp only
    split
    · exact (sendStart_failed s).trans h
    · exact (sendStart_failed s).trans h
  | outputItem item =>
    cases item with
    | none => exact h
    | some item =>
      dsimp only
      rw [HandlerState.onOutputItem]
      split
      · exact h
      · exact (toolCall_failed (s.learn item) _ _ _).trans h
  | functionCallArgumentsDelta itemId delta =>
    dsimp only
    rw [HandlerState.onArgumentsDelta]
    split
    · split
      · exact h
      · exact (toolCall_failed _ _ _ _).trans h
    · exact (toolCall_failed _ _ _ _).trans h
  | functionCallArgumentsDone => exact h
  | completed =>
    dsimp only
    rw [HandlerState.finish]
    dsimp only
    split
    · exact (sendStart_failed s).trans h
    · exact (sendStart_failed s).trans h
  | failed => exact absurd rfl hevent
  | other => exact h

theorem foldl_ok {s : HandlerState} (h : s.failed = false) {events : List ResponsesEvent}
    (hnot : .failed ∉ events) : (events.foldl HandlerState.onEvent s).failed = false := by
  induction events generalizing s with
  | nil => exact h
  | cons event events ih =>
    apply ih
    · apply onEvent_ok h
      exact fun heq ↦ hnot (heq ▸ List.mem_cons_self)
    · exact fun hmem ↦ hnot (List.mem_cons_of_mem event hmem)

/-- What was sent before the first error event. -/
theorem read_failed {before : List ResponsesEvent} (hnot : .failed ∉ before) (after : List ResponsesEvent) :
    (HandlerState.read (before ++ .failed :: after)).failed = true ∧
      (HandlerState.read (before ++ .failed :: after)).chunks = (HandlerState.read before).chunks := by
  have hok : (before.foldl HandlerState.onEvent HandlerState.initial).failed = false := foldl_ok rfl hnot
  have hread : HandlerState.read (before ++ .failed :: after) =
      { HandlerState.read before with failed := true } := by
    rw [HandlerState.read, List.foldl_append, List.foldl_cons, HandlerState.onEvent,
      if_neg (by rw [hok]; decide),
      foldl_failed rfl]
    rfl
  rw [hread]
  exact ⟨rfl, rfl⟩

theorem responses_iff {codec : Codec A} {upstreamModelName : Text} {before after : List ResponsesEvent}
    {errorCode : String} {message : Text} {failure : Failure} (hnot : .failed ∉ before) :
    (doResponse codec upstreamModelName (.responses (before ++ .failed ::
      after) errorCode message)).sent ≠ [] ∧
        (doResponse codec upstreamModelName
          (.responses (before ++ .failed :: after) errorCode message)).failure = some failure ↔
      (∃ event ∈ before, Sends event) ∧ failure = internalServerError errorCode message := by
  obtain ⟨hfailed, hchunks⟩ := read_failed hnot after
  rw [← foldl_sends_iff initial_idle hnot, doResponse, oaiResponsesToChatStream]
  dsimp only
  rw [if_pos hfailed, if_pos hfailed, hchunks]
  constructor
  · intro ⟨hsent, hfailure⟩
    exact ⟨fun hnil ↦ hsent (congrArg (List.map Chunk.responses) hnil), (Option.some.inj hfailure).symm⟩
  · intro ⟨hsent, hfailure⟩
    exact ⟨fun hnil ↦ hsent (List.map_eq_nil_iff.mp hnil), congrArg some hfailure.symm⟩

theorem ollama_iff {upstreamModelName body : Text} {failure : Failure} :
    (doResponse codec upstreamModelName (.ollama body)).failure = some failure ↔
      ∃ message, Undecodable codec (scan (body.splitOn '\n')) message ∧
        failure = internalServerError "bad_response_body" message := by
  rw [doResponse, ollamaStreamHandler]
  dsimp only
  rw [Option.map_eq_some_iff]
  simp only [streamLoop_err_iff]
  constructor
  · intro ⟨message, hlines, hfailure⟩
    exact ⟨message, hlines, hfailure.symm⟩
  · intro ⟨message, hlines, hfailure⟩
    exact ⟨message, hlines, hfailure.symm⟩

theorem spoils_iff {upstreamModelName : Text} {upstream : Upstream} {failure : Failure} :
    Spoils codec upstream failure ↔ (doResponse codec upstreamModelName upstream).sent ≠ [] ∧
      (doResponse codec upstreamModelName upstream).failure = some failure := by
  cases upstream with
  | ollama body =>
    rw [ollama_iff]
    constructor
    · intro h
      cases h with
      | ollama hlines hbefore hline herror =>
        exact ⟨List.cons_ne_nil _ _, _, ⟨_, _, _, hlines, hbefore, hline, herror⟩, rfl⟩
    · intro ⟨_, message, ⟨before, line, after, hlines, hbefore, hline, herror⟩, hfailure⟩
      rw [hfailure]
      exact .ollama hlines hbefore hline herror
  | responses events errorCode message =>
    constructor
    · intro h
      cases h with
      | responses hbefore hnot => exact (responses_iff hnot).mpr ⟨hbefore, rfl⟩
    · intro h
      by_cases hmem : .failed ∈ events
      · obtain ⟨before, after, rfl, hnot⟩ := List.eq_append_cons_of_mem hmem
        obtain ⟨hbefore, hfailure⟩ := (responses_iff hnot).mp h
        rw [hfailure]
        exact .responses hbefore hnot
      · have hok : (HandlerState.read events).failed = false := foldl_ok rfl hmem
        have hfailure := h.2
        rw [doResponse] at hfailure
        dsimp only at hfailure
        rw [if_neg (Bool.eq_false_iff.mp hok)] at hfailure
        cases hfailure
  | other sent failure' =>
    constructor
    · intro h
      cases h with
      | other hsent => exact ⟨fun hnil ↦ hsent (List.map_eq_nil_iff.mp hnil), rfl⟩
    · intro ⟨hsent, hfailure⟩
      rw [doResponse] at hfailure
      obtain rfl : failure' = some failure := hfailure
      exact .other fun hnil ↦ hsent (congrArg (List.map Chunk.other) hnil)

end Handlers

section Runs

variable {A : Type} {request : Request A}

/-- An attempt that has written something is the last one. -/
def Quiet (request : Request A) (turn : Turn) : Prop :=
  ∀ tried later, request.step turn = some (tried, some later) → tried.handled.sent ≠ [] →
    request.step later = none

theorem answersOnce_cons {tried : Try} {tries : List Try} :
    AnswersOnce (tried :: tries) ↔ (tries ≠ [] → tried.handled.sent = []) ∧ AnswersOnce tries := by
  cases tries with
  | nil =>
    constructor
    · exact fun _ ↦ ⟨fun hne ↦ absurd rfl hne, fun t ht ↦ absurd ht List.not_mem_nil⟩
    · exact fun _ t ht ↦ absurd ht List.not_mem_nil
  | cons second tries =>
    rw [AnswersOnce, List.dropLast_cons_cons, List.forall_mem_cons]
    constructor
    · exact fun h ↦ ⟨fun _ ↦ h.1, h.2⟩
    · exact fun h ↦ ⟨h.1 (List.cons_ne_nil _ _), h.2⟩

/-- The client has the answer of the last attempt. -/
theorem received_of_answersOnce {tries : List Try} (h : AnswersOnce tries) :
    received tries = (tries.getLast?.map fun tried ↦ tried.handled.sent).getD [] := by
  induction tries with
  | nil => rfl
  | cons tried tries ih =>
    obtain ⟨hfirst, hrest⟩ := answersOnce_cons.mp h
    cases tries with
    | nil => exact List.append_nil _
    | cons second tries =>
      rw [received, List.flatMap_cons, hfirst (List.cons_ne_nil _ _), List.nil_append]
      exact ih hrest

theorem retryLoop_ne_nil {fuel : ℕ} {turn : Turn} (h : request.retryLoop fuel turn ≠ []) :
    request.step turn ≠ none := by
  intro hnone
  cases fuel with
  | zero => exact h rfl
  | succ fuel =>
    rw [Request.retryLoop, hnone] at h
    exact h rfl

theorem answersOnce_of_quiet {fuel : ℕ} {turn : Turn} (h : ∀ t ∈ request.turns fuel turn, Quiet request t) :
    AnswersOnce (request.retryLoop fuel turn) := by
  induction fuel generalizing turn with
  | zero => exact fun t ht ↦ absurd ht List.not_mem_nil
  | succ fuel ih =>
    rw [Request.turns, List.forall_mem_cons] at h
    rw [Request.retryLoop]
    cases hstep : request.step turn with
    | none => exact fun t ht ↦ absurd ht List.not_mem_nil
    | some next =>
      obtain ⟨tried, later⟩ := next
      rw [hstep] at h
      cases later with
      | none => exact fun t ht ↦ absurd ht List.not_mem_nil
      | some later =>
        apply answersOnce_cons.mpr
        refine ⟨?_, ih h.2⟩
        intro hne
        by_contra hsent
        exact retryLoop_ne_nil hne (h.1 tried later hstep hsent)

theorem quiet_of_answersOnce {turn : Turn} (h : ∀ fuel, AnswersOnce (request.retryLoop fuel turn))
    (fuel : ℕ) :
    ∀ t ∈ request.turns fuel turn, Quiet request t := by
  induction fuel generalizing turn with
  | zero => exact fun t ht ↦ absurd ht List.not_mem_nil
  | succ fuel ih =>
    rw [Request.turns, List.forall_mem_cons]
    constructor
    · intro tried later hstep hsent
      by_contra hne
      obtain ⟨next, hnext⟩ := Option.ne_none_iff_exists'.mp hne
      have htwo := h 2
      rw [Request.retryLoop, hstep] at htwo
      refine hsent ((answersOnce_cons.mp htwo).1 ?_)
      rw [Request.retryLoop, hnext]
      obtain ⟨second, last⟩ := next
      cases last with
      | none => exact List.cons_ne_nil _ _
      | some last => exact List.cons_ne_nil _ _
    · cases hstep : request.step turn with
      | none => exact fun t ht ↦ absurd ht List.not_mem_nil
      | some next =>
        obtain ⟨tried, later⟩ := next
        cases later with
        | none => exact fun t ht ↦ absurd ht List.not_mem_nil
        | some later =>
          apply ih
          intro fuel'
          have hlater := h (fuel' + 1)
          rw [Request.retryLoop, hstep] at hlater
          exact (answersOnce_cons.mp hlater).2

theorem step_eq_none {turn : Turn} : request.step turn = none ↔ request.next turn = none := by
  rw [Request.step, Option.map_eq_none_iff]

theorem quiet_iff {turn : Turn} : Quiet request turn ↔ Withheld request turn := by
  constructor
  · intro h attempt turn' failure hnext hspoils hretries
    have hhandled : (doResponse request.codec request.upstreamModelName (request.upstream turn'.n)).sent ≠ [] ∧
        (doResponse request.codec request.upstreamModelName (request.upstream turn'.n)).failure =
          some failure :=
      spoils_iff.mp hspoils
    have hstep : request.step turn = some (⟨attempt, doResponse request.codec request.upstreamModelName
        (request.upstream turn'.n)⟩, some turn'.increaseRetry) := by
      rw [Request.step, hnext, Option.map_some]
      dsimp only
      rw [hhandled.2]
      dsimp only
      rw [if_pos hretries]
    exact step_eq_none.mp (h _ _ hstep hhandled.1)
  · intro h tried later hstep hsent
    rw [Request.step] at hstep
    obtain ⟨⟨attempt, turn'⟩, hnext, heq⟩ := Option.map_eq_some_iff.mp hstep
    dsimp only at heq
    cases hfailure : (doResponse request.codec request.upstreamModelName (request.upstream turn'.n)).failure with
    | none =>
      rw [hfailure] at heq
      cases heq
    | some failure =>
      rw [hfailure] at heq
      dsimp only at heq
      obtain ⟨rfl, hlater⟩ := Prod.mk.inj heq
      by_cases hretries : request.retries turn' attempt failure = true
      · rw [if_pos hretries] at hlater
        obtain rfl := Option.some.inj hlater
        exact step_eq_none.mpr (h attempt turn' failure hnext (spoils_iff.mpr ⟨hsent, hfailure⟩) hretries)
      · rw [if_neg hretries] at hlater
        cases hlater

/-- The client never receives chunks of two attempts exactly when no attempt that fails after writing is
retried. -/
theorem answers_once_iff (request : Request A) (turn : Turn) :
    (∀ fuel, AnswersOnce (request.retryLoop fuel turn)) ↔
      ∀ fuel, ∀ t ∈ request.turns fuel turn, Withheld request t := by
  simp only [← quiet_iff]
  constructor
  · exact quiet_of_answersOnce
  · exact fun h fuel ↦ answersOnce_of_quiet (h fuel)

end Runs

end AllAiTools.NewApi.Controller.OneAnswer
