import AllAiTools.NewApi.Service.RealtimeQuota

namespace AllAiTools.NewApi.Relay.RealtimeSession

open Service.Funding Service.Session Service.Quota Service.RealtimeQuota
open Service.RealtimeQuota.RealtimeUsage (total)

section Messages

inductive EventType
  | sessionUpdate
  | inputAudioBufferAppend
  | responseDone
  | sessionUpdated
  | sessionCreated
  | responseAudioDelta
  | responseAudioTranscriptionDelta
  | responseFunctionCallArgumentsDelta
  | conversationItemCreated
  | other (name : String)
  deriving DecidableEq

structure RealtimeContent where
  type : String
  text : String

structure RealtimeItem where
  type : String
  content : List RealtimeContent

/-- The tools of a session are given as they print. -/
structure RealtimeSettings where
  instructions : String := ""
  inputAudioFormat : String := ""
  outputAudioFormat : String := ""
  tools : Option (List String) := none

structure RealtimeResponse where
  usage : Option RealtimeUsage

structure RealtimeEvent where
  type : EventType
  session : Option RealtimeSettings := none
  item : Option RealtimeItem := none
  response : Option RealtimeResponse := none
  delta : String := ""
  audio : String := ""

/-- The tokenizer, by text and model, and the durations of audio, by data and format. -/
structure TokenCounter where
  countTextToken : String → String → ℤ
  countAudioTokenInput : String → String → Option ℤ
  countAudioTokenOutput : String → String → Option ℤ

/-- What the relay info keeps of the conversation. -/
structure Conversation where
  realtimeTools : List String := []
  inputAudioFormat : String := "pcm16"
  outputAudioFormat : String := "pcm16"
  isFirstRequest : Bool := true

variable (counter : TokenCounter)

/-- The text and the audio tokens of a message. -/
def countTokenRealtime (info : Conversation) (request : RealtimeEvent) (model : String) :
    Option (ℤ × ℤ) :=
  match request.type with
  | .sessionUpdate =>
    some ((request.session.map fun session ↦ counter.countTextToken session.instructions model).getD 0, 0)
  | .responseAudioDelta =>
    (counter.countAudioTokenOutput request.delta info.outputAudioFormat).map fun atk ↦ (0, atk)
  | .responseAudioTranscriptionDelta => some (counter.countTextToken request.delta model, 0)
  | .responseFunctionCallArgumentsDelta => some (counter.countTextToken request.delta model, 0)
  | .inputAudioBufferAppend =>
    (counter.countAudioTokenInput request.audio info.inputAudioFormat).map fun atk ↦ (0, atk)
  | .conversationItemCreated =>
    match request.item with
    | none => some (0, 0)
    | some item =>
      let texts := item.content.filter fun content ↦ content.type = "input_text"
      if item.type = "message" then
        some ((texts.map fun content ↦ counter.countTextToken content.text model).sum, 0)
      else some (0, 0)
  | .responseDone =>
    if info.isFirstRequest then some (0, 0)
    else some ((info.realtimeTools.map fun tool ↦ 8 + counter.countTextToken tool model).sum, 0)
  | _ => some (0, 0)

def updateTools (info : Conversation) (event : RealtimeEvent) : Conversation :=
  match event.type, event.session with
  | .sessionUpdate, some session =>
    { info with realtimeTools := session.tools.getD info.realtimeTools }
  | _, _ => info

def getStringIfEmpty (s defaultValue : String) : String := if s = "" then defaultValue else s

def updateFormats (info : Conversation) (event : RealtimeEvent) : Conversation :=
  match event.session with
  | none => info
  | some session => { info with
      inputAudioFormat := getStringIfEmpty session.inputAudioFormat info.inputAudioFormat
      outputAudioFormat := getStringIfEmpty session.outputAudioFormat info.outputAudioFormat }

end Messages

section System

inductive ReaderAt
  | reading
  /-- The usage of a turn has been charged and is not yet cleared; `own` if the upstream reported it. -/
  | clearing (own : Bool)
  | stopped
  deriving DecidableEq

inductive MainAt
  | waiting
  | consumingUsage
  | consumingLocal
  | posting
  | ended
  deriving DecidableEq

/-- A try to charge for a usage: its quota, and whether the funding and the token then paid it. -/
structure Attempt where
  usage : RealtimeUsage
  quota : ℤ
  funded : Bool
  paid : Bool

/-- The settlement of the session, after a number of attempts. -/
structure Posted where
  usage : RealtimeUsage
  quota : ℤ
  turns : ℕ
  answer : Except Cause Unit
  calls : List Service.TextQuota.Call

/-- A session with its two readers, the goroutine that waits for them, and its billing. -/
structure State where
  info : RealtimeInfo
  conversation : Conversation := {}
  session : BillingSession
  world : World
  usage : RealtimeUsage := {}
  localUsage : RealtimeUsage := {}
  sumUsage : RealtimeUsage := {}
  client : ReaderAt := .reading
  target : ReaderAt := .reading
  main : MainAt := .waiting
  attempts : List Attempt := []
  posted : Option Posted := none

/-- The reads of a charge work and leave enough for its quota. -/
def affordable (charge : Charge) (quota : ℤ) : Bool :=
  match charge.userQuota, charge.token with
  | some userQuota, some (unlimitedQuota, remainQuota) =>
    !decide (userQuota < quota) && (unlimitedQuota || !decide (remainQuota < quota))
  | _, _ => false

def attempt (charge : Charge) (usage : RealtimeUsage) (s : State) : Attempt :=
  let quota := preWssQuota charge s.info usage
  let asks := !s.info.usePrice && affordable charge quota
  { usage
    quota
    funded := asks && (consumeFunding charge.faults s.session.relayInfo quota s.world).1.isOk
    paid := asks && (postConsumeQuota charge.faults s.session.relayInfo quota s.world).1.isOk }

def preConsumeUsage (charge : Charge) (usage : RealtimeUsage) (s : State) :
    Except PreWssError Unit × State :=
  let (answer, info, relayInfo, world) :=
    preWssConsumeQuota charge s.info s.session.relayInfo usage s.world
  (answer, { s with
    sumUsage := s.sumUsage.add usage
    info
    session := { s.session with relayInfo }
    world
    attempts := s.attempts ++ [attempt charge usage s] })

/-- The steps of a session: messages that are read, decoded or not, and handed on, connections that
end, and the steps of the goroutine that settles. -/
inductive Event
  | fromClient (message : Option RealtimeEvent) (written : Bool)
  | clientFails
  | fromTarget (message : Option RealtimeEvent) (charge : Charge) (written : Bool)
  | clear (written : Bool)
  | targetFails
  | wake
  | consumeUsage (charge : Charge)
  | consumeLocal (charge : Charge)
  | post (ratios : RatioSettings) (faults : CallFaults) (now : ℤ)

variable (counter : TokenCounter) (settings : Service.TextQuota.Settings) (ctx : Service.TextQuota.Context)

def handOn (written : Bool) : ReaderAt := if written then .reading else .stopped

def readClient (message : Option RealtimeEvent) (written : Bool) (s : State) : State :=
  match message with
  | none => { s with client := .stopped }
  | some event =>
    let conversation := updateTools s.conversation event
    match countTokenRealtime counter conversation event s.info.upstreamModelName with
    | none => { s with conversation, client := .stopped }
    | some (textToken, audioToken) => { s with
        conversation
        localUsage := s.localUsage.countInput textToken audioToken
        client := handOn written }

/-- The charge of a turn that is done: a response without a body brings the reader down, as does a
charge that fails. -/
def responseDone (event : RealtimeEvent) (charge : Charge) (s : State) : State :=
  match event.response with
  | none => { s with target := .stopped }
  | some ⟨some realtimeUsage⟩ =>
    let s := { s with usage := s.usage.add realtimeUsage }
    match preConsumeUsage charge s.usage s with
    | (.error _, s) => { s with target := .stopped }
    | (.ok (), s) => { s with target := .clearing true }
  | some ⟨none⟩ =>
    match countTokenRealtime counter s.conversation event s.info.upstreamModelName with
    | none => { s with target := .stopped }
    | some (textToken, audioToken) =>
      let s := { s with
        conversation := { s.conversation with isFirstRequest := false }
        localUsage := s.localUsage.countInput textToken audioToken }
      match preConsumeUsage charge s.localUsage s with
      | (.error _, s) => { s with target := .stopped }
      | (.ok (), s) => { s with target := .clearing false }

def readTarget (message : Option RealtimeEvent) (charge : Charge) (written : Bool) (s : State) : State :=
  match message with
  | none => { s with target := .stopped }
  | some event =>
    if event.type = .responseDone then responseDone counter event charge s
    else if event.type = .sessionUpdated ∨ event.type = .sessionCreated then
      { s with conversation := updateFormats s.conversation event, target := handOn written }
    else match countTokenRealtime counter s.conversation event s.info.upstreamModelName with
      | none => { s with target := .stopped }
      | some (textToken, audioToken) => { s with
          localUsage := s.localUsage.countOutput textToken audioToken
          target := handOn written }

def clearUsage (own written : Bool) (s : State) : State :=
  { s with
    usage := if own then {} else s.usage
    localUsage := {}
    target := handOn written }

/-- What is left of a usage when the session ends is charged, and whether that works is not asked. -/
def consumeRest (charge : Charge) (usage : RealtimeUsage) (s : State) : State :=
  if usage.totalTokens ≠ 0 then (preConsumeUsage charge usage s).2 else s

def post (ratios : RatioSettings) (faults : CallFaults) (now : ℤ) (s : State) : State :=
  let finalPreConsumedQuota := s.session.relayInfo.finalPreConsumedQuota
  let quota := postWssQuota settings ratios s.info finalPreConsumedQuota s.sumUsage
  let (answer, session, world) := s.session.settle faults quota s.world
  { s with
    session
    world
    main := .ended
    posted := some {
      usage := s.sumUsage
      quota
      turns := s.attempts.length
      answer
      calls := postWssConsumeQuota settings ratios ctx now s.info finalPreConsumedQuota s.sumUsage } }

/-- A step that is not due changes nothing. -/
def step (s : State) : Event → State
  | .fromClient message written =>
    if s.client = .reading then readClient counter message written s else s
  | .clientFails => { s with client := .stopped }
  | .fromTarget message charge written =>
    if s.target = .reading then readTarget counter message charge written s else s
  | .clear written =>
    match s.target with
    | .clearing own => clearUsage own written s
    | _ => s
  | .targetFails => if s.target = .reading then { s with target := .stopped } else s
  | .wake => if s.main = .waiting then { s with main := .consumingUsage } else s
  | .consumeUsage charge =>
    if s.main = .consumingUsage then { consumeRest charge s.usage s with main := .consumingLocal } else s
  | .consumeLocal charge =>
    if s.main = .consumingLocal then { consumeRest charge s.localUsage s with main := .posting } else s
  | .post ratios faults now =>
    if s.main = .posting then post settings ctx ratios faults now s else s

end System

end AllAiTools.NewApi.Relay.RealtimeSession
