import AllAiTools.NewApi.Controller.OneAnswer
import AllAiTools.NewApi.Controller.RelayBilling
import AllAiTools.NewApi.Service.NewSession
import AllAiTools.NewApi.Service.Quota

namespace AllAiTools.NewApi.Controller.RelayCharges

open Foundation.Rounding Model.Subscription Service.Funding Service.Session Service.Quota Service.NewSession
open RelayRetry (Attempt RetryRules shouldRetry)
open OneAnswer (Failure hasCSAMViolationMarker normalizeViolationFeeError)
open RelayBilling (Relaying Pricing)
open Service.TextQuota (Call ConsumeLog)
open Service.SessionConserves (drawn)

section ViolationFee

structure GrokSettings where
  violationDeductionEnabled : Bool := true
  violationDeductionAmount : ℚ := 0.05

def shouldChargeViolationFee (failure : Failure) : Bool :=
  failure.error.errorCode = "violation_fee.grok.csam" ∨ hasCSAMViolationMarker failure.message

def calcViolationFeeQuota (quotaPerUnit amount groupRatio : ℚ) : ℤ :=
  if amount ≤ 0 then 0
  else if groupRatio ≤ 0 then 0
  else
    let quota := roundHalfAway (amount * quotaPerUnit * groupRatio)
    if quota ≤ 0 then 0 else quota

/-- What a failure costs: nothing where no fee is charged for it. -/
def violationFee (settings : GrokSettings) (quotaPerUnit groupRatio : ℚ) (failure : Failure) : ℤ :=
  if !shouldChargeViolationFee failure then 0
  else if !settings.violationDeductionEnabled then 0
  else calcViolationFeeQuota quotaPerUnit settings.violationDeductionAmount groupRatio

def normalize (failure : Failure) : Failure :=
  { failure with error := normalizeViolationFeeError failure }

end ViolationFee

section System

/-- How an attempt comes out: the body of the request cannot be read again, the helper returns an error,
or it settles an answer at a quota that the price decides. -/
inductive Outcome
  | unread (failure : Failure)
  | failed (failure : Failure)
  | served (quota : Relaying → ℤ)

/-- How a request ends. An answer is settled or its settlement is refused; a failure has cost a fee, which
has been recorded or not; without an attempt there is neither. -/
inductive Ending
  | unanswered
  | served (quota : ℤ) (settled : Bool)
  | failed (failure : Failure) (fee : ℤ) (recorded : Bool)

inductive MainAt
  | attempting (n : ℕ) (inContext : Option Attempt) (relaying : Relaying) (newAPIError : Option Failure)
  | refunding (failure : Failure) (relaying : Relaying)
  | charging (failure : Failure) (relaying : Relaying)
  | chargingToken (failure : Failure) (fee : ℤ)
  | recording (failure : Failure) (fee : ℤ)
  | ended (ending : Ending)

/-- The goroutine of a refund works on what its closure has copied. -/
inductive RefundAt
  | idle
  | funding (session : BillingSession)
  | token (session : BillingSession)
  | done

/-- What other requests have taken in the meantime: of the funding, and of the token. -/
structure Ledger where
  drawn : ℤ := 0
  remain : ℤ := 0
  used : ℤ := 0

/-- A request with its billing session, unless its model is free. -/
structure State where
  session : Option BillingSession
  relayInfo : RelayInfo
  world : World
  main : MainAt
  refund : RefundAt := .idle
  calls : List Call := []
  others : Ledger := {}

namespace State

/-- The relay info, which a session shares. -/
def info (s : State) : RelayInfo := (s.session.map BillingSession.relayInfo).getD s.relayInfo

def funding (s : State) : FundingSource := (s.session.map BillingSession.funding).getD (.wallet 0)

def withInfo (s : State) (info : RelayInfo) : State :=
  match s.session with
  | some session => { s with session := some { session with relayInfo := info } }
  | none => { s with relayInfo := info }

end State

/-- What the relay goes by: the settings, the channels and their prices. -/
structure Config where
  settings : Relay.HelperPrice.Settings
  select : Service.ChannelSelect.Settings
  cache : Model.CachedChannels.ChannelCache
  rules : RetryRules
  upstream : RelayRetry.World
  pricing : Pricing
  grok : GrokSettings
  logConsumeEnabled : Bool
  /-- The log of a fee, but for its quota. -/
  feeLog : ConsumeLog

/-- The steps of a request and of its refund's goroutine, and whatever other requests do. -/
inductive Event
  | attempt (outcome : Outcome) (faults : CallFaults)
  | refund
  | charge (faults : ConsumeFaults)
  | chargeToken (faults : ConsumeFaults)
  | record
  | refundFunding (faults : CallFaults)
  | refundToken (faults : CallFaults)
  | others (world : World)

variable (config : Config)

/-- Without a session the answer is charged as it is, less what has been pre-consumed. -/
def settleBilling (faults : CallFaults) (quota : ℤ) (s : State) : Bool × State :=
  match s.session with
  | some session =>
    let (answer, session, world) := session.settle faults quota s.world
    (answer.isOk, { s with session := some session, world })
  | none =>
    let delta := quota - s.relayInfo.finalPreConsumedQuota
    if delta = 0 then (true, s)
    else
      let (answer, relayInfo, world) :=
        postConsumeQuota ⟨faults.wallet, faults.delta, faults.token⟩ s.relayInfo delta s.world
      (answer.isOk, { s with relayInfo, world })

/-- The error of a turn without a channel; the code that setting up a channel may give it instead is no
code of a violation either. -/
def channelFailure (message : String) : Failure where
  error := { errorCode := "get_channel_failed", skipRetry := true, statusCode := 500 }
  message := message.toList

/-- The error of an attempt is retried or ends the loop. -/
def afterFailure (n : ℕ) (relaying : Relaying) (failure : Failure) : MainAt :=
  if shouldRetry config.rules failure.error (config.select.retryTimes - relaying.param.getRetry) then
    .attempting (n + 1) none { relaying with param := relaying.param.increaseRetry } (some failure)
  else .refunding failure relaying

/-- A turn of the retry loop, or its end. -/
def attempt (outcome : Outcome) (faults : CallFaults) (n : ℕ) (inContext : Option Attempt)
    (relaying : Relaying) (newAPIError : Option Failure) (s : State) : State :=
  if (relaying.param.getRetry : ℤ) ≤ config.select.retryTimes then
    match RelayBilling.getChannel config.settings config.select config.cache config.upstream
      config.pricing n inContext relaying with
    | (.error e, relaying) => { s with main := .refunding (channelFailure e) relaying }
    | (.ok _, relaying) =>
      match outcome with
      | .unread failure => { s with main := .refunding failure relaying }
      | .failed failure => { s with main := afterFailure config n relaying (normalize failure) }
      | .served quota =>
        let (settled, s) := settleBilling faults (quota relaying) s
        { s with main := .ended (.served (quota relaying) settled) }
  else
    match newAPIError with
    | none => { s with main := .ended .unanswered }
    | some failure => { s with main := .refunding failure relaying }

/-- The refund is asked for, and given by a goroutine of its own. -/
def refund (failure : Failure) (relaying : Relaying) (s : State) : State :=
  let s := { s with main := .charging (normalize failure) relaying }
  match s.session with
  | none => s
  | some session =>
    if session.settled || session.refunded || !session.needsRefund then s
    else { s with session := some { session with refunded := true }, refund := .funding session }

def Config.fee (failure : Failure) (relaying : Relaying) : ℤ :=
  violationFee config.grok config.settings.quotaPerUnit
    relaying.priced.info.priceData.groupRatioInfo.groupRatio failure

def charge (faults : ConsumeFaults) (failure : Failure) (relaying : Relaying) (s : State) : State :=
  let fee := config.fee failure relaying
  if fee ≤ 0 then { s with main := .ended (.failed failure 0 false) }
  else match consumeFunding faults s.info fee s.world with
    | (.error _, world) => { s with world, main := .ended (.failed failure 0 false) }
    | (.ok info, world) => { s.withInfo info with world, main := .chargingToken failure fee }

def chargeToken (faults : ConsumeFaults) (failure : Failure) (fee : ℤ) (s : State) : State :=
  if s.info.isPlayground then { s with main := .recording failure fee }
  else match takeTokenQuota faults.token fee s.world with
    | (.error _, world) => { s with world, main := .ended (.failed failure fee false) }
    | (.ok (), world) => { s with world, main := .recording failure fee }

def feeCalls (fee : ℤ) : List Call :=
  let log := { config.feeLog with quota := fee }
  [.updateUserUsedQuotaAndRequestCount log.userId fee, .updateChannelUsedQuota log.channelId fee] ++
    if config.logConsumeEnabled then [.createLog log] else []

def record (failure : Failure) (fee : ℤ) (s : State) : State :=
  { s with
    calls := s.calls ++ feeCalls config fee
    main := .ended (.failed failure fee true) }

/-- The first step of the goroutine. What `Reserve` would have added goes back with it. -/
def refundFunding (faults : CallFaults) (session : BillingSession) (s : State) : State :=
  { s with
    world := session.refundExtra faults (session.funding.refund faults s.world).2
    refund := .token session }

def refundToken (faults : CallFaults) (session : BillingSession) (s : State) : State :=
  { s with world := session.refundToken faults s.world, refund := .done }

def interfere (world : World) (s : State) : State :=
  { s with
    world
    others := {
      drawn := s.others.drawn + (drawn world s.funding - drawn s.world s.funding)
      remain := s.others.remain + (s.world.remainQuota - world.remainQuota)
      used := s.others.used + (world.usedQuota - s.world.usedQuota) } }

/-- A step that is not due changes nothing. -/
def step (s : State) : Event → State
  | .attempt outcome faults =>
    match s.main with
    | .attempting n inContext relaying newAPIError =>
      attempt config outcome faults n inContext relaying newAPIError s
    | _ => s
  | .refund =>
    match s.main with
    | .refunding failure relaying => refund failure relaying s
    | _ => s
  | .charge faults =>
    match s.main with
    | .charging failure relaying => charge config faults failure relaying s
    | _ => s
  | .chargeToken faults =>
    match s.main with
    | .chargingToken failure fee => chargeToken faults failure fee s
    | _ => s
  | .record =>
    match s.main with
    | .recording failure fee => record config failure fee s
    | _ => s
  | .refundFunding faults =>
    match s.refund with
    | .funding session => refundFunding faults session s
    | _ => s
  | .refundToken faults =>
    match s.refund with
    | .token session => refundToken faults session s
    | _ => s
  | .others world => interfere world s

/-- A request whose model is free has no session; any other has the one that its pre-consume opened. -/
def start (session : Option BillingSession) (relayInfo : RelayInfo) (world : World)
    (inContext : Option Attempt) (relaying : Relaying) : State :=
  { session, relayInfo, world, main := .attempting 1 inContext relaying none }

end System

end AllAiTools.NewApi.Controller.RelayCharges
