import AllAiTools.NewApi.Service.Funding

namespace AllAiTools.NewApi.Service.Session

open Foundation Foundation.Run Common.Str Model.Subscription Model.SubscriptionPreConsume
open Model.SubscriptionRefund Funding

inductive BillingSource
  | wallet | subscription
  deriving DecidableEq, Repr

structure RelayInfo where
  userId : ℤ
  requestId : String
  billingPreference : String
  isPlayground : Bool
  tokenUnlimited : Bool
  forcePreConsume : Bool
  userQuota : ℤ
  finalPreConsumedQuota : ℤ := 0
  billingSource : Option BillingSource := none
  subscriptionId : ℤ := 0
  subscriptionPreConsumed : ℤ := 0
  subscriptionPostDelta : ℤ := 0
  subscriptionAmountTotal : ℤ := 0
  subscriptionAmountUsedAfterPreConsume : ℤ := 0
  subscriptionPlanId : ℤ := 0
  subscriptionPlanTitle : String := ""
  deriving DecidableEq

structure BillingSession where
  relayInfo : RelayInfo
  funding : FundingSource
  preConsumedQuota : ℤ := 0
  tokenConsumed : ℤ := 0
  extraReserved : ℤ := 0
  trusted : Bool := false
  fundingSettled : Bool := false
  settled : Bool := false
  refunded : Bool := false
  deriving DecidableEq

/-- What the server's settings and the request's context answer. -/
structure Env where
  cal : Calendar
  trustQuota : ℤ
  tokenQuota : ℤ
  formatQuota : ℤ → String

inductive ErrorCode
  | queryDataError
  | updateDataError
  | insufficientUserQuota
  | preConsumeTokenQuotaFailed
  deriving DecidableEq, Repr

structure ApiError where
  code : ErrorCode
  message : String
  deriving DecidableEq

def source : FundingSource → BillingSource
  | .wallet _ => .wallet
  | .subscription _ => .subscription

def preConsumeTokenQuota (f : CallFaults) (info : RelayInfo) (quota : ℤ) (w : World) :
    Except Cause Unit × World :=
  if quota < 0 then (.error .quotaNegative, w)
  else if info.isPlayground then (.ok (), w)
  else match f.tokenRead with
    | none => (.error .database, w)
    | some remain =>
      if !info.tokenUnlimited ∧ remain < quota then (.error (.tokenQuotaNotEnough remain quota), w)
      else decreaseTokenQuota f.token quota w

/-- A session before its pre-consume; a subscription is built with the amount that is
then pre-consumed. -/
def newSession (info : RelayInfo) (amount : ℤ) : BillingSource → BillingSession
  | .wallet => { relayInfo := info, funding := .wallet 0 }
  | .subscription =>
    let sub : SubscriptionFunding :=
      { requestId := info.requestId, userId := info.userId, amount := amount }
    { relayInfo := info, funding := .subscription sub }

namespace BillingSession

def shouldTrust (env : Env) (s : BillingSession) : Bool :=
  if s.relayInfo.forcePreConsume then false
  else if env.trustQuota ≤ 0 then false
  else if !s.relayInfo.tokenUnlimited ∧ env.tokenQuota ≤ env.trustQuota then false
  else match s.funding with
    | .wallet _ => env.trustQuota < s.relayInfo.userQuota
    | .subscription _ => false

def syncRelayInfo (s : BillingSession) : BillingSession :=
  match s.funding with
  | .wallet _ =>
    { s with relayInfo := { s.relayInfo with
        finalPreConsumedQuota := s.preConsumedQuota
        billingSource := some .wallet
        subscriptionId := 0
        subscriptionPreConsumed := 0 } }
  | .subscription sub =>
    { s with relayInfo := { s.relayInfo with
        finalPreConsumedQuota := s.preConsumedQuota
        billingSource := some .subscription
        subscriptionId := sub.subscriptionId
        subscriptionPreConsumed := sub.preConsumed + s.extraReserved
        subscriptionPostDelta := 0
        subscriptionAmountTotal := sub.amountTotal
        subscriptionAmountUsedAfterPreConsume := sub.amountUsedAfter + s.extraReserved
        subscriptionPlanId := sub.planId
        subscriptionPlanTitle := sub.planTitle } }

/-- The token's quota given back after the funding has refused; a failing rollback
is only logged. -/
def rollbackToken (f : CallFaults) (s : BillingSession) (w : World) : BillingSession × World :=
  if 0 < s.tokenConsumed ∧ !s.relayInfo.isPlayground then
    ({ s with tokenConsumed := 0 }, (increaseTokenQuota f.tokenRollback s.tokenConsumed w).2)
  else (s, w)

def fundingError (env : Env) (e : Cause) : ApiError :=
  let errMsg := e.text env.formatQuota
  if contains errMsg "no active subscription" || contains errMsg "subscription quota insufficient"
  then ⟨.insufficientUserQuota, "订阅额度不足或未配置订阅: " ++ errMsg⟩
  else ⟨.updateDataError, errMsg⟩

/-- Token first, then funding, for an amount already decided on. -/
def consume (env : Env) (f : CallFaults) (quota : ℤ) (s : BillingSession) (w : World) :
    Except ApiError Unit × BillingSession × World :=
  match if 0 < quota then preConsumeTokenQuota f s.relayInfo quota w else (.ok (), w) with
  | (.error e, w) => (.error ⟨.preConsumeTokenQuotaFailed, e.text env.formatQuota⟩, s, w)
  | (.ok (), w) =>
    let s := if 0 < quota then { s with tokenConsumed := quota } else s
    match s.funding.preConsume env.cal f quota w with
    | (.error e, funding, w) => (.error (fundingError env e), rollbackToken f { s with funding } w)
    | (.ok (), funding, w) => (.ok (), { s with funding, preConsumedQuota := quota }.syncRelayInfo, w)

def preConsume (env : Env) (f : CallFaults) (quota : ℤ) (s : BillingSession) (w : World) :
    Except ApiError Unit × BillingSession × World :=
  if s.shouldTrust env then consume env f 0 { s with trusted := true } w
  else consume env f quota s w

def reserveFunding (f : CallFaults) (delta : ℤ) (w : World) :
    FundingSource → Except Cause Unit × FundingSource × World
  | .wallet consumed =>
    match decreaseUserQuota f.wallet delta w with
    | (.error e, w) => (.error e, .wallet consumed, w)
    | (.ok (), w) => (.ok (), .wallet (consumed + delta), w)
  | .subscription sub =>
    match postConsumeDelta f.delta w sub.subscriptionId delta with
    | (.error e, w) => (.error e, .subscription sub, w)
    | (.ok (), w) => (.ok (), .subscription sub, w)

def rollbackFundingReserve (f : CallFaults) (delta : ℤ) (w : World) :
    FundingSource → FundingSource × World
  | .wallet consumed =>
    match increaseUserQuota f.walletRollback delta w with
    | (.error _, w) => (.wallet consumed, w)
    | (.ok (), w) => (.wallet (consumed - delta), w)
  | .subscription sub =>
    (.subscription sub, (postConsumeDelta f.deltaRollback w sub.subscriptionId (-delta)).2)

def reserveToken (f : CallFaults) (info : RelayInfo) (delta : ℤ) (w : World) :
    Except Cause Unit × World :=
  if delta ≤ 0 ∨ info.isPlayground then (.ok (), w) else preConsumeTokenQuota f info delta w

def reserveError (env : Env) (s : BillingSession) (e : Cause) : ApiError :=
  match s.funding with
  | .wallet _ => ⟨.updateDataError, e.text env.formatQuota⟩
  | .subscription _ => ⟨.insufficientUserQuota, "订阅额度不足或未配置订阅: " ++ e.text env.formatQuota⟩

def reserve (env : Env) (f : CallFaults) (target : ℤ) (s : BillingSession) (w : World) :
    Except ApiError Unit × BillingSession × World :=
  if s.settled ∨ s.refunded ∨ s.trusted ∨ target ≤ s.preConsumedQuota then (.ok (), s, w)
  else
    let delta := target - s.preConsumedQuota
    match reserveFunding f delta w s.funding with
    | (.error e, funding, w) => (.error (reserveError env s e), { s with funding }, w)
    | (.ok (), funding, w) =>
      match reserveToken f s.relayInfo delta w with
      | (.error e, w) =>
        let (funding, w) := rollbackFundingReserve f delta w funding
        (.error ⟨.preConsumeTokenQuotaFailed, e.text env.formatQuota⟩, { s with funding }, w)
      | (.ok (), w) =>
        (.ok (), { s with
          funding
          preConsumedQuota := s.preConsumedQuota + delta
          tokenConsumed := s.tokenConsumed + delta
          extraReserved := s.extraReserved + delta }.syncRelayInfo, w)

/-- The session once its funding has been settled. -/
def committed (s : BillingSession) (delta : ℤ) : BillingSession :=
  { s with
    fundingSettled := true
    settled := true
    relayInfo := { s.relayInfo with
      subscriptionPostDelta := match s.funding with
        | .wallet _ => s.relayInfo.subscriptionPostDelta
        | .subscription _ => s.relayInfo.subscriptionPostDelta + delta } }

def settleToken (f : CallFaults) (info : RelayInfo) (delta : ℤ) (w : World) :
    Except Cause Unit × World :=
  if info.isPlayground then (.ok (), w)
  else if 0 < delta then decreaseTokenQuota f.token delta w
  else increaseTokenQuota f.token (-delta) w

def settle (f : CallFaults) (actual : ℤ) (s : BillingSession) (w : World) :
    Except Cause Unit × BillingSession × World :=
  if s.settled then (.ok (), s, w)
  else
    let delta := actual - s.preConsumedQuota
    if delta = 0 then (.ok (), { s with settled := true }, w)
    else match if s.fundingSettled then (.ok (), w) else s.funding.settle f delta w with
      | (.error e, w) => (.error e, s, w)
      | (.ok (), w) =>
        let (tokenErr, w) := settleToken f s.relayInfo delta w
        (tokenErr, s.committed delta, w)

def needsRefund (s : BillingSession) : Bool :=
  if s.settled || s.refunded || s.fundingSettled then false
  else if 0 < s.tokenConsumed then true
  else match s.funding with
    | .wallet _ => false
    | .subscription sub => 0 < sub.preConsumed

/-- The extra reservation of a subscription is given back outside its record. -/
def refundExtra (f : CallFaults) (s : BillingSession) (w : World) : World :=
  match s.funding with
  | .wallet _ => w
  | .subscription _ =>
    if 0 < s.extraReserved ∧ 0 < s.relayInfo.subscriptionId then
      (postConsumeDelta f.delta w s.relayInfo.subscriptionId (-s.extraReserved)).2
    else w

def refundToken (f : CallFaults) (s : BillingSession) (w : World) : World :=
  if 0 < s.tokenConsumed ∧ !s.relayInfo.isPlayground then
    (increaseTokenQuota f.token s.tokenConsumed w).2
  else w

/-- Each step of the refund that fails is only logged. -/
def refund (f : CallFaults) (s : BillingSession) (w : World) : BillingSession × World :=
  if s.settled || s.refunded || !s.needsRefund then (s, w)
  else ({ s with refunded := true }, refundToken f s (refundExtra f s (s.funding.refund f w).2))

end BillingSession

end AllAiTools.NewApi.Service.Session
