import AllAiTools.NewApi.Model.SubscriptionPreConsume
import AllAiTools.NewApi.Model.SubscriptionRefund

namespace AllAiTools.NewApi.Service.Funding

open Foundation Foundation.Result Common.Str Model.Subscription Model.SubscriptionPreConsume
open Model.SubscriptionRefund

/-- What the billing of one request can touch: the wallet of its user, its token and
the subscriptions. -/
structure World where
  userQuota : ℤ
  remainQuota : ℤ
  usedQuota : ℤ
  db : Store

inductive Cause
  | quotaNegative
  | database
  | tokenQuotaNotEnough (remain need : ℤ)
  | subscription (e : Error)
  deriving DecidableEq

/-- `formatQuota` is the logger's rendering of an amount, which the settings decide. -/
def Cause.text (formatQuota : ℤ → String) : Cause → String
  | .quotaNegative => "quota 不能为负数！"
  | .database => "database error"
  | .tokenQuotaNotEnough remain need =>
    "token quota is not enough, token remain quota: " ++ formatQuota remain ++ ", need quota: " ++
      formatQuota need
  | .subscription e => e.text

/-- What one call of the session meets: the updates that fail and what the caches
and the clock answer. -/
structure CallFaults where
  wallet : Bool
  walletRollback : Bool
  tokenRead : Option ℤ
  token : Bool
  tokenRollback : Bool
  now : ℤ
  planInfo : Option (ℤ × String)
  preConsume : Faults
  delta : Faults
  deltaRollback : Faults
  refund : ℕ → RefundFaults

/-- The quota updates: refused for a negative amount, else one statement. -/
def updateQuota (failed : Bool) (quota : ℤ) (w w' : World) : Except Cause Unit × World :=
  if quota < 0 then (.error .quotaNegative, w)
  else if failed then (.error .database, w)
  else (.ok (), w')

def increaseUserQuota (failed : Bool) (quota : ℤ) (w : World) : Except Cause Unit × World :=
  updateQuota failed quota w { w with userQuota := w.userQuota + quota }

def decreaseUserQuota (failed : Bool) (quota : ℤ) (w : World) : Except Cause Unit × World :=
  updateQuota failed quota w { w with userQuota := w.userQuota - quota }

def World.drawToken (w : World) (quota : ℤ) : World :=
  { w with remainQuota := w.remainQuota - quota, usedQuota := w.usedQuota + quota }

def increaseTokenQuota (failed : Bool) (quota : ℤ) (w : World) : Except Cause Unit × World :=
  updateQuota failed quota w
    { w with remainQuota := w.remainQuota + quota, usedQuota := w.usedQuota - quota }

def decreaseTokenQuota (failed : Bool) (quota : ℤ) (w : World) : Except Cause Unit × World :=
  updateQuota failed quota w (w.drawToken quota)

def postConsumeDelta (fault : Faults) (w : World) (id delta : ℤ) : Except Cause Unit × World :=
  match postConsumeUserSubscriptionDelta fault w.db id delta with
  | (.error e, db) => (.error (.subscription e), { w with db })
  | (.ok (), db) => (.ok (), { w with db })

structure SubscriptionFunding where
  requestId : String
  userId : ℤ
  amount : ℤ
  subscriptionId : ℤ := 0
  preConsumed : ℤ := 0
  amountTotal : ℤ := 0
  amountUsedAfter : ℤ := 0
  planId : ℤ := 0
  planTitle : String := ""
  deriving DecidableEq

inductive FundingSource
  | wallet (consumed : ℤ)
  | subscription (sub : SubscriptionFunding)
  deriving DecidableEq

/-- The funding after a pre-consume of its subscription. -/
def SubscriptionFunding.consumed (sub : SubscriptionFunding) (res : SubscriptionPreConsumeResult)
    (planInfo : Option (ℤ × String)) : SubscriptionFunding :=
  { sub with
    subscriptionId := res.userSubscriptionId
    preConsumed := res.preConsumed
    amountTotal := res.amountTotal
    amountUsedAfter := res.amountUsedAfter
    planId := (planInfo.map (·.1)).getD sub.planId
    planTitle := (planInfo.map (·.2)).getD sub.planTitle }

/-- The subscription ignores the amount it is asked for and takes its own. -/
def FundingSource.preConsume (cal : Calendar) (f : CallFaults) (amount : ℤ) (w : World) :
    FundingSource → Except Cause Unit × FundingSource × World
  | .wallet consumed =>
    if amount ≤ 0 then (.ok (), .wallet consumed, w)
    else match decreaseUserQuota f.wallet amount w with
      | (.error e, w) => (.error e, .wallet consumed, w)
      | (.ok (), w) => (.ok (), .wallet amount, w)
  | .subscription sub =>
    match preConsumeUserSubscription cal f.preConsume sub.requestId sub.userId sub.amount f.now
        w.db with
    | (.error e, db) => (.error (.subscription e), .subscription sub, { w with db })
    | (.ok res, db) => (.ok (), .subscription (sub.consumed res f.planInfo), { w with db })

def FundingSource.settle (f : CallFaults) (delta : ℤ) (w : World) :
    FundingSource → Except Cause Unit × World
  | .wallet _ =>
    if delta = 0 then (.ok (), w)
    else if 0 < delta then decreaseUserQuota f.wallet delta w
    else increaseUserQuota f.wallet (-delta) w
  | .subscription sub =>
    if delta = 0 then (.ok (), w) else postConsumeDelta f.delta w sub.subscriptionId delta

def FundingSource.refund (f : CallFaults) (w : World) :
    FundingSource → Except Cause Unit × World
  | .wallet consumed =>
    if consumed ≤ 0 then (.ok (), w) else increaseUserQuota f.wallet consumed w
  | .subscription sub =>
    if sub.preConsumed ≤ 0 then (.ok (), w)
    else match refundWithRetry f.refund sub.requestId w.db with
      | (.error e, db) => (.error (.subscription e), { w with db })
      | (.ok (), db) => (.ok (), { w with db })

theorem updateQuota_cases (failed : Bool) (quota : ℤ) (w w' : World) :
    (∃ e, updateQuota failed quota w w' = (.error e, w)) ∨
      updateQuota failed quota w w' = (.ok (), w') := by
  unfold updateQuota
  split_ifs
  · exact .inl ⟨_, rfl⟩
  · exact .inl ⟨_, rfl⟩
  · exact .inr rfl

theorem updateQuota_ok {quota : ℤ} (h : 0 ≤ quota) (w w' : World) :
    updateQuota false quota w w' = (.ok (), w') := by
  have hn : ¬ quota < 0 := by omega
  rw [updateQuota, if_neg hn]
  rfl

end AllAiTools.NewApi.Service.Funding
