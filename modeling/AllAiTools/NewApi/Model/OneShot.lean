import AllAiTools.Foundation.ReadCommitted
import AllAiTools.NewApi.Model.Subscription

namespace AllAiTools.NewApi.Model.OneShot

open Foundation Foundation.Run Foundation.ReadCommitted Common.Str Subscription

inductive RedemptionCodeStatus
  | enabled | disabled | used
  deriving DecidableEq, Repr

inductive TopUpStatus
  | pending | success | failed | expired
  deriving DecidableEq, Repr

structure Redemption where
  key : String
  status : RedemptionCodeStatus := .enabled
  quota : ℤ
  redeemedTime : ℤ := 0
  usedUserId : ℤ := 0
  expiredTime : ℤ := 0
  deriving DecidableEq

structure TopUp where
  tradeNo : String
  userId : ℤ
  amount : ℤ
  money : ℚ
  paymentMethod : String
  paymentProvider : String := ""
  createTime : ℤ := 0
  completeTime : ℤ := 0
  status : TopUpStatus := .pending
  deriving DecidableEq

structure SubscriptionOrder where
  tradeNo : String
  userId : ℤ
  planId : ℤ
  money : ℚ
  paymentMethod : String
  paymentProvider : String := ""
  status : TopUpStatus := .pending
  createTime : ℤ := 0
  completeTime : ℤ := 0
  providerPayload : String := ""
  deriving DecidableEq

structure User where
  id : ℤ
  quota : ℤ := 0
  email : String := ""
  group : String := "default"
  stripeCustomer : String := ""
  deriving DecidableEq

structure Ledger where
  redemptions : Table Redemption.key
  topUps : Table TopUp.tradeNo
  orders : Table SubscriptionOrder.tradeNo
  users : Table User.id
  plans : Table SubscriptionPlan.id
  subs : List UserSubscription

/-- What a credit is granted for. -/
inductive Origin
  | redemption (key : String)
  | topUp (tradeNo : String)
  | order (tradeNo : String)
  deriving DecidableEq

/-- The statements that write. `addQuota` and `createSub` grant the credit; the other
columns that `addQuota` updates are given as options. -/
inductive Write
  | saveRedemption (r : Redemption)
  | createTopUp (t : TopUp)
  | saveTopUp (t : TopUp)
  | saveOrder (o : SubscriptionOrder)
  | addQuota (origin : Origin) (userId quota : ℤ) (email stripeCustomer : Option String)
  | setGroup (userId : ℤ) (group : String)
  | createSub (origin : Origin) (sub : UserSubscription)

inductive Row
  | origin (o : Origin)
  | user (id : ℤ)
  deriving DecidableEq

def updateUser (s : Ledger) (id : ℤ) (f : User → User) : Ledger :=
  match s.users.find id with
  | none => s
  | some u => { s with users := s.users.save (f u) }

/-- The primary key of the next subscription row. -/
def nextSubId (subs : List UserSubscription) : ℤ := (subs.map (·.id)).foldr max 0 + 1

def apply : Write → Ledger → Ledger
  | .saveRedemption r, s => { s with redemptions := s.redemptions.save r }
  | .createTopUp t, s => { s with topUps := (s.topUps.insert t).getD s.topUps }
  | .saveTopUp t, s => { s with topUps := s.topUps.save t }
  | .saveOrder o, s => { s with orders := s.orders.save o }
  | .addQuota _ id quota email stripeCustomer, s => updateUser s id fun u ↦
      { u with
        quota := u.quota + quota
        email := email.getD u.email
        stripeCustomer := stripeCustomer.getD u.stripeCustomer }
  | .setGroup id group, s => updateUser s id fun u ↦ { u with group }
  | .createSub _ sub, s => { s with subs := { sub with id := nextSubId s.subs } :: s.subs }

def lock : Write → Option Row
  | .saveRedemption r => some (.origin (.redemption r.key))
  | .createTopUp t => some (.origin (.topUp t.tradeNo))
  | .saveTopUp t => some (.origin (.topUp t.tradeNo))
  | .saveOrder o => some (.origin (.order o.tradeNo))
  | .addQuota _ id _ _ _ => some (.user id)
  | .setGroup id _ => some (.user id)
  | .createSub _ _ => none

/-- The unique index on the trade number. -/
def refuses : Write → Ledger → Bool
  | .createTopUp t, s => (s.topUps.find t.tradeNo).isSome
  | _, _ => false

def rules : Rules Ledger Write Row := ⟨apply, lock, refuses⟩

abbrev Prog := Program Ledger Write String

/-- The clock, the settings and the calendar of the server. `storedQuota` is what the
integer quota column keeps of a fractional amount. -/
structure Env where
  now : ℤ
  quotaPerUnit : ℚ
  storedQuota : ℚ → ℤ
  addYears : ℤ → ℤ → ℤ
  addMonths : ℤ → ℤ → ℤ
  cal : Calendar

def fail (e : String) : Prog := .done (.error e)

/-- Every failing statement is reported by `report`. -/
def finish (report : String → String) : Prog :=
  .commit (.done (.ok ())) (fail (report "database error"))

def redeem (env : Env) (key : String) (userId : ℤ) : Prog :=
  let failed : Prog := fail "redeem.failed"
  if key = "" then fail "未提供兑换码"
  else if userId = 0 then fail "无效的 user id"
  else .query (fun s ↦ match s.redemptions.find key with
    | none => failed
    | some r =>
      if r.status ≠ .enabled then failed
      else if r.expiredTime ≠ 0 ∧ r.expiredTime < env.now then failed
      else .write (.addQuota (.redemption key) userId r.quota none none)
        (.write (.saveRedemption
            { r with redeemedTime := env.now, status := .used, usedUserId := userId })
          (finish fun _ ↦ "redeem.failed") failed) failed) failed

/-- What distinguishes the functions that complete a top-up order. -/
structure TopUpRule where
  missing : String := "未提供支付单号"
  provider : Option String
  idempotent : Bool
  statusError : String := "充值订单状态错误"
  quota : TopUp → ℤ
  positive : Bool
  customerEmail : String := ""
  stripeCustomer : Option String := none
  report : String → String := fun _ ↦ "充值失败，请稍后重试"

/-- The credit itself; a customer's address is stored for a user without one. -/
def creditTopUp (rule : TopUpRule) (topUp : TopUp) : Prog :=
  let failed : Prog := fail (rule.report "database error")
  let add (email : Option String) : Prog :=
    .write (.addQuota (.topUp topUp.tradeNo) topUp.userId (rule.quota topUp) email
      rule.stripeCustomer) (finish rule.report) failed
  if rule.customerEmail = "" then add none
  else .query (fun s ↦ match s.users.find topUp.userId with
    | none => fail (rule.report "record not found")
    | some user => add (if user.email = "" then some rule.customerEmail else none)) failed

def completeTopUp (env : Env) (rule : TopUpRule) (tradeNo : String) : Prog :=
  let failed : Prog := fail (rule.report "database error")
  if tradeNo = "" then fail rule.missing
  else .query (fun s ↦ match s.topUps.find tradeNo with
    | none => fail (rule.report "充值订单不存在")
    | some topUp =>
      if rule.provider.any (· ≠ topUp.paymentProvider) then
        fail (rule.report "payment method mismatch")
      else if rule.idempotent ∧ topUp.status = .success then finish rule.report
      else if topUp.status ≠ .pending then fail (rule.report rule.statusError)
      else if rule.positive ∧ rule.quota topUp ≤ 0 then fail (rule.report "无效的充值额度")
      else .write (.saveTopUp { topUp with completeTime := env.now, status := .success })
        (creditTopUp rule topUp) failed) failed

/-- `decimal.IntPart`: towards zero. -/
def intPart (q : ℚ) : ℤ := if 0 ≤ q then ⌊q⌋ else ⌈q⌉

def unitQuota (env : Env) (topUp : TopUp) : ℤ := intPart (topUp.amount * env.quotaPerUnit)

def recharge (env : Env) (referenceId customerId : String) : Prog :=
  completeTopUp env
    { provider := some "stripe"
      idempotent := false
      quota := fun t ↦ env.storedQuota (t.money * env.quotaPerUnit)
      positive := false
      stripeCustomer := some customerId } referenceId

def rechargeCreem (env : Env) (referenceId customerEmail : String) : Prog :=
  completeTopUp env
    { provider := some "creem"
      idempotent := false
      quota := fun t ↦ t.amount
      positive := false
      customerEmail := customerEmail } referenceId

def rechargeWaffo (env : Env) (tradeNo : String) : Prog :=
  completeTopUp env
    { provider := some "waffo", idempotent := true, quota := unitQuota env, positive := true } tradeNo

def rechargeWaffoPancake (env : Env) (tradeNo : String) : Prog :=
  completeTopUp env
    { provider := some "waffo_pancake", idempotent := true, quota := unitQuota env, positive := true }
    tradeNo

def manualCompleteTopUp (env : Env) (tradeNo : String) : Prog :=
  completeTopUp env
    { missing := "未提供订单号"
      provider := none
      idempotent := true
      statusError := "订单状态不是待支付，无法补单"
      quota := fun t ↦
        if t.paymentProvider = "stripe" then intPart (t.money * env.quotaPerUnit)
        else unitQuota env t
      positive := true
      report := id } tradeNo

def calcPlanEndTime (env : Env) (plan : SubscriptionPlan) : Except String ℤ :=
  if plan.durationValue ≤ 0 ∧ plan.durationUnit ≠ "custom" then .error "duration_value must be > 0"
  else match plan.durationUnit with
    | "year" => .ok (env.addYears env.now plan.durationValue)
    | "month" => .ok (env.addMonths env.now plan.durationValue)
    | "day" => .ok (env.now + plan.durationValue * 86400)
    | "hour" => .ok (env.now + plan.durationValue * 3600)
    | "custom" =>
      if plan.customSeconds ≤ 0 then .error "custom_seconds must be > 0"
      else .ok (env.now + plan.customSeconds)
    | unit => .error ("invalid duration_unit: " ++ unit)

def getUserGroupById (s : Ledger) (userId : ℤ) : String :=
  ((s.users.find userId).map (·.group)).getD ""

/-- The snapshot of the plan is created, the user's group upgraded before. -/
def createUserSubscription (env : Env) (origin : Origin) (userId : ℤ) (plan : SubscriptionPlan)
    (source : String) (endTime : ℤ) (next : Prog) : Prog :=
  let nextReset := calcNextResetTime env.cal plan env.now endTime
  let upgradeGroup := trimSpace plan.upgradeGroup
  let create (prevGroup : String) : Prog :=
    .write (.createSub origin
      { id := 0
        userId := userId
        planId := plan.id
        amountTotal := plan.totalAmount
        amountUsed := 0
        startTime := env.now
        endTime := endTime
        source := source
        lastResetTime := if 0 < nextReset then env.now else 0
        nextResetTime := nextReset
        upgradeGroup := upgradeGroup
        prevUserGroup := prevGroup }) next (fail "database error")
  if upgradeGroup = "" then create ""
  else .query (fun s ↦
      if getUserGroupById s userId = upgradeGroup then create ""
      else .write (.setGroup userId upgradeGroup) (create (getUserGroupById s userId))
        (fail "database error")) (fail "database error")

def createForPlan (env : Env) (origin : Origin) (userId : ℤ) (plan : SubscriptionPlan)
    (source : String) (next : Prog) : Prog :=
  match calcPlanEndTime env plan with
  | .error e => fail e
  | .ok endTime => createUserSubscription env origin userId plan source endTime next

def createUserSubscriptionFromPlanTx (env : Env) (origin : Origin) (userId : ℤ)
    (plan : SubscriptionPlan) (source : String) (next : Prog) : Prog :=
  let create := createForPlan env origin userId plan source next
  if plan.id = 0 then fail "invalid plan"
  else if userId ≤ 0 then fail "invalid user id"
  else if 0 < plan.maxPurchasePerUser then
    .query (fun s ↦
      if plan.maxPurchasePerUser ≤
          (s.subs.filter fun sub ↦ sub.userId = userId ∧ sub.planId = plan.id).length then
        fail "已达到该套餐购买上限"
      else create) (fail "database error")
  else create

def upsertSubscriptionTopUpTx (env : Env) (order : SubscriptionOrder) (next : Prog) : Prog :=
  .query (fun s ↦ match s.topUps.find order.tradeNo with
    | none => .write (.createTopUp
        { tradeNo := order.tradeNo
          userId := order.userId
          amount := 0
          money := order.money
          paymentMethod := order.paymentMethod
          createTime := order.createTime
          completeTime := env.now
          status := .success }) next (fail "database error")
    | some topUp =>
      if topUp.paymentMethod ≠ "" ∧ topUp.paymentMethod ≠ order.paymentMethod then
        fail "payment method mismatch"
      else .write (.saveTopUp
        { topUp with
          money := order.money
          paymentMethod := order.paymentMethod
          createTime := if topUp.createTime = 0 then order.createTime else topUp.createTime
          completeTime := env.now
          status := .success }) next (fail "database error")) (fail "database error")

def completeSubscriptionOrder (env : Env)
    (tradeNo providerPayload expectedPaymentProvider actualPaymentMethod : String) : Prog :=
  let saved (order : SubscriptionOrder) : SubscriptionOrder :=
    { order with
      status := .success
      completeTime := env.now
      providerPayload := if providerPayload = "" then order.providerPayload else providerPayload
      paymentMethod := if actualPaymentMethod = "" then order.paymentMethod else actualPaymentMethod }
  if tradeNo = "" then fail "tradeNo is empty"
  else .query (fun s ↦ match s.orders.find tradeNo with
    | none => fail "subscription order not found"
    | some order =>
      if expectedPaymentProvider ≠ "" ∧ order.paymentProvider ≠ expectedPaymentProvider then
        fail "payment method mismatch"
      else if order.status = .success then finish id
      else if order.status ≠ .pending then fail "subscription order status invalid"
      else .query (fun s ↦
          if order.planId ≤ 0 then fail "invalid plan id"
          else match s.plans.find order.planId with
          | none => fail "record not found"
          | some plan =>
            createUserSubscriptionFromPlanTx env (.order tradeNo) order.userId plan "order"
              (upsertSubscriptionTopUpTx env order
                (.write (.saveOrder (saved order)) (finish id) (fail "database error"))))
        (fail "database error")) (fail "subscription order not found")

inductive Call
  | redeem (env : Env) (key : String) (userId : ℤ)
  | recharge (env : Env) (referenceId customerId : String)
  | rechargeCreem (env : Env) (referenceId customerEmail : String)
  | rechargeWaffo (env : Env) (tradeNo : String)
  | rechargeWaffoPancake (env : Env) (tradeNo : String)
  | manualCompleteTopUp (env : Env) (tradeNo : String)
  | completeSubscriptionOrder (env : Env) (tradeNo payload provider method : String)

def Call.program : Call → Prog
  | .redeem env key userId => OneShot.redeem env key userId
  | .recharge env referenceId customerId => OneShot.recharge env referenceId customerId
  | .rechargeCreem env referenceId email => OneShot.rechargeCreem env referenceId email
  | .rechargeWaffo env tradeNo => OneShot.rechargeWaffo env tradeNo
  | .rechargeWaffoPancake env tradeNo => OneShot.rechargeWaffoPancake env tradeNo
  | .manualCompleteTopUp env tradeNo => OneShot.manualCompleteTopUp env tradeNo
  | .completeSubscriptionOrder env tradeNo payload provider method =>
    OneShot.completeSubscriptionOrder env tradeNo payload provider method

def interleave (s : Ledger) (calls : List Call) (trace : List Move) : System Ledger Write String :=
  run rules.step (.start s (calls.map Call.program)) trace

end AllAiTools.NewApi.Model.OneShot
