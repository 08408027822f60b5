import AllAiTools.Foundation.Table

namespace AllAiTools.NewApi.Model.UserQuota

open Foundation

structure User where
  id : ℤ
  quota : ℤ
  affQuota : ℤ := 0
  email : String := ""
  stripeCustomer : String := ""

structure Redemption where
  id : ℤ
  key : String
  status : ℤ := 1
  quota : ℤ := 100
  redeemedTime : ℤ := 0
  usedUserId : ℤ := 0
  expiredTime : ℤ := 0

structure TopUp where
  id : ℤ
  userId : ℤ
  amount : ℤ
  money : ℚ
  tradeNo : String
  paymentProvider : String
  completeTime : ℤ := 0
  status : String

def redemptionCodeStatusEnabled : ℤ := 1
def redemptionCodeStatusUsed : ℤ := 3

def topUpStatusPending : String := "pending"
def topUpStatusSuccess : String := "success"

def paymentProviderStripe : String := "stripe"
def paymentProviderCreem : String := "creem"
def paymentProviderWaffo : String := "waffo"
def paymentProviderWaffoPancake : String := "waffo_pancake"

structure Store where
  users : Table User.id
  redemptions : Table Redemption.id
  topUps : Table TopUp.id

/-- The quota as a query reads it, zero for a user without a row. -/
def quotaOf (db : Store) (id : ℤ) : ℤ := ((db.users.find id).map (·.quota)).getD 0

/-- `UPDATE users SET quota = quota + ?` and other columns. -/
def addQuota (users : Table User.id) (id quota : ℤ) (others : User → User) : Table User.id :=
  match users.find id with
  | none => users
  | some user => users.save { others user with id := user.id, quota := user.quota + quota }

section Redeem

def checkRedemption (now : ℤ) (key : String) (userId : ℤ) (db : Store) : Except String Redemption :=
  if key = "" then .error "未提供兑换码"
  else if userId = 0 then .error "无效的 user id"
  else match db.redemptions.rows.find? (·.key = key) with
    | none => .error "redeem.failed"
    | some redemption =>
      if redemption.status ≠ redemptionCodeStatusEnabled then .error "redeem.failed"
      else if redemption.expiredTime ≠ 0 ∧ redemption.expiredTime < now then .error "redeem.failed"
      else .ok redemption

/-- `fails` is the error of the database in a transaction that is rolled back. -/
def redeem (now : ℤ) (fails : Option String) (key : String) (userId : ℤ) (db : Store) :
    Except String ℤ × Store :=
  match checkRedemption now key userId db with
  | .error e => (.error e, db)
  | .ok redemption =>
    if fails.isSome then (.error "redeem.failed", db)
    else (.ok redemption.quota, { db with
      users := addQuota db.users userId redemption.quota id
      redemptions := db.redemptions.save { redemption with
        redeemedTime := now, status := redemptionCodeStatusUsed, usedUserId := userId } })

end Redeem

section TopUps

/-- What one way to complete a top-up has of its own: the provider it is for, whether it takes
a completed one as done, its quota and whether that must be positive, whether the user must be
there, the other columns it writes, and its text for a wrong status. -/
structure Completion where
  provider : Option String
  idempotent : Bool
  quotaToAdd : TopUp → ℤ
  positive : Bool
  needsUser : Bool
  others : User → User
  statusError : String

/-- The top-up to complete, or none where there is nothing left to do. -/
def checkTopUp (c : Completion) (tradeNo : String) (db : Store) : Except String (Option TopUp) :=
  match db.topUps.rows.find? (·.tradeNo = tradeNo) with
  | none => .error "充值订单不存在"
  | some topUp =>
    if c.provider.any (· ≠ topUp.paymentProvider) then .error "payment method mismatch"
    else if c.idempotent ∧ topUp.status = topUpStatusSuccess then .ok none
    else if topUp.status ≠ topUpStatusPending then .error c.statusError
    else if c.positive ∧ c.quotaToAdd topUp ≤ 0 then .error "无效的充值额度"
    else if c.needsUser ∧ (db.users.find topUp.userId).isNone then .error "record not found"
    else .ok (some topUp)

def complete (c : Completion) (now : ℤ) (fails : Option String) (tradeNo : String) (db : Store) :
    Except String Unit × Store :=
  match checkTopUp c tradeNo db with
  | .error e => (.error e, db)
  | .ok none => (.ok (), db)
  | .ok (some topUp) =>
    match fails with
    | some e => (.error e, db)
    | none => (.ok (), { db with
        users := addQuota db.users topUp.userId (c.quotaToAdd topUp) c.others
        topUps := db.topUps.save { topUp with completeTime := now, status := topUpStatusSuccess } })

/-- The quota of a unit of money, and what the column gains for a Stripe payment. -/
structure QuotaSettings where
  quotaPerUnit : ℚ
  stripeQuota : ℚ → ℤ

/-- `decimal.IntPart`. -/
def intPart (x : ℚ) : ℤ := if 0 ≤ x then ⌊x⌋ else ⌈x⌉

variable (settings : QuotaSettings)

def stripeCompletion (customerId : String) : Completion where
  provider := some paymentProviderStripe
  idempotent := false
  quotaToAdd topUp := settings.stripeQuota topUp.money
  positive := false
  needsUser := false
  others user := { user with stripeCustomer := customerId }
  statusError := "充值订单状态错误"

def manualCompletion : Completion where
  provider := none
  idempotent := true
  quotaToAdd topUp :=
    if topUp.paymentProvider = paymentProviderStripe then
      intPart (topUp.money * settings.quotaPerUnit)
    else intPart (topUp.amount * settings.quotaPerUnit)
  positive := true
  needsUser := false
  others := id
  statusError := "订单状态不是待支付，无法补单"

/-- The customer's email is taken over by a user without one. -/
def creemCompletion (customerEmail : String) : Completion where
  provider := some paymentProviderCreem
  idempotent := false
  quotaToAdd topUp := topUp.amount
  positive := false
  needsUser := customerEmail ≠ ""
  others user := if customerEmail ≠ "" ∧ user.email = "" then { user with email := customerEmail }
    else user
  statusError := "充值订单状态错误"

def waffoCompletion (provider : String) : Completion where
  provider := some provider
  idempotent := true
  quotaToAdd topUp := intPart (topUp.amount * settings.quotaPerUnit)
  positive := true
  needsUser := false
  others := id
  statusError := "充值订单状态错误"

variable (now : ℤ) (fails : Option String)

/-- The reasons for which a recharge fails stay in the log. -/
def rechargeWith (c : Completion) (tradeNo : String) (db : Store) : Except String Unit × Store :=
  if tradeNo = "" then (.error "未提供支付单号", db)
  else match complete c now fails tradeNo db with
    | (.error _, db) => (.error "充值失败，请稍后重试", db)
    | answer => answer

def recharge (referenceId customerId : String) (db : Store) : Except String Unit × Store :=
  rechargeWith now fails (stripeCompletion settings customerId) referenceId db

def rechargeCreem (referenceId customerEmail : String) (db : Store) : Except String Unit × Store :=
  rechargeWith now fails (creemCompletion customerEmail) referenceId db

def rechargeWaffo (tradeNo : String) (db : Store) : Except String Unit × Store :=
  rechargeWith now fails (waffoCompletion settings paymentProviderWaffo) tradeNo db

def rechargeWaffoPancake (tradeNo : String) (db : Store) : Except String Unit × Store :=
  rechargeWith now fails (waffoCompletion settings paymentProviderWaffoPancake) tradeNo db

def manualCompleteTopUp (tradeNo : String) (db : Store) : Except String Unit × Store :=
  if tradeNo = "" then (.error "未提供订单号", db)
  else complete (manualCompletion settings) now fails tradeNo db

end TopUps

section Transfer

variable (settings : QuotaSettings) (logQuota : ℤ → String)

def checkTransfer (userId quota : ℤ) (db : Store) : Except String User :=
  if (quota : ℚ) < settings.quotaPerUnit then
    .error ("转移额度最小为" ++ logQuota (intPart settings.quotaPerUnit) ++ "！")
  else match db.users.find userId with
    | none => .error "record not found"
    | some user => if user.affQuota < quota then .error "邀请额度不足！" else .ok user

/-- The row is read and saved in one transaction. -/
def transferAffQuotaToQuota (fails : Option String) (userId quota : ℤ) (db : Store) :
    Except String Unit × Store :=
  match checkTransfer settings logQuota userId quota db with
  | .error e => (.error e, db)
  | .ok user =>
    match fails with
    | some e => (.error e, db)
    | none => (.ok (), { db with users := db.users.save { user with
        affQuota := user.affQuota - quota, quota := user.quota + quota } })

end Transfer

end AllAiTools.NewApi.Model.UserQuota
