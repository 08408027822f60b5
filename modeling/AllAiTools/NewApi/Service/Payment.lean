import AllAiTools.NewApi.Model.UserQuota

namespace AllAiTools.NewApi.Service.Payment

open Foundation Model.UserQuota

structure PaymentGateway where
  id : ℤ
  name : String
  type : String
  enabled : Bool
  config : String

structure PaymentTransaction where
  id : ℤ
  userId : ℤ
  gatewayId : ℤ
  gatewayType : String
  transactionNo : String := ""
  orderNo : String
  amount : ℚ
  currency : String
  quotaAmount : ℤ := 0
  description : String
  status : String := "pending"
  rawNotification : String := ""
  completedAt : ℤ := 0

/-- What a gateway makes of a webhook. -/
structure Notification where
  tradeNo : String
  orderNo : String
  amount : ℚ
  currency : String
  status : String

/-- A payment provider; a new order is drawn from a seed and has its number, the address to pay
at and the code to scan. -/
structure PaymentGatewayProvider where
  getType : String
  createOrder : (seed : String) → (userId : ℤ) → (amount : ℚ) → (currency description : String) →
    Except String (String × String × String)
  handleWebhook : (rawBody : String) → Except String Notification

/-- The providers by their type and configuration. -/
abbrev Registry := String → Option (String → Except String PaymentGatewayProvider)

/-- A notification on its way, with the transaction as it is to be written. -/
structure Delivery where
  gatewayId : ℤ
  amount : ℚ
  currency : String
  transaction : PaymentTransaction

inductive Job where
  | update (delivery : Delivery)
  | credit (delivery : Delivery)

/-- What was added to a user's quota for a transaction. -/
structure Credit where
  transactionId : ℤ
  userId : ℤ
  quota : ℤ

structure State where
  gateways : Table PaymentGateway.id
  transactions : Table PaymentTransaction.id
  nextId : ℤ
  users : Table User.id
  credits : List Credit
  jobs : List Job

section Gateways

def getGateway (registry : Registry) (gatewayId : ℤ) (s : State) :
    Except String PaymentGatewayProvider :=
  match s.gateways.find gatewayId with
  | none => .error "gateway not found: record not found"
  | some gw =>
    if ¬gw.enabled then .error ("gateway " ++ gw.name ++ " is disabled")
    else match registry gw.type with
      | none => .error ("unsupported gateway type: " ++ gw.type)
      | some factory => factory gw.config

end Gateways

section Transactions

/-- The unique index on the number the gateway gives. -/
def transactionNoTaken (id : ℤ) (transactionNo : String) (s : State) : Prop :=
  ∃ t ∈ s.transactions.rows, t.id ≠ id ∧ t.transactionNo = transactionNo

instance (id : ℤ) (transactionNo : String) (s : State) :
    Decidable (transactionNoTaken id transactionNo s) :=
  inferInstanceAs (Decidable (∃ t ∈ s.transactions.rows, t.id ≠ id ∧ t.transactionNo = transactionNo))

def insertTransaction (fails : Option String) (t : PaymentTransaction) (s : State) :
    Except String State :=
  match fails with
  | some e => .error e
  | none =>
    if transactionNoTaken t.id t.transactionNo s then .error "UNIQUE constraint failed"
    else match s.transactions.insert t with
      | none => .error "UNIQUE constraint failed"
      | some transactions => .ok { s with transactions := transactions, nextId := s.nextId + 1 }

/-- `Update` writes every column of the row with the transaction's id. -/
def updateTransaction (fails : Option String) (t : PaymentTransaction) (s : State) :
    Except String State :=
  match fails with
  | some e => .error e
  | none =>
    if transactionNoTaken t.id t.transactionNo s then .error "UNIQUE constraint failed"
    else .ok { s with transactions := s.transactions.save t }

/-- The first transaction with an order number; ids count upwards and new rows come in front. -/
def getPaymentTransactionByOrderNo (fails : Option String) (orderNo : String) (s : State) :
    Except String PaymentTransaction :=
  match fails, s.transactions.rows.reverse.find? (·.orderNo = orderNo) with
  | some e, _ => .error e
  | none, none => .error "record not found"
  | none, some t => .ok t

end Transactions

section Orders

variable (registry : Registry)

def createPaymentOrder (fails : Option String) (seed : String) (userId gatewayId : ℤ) (amount : ℚ)
    (currency description : String) (s : State) :
    Except String (PaymentTransaction × String × State) := do
  let gw ← getGateway registry gatewayId s
  let (orderNo, payURL, qrCode) ←
    (gw.createOrder seed userId amount currency description).mapError ("failed to create order: " ++ ·)
  let transaction : PaymentTransaction :=
    { id := s.nextId
      userId := userId
      gatewayId := gatewayId
      gatewayType := gw.getType
      orderNo := orderNo
      amount := amount
      currency := currency
      description := description
      status := "pending" }
  let s ← (insertTransaction fails transaction s).mapError ("failed to save transaction: " ++ ·)
  return (transaction, payURL ++ qrCode, s)

/-- `ProcessPaymentWebhook` up to the update of the transaction it has read. -/
def processPaymentWebhook (fails : Option String) (now gatewayId : ℤ) (rawBody : String)
    (s : State) : Except String Delivery := do
  let gw ← getGateway registry gatewayId s
  let n ← (gw.handleWebhook rawBody).mapError ("webhook processing failed: " ++ ·)
  let transaction ← (getPaymentTransactionByOrderNo fails n.orderNo s).mapError
    ("transaction not found for order " ++ n.orderNo ++ ": " ++ ·)
  return {
    gatewayId := gatewayId
    amount := n.amount
    currency := n.currency
    transaction := { transaction with
      transactionNo := n.tradeNo
      status := n.status
      rawNotification := rawBody
      completedAt := if n.status = "completed" then now else transaction.completedAt } }

/-- `IncreaseUserQuota`, straight to the database. -/
def increaseUserQuota (fails : Option String) (delivery : Delivery) (s : State) : State :=
  let t := delivery.transaction
  if t.quotaAmount < 0 ∨ fails.isSome then s
  else { s with
    users := addQuota s.users t.userId t.quotaAmount fun user ↦ user
    credits := ⟨t.id, t.userId, t.quotaAmount⟩ :: s.credits }

def creditUserQuota (fails : Option String) (delivery : Delivery) (s : State) : State :=
  if delivery.transaction.quotaAmount = 0 then s else increaseUserQuota fails delivery s

/-- The next step of a webhook: the update and, after it, the credit of a completed payment. -/
def perform (fails : Option String) (job : Job) (s : State) : State :=
  match job with
  | .update delivery => match updateTransaction fails delivery.transaction s with
    | .error _ => s
    | .ok s =>
      if delivery.transaction.status = "completed" then { s with jobs := s.jobs ++ [.credit delivery] }
      else s
  | .credit delivery => creditUserQuota fails delivery s

def proceed (i : ℕ) (fails : Option String) (s : State) : State :=
  match s.jobs[i]? with
  | none => s
  | some job => perform fails job { s with jobs := s.jobs.eraseIdx i }

inductive Event where
  | gateway (gw : PaymentGateway)
  | order (fails : Option String) (seed : String) (userId gatewayId : ℤ) (amount : ℚ)
    (currency description : String)
  | webhook (fails : Option String) (now gatewayId : ℤ) (rawBody : String)
  | proceed (i : ℕ) (fails : Option String)

def step (s : State) : Event → State
  | .gateway gw => { s with gateways := s.gateways.put gw }
  | .order fails seed userId gatewayId amount currency description =>
    match createPaymentOrder registry fails seed userId gatewayId amount currency description s with
    | .error _ => s
    | .ok (_, _, s) => s
  | .webhook fails now gatewayId rawBody =>
    match processPaymentWebhook registry fails now gatewayId rawBody s with
    | .error _ => s
    | .ok delivery => { s with jobs := s.jobs ++ [.update delivery] }
  | .proceed i fails => proceed i fails s

end Orders

end AllAiTools.NewApi.Service.Payment
