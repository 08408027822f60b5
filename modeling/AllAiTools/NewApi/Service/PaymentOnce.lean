import AllAiTools.Foundation.Result
import AllAiTools.Foundation.Run
import AllAiTools.NewApi.Service.Payment

namespace AllAiTools.NewApi.Service.PaymentOnce

open Foundation Result Run Payment

section Statement

def credited (s : State) (t : PaymentTransaction) : List ℤ :=
  (s.credits.filter (·.transactionId = t.id)).map (·.quota)

/-- An order is worth something where its amount is, is credited at most once with what it is
worth and, with no webhook under way, exactly where it is completed. -/
structure Kept (s : State) : Prop where
  worth : ∀ t ∈ s.transactions.rows, 0 < t.amount → 0 < t.quotaAmount
  once : ∀ t ∈ s.transactions.rows, credited s t = [] ∨ credited s t = [t.quotaAmount]
  atRest : s.jobs = [] → ∀ t ∈ s.transactions.rows,
    (credited s t).sum = if t.status = "completed" then t.quotaAmount else 0

/-- The delivery went through the order's own gateway, for enough of the right money. -/
def Pays (delivery : Delivery) (t : PaymentTransaction) : Prop :=
  delivery.gatewayId = t.gatewayId ∧ t.amount ≤ delivery.amount ∧ delivery.currency = t.currency

/-- A step leaves the orders in good standing, no completed one behind, and completes one only
for a delivery that pays it. -/
structure Honest (registry : Registry) (s : State) (event : Event) : Prop where
  kept : Kept (step registry s event)
  terminal : ∀ t t', s.transactions.find t.id = some t →
    (step registry s event).transactions.find t.id = some t' →
      t.status = "completed" → t'.status = "completed"
  paid : ∀ t t', s.transactions.find t.id = some t →
    (step registry s event).transactions.find t.id = some t' →
      t.status ≠ "completed" → t'.status = "completed" →
        ∃ i delivery, event = .proceed i none ∧ s.jobs[i]? = some (.update delivery) ∧
          delivery.transaction.id = t.id ∧ Pays delivery t

/-- An order that is created asks for nothing, and an update that is written keeps a completed
order completed and completes an order only where the delivery pays it. -/
def Modest (registry : Registry) (s : State) : Event → Prop
  | .order fails seed userId gatewayId amount currency description =>
    (∃ result, createPaymentOrder registry fails seed userId gatewayId amount currency description s =
      .ok result) → amount ≤ 0
  | .proceed i none => ∀ delivery t, s.jobs[i]? = some (.update delivery) →
    s.transactions.find delivery.transaction.id = some t →
    ¬transactionNoTaken t.id delivery.transaction.transactionNo s →
      (t.status = "completed" → delivery.transaction.status = "completed") ∧
      (t.status ≠ "completed" → delivery.transaction.status = "completed" → Pays delivery t)
  | _ => True

def start (gateways : Table PaymentGateway.id) (users : Table Model.UserQuota.User.id) : State :=
  ⟨gateways, Table.empty, 1, users, [], []⟩

end Statement

section Calls

variable {registry : Registry} {s s' : State}

theorem insertTransaction_ok {fails : Option String} {t : PaymentTransaction}
    (h : insertTransaction fails t s = .ok s') :
    s.transactions.find t.id = none ∧ s'.transactions.rows = t :: s.transactions.rows ∧
      s'.jobs = s.jobs ∧ s'.credits = s.credits := by
  cases fails with
  | some e => cases h
  | none =>
    simp only [insertTransaction] at h
    split_ifs at h
    cases hi : s.transactions.insert t with
    | none => simp [hi] at h
    | some transactions =>
      obtain ⟨hnone, hrows⟩ := Table.insert_eq_some hi
      simp only [hi] at h
      cases h
      exact ⟨hnone, hrows, rfl, rfl⟩

theorem createPaymentOrder_ok {fails : Option String} {seed currency description url : String}
    {userId gatewayId : ℤ} {amount : ℚ} {t : PaymentTransaction}
    (h : createPaymentOrder registry fails seed userId gatewayId amount currency description s =
      .ok (t, url, s')) :
    t.quotaAmount = 0 ∧ t.amount = amount ∧ t.status = "pending" ∧
      s.transactions.find t.id = none ∧ s'.transactions.rows = t :: s.transactions.rows ∧
      s'.jobs = s.jobs ∧ s'.credits = s.credits := by
  obtain ⟨gw, _, h⟩ := bind_eq_ok.mp h
  obtain ⟨⟨orderNo, pay, qr⟩, _, h⟩ := bind_eq_ok.mp h
  obtain ⟨inserted, hi, h⟩ := bind_eq_ok.mp h
  cases pure_eq_ok.mp h
  exact ⟨rfl, rfl, rfl, insertTransaction_ok (mapError_eq_ok.mp hi)⟩

theorem processPaymentWebhook_ok {fails : Option String} {now gatewayId : ℤ} {rawBody : String}
    {delivery : Delivery}
    (h : processPaymentWebhook registry fails now gatewayId rawBody s = .ok delivery) :
    ∃ t ∈ s.transactions.rows, delivery.transaction.quotaAmount = t.quotaAmount ∧
      delivery.transaction.amount = t.amount := by
  obtain ⟨gw, _, h⟩ := bind_eq_ok.mp h
  obtain ⟨n, _, h⟩ := bind_eq_ok.mp h
  obtain ⟨t, ht, h⟩ := bind_eq_ok.mp h
  rw [mapError_eq_ok] at ht
  cases pure_eq_ok.mp h
  refine ⟨t, ?_, rfl, rfl⟩
  cases fails with
  | some e => cases ht
  | none =>
    cases hf : s.transactions.rows.reverse.find? (·.orderNo = n.orderNo) with
    | none => simp [getPaymentTransactionByOrderNo, hf] at ht
    | some found =>
      simp only [getPaymentTransactionByOrderNo, hf] at ht
      cases ht
      exact List.mem_reverse.mp (List.mem_of_find?_eq_some hf)

end Calls

section Steps

variable {registry : Registry} {s : State} {event : Event}

/-- A transaction that nothing can be credited for and nothing is asked for. -/
def Worthless (t : PaymentTransaction) : Prop := t.quotaAmount = 0 ∧ t.amount ≤ 0

def Job.transaction : Job → PaymentTransaction
  | .update delivery | .credit delivery => delivery.transaction

structure Idle (s : State) : Prop where
  rows : ∀ t ∈ s.transactions.rows, Worthless t
  jobs : ∀ job ∈ s.jobs, Worthless (Job.transaction job)
  credits : s.credits = []

theorem Idle.kept (h : Idle s) : Kept s where
  worth := fun t ht hpos ↦ absurd (h.rows t ht).2 (not_le.mpr hpos)
  once := fun t _ ↦ .inl (by simp [credited, h.credits])
  atRest := fun _ t ht ↦ by simp [credited, h.credits, (h.rows t ht).1]

theorem Idle.release (h : Idle s) (i : ℕ) : Idle { s with jobs := s.jobs.eraseIdx i } :=
  ⟨h.rows, fun job hj ↦ h.jobs job (List.mem_of_mem_eraseIdx hj), h.credits⟩

theorem Idle.spawn (h : Idle s) {job : Job} (hj : Worthless (Job.transaction job)) :
    Idle { s with jobs := s.jobs ++ [job] } := by
  refine ⟨h.rows, fun job' hj' ↦ ?_, h.credits⟩
  rcases List.mem_append.mp hj' with hj' | hj'
  · exact h.jobs job' hj'
  · rwa [List.mem_singleton.mp hj']

/-- What an update does: nothing, or it writes its transaction, which may then be credited. -/
theorem perform_update_cases (fails : Option String) (delivery : Delivery) (s : State) :
    perform fails (.update delivery) s = s ∨
    (fails = none ∧ ¬transactionNoTaken delivery.transaction.id delivery.transaction.transactionNo s ∧
      ∃ jobs, (∀ job ∈ jobs, Job.transaction job = delivery.transaction) ∧
        perform fails (.update delivery) s = { s with
          transactions := s.transactions.save delivery.transaction, jobs := s.jobs ++ jobs }) := by
  cases fails with
  | some e => exact .inl rfl
  | none =>
    by_cases htaken : transactionNoTaken delivery.transaction.id delivery.transaction.transactionNo s
    · exact .inl (by simp [perform, updateTransaction, htaken])
    · by_cases hdone : delivery.transaction.status = "completed"
      · refine .inr ⟨rfl, htaken, [.credit delivery], by simp [Job.transaction], ?_⟩
        simp [perform, updateTransaction, htaken, hdone]
      · refine .inr ⟨rfl, htaken, [], by simp, ?_⟩
        simp [perform, updateTransaction, htaken, hdone]

theorem Idle.perform (h : Idle s) {job : Job} (hj : Worthless (Job.transaction job))
    (fails : Option String) : Idle (perform fails job s) := by
  cases job with
  | credit delivery =>
    have hzero : delivery.transaction.quotaAmount = 0 := hj.1
    simpa [Payment.perform, creditUserQuota, hzero] using h
  | update delivery =>
    rcases perform_update_cases fails delivery s with he | ⟨_, _, jobs, hjobs, he⟩
    · rwa [he]
    · rw [he]
      refine ⟨fun t ht ↦ ?_, fun job hjob ↦ ?_, h.credits⟩
      · rcases Table.mem_save ht with rfl | ht
        · exact hj
        · exact h.rows t ht
      · rcases List.mem_append.mp hjob with hjob | hjob
        · exact h.jobs job hjob
        · rw [hjobs job hjob]
          exact hj

theorem Idle.next (h : Idle s) (hm : Modest registry s event) : Idle (step registry s event) := by
  cases event with
  | gateway gw => exact ⟨h.rows, h.jobs, h.credits⟩
  | order fails seed userId gatewayId amount currency description =>
    simp only [Payment.step]
    rcases ho : createPaymentOrder registry fails seed userId gatewayId amount currency description s
      with e | ⟨t, url, s'⟩
    · exact h
    · obtain ⟨hquota, hamount, -, -, hrows, hjobs, hcredits⟩ := createPaymentOrder_ok ho
      have hnew : Worthless t := ⟨hquota, hamount ▸ hm ⟨_, ho⟩⟩
      refine ⟨?_, hjobs ▸ h.jobs, hcredits ▸ h.credits⟩
      rw [hrows]
      exact List.forall_mem_cons.mpr ⟨hnew, h.rows⟩
  | webhook fails now gatewayId rawBody =>
    simp only [Payment.step]
    rcases hw : processPaymentWebhook registry fails now gatewayId rawBody s with e | delivery
    · exact h
    · obtain ⟨t, ht, hquota, hamount⟩ := processPaymentWebhook_ok hw
      have hold := h.rows t ht
      exact h.spawn ⟨hquota.trans hold.1, hamount ▸ hold.2⟩
  | proceed i fails =>
    simp only [Payment.step, proceed]
    cases hj : s.jobs[i]? with
    | none => exact h
    | some job => exact (h.release i).perform (h.jobs job (List.mem_of_getElem? hj)) fails

/-- The transactions after a step: as they were, with a new one, or with one written by an
update. -/
theorem step_transactions (registry : Registry) (s : State) (event : Event) :
    (step registry s event).transactions = s.transactions ∨
    (∃ t, s.transactions.find t.id = none ∧
      (step registry s event).transactions.rows = t :: s.transactions.rows) ∨
    (∃ i delivery, event = .proceed i none ∧ s.jobs[i]? = some (.update delivery) ∧
      ¬transactionNoTaken delivery.transaction.id delivery.transaction.transactionNo s ∧
      (step registry s event).transactions = s.transactions.save delivery.transaction) := by
  cases event with
  | gateway gw => exact .inl rfl
  | order fails seed userId gatewayId amount currency description =>
    simp only [step]
    rcases ho : createPaymentOrder registry fails seed userId gatewayId amount currency description s
      with e | ⟨t, url, s'⟩
    · exact .inl rfl
    · obtain ⟨-, -, -, hnone, hrows, -⟩ := createPaymentOrder_ok ho
      exact .inr (.inl ⟨t, hnone, hrows⟩)
  | webhook fails now gatewayId rawBody =>
    simp only [step]
    rcases processPaymentWebhook registry fails now gatewayId rawBody s with e | delivery
    · exact .inl rfl
    · exact .inl rfl
  | proceed i fails =>
    simp only [step, proceed]
    cases hj : s.jobs[i]? with
    | none => exact .inl rfl
    | some job =>
      cases job with
      | credit delivery =>
        refine .inl ?_
        simp only [perform, creditUserQuota, increaseUserQuota]
        split_ifs <;> rfl
      | update delivery =>
        rcases perform_update_cases fails delivery { s with jobs := s.jobs.eraseIdx i }
          with he | ⟨rfl, htaken, jobs, _, he⟩
        · refine .inl ?_
          simp only [he]
        · refine .inr (.inr ⟨i, delivery, rfl, hj, htaken, ?_⟩)
          simp only [he]

theorem find_cons_of_ne {transactions transactions' : Table PaymentTransaction.id}
    {new : PaymentTransaction} (h : transactions'.rows = new :: transactions.rows) {id : ℤ}
    (hne : new.id ≠ id) : transactions'.find id = transactions.find id := by
  simp [Table.find, h, hne]

/-- What becomes of a transaction in a step: it stays, or an update writes it. -/
theorem row_after {t t' : PaymentTransaction} (ht : s.transactions.find t.id = some t)
    (ht' : (step registry s event).transactions.find t.id = some t') :
    t' = t ∨ ∃ i delivery, event = .proceed i none ∧ s.jobs[i]? = some (.update delivery) ∧
      delivery.transaction.id = t.id ∧
      ¬transactionNoTaken t.id delivery.transaction.transactionNo s ∧ t' = delivery.transaction := by
  rcases step_transactions registry s event with he | ⟨new, hnone, hrows⟩ |
    ⟨i, delivery, rfl, hj, htaken, he⟩
  · rw [he, ht] at ht'
    exact .inl (Option.some.inj ht').symm
  · have hne : new.id ≠ t.id := by
      intro he
      rw [he, ht] at hnone
      cases hnone
    rw [find_cons_of_ne hrows hne, ht] at ht'
    exact .inl (Option.some.inj ht').symm
  · rw [he, Table.find_save, ht] at ht'
    split_ifs at ht' with hid
    · exact .inr ⟨i, delivery, rfl, hj, hid, hid ▸ htaken, (Option.some.inj ht').symm⟩
    · exact .inl (Option.some.inj ht').symm

/-- While no order is worth anything, a step is honest exactly when it is modest. -/
theorem Idle.honest_iff (h : Idle s) : Honest registry s event ↔ Modest registry s event := by
  constructor
  · rintro ⟨hkept, hterminal, hpaid⟩
    cases event with
    | gateway gw => trivial
    | webhook fails now gatewayId rawBody => trivial
    | order fails seed userId gatewayId amount currency description =>
      rintro ⟨⟨t, url, s'⟩, ho⟩
      have hstep : step registry s
          (.order fails seed userId gatewayId amount currency description) = s' := by
        simp [step, ho]
      obtain ⟨hquota, hamount, -, -, hrows, -⟩ := createPaymentOrder_ok ho
      rw [hstep] at hkept
      by_contra hpos
      have hworth := hkept.worth t (hrows ▸ List.mem_cons_self) (by rw [hamount]; exact not_le.mp hpos)
      omega
    | proceed i fails =>
      cases fails with
      | some e => trivial
      | none =>
        intro delivery t hj ht htaken
        have hid : t.id = delivery.transaction.id := Table.find_key ht
        have hafter : (step registry s (.proceed i none)).transactions.find t.id =
            some delivery.transaction := by
          have hw : ¬transactionNoTaken delivery.transaction.id delivery.transaction.transactionNo
              { s with jobs := s.jobs.eraseIdx i } := hid ▸ htaken
          have hstep : (step registry s (.proceed i none)).transactions =
              s.transactions.save delivery.transaction := by
            simp only [step, proceed, hj, Payment.perform, updateTransaction, if_neg hw]
            split_ifs <;> rfl
          rw [hstep, hid]
          exact Table.find_save_self ht
        rw [← hid] at ht
        refine ⟨hterminal t _ ht hafter, fun hopen hdone ↦ ?_⟩
        obtain ⟨i', delivery', he, hj', _, hpays⟩ := hpaid t _ ht hafter hopen hdone
        cases he
        rw [hj] at hj'
        cases hj'
        exact hpays
  · intro hm
    refine ⟨(h.next hm).kept, fun t t' ht ht' hdone ↦ ?_, fun t t' ht ht' hopen hdone ↦ ?_⟩
    · rcases row_after ht ht' with rfl | ⟨i, delivery, rfl, hj, hid, htaken, rfl⟩
      · exact hdone
      · exact (hm delivery t hj (hid ▸ ht) htaken).1 hdone
    · rcases row_after ht ht' with rfl | ⟨i, delivery, rfl, hj, hid, htaken, rfl⟩
      · exact absurd hdone hopen
      · exact ⟨i, delivery, rfl, hj, hid, (hm delivery t hj (hid ▸ ht) htaken).2 hopen hdone⟩

/-- In every run from the first order on, all steps are honest exactly when they are modest:
`CreatePaymentOrder` leaves every order worth nothing, and a webhook is written without a look at
the order's status, gateway, amount or currency. -/
theorem honest_throughout_iff (registry : Registry) (gateways : Table PaymentGateway.id)
    (users : Table Model.UserQuota.User.id) (trace : List Event) :
    Along (step registry) (Honest registry) (start gateways users) trace ↔
      Along (step registry) (Modest registry) (start gateways users) trace := by
  have hstart : Idle (start gateways users) := by
    refine ⟨?_, ?_, rfl⟩ <;> simp [start, Table.empty]
  exact along_congr Idle (fun _ _ h ↦ h.honest_iff) (fun _ _ h hm ↦ h.next hm) hstart trace

end Steps

section Examples

def stripeOne : PaymentGatewayProvider where
  getType := "stripe"
  createOrder := fun seed _ _ _ _ ↦ .ok ("STR-" ++ seed, "/api/payment/stripe/checkout/STR-" ++ seed, "")
  handleWebhook := fun _ ↦ .ok ⟨"pi_1", "STR-aaaaaaaa-bbbb", 10, "USD", "completed"⟩

def registryOne : Registry := fun type ↦ if type = "stripe" then some fun _ ↦ .ok stripeOne else none

/-- An order over ten dollars is created and paid. -/
def payOnce : List Event :=
  [.gateway ⟨1, "Stripe", "stripe", true, ""⟩,
    .order none "aaaaaaaa-bbbb" 7 1 10 "USD" "top-up",
    .webhook none 1700000000 1 "payment_intent.succeeded", .proceed 0 none]

/-- The paid order is worth nothing. -/
theorem payOnce_not_honest :
    ¬Along (step registryOne) (Honest registryOne) (start Table.empty Table.empty) payOnce := by
  intro h
  have hworth := h.2.1.kept.worth _ List.mem_cons_self (by decide +kernel)
  exact absurd hworth (by decide +kernel)

end Examples

end AllAiTools.NewApi.Service.PaymentOnce
