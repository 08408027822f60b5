import AllAiTools.Foundation.Result
import AllAiTools.Foundation.Table
import AllAiTools.NewApi.Common.Str

namespace AllAiTools.NewApi.Model.Subscription

open Foundation Foundation.Result Common.Str

/-- The errors of the subscription store. `database` is any failure the driver
reports, `recordNotFound` is what `First` reports on an empty result. -/
inductive Error
  | database
  | recordNotFound
  | invalidUserId
  | requestIdEmpty
  | amountNotPositive
  | invalidPlanId
  | invalidUserSubscriptionId
  | alreadyRefunded
  | noActiveSubscription
  | quotaInsufficient (need : ℤ)
  | usedExceedsTotal (used total : ℤ)
  deriving DecidableEq, Repr

def Error.text : Error → String
  | .database => "database error"
  | .recordNotFound => "record not found"
  | .invalidUserId => "invalid userId"
  | .requestIdEmpty => "requestId is empty"
  | .amountNotPositive => "amount must be > 0"
  | .invalidPlanId => "invalid plan id"
  | .invalidUserSubscriptionId => "invalid userSubscriptionId"
  | .alreadyRefunded => "subscription pre-consume already refunded"
  | .noActiveSubscription => "no active subscription"
  | .quotaInsufficient need => "subscription quota insufficient, need=" ++ toString need
  | .usedExceedsTotal used total =>
    "subscription used exceeds total, used=" ++ toString used ++ " total=" ++ toString total

inductive SubscriptionStatus
  | active | expired | cancelled
  deriving DecidableEq, Repr

inductive RecordStatus
  | consumed | refunded
  deriving DecidableEq, Repr

structure SubscriptionPlan where
  id : ℤ
  durationUnit : String := "month"
  durationValue : ℤ := 1
  customSeconds : ℤ := 0
  maxPurchasePerUser : ℤ := 0
  upgradeGroup : String := ""
  totalAmount : ℤ := 0
  quotaResetPeriod : String := "never"
  quotaResetCustomSeconds : ℤ := 0
  deriving DecidableEq

structure UserSubscription where
  id : ℤ
  userId : ℤ
  planId : ℤ
  amountTotal : ℤ
  amountUsed : ℤ
  startTime : ℤ := 0
  endTime : ℤ
  status : SubscriptionStatus := .active
  source : String := "order"
  lastResetTime : ℤ := 0
  nextResetTime : ℤ := 0
  upgradeGroup : String := ""
  prevUserGroup : String := ""
  deriving DecidableEq

/-- The idempotency record of one request's pre-consume. -/
structure SubscriptionPreConsumeRecord where
  requestId : String
  userId : ℤ
  userSubscriptionId : ℤ
  preConsumed : ℤ
  status : RecordStatus
  deriving DecidableEq

structure Store where
  plans : Table SubscriptionPlan.id
  subs : Table UserSubscription.id
  records : Table SubscriptionPreConsumeRecord.requestId

/-- The used amount of a subscription, zero where there is none. -/
def Store.used (db : Store) (id : ℤ) : ℤ := ((db.subs.find id).map (·.amountUsed)).getD 0

/-- The statements of the store's transactions, as places where they can fail. -/
inductive Stmt
  | begin
  | findRecord
  | findSub
  | findSubs
  | findPlan (sub : ℤ)
  | saveReset (sub : ℤ)
  | createRecord
  | findDup
  | saveSub
  | saveRecord
  | commit
  deriving DecidableEq

/-- Which statements of one call the database fails. -/
abbrev Faults := Stmt → Bool

/-- A statement without a result. -/
def exec (failed : Bool) : Except Error Unit := if failed then .error .database else .ok ()

/-- A `First` query. -/
def first {α : Type} (failed : Bool) (row : Option α) : Except Error α :=
  if failed then .error .database else
    match row with
    | none => .error .recordNotFound
    | some a => .ok a

@[simp] theorem exec_eq_ok {failed : Bool} {u : Unit} : exec failed = .ok u ↔ failed = false := by
  cases failed <;> simp [exec]

@[simp] theorem first_eq_ok {α : Type} {failed : Bool} {row : Option α} {a : α} :
    first failed row = .ok a ↔ failed = false ∧ row = some a := by
  cases failed <;> cases row <;> simp [first]

/-- `DB.Transaction`: what the body wrote is kept only when the body succeeds and
the commit does. -/
def transaction {α : Type} (fault : Faults) (db : Store) (body : Except Error (α × Store)) :
    Except Error α × Store :=
  match (do exec (fault .begin); let r ← body; exec (fault .commit); pure r) with
  | .error e => (.error e, db)
  | .ok (a, db') => (.ok a, db')

theorem transaction_cases {α : Type} (fault : Faults) (db : Store)
    (body : Except Error (α × Store)) :
    (∃ e, transaction fault db body = (.error e, db)) ∨
      ∃ a db', fault .begin = false ∧ fault .commit = false ∧ body = .ok (a, db') ∧
        transaction fault db body = (.ok a, db') := by
  unfold transaction exec
  cases fault .begin with
  | true => exact .inl ⟨_, rfl⟩
  | false =>
    cases body with
    | error e => exact .inl ⟨e, rfl⟩
    | ok r =>
      cases fault .commit with
      | true => exact .inl ⟨_, rfl⟩
      | false => exact .inr ⟨r.1, r.2, rfl, rfl, rfl, rfl⟩

section Reset

/-- The start of the next day, of the next Monday and of the next month after an
instant, in the server's time zone. -/
structure Calendar where
  nextDay : ℤ → ℤ
  nextMonday : ℤ → ℤ
  nextMonth : ℤ → ℤ
  nextDay_gt : ∀ t, t < nextDay t
  nextMonday_gt : ∀ t, t < nextMonday t
  nextMonth_gt : ∀ t, t < nextMonth t

/-- A calendar whose days, weeks and months all last a second. -/
def Calendar.ticking : Calendar :=
  ⟨(· + 1), (· + 1), (· + 1), lt_add_one, lt_add_one, lt_add_one⟩

inductive ResetPeriod
  | never | daily | weekly | monthly | custom
  deriving DecidableEq, Repr

def normalizeResetPeriod (period : String) : ResetPeriod :=
  match trimSpace period with
  | "daily" => .daily
  | "weekly" => .weekly
  | "monthly" => .monthly
  | "custom" => .custom
  | _ => .never

variable (cal : Calendar) (plan : SubscriptionPlan)

/-- The next reset after `base`, zero where there is none before the end. -/
def calcNextResetTime (base endUnix : ℤ) : ℤ :=
  let next := match normalizeResetPeriod plan.quotaResetPeriod with
    | .never => 0
    | .daily => cal.nextDay base
    | .weekly => cal.nextMonday base
    | .monthly => cal.nextMonth base
    | .custom => if plan.quotaResetCustomSeconds ≤ 0 then 0 else base + plan.quotaResetCustomSeconds
  if 0 < endUnix ∧ endUnix < next then 0 else next

theorem calcNextResetTime_gt {base endUnix : ℤ} (h : 0 < calcNextResetTime cal plan base endUnix) :
    base < calcNextResetTime cal plan base endUnix := by
  have hd := cal.nextDay_gt base
  have hw := cal.nextMonday_gt base
  have hm := cal.nextMonth_gt base
  unfold calcNextResetTime at h ⊢
  cases hp : normalizeResetPeriod plan.quotaResetPeriod <;>
    simp only [hp] at h ⊢ <;> split_ifs at h ⊢ <;> omega

/-- The loop over the resets that are due: the last one not after `now`, and the
one that follows it. -/
def advance (endTime now base : ℤ) : ℤ × ℤ :=
  let next := calcNextResetTime cal plan base endTime
  if 0 < next ∧ next ≤ now then advance endTime now next else (base, next)
termination_by (now - base).toNat
decreasing_by
  rename_i h
  have hlt := calcNextResetTime_gt cal plan h.1
  omega

/-- The row that `maybeResetUserSubscriptionWithPlanTx` saves, if it saves one. -/
def maybeReset (sub : UserSubscription) (now : ℤ) : Option UserSubscription :=
  if 0 < sub.nextResetTime ∧ now < sub.nextResetTime then none
  else if normalizeResetPeriod plan.quotaResetPeriod = .never then none
  else
    let base := if sub.lastResetTime ≤ 0 then sub.startTime else sub.lastResetTime
    let next := calcNextResetTime cal plan base sub.endTime
    let (base', next') := advance cal plan sub.endTime now base
    if 0 < next ∧ next ≤ now then
      some { sub with amountUsed := 0, lastResetTime := base', nextResetTime := next' }
    else if sub.nextResetTime = 0 ∧ 0 < next' then
      some { sub with lastResetTime := base', nextResetTime := next' }
    else none

/-- A reset moves the two reset times and either clears the used amount or
leaves it. -/
theorem maybeReset_cases {sub sub' : UserSubscription} {now : ℤ}
    (h : maybeReset cal plan sub now = some sub') :
    ∃ used last next, (used = 0 ∨ used = sub.amountUsed) ∧
      sub' = { sub with amountUsed := used, lastResetTime := last, nextResetTime := next } := by
  unfold maybeReset at h
  dsimp only at h
  split_ifs at h <;> cases h
  all_goals first
    | exact ⟨0, _, _, .inl rfl, rfl⟩
    | exact ⟨_, _, _, .inr rfl, rfl⟩

/-- The reset inside a transaction: the row as the caller goes on with it. -/
def maybeResetUserSubscriptionWithPlanTx (fault : Faults) (tx : Store) (sub : UserSubscription)
    (now : ℤ) : Except Error (UserSubscription × Store) :=
  match maybeReset cal plan sub now with
  | none => .ok (sub, tx)
  | some sub' => do
    exec (fault (.saveReset sub.id))
    .ok (sub', { tx with subs := tx.subs.save sub' })

end Reset

section PostConsume

/-- The used amount after a delta: never below zero. -/
def newUsed (used delta : ℤ) : ℤ := if used + delta < 0 then 0 else used + delta

def postConsumeTx (fault : Faults) (tx : Store) (id delta : ℤ) : Except Error (Unit × Store) := do
  let sub ← first (fault .findSub) (tx.subs.find id)
  let used := newUsed sub.amountUsed delta
  if 0 < sub.amountTotal ∧ sub.amountTotal < used then
    .error (.usedExceedsTotal used sub.amountTotal)
  else
    exec (fault .saveSub)
    .ok ((), { tx with subs := tx.subs.save { sub with amountUsed := used } })

def postConsumeUserSubscriptionDelta (fault : Faults) (db : Store) (id delta : ℤ) :
    Except Error Unit × Store :=
  if id ≤ 0 then (.error .invalidUserSubscriptionId, db)
  else if delta = 0 then (.ok (), db)
  else transaction fault db (postConsumeTx fault db id delta)

/-- The delta's transaction finds the subscription `sub`, the new amount fits and
every statement up to the commit succeeds. -/
structure DeltaCommits (fault : Faults) (db : Store) (id delta : ℤ) (sub : UserSubscription) :
    Prop where
  id_pos : 0 < id
  found : db.subs.find id = some sub
  fits : ¬ (0 < sub.amountTotal ∧ sub.amountTotal < newUsed sub.amountUsed delta)
  begins : fault .begin = false
  reads : fault .findSub = false
  saves : fault .saveSub = false
  commits : fault .commit = false

/-- The store after the delta's transaction has committed. -/
def Store.charge (db : Store) (sub : UserSubscription) (delta : ℤ) : Store :=
  { db with subs := db.subs.save { sub with amountUsed := newUsed sub.amountUsed delta } }

theorem postConsume_of_commits {fault : Faults} {db : Store} {id delta : ℤ}
    {sub : UserSubscription} (hd : delta ≠ 0) (h : DeltaCommits fault db id delta sub) :
    postConsumeUserSubscriptionDelta fault db id delta = (.ok (), db.charge sub delta) := by
  have hid : ¬ id ≤ 0 := by have := h.id_pos; omega
  simp only [postConsumeUserSubscriptionDelta, if_neg hid, if_neg hd, transaction, exec, first,
    postConsumeTx, h.begins, h.reads, h.saves, h.commits, h.found]
  simp only [Bool.false_eq_true, if_false, bind_ok, if_neg h.fits]
  rfl

/-- A delta either leaves the store as it is or has been committed whole. -/
theorem postConsume_cases (fault : Faults) (db : Store) {id delta : ℤ} (hd : delta ≠ 0) :
    (∃ e, postConsumeUserSubscriptionDelta fault db id delta = (.error e, db)) ∨
      ∃ sub, DeltaCommits fault db id delta sub ∧
        postConsumeUserSubscriptionDelta fault db id delta = (.ok (), db.charge sub delta) := by
  by_cases hid : id ≤ 0
  · exact .inl ⟨_, by rw [postConsumeUserSubscriptionDelta, if_pos hid]⟩
  have heq : postConsumeUserSubscriptionDelta fault db id delta =
      transaction fault db (postConsumeTx fault db id delta) := by
    rw [postConsumeUserSubscriptionDelta, if_neg hid, if_neg hd]
  rcases transaction_cases fault db (postConsumeTx fault db id delta) with
    ⟨e, he⟩ | ⟨_, db', hb, hc, hbody, _⟩
  · exact .inl ⟨e, heq.trans he⟩
  obtain ⟨sub, hfound, hrest⟩ := bind_eq_ok.mp hbody
  obtain ⟨hr, hf⟩ := first_eq_ok.mp hfound
  dsimp only at hrest
  split_ifs at hrest with hfit
  obtain ⟨_, hs, _⟩ := bind_eq_ok.mp hrest
  have h : DeltaCommits fault db id delta sub :=
    ⟨by omega, hf, hfit, hb, hr, exec_eq_ok.mp hs, hc⟩
  exact .inr ⟨sub, h, postConsume_of_commits hd h⟩

theorem DeltaCommits.key {fault : Faults} {db : Store} {id delta : ℤ} {sub : UserSubscription}
    (h : DeltaCommits fault db id delta sub) : sub.id = id := Table.find_key h.found

/-- A committed delta moves the used amount of its subscription and of no other. -/
theorem DeltaCommits.used_charge {fault : Faults} {db : Store} {id delta : ℤ}
    {sub : UserSubscription} (h : DeltaCommits fault db id delta sub) (j : ℤ) :
    (db.charge sub delta).used j =
      if j = id then newUsed (db.used id) delta else db.used j := by
  have hk : sub.id = id := h.key
  by_cases hj : j = id
  · subst hj
    simp [Store.used, Store.charge, hk, h.found]
  · have hne : ¬ id = j := fun he ↦ hj he.symm
    simp [Store.used, Store.charge, Table.find_save, hk, hne, hj]

theorem newUsed_of_nonneg {used delta : ℤ} (h : 0 ≤ used + delta) :
    newUsed used delta = used + delta := by
  have hn : ¬ used + delta < 0 := by omega
  rw [newUsed, if_neg hn]

theorem find_charge {db : Store} {sub : UserSubscription} (h : db.subs.find sub.id = some sub)
    (delta : ℤ) : (db.charge sub delta).subs.find sub.id =
      some { sub with amountUsed := newUsed sub.amountUsed delta } := by
  rw [Store.charge, Table.find_save, if_pos rfl, h]
  rfl

/-- A committed charge that is taken back leaves the store as it was. -/
theorem postConsume_undo {fault fault' : Faults} {db : Store} {id delta : ℤ}
    {sub : UserSubscription} (hd : 0 < delta) (hused : 0 ≤ sub.amountUsed)
    (h : DeltaCommits fault db id delta sub) (hf : ∀ s, fault' s = false) :
    postConsumeUserSubscriptionDelta fault' (db.charge sub delta) id (-delta) = (.ok (), db) := by
  have hk : sub.id = id := h.key
  subst hk
  have hnew : newUsed sub.amountUsed delta = sub.amountUsed + delta := newUsed_of_nonneg (by omega)
  have hback : newUsed (newUsed sub.amountUsed delta) (-delta) = sub.amountUsed := by
    rw [hnew, newUsed_of_nonneg (by omega)]
    omega
  have hfits := h.fits
  have hc : DeltaCommits fault' (db.charge sub delta) sub.id (-delta)
      { sub with amountUsed := newUsed sub.amountUsed delta } := by
    refine ⟨h.id_pos, find_charge h.found delta, ?_, hf _, hf _, hf _, hf _⟩
    dsimp only
    rw [hback]
    rw [hnew] at hfits
    omega
  rw [postConsume_of_commits (by omega) hc]
  have hsubs : ((db.charge sub delta).charge
      { sub with amountUsed := newUsed sub.amountUsed delta } (-delta)).subs = db.subs := by
    simp only [Store.charge, hback]
    rw [Table.save_save _ (by rfl)]
    exact Table.save_of_find h.found
  simp only [Store.charge] at hsubs ⊢
  rw [hsubs]

@[simp] theorem charge_records (db : Store) (sub : UserSubscription) (delta : ℤ) :
    (db.charge sub delta).records = db.records := rfl

end PostConsume

end AllAiTools.NewApi.Model.Subscription
