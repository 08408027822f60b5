import AllAiTools.Foundation.Sorting
import AllAiTools.NewApi.Model.OneShot

namespace AllAiTools.NewApi.Model.SubscriptionGroup

open Foundation Foundation.Run Foundation.ReadCommitted Common.Str Subscription OneShot

/-- How the database serves one transaction. An error that is returned rolls the
transaction back, whichever statement it comes from; those of the two lookups are
not. -/
structure Failures where
  rollback : Bool := false
  findActive : Bool := false
  findExpired : Bool := false

def inTransaction {α : Type} (f : Failures) (s : Ledger) (body : Except String (α × Ledger)) :
    Except String α × Ledger :=
  if f.rollback then (.error "database error", s)
  else match body with
    | .error e => (.error e, s)
    | .ok (a, s') => (.ok a, s')

def setGroup (s : Ledger) (userId : ℤ) (group : String) : Ledger :=
  updateUser s userId fun u ↦ { u with group }

def getUserGroupByIdTx (s : Ledger) (userId : ℤ) : Except String String :=
  if userId ≤ 0 then .error "invalid userId" else .ok (getUserGroupById s userId)

/-- An upgraded subscription of the user that has not run out. -/
def Running (userId now : ℤ) (a : UserSubscription) : Prop :=
  a.userId = userId ∧ a.status = .active ∧ now < a.endTime ∧ a.upgradeGroup ≠ ""

instance (userId now : ℤ) (a : UserSubscription) : Decidable (Running userId now a) :=
  inferInstanceAs (Decidable (_ ∧ _ ∧ _ ∧ _))

/-- The group the user goes back to, empty where there is none. -/
def downgradeUserGroupForSubscriptionTx (f : Failures) (s : Ledger) (sub : UserSubscription)
    (now : ℤ) : Except String (String × Ledger) :=
  let upgradeGroup := trimSpace sub.upgradeGroup
  if upgradeGroup = "" then .ok ("", s)
  else
    match getUserGroupByIdTx s sub.userId with
    | .error e => .error e
    | .ok currentGroup =>
      if currentGroup ≠ upgradeGroup then .ok ("", s)
      else if f.findActive = false ∧ ∃ a ∈ s.subs, Running sub.userId now a ∧ a.id ≠ sub.id then
        .ok ("", s)
      else
        let prevGroup := trimSpace sub.prevUserGroup
        if prevGroup = "" ∨ prevGroup = currentGroup then .ok ("", s)
        else .ok (prevGroup, setGroup s sub.userId prevGroup)

def report (target : String) : String := if target = "" then "" else "用户分组将回退到 " ++ target

def cancel (now : ℤ) (sub : UserSubscription) : UserSubscription :=
  { sub with status := .cancelled, endTime := now }

def updateSub (s : Ledger) (id : ℤ) (g : UserSubscription → UserSubscription) : Ledger :=
  { s with subs := s.subs.map fun b ↦ if b.id = id then g b else b }

def deleteSub (s : Ledger) (id : ℤ) : Ledger := { s with subs := s.subs.filter (·.id ≠ id) }

def findSub (s : Ledger) (id : ℤ) : Option UserSubscription := s.subs.find? (·.id = id)

/-- A subscription is ended in a transaction: `before` is what is written ahead of the
downgrade, `row` the subscription as the downgrade sees it, `after` what is written
behind it. -/
def endUserSubscription (f : Failures) (s : Ledger) (id now : ℤ)
    (before : UserSubscription → Ledger) (row : UserSubscription → UserSubscription)
    (after : Ledger → Ledger) : Except String String × Ledger :=
  if id ≤ 0 then (.error "invalid userSubscriptionId", s)
  else inTransaction f s
    (match findSub s id with
    | none => .error "record not found"
    | some sub =>
      match downgradeUserGroupForSubscriptionTx f (before sub) (row sub) now with
      | .error e => .error e
      | .ok (target, s') => .ok (report target, after s'))

/-- The subscription is cancelled and ends now. -/
def adminInvalidateUserSubscription (f : Failures) (s : Ledger) (id now : ℤ) :
    Except String String × Ledger :=
  endUserSubscription f s id now (fun sub ↦ updateSub s sub.id (cancel now)) (cancel now)
    (fun s' ↦ s')

/-- The subscription's row is deleted. -/
def adminDeleteUserSubscription (f : Failures) (s : Ledger) (id now : ℤ) :
    Except String String × Ledger :=
  endUserSubscription f s id now (fun _ ↦ s) (fun sub ↦ sub) (fun s' ↦ deleteSub s' id)

def Due (now : ℤ) (sub : UserSubscription) : Prop :=
  sub.status = .active ∧ 0 < sub.endTime ∧ sub.endTime ≤ now

instance (now : ℤ) (sub : UserSubscription) : Decidable (Due now sub) :=
  inferInstanceAs (Decidable (_ ∧ _ ∧ _))

def expire (now : ℤ) (sub : UserSubscription) : UserSubscription :=
  if Due now sub then { sub with status := .expired } else sub

/-- `ORDER BY end_time DESC, id DESC LIMIT 1`. -/
def latest (subs : List UserSubscription) : Option UserSubscription :=
  (subs.insertionSort fun a b ↦
    b.endTime < a.endTime ∨ b.endTime = a.endTime ∧ b.id ≤ a.id).head?

/-- `ORDER BY end_time ASC, id ASC`. -/
def soonestFirst (subs : List UserSubscription) : List UserSubscription :=
  subs.insertionSort fun a b ↦ a.endTime < b.endTime ∨ a.endTime = b.endTime ∧ a.id ≤ b.id

/-- The subscription that decides where an expiry takes the user's group. -/
def lastExpired (f : Failures) (subs : List UserSubscription) (userId now : ℤ) :
    Option UserSubscription :=
  if f.findActive = false ∧ ∃ a ∈ subs, Running userId now a then none
  else if f.findExpired then none
  else latest (subs.filter fun a ↦ a.userId = userId ∧ a.status = .expired ∧ a.upgradeGroup ≠ "")

/-- The user's due rows are marked. -/
def markExpired (s : Ledger) (userId now : ℤ) : Ledger :=
  { s with subs := s.subs.map fun b ↦ if b.userId = userId then expire now b else b }

/-- One user's part of the sweep; the result is the number of rows it expired. -/
def expireUserSubscriptions (f : Failures) (s : Ledger) (userId now : ℤ) :
    Except String ℕ × Ledger :=
  let count := (s.subs.filter fun b ↦ b.userId = userId ∧ Due now b).length
  let s' := markExpired s userId now
  inTransaction f s
    (match lastExpired f s'.subs userId now with
    | none => .ok (count, s')
    | some last =>
      let upgradeGroup := trimSpace last.upgradeGroup
      let prevGroup := trimSpace last.prevUserGroup
      if upgradeGroup = "" ∨ prevGroup = "" then .ok (count, s')
      else
        match getUserGroupByIdTx s' userId with
        | .error e => .error e
        | .ok currentGroup =>
          if currentGroup ≠ upgradeGroup ∨ currentGroup = prevGroup then .ok (count, s')
          else .ok (count, setGroup s' userId prevGroup))

/-- The users in the order in which the sweep meets them; it stops at the first error,
with which the callers drop the count. -/
def sweep (fault : ℤ → Failures) (now : ℤ) : List ℤ → ℕ → Ledger → Except String ℕ × Ledger
  | [], expiredCount, s => (.ok expiredCount, s)
  | userId :: rest, expiredCount, s =>
    match expireUserSubscriptions (fault userId) s userId now with
    | (.error e, s') => (.error e, s')
    | (.ok count, s') => sweep fault now rest (expiredCount + count) s'

def dueSubs (s : Ledger) (limit now : ℤ) : List UserSubscription :=
  (soonestFirst (s.subs.filter fun sub ↦ Due now sub)).take (if limit ≤ 0 then 200 else limit.toNat)

def dueUsers (s : Ledger) (limit now : ℤ) : List ℤ :=
  (((dueSubs s limit now).map (·.userId)).filter fun id ↦ 0 < id).dedup

def expireDueSubscriptions (order : MapOrder ℤ) (fault : ℤ → Failures) (s : Ledger)
    (limit now : ℤ) : Except String ℕ × Ledger :=
  if dueSubs s limit now = [] then (.ok 0, s)
  else sweep fault now (order.visit (dueUsers s limit now)) 0 s

/-- The purchase of a plan in a transaction of its own; `fails` are its statements
that the database fails. -/
def purchase (env : Env) (fails : List Bool) (s : Ledger) (userId : ℤ) (plan : SubscriptionPlan)
    (source : String) : Except String Unit × Ledger :=
  (createUserSubscriptionFromPlanTx env (.order source) userId plan source (finish id)).alone
    rules s [] fails

end AllAiTools.NewApi.Model.SubscriptionGroup
