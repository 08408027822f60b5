import AllAiTools.NewApi.Model.Subscription

namespace AllAiTools.NewApi.Model.SubscriptionPreConsume

open Foundation Foundation.Result Common.Str Subscription

structure SubscriptionPreConsumeResult where
  userSubscriptionId : ℤ
  preConsumed : ℤ
  amountTotal : ℤ
  amountUsedBefore : ℤ
  amountUsedAfter : ℤ
  deriving DecidableEq

/-- A subscription that can pay for requests at `now`. -/
def isActive (userId now : ℤ) (sub : UserSubscription) : Bool :=
  sub.userId = userId && sub.status = .active && decide (now < sub.endTime)

/-- `ORDER BY end_time asc, id asc`. -/
def endsBefore (a b : UserSubscription) : Prop :=
  a.endTime < b.endTime ∨ a.endTime = b.endTime ∧ a.id ≤ b.id

instance : DecidableRel endsBefore := fun _ _ ↦ inferInstanceAs (Decidable (_ ∨ _))

def activeSubs (db : Store) (userId now : ℤ) : List UserSubscription :=
  (db.subs.rows.filter (isActive userId now)).insertionSort endsBefore

def getSubscriptionPlanByIdTx (failed : Bool) (tx : Store) (id : ℤ) :
    Except Error SubscriptionPlan :=
  if id ≤ 0 then .error .invalidPlanId else first failed (tx.plans.find id)

variable (cal : Calendar) (fault : Faults) (requestId : String) (userId amount now : ℤ)

/-- What the call answers when the record cannot be created: the outcome of the
request that holds the record, whose charge is not made again. -/
def answerDuplicate (tx : Store) (sub : UserSubscription) :
    Except Error (SubscriptionPreConsumeResult × Store) :=
  match first (fault .findDup) (tx.records.find requestId) with
  | .error _ => .error .database
  | .ok dup =>
    if dup.status = .refunded then .error .alreadyRefunded
    else .ok (⟨sub.id, dup.preConsumed, sub.amountTotal, sub.amountUsed, sub.amountUsed⟩, tx)

/-- The record is created and the subscription `sub` charged. -/
def consumeFrom (tx : Store) (sub : UserSubscription) :
    Except Error (SubscriptionPreConsumeResult × Store) :=
  let record : SubscriptionPreConsumeRecord := ⟨requestId, userId, sub.id, amount, .consumed⟩
  match if fault .createRecord then none else tx.records.insert record with
  | none => answerDuplicate fault requestId tx sub
  | some records => do
    exec (fault .saveSub)
    let sub' := { sub with amountUsed := sub.amountUsed + amount }
    .ok (⟨sub.id, amount, sub.amountTotal, sub.amountUsed, sub'.amountUsed⟩,
      { tx with records, subs := tx.subs.save sub' })

/-- The loop over the candidate subscriptions: the first with enough quota left
after its due reset pays. -/
def consumeFirst (tx : Store) :
    List UserSubscription → Except Error (SubscriptionPreConsumeResult × Store)
  | [] => .error (.quotaInsufficient amount)
  | candidate :: rest => do
    let plan ← getSubscriptionPlanByIdTx (fault (.findPlan candidate.id)) tx candidate.planId
    let (sub, tx) ← maybeResetUserSubscriptionWithPlanTx cal plan fault tx candidate now
    if 0 < sub.amountTotal ∧ sub.amountTotal - sub.amountUsed < amount then consumeFirst tx rest
    else consumeFrom fault requestId userId amount tx sub

def preConsumeTx (tx : Store) : Except Error (SubscriptionPreConsumeResult × Store) :=
  if fault .findRecord then .error .database
  else match tx.records.find requestId with
    | some existing =>
      if existing.status = .refunded then .error .alreadyRefunded
      else do
        let sub ← first (fault .findSub) (tx.subs.find existing.userSubscriptionId)
        .ok (⟨sub.id, existing.preConsumed, sub.amountTotal, sub.amountUsed, sub.amountUsed⟩, tx)
    | none =>
      -- a failing query is reported as an empty one
      if fault .findSubs ∨ activeSubs tx userId now = [] then .error .noActiveSubscription
      else consumeFirst cal fault requestId userId amount now tx (activeSubs tx userId now)

def preConsumeUserSubscription (db : Store) : Except Error SubscriptionPreConsumeResult × Store :=
  if userId ≤ 0 then (.error .invalidUserId, db)
  else if trimSpace requestId = "" then (.error .requestIdEmpty, db)
  else if amount ≤ 0 then (.error .amountNotPositive, db)
  else transaction fault db (preConsumeTx cal fault requestId userId amount now db)

def hasActiveUserSubscription (failed : Bool) (db : Store) (userId now : ℤ) : Except Error Bool :=
  if userId ≤ 0 then .error .invalidUserId
  else if failed then .error .database
  else .ok (0 < (db.subs.rows.filter (isActive userId now)).length)

section Spec

/-- The row as it is after the reset that is due at `now`, if one is. -/
def Due (cal : Calendar) (db : Store) (now : ℤ) (sub sub' : UserSubscription) : Prop :=
  sub' = sub ∨ ∃ plan, db.plans.find sub.planId = some plan ∧ maybeReset cal plan sub now = some sub'

variable {cal : Calendar} {fault : Faults} {requestId : String} {userId amount now : ℤ}

theorem Due.fields {db : Store} {a b : UserSubscription} (h : Due cal db now a b) :
    b.id = a.id ∧ b.userId = a.userId ∧ b.amountTotal = a.amountTotal ∧
      (b.amountUsed = 0 ∨ b.amountUsed = a.amountUsed) := by
  rcases h with rfl | ⟨plan, _, h⟩
  · exact ⟨rfl, rfl, rfl, .inr rfl⟩
  · obtain ⟨_, _, _, hu, rfl⟩ := maybeReset_cases cal plan h
    exact ⟨rfl, rfl, rfl, hu⟩

/-- A row is as it was or has been through its due reset; a missing one stays missing. -/
abbrev DueRow (cal : Calendar) (db : Store) (now : ℤ) :
    Option UserSubscription → Option UserSubscription → Prop := Option.Rel (Due cal db now)

theorem DueRow.refl {db : Store} (row : Option UserSubscription) : DueRow cal db now row row := by
  cases row with
  | none => exact .none
  | some sub => exact .some (.inl rfl)

/-- What a pre-consume leaves behind: `sub` paid, after the resets that were due. -/
structure Charged (cal : Calendar) (now : ℤ) (db db' : Store) (requestId : String)
    (userId amount : ℤ) (res : SubscriptionPreConsumeResult) (sub : UserSubscription) : Prop where
  found : DueRow cal db now (db.subs.find res.userSubscriptionId) (some sub)
  before : res.amountUsedBefore = sub.amountUsed
  after : res.amountUsedAfter = sub.amountUsed + amount
  preConsumed : res.preConsumed = amount
  fits : 0 < sub.amountTotal → sub.amountUsed + amount ≤ sub.amountTotal
  row : db'.subs.find res.userSubscriptionId =
    some { sub with amountUsed := sub.amountUsed + amount }
  others : ∀ id, id ≠ res.userSubscriptionId →
    DueRow cal db now (db.subs.find id) (db'.subs.find id)
  records : ∀ r, db'.records.find r =
    if requestId = r then some ⟨requestId, userId, res.userSubscriptionId, amount, .consumed⟩
    else db.records.find r

theorem resetTx_ok {plan : SubscriptionPlan} {tx tx' : Store} {sub sub' : UserSubscription}
    (hplan : tx.plans.find sub.planId = some plan) (hrow : tx.subs.find sub.id = some sub)
    (h : maybeResetUserSubscriptionWithPlanTx cal plan fault tx sub now = .ok (sub', tx')) :
    Due cal tx now sub sub' ∧ tx'.plans = tx.plans ∧ tx'.records = tx.records ∧
      tx'.subs.find sub.id = some sub' ∧
      ∀ id, id ≠ sub.id → tx'.subs.find id = tx.subs.find id := by
  unfold maybeResetUserSubscriptionWithPlanTx at h
  split at h
  · cases h
    exact ⟨.inl rfl, rfl, rfl, hrow, fun _ _ ↦ rfl⟩
  · rename_i sub₁ hr
    obtain ⟨_, _, h⟩ := bind_eq_ok.mp h
    cases h
    have hdue : Due cal tx now sub sub' := .inr ⟨plan, hplan, hr⟩
    have hid := hdue.fields.1
    refine ⟨hdue, rfl, rfl, ?_, ?_⟩
    · rw [← hid]
      exact Table.find_save_self (hid ▸ hrow)
    · intro id hne
      exact Table.find_save_of_ne _ (fun he ↦ hne (he.symm.trans hid))

theorem getPlan_ok {failed : Bool} {tx : Store} {id : ℤ} {plan : SubscriptionPlan}
    (h : getSubscriptionPlanByIdTx failed tx id = .ok plan) : tx.plans.find id = some plan := by
  unfold getSubscriptionPlanByIdTx at h
  split_ifs at h
  exact (first_eq_ok.mp h).2

theorem answerDuplicate_fresh {tx : Store} (hfresh : tx.records.find requestId = none)
    (sub : UserSubscription) : answerDuplicate fault requestId tx sub = .error .database := by
  unfold answerDuplicate first
  rw [hfresh]
  cases fault .findDup <;> rfl

/-- The store of a transaction that has so far only made due resets. -/
structure OnlyResets (cal : Calendar) (now : ℤ) (db tx : Store) : Prop where
  plans : tx.plans = db.plans
  records : tx.records = db.records
  rows : ∀ id, DueRow cal db now (db.subs.find id) (tx.subs.find id)

theorem consumeFrom_ok {db tx tx' : Store} {sub : UserSubscription}
    {res : SubscriptionPreConsumeResult} (hfresh : db.records.find requestId = none)
    (htx : OnlyResets cal now db tx) (hrow : tx.subs.find sub.id = some sub)
    (hfits : ¬(0 < sub.amountTotal ∧ sub.amountTotal - sub.amountUsed < amount))
    (h : consumeFrom fault requestId userId amount tx sub = .ok (res, tx')) :
    Charged cal now db tx' requestId userId amount res sub := by
  unfold consumeFrom at h
  dsimp only at h
  split at h
  · rw [answerDuplicate_fresh (htx.records ▸ hfresh)] at h
    cases h
  rename_i records hinsert
  split_ifs at hinsert
  obtain ⟨_, _, h⟩ := bind_eq_ok.mp h
  cases h
  refine ⟨?_, rfl, rfl, rfl, by omega, ?_, ?_, ?_⟩
  · exact hrow ▸ htx.rows sub.id
  · exact Table.find_save_self (a := { sub with amountUsed := sub.amountUsed + amount }) hrow
  · intro id hne
    have hsave := Table.find_save_of_ne tx.subs
      (a := { sub with amountUsed := sub.amountUsed + amount }) (Ne.symm hne)
    exact hsave ▸ htx.rows id
  · intro r
    rw [← htx.records]
    exact Table.find_insert hinsert r

theorem consumeFirst_ok {db : Store} (hfresh : db.records.find requestId = none)
    {candidates : List UserSubscription} {tx tx' : Store} {res : SubscriptionPreConsumeResult}
    (htx : OnlyResets cal now db tx)
    (hrows : ∀ c ∈ candidates, db.subs.find c.id = some c ∧ tx.subs.find c.id = some c)
    (hnodup : (candidates.map (·.id)).Nodup)
    (h : consumeFirst cal fault requestId userId amount now tx candidates = .ok (res, tx')) :
    ∃ sub, Charged cal now db tx' requestId userId amount res sub := by
  induction candidates generalizing tx with
  | nil => cases h
  | cons candidate rest ih =>
    obtain ⟨hnot, hnodup⟩ := List.nodup_cons.mp hnodup
    obtain ⟨hrow₀, hrow⟩ := hrows candidate List.mem_cons_self
    obtain ⟨plan, hplan, h⟩ := bind_eq_ok.mp h
    obtain ⟨⟨sub, tx₁⟩, hreset, h⟩ := bind_eq_ok.mp h
    obtain ⟨hdue, hp, hrec, hfind, hothers⟩ := resetTx_ok (getPlan_ok hplan) hrow hreset
    have hid : sub.id = candidate.id := hdue.fields.1
    have htx₁ : OnlyResets cal now db tx₁ := by
      refine ⟨hp.trans htx.plans, hrec.trans htx.records, fun id ↦ ?_⟩
      by_cases hc : id = candidate.id
      · subst hc
        rw [hfind, hrow₀]
        unfold Due at hdue
        rw [htx.plans] at hdue
        exact .some hdue
      · rw [hothers id hc]
        exact htx.rows id
    dsimp only at h
    by_cases hshort : 0 < sub.amountTotal ∧ sub.amountTotal - sub.amountUsed < amount
    · rw [if_pos hshort] at h
      refine ih htx₁ (fun c hc ↦ ?_) hnodup h
      have hne : c.id ≠ candidate.id := by
        intro he
        exact hnot (List.mem_map.mpr ⟨c, hc, he⟩)
      rw [hothers c.id hne]
      exact hrows c (List.mem_cons_of_mem _ hc)
    · rw [if_neg hshort] at h
      exact ⟨sub, consumeFrom_ok hfresh htx₁ (hid ▸ hfind) hshort h⟩

theorem activeSubs_rows (db : Store) : ∀ c ∈ activeSubs db userId now, db.subs.find c.id = some c := by
  intro c hc
  have hmem := (List.perm_insertionSort endsBefore _).mem_iff.mp hc
  exact Table.find_of_mem (List.mem_of_mem_filter hmem)

theorem activeSubs_nodup (db : Store) : ((activeSubs db userId now).map (·.id)).Nodup := by
  have hperm := (List.perm_insertionSort endsBefore (db.subs.rows.filter (isActive userId now))).map
    (·.id)
  refine hperm.nodup_iff.mpr ?_
  exact db.subs.nodup.sublist (List.filter_sublist.map _)

/-- For a fresh request id the call either fails and changes nothing, or one
subscription pays and the request is recorded. -/
theorem preConsume_cases (cal : Calendar) (fault : Faults) (userId amount now : ℤ) {db : Store}
    (hfresh : db.records.find requestId = none) :
    (∃ e, preConsumeUserSubscription cal fault requestId userId amount now db = (.error e, db)) ∨
      ∃ res db' sub, 0 < amount ∧ Charged cal now db db' requestId userId amount res sub ∧
        preConsumeUserSubscription cal fault requestId userId amount now db = (.ok res, db') := by
  unfold preConsumeUserSubscription
  split_ifs with hu hn ha
  · exact .inl ⟨_, rfl⟩
  · exact .inl ⟨_, rfl⟩
  · exact .inl ⟨_, rfl⟩
  rcases transaction_cases fault db (preConsumeTx cal fault requestId userId amount now db) with
    ⟨e, he⟩ | ⟨res, db', _, _, hbody, hr⟩
  · exact .inl ⟨e, he⟩
  unfold preConsumeTx at hbody
  rw [hfresh] at hbody
  split_ifs at hbody
  obtain ⟨sub, hc⟩ := consumeFirst_ok hfresh ⟨rfl, rfl, fun _ ↦ DueRow.refl _⟩
    (fun c hc ↦ ⟨activeSubs_rows db c hc, activeSubs_rows db c hc⟩) (activeSubs_nodup db) hbody
  exact .inr ⟨res, db', sub, by omega, hc, hr⟩

end Spec

end AllAiTools.NewApi.Model.SubscriptionPreConsume
