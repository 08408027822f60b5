import AllAiTools.NewApi.Model.SubscriptionSweep

namespace AllAiTools.NewApi.Model.PreConsumeTwice

open Foundation Foundation.Result Common.Str Subscription SubscriptionPreConsume SubscriptionReset
open SubscriptionSweep

/-- The arguments of both calls, as far as the code does not refuse them. -/
structure Request where
  requestId : String
  userId : ℤ
  amount : ℤ
  userId_pos : 0 < userId
  requestId_nonempty : trimSpace requestId ≠ ""
  amount_pos : 0 < amount

/-- Where the first call's commit falls in the second: before it, or after its query for the
record, and then before or after its query for the subscriptions. -/
inductive Second
  | after
  | racing (late : Bool)
  deriving DecidableEq

abbrev Outcome := Except Error SubscriptionPreConsumeResult × Store

section Calls

variable (cal : Calendar) (r : Request)

def noFault : Faults := fun _ ↦ false

def call (now : ℤ) (db : Store) : Outcome :=
  preConsumeUserSubscription cal noFault r.requestId r.userId r.amount now db

def payFrom (now : ℤ) (tx : Store) (subs : List UserSubscription) :
    Except Error (SubscriptionPreConsumeResult × Store) :=
  if subs = [] then .error .noActiveSubscription
  else consumeFirst cal noFault r.requestId r.userId r.amount now tx subs

/-- The second call, on what the first left of `db`. Its writes wait for the first's commit. -/
def secondCall (how : Second) (now : ℤ) (db left : Store) : Outcome :=
  match how with
  | .after => call cal r now left
  | .racing late =>
    if (db.records.find r.requestId).isSome then call cal r now left
    else
      let view := if late then left else db
      transaction noFault left (payFrom cal r now left (activeSubs view r.userId now))

/-- Both calls, the first at `nowA` and the second at `nowB`. -/
def twice (how : Second) (nowA nowB : ℤ) (db : Store) : Outcome × Outcome :=
  let outA := call cal r nowA db
  (outA, secondCall cal r how nowB db outA.2)

end Calls

section Spec

variable (cal : Calendar) (r : Request)

/-- What is left after a due reset covers the amount. -/
def Covers (plans : Table SubscriptionPlan.id) (now : ℤ) (sub : UserSubscription) : Prop :=
  ¬ (0 < (renewed cal now plans sub).amountTotal ∧
    (renewed cal now plans sub).amountTotal - (renewed cal now plans sub).amountUsed < r.amount)

instance (plans : Table SubscriptionPlan.id) (now : ℤ) (sub : UserSubscription) :
    Decidable (Covers cal r plans now sub) := inferInstanceAs (Decidable (¬ _))

/-- The earliest-ending active subscription that covers the amount. -/
structure Earliest (db : Store) (now : ℤ) (c : UserSubscription) : Prop where
  mem : c ∈ db.subs.rows
  active : isActive r.userId now c
  covers : Covers cal r db.plans now c
  first : ∀ sub ∈ db.subs.rows, isActive r.userId now sub → Covers cal r db.plans now sub →
    endsBefore c sub

def charged (db : Store) (now : ℤ) (c : UserSubscription) : UserSubscription :=
  { renewed cal now db.plans c with
    amountUsed := (renewed cal now db.plans c).amountUsed + r.amount }

/-- A call that charges `c` and leaves the others, apart from their due resets. -/
structure Paid (db : Store) (now : ℤ) (c : UserSubscription) (out : Outcome) : Prop where
  answer : ∃ a, out.1 = .ok a ∧ a.userSubscriptionId = c.id
  record : out.2.records.find r.requestId =
    some ⟨r.requestId, r.userId, c.id, r.amount, .consumed⟩
  row : out.2.subs.find c.id = some (charged cal r db now c)
  others : ∀ k, k ≠ c.id → DueRow cal db now (db.subs.find k) (out.2.subs.find k)

structure PaysEarliest (db : Store) (now : ℤ) (out : Outcome) : Prop where
  pays : ∀ c, Earliest cal r db now c → Paid cal r db now c out
  refuses : (∀ c, ¬ Earliest cal r db now c) → ∃ e, out = (.error e, db)

/-- A call that answers like the one before it and charges nothing. -/
structure Repeats (db : Store) (nowA nowB : ℤ) (c : UserSubscription) (outA outB : Outcome) :
    Prop where
  answer : ∃ a, outB.1 = .ok a ∧ a.userSubscriptionId = c.id
  records : outB.2.records = outA.2.records
  row : DueRow cal db nowB (outA.2.subs.find c.id) (outB.2.subs.find c.id)
  others : ∀ k, k ≠ c.id → ∃ mid, DueRow cal db nowA (db.subs.find k) mid ∧
    DueRow cal db nowB mid (outB.2.subs.find k)

structure PaidOnce (nowA nowB : ℤ) (db : Store) (outA outB : Outcome) : Prop where
  recorded : ∀ record, db.records.find r.requestId = some record →
    outA.2 = db ∧ outB = outA ∧ ∀ a, outA.1 = .ok a → a.userSubscriptionId = record.userSubscriptionId
  pays : db.records.find r.requestId = none → PaysEarliest cal r db nowA outA
  repeats : db.records.find r.requestId = none → ∀ c, Earliest cal r db nowA c →
    Repeats cal db nowA nowB c outA outB
  tries : db.records.find r.requestId = none → (∀ c, ¬ Earliest cal r db nowA c) →
    PaysEarliest cal r db nowB outB

end Spec

section Condition

variable (cal : Calendar) (r : Request)

def renewal (plans : Table SubscriptionPlan.id) (now : ℤ) (sub : UserSubscription) :
    Option UserSubscription :=
  (planOf plans sub).bind fun plan ↦ maybeReset cal plan sub now

/-- No active subscription up to `c` has lost its plan. -/
def Planned (db : Store) (now : ℤ) (c : UserSubscription) : Prop :=
  ∀ sub ∈ db.subs.rows, isActive r.userId now sub → endsBefore sub c → (planOf db.plans sub).isSome

def resetRow (now : ℤ) (tx : Store) (sub : UserSubscription) : Store :=
  match renewal cal tx.plans now sub with
  | none => tx
  | some sub' => { tx with subs := tx.subs.save sub' }

def upTo (db : Store) (now : ℤ) (c : UserSubscription) : List UserSubscription :=
  (activeSubs db r.userId now).filter fun sub ↦ endsBefore sub c

/-- The subscriptions with those up to `c` through their due resets and `c` charged. -/
def afterCharge (db : Store) (now : ℤ) (c : UserSubscription) : Store :=
  let tx := (upTo r db now c).foldl (resetRow cal now) db
  { tx with subs := tx.subs.save (charged cal r db now c) }

/-- A second call that has not seen the record still comes to the same subscription, and does not
write over its charge: a reset that both calls make is due again. -/
def Harmless (how : Second) (nowA nowB : ℤ) (db : Store) (c : UserSubscription) : Prop :=
  match how with
  | .after => True
  | .racing true => ∃ c', c'.id = c.id ∧ Earliest cal r (afterCharge cal r db nowA c) nowB c' ∧
      Planned r (afterCharge cal r db nowA c) nowB c'
  | .racing false => Earliest cal r db nowB c ∧ Planned r db nowB c ∧
      ((renewal cal db.plans nowA c).isSome → (renewal cal db.plans nowB c).isSome →
        (renewal cal db.plans nowB (renewed cal nowA db.plans c)).isSome)

end Condition

section Order

variable {cal : Calendar} {r : Request} {db : Store} {now : ℤ} {c : UserSubscription}

theorem endsBefore_antisymm {a b : UserSubscription} (hab : endsBefore a b) (hba : endsBefore b a) :
    a.id = b.id := by
  unfold endsBefore at hab hba
  omega

theorem activeSubs_sorted (db : Store) (userId now : ℤ) :
    (activeSubs db userId now).Pairwise endsBefore := by
  have htrans : IsTrans UserSubscription endsBefore := ⟨fun a b c hab hbc ↦ by
    unfold endsBefore at *
    omega⟩
  have htotal : Std.Total endsBefore := ⟨fun a b ↦ by
    unfold endsBefore
    omega⟩
  exact List.pairwise_insertionSort endsBefore _

theorem mem_activeSubs {userId : ℤ} {sub : UserSubscription} :
    sub ∈ activeSubs db userId now ↔ sub ∈ db.subs.rows ∧ isActive userId now sub := by
  rw [activeSubs, (List.perm_insertionSort _ _).mem_iff, List.mem_filter]

/-- The subscriptions before `c` in the order of the query, and those after it. -/
theorem split_at (hc : c ∈ activeSubs db r.userId now) : ∃ before later,
    activeSubs db r.userId now = before ++ c :: later ∧
      upTo r db now c = before ++ [c] ∧ ∀ sub ∈ before, sub.id ≠ c.id := by
  obtain ⟨before, later, hsplit⟩ := List.append_of_mem hc
  have hsorted := activeSubs_sorted db r.userId now
  have hnodup : ((activeSubs db r.userId now).map (·.id)).Nodup := activeSubs_nodup db
  rw [hsplit] at hsorted hnodup
  rw [List.map_append, List.nodup_append] at hnodup
  obtain ⟨_, hsuffix, hacross⟩ := List.pairwise_append.mp hsorted
  have hbefore : ∀ sub ∈ before, endsBefore sub c := fun sub hsub ↦
    hacross sub hsub c List.mem_cons_self
  have hlater : ∀ sub ∈ later, ¬ endsBefore sub c := by
    intro sub hsub hle
    have hid := endsBefore_antisymm hle ((List.pairwise_cons.mp hsuffix).1 sub hsub)
    exact (List.nodup_cons.mp hnodup.2.1).1 (List.mem_map.mpr ⟨sub, hsub, hid⟩)
  refine ⟨before, later, hsplit, ?_, ?_⟩
  · have hself : endsBefore c c := .inr ⟨rfl, le_rfl⟩
    have hleft : before.filter (fun sub ↦ decide (endsBefore sub c)) = before :=
      List.filter_eq_self.mpr fun sub hsub ↦ decide_eq_true (hbefore sub hsub)
    have hright : later.filter (fun sub ↦ decide (endsBefore sub c)) = [] :=
      List.filter_eq_nil_iff.mpr fun sub hsub ↦ by simpa using hlater sub hsub
    rw [upTo, hsplit, List.filter_append, List.filter_cons, if_pos (decide_eq_true hself), hleft,
      hright]
  · intro sub hsub hid
    exact hnodup.2.2 sub.id (List.mem_map_of_mem hsub) c.id (List.mem_map_of_mem List.mem_cons_self) hid

theorem mem_upTo {sub : UserSubscription} : sub ∈ upTo r db now c ↔
    sub ∈ db.subs.rows ∧ isActive r.userId now sub ∧ endsBefore sub c := by
  rw [upTo, List.mem_filter, mem_activeSubs, decide_eq_true_iff, and_assoc]

theorem planned_iff : Planned r db now c ↔ ∀ sub ∈ upTo r db now c, (planOf db.plans sub).isSome := by
  constructor
  · intro h sub hsub
    obtain ⟨hmem, hactive, hle⟩ := mem_upTo.mp hsub
    exact h sub hmem hactive hle
  · intro h sub hmem hactive hle
    exact h sub (mem_upTo.mpr ⟨hmem, hactive, hle⟩)

/-- The subscriptions before the one that pays do not cover the amount. -/
theorem Earliest.split (h : Earliest cal r db now c) : ∃ before later,
    activeSubs db r.userId now = before ++ c :: later ∧ upTo r db now c = before ++ [c] ∧
      ∀ sub ∈ before, ¬ Covers cal r db.plans now sub := by
  obtain ⟨before, later, hsplit, hupTo, hids⟩ := split_at (mem_activeSubs.mpr ⟨h.mem, h.active⟩)
  refine ⟨before, later, hsplit, hupTo, fun sub hsub hcovers ↦ ?_⟩
  obtain ⟨hmem, hactive, hle⟩ := mem_upTo.mp (hupTo ▸ List.mem_append_left [c] hsub)
  exact hids sub hsub (endsBefore_antisymm hle (h.first sub hmem hactive hcovers))

/-- Either no active subscription covers the amount or one is the earliest that does. -/
theorem earliest_or_none (cal : Calendar) (r : Request) (db : Store) (now : ℤ) :
    (∃ c, Earliest cal r db now c) ∨
      ∀ sub ∈ activeSubs db r.userId now, ¬ Covers cal r db.plans now sub := by
  cases hfind : (activeSubs db r.userId now).find? fun sub ↦ Covers cal r db.plans now sub with
  | none =>
    refine .inr fun sub hsub ↦ ?_
    simpa using List.find?_eq_none.mp hfind sub hsub
  | some c =>
    obtain ⟨hcovers, before, later, hsplit, hbefore⟩ := List.find?_eq_some_iff_append.mp hfind
    have hc : c ∈ activeSubs db r.userId now := List.mem_of_find?_eq_some hfind
    obtain ⟨hmem, hactive⟩ := mem_activeSubs.mp hc
    refine .inl ⟨c, hmem, hactive, of_decide_eq_true hcovers, ?_⟩
    intro sub hsub hsubActive hsubCovers
    have hin : sub ∈ before ++ c :: later := hsplit ▸ mem_activeSubs.mpr ⟨hsub, hsubActive⟩
    have hsorted := activeSubs_sorted db r.userId now
    rw [hsplit] at hsorted
    rcases List.mem_append.mp hin with hsooner | hrest
    · have hnot := hbefore sub hsooner
      simp only [Bool.not_eq_true', decide_eq_false_iff_not] at hnot
      exact absurd hsubCovers hnot
    · rcases List.mem_cons.mp hrest with rfl | hlater
      · exact .inr ⟨rfl, le_rfl⟩
      · exact (List.pairwise_cons.mp (List.pairwise_append.mp hsorted).2.1).1 sub hlater

end Order

section Walk

variable {cal : Calendar} {r : Request} {now : ℤ}

theorem renewed_eq (plans : Table SubscriptionPlan.id) (sub : UserSubscription) :
    renewed cal now plans sub = (renewal cal plans now sub).getD sub := rfl

theorem maybeReset_tx {tx : Store} {sub : UserSubscription} {plan : SubscriptionPlan}
    (hplan : planOf tx.plans sub = some plan) :
    maybeResetUserSubscriptionWithPlanTx cal plan noFault tx sub now =
      .ok (renewed cal now tx.plans sub, resetRow cal now tx sub) := by
  rw [renewed_eq, resetRow, renewal, hplan, Option.bind_some, maybeResetUserSubscriptionWithPlanTx]
  cases maybeReset cal plan sub now with
  | none => rfl
  | some sub' => rfl

theorem resetRow_plans (tx : Store) (sub : UserSubscription) :
    (resetRow cal now tx sub).plans = tx.plans := by
  unfold resetRow
  split <;> rfl

theorem resetRow_records (tx : Store) (sub : UserSubscription) :
    (resetRow cal now tx sub).records = tx.records := by
  unfold resetRow
  split <;> rfl

theorem consumeFirst_cons {tx : Store} {sub : UserSubscription}
    (hplan : (planOf tx.plans sub).isSome) (rest : List UserSubscription) :
    consumeFirst cal noFault r.requestId r.userId r.amount now tx (sub :: rest) =
      if Covers cal r tx.plans now sub then
        consumeFrom noFault r.requestId r.userId r.amount (resetRow cal now tx sub)
          (renewed cal now tx.plans sub)
      else consumeFirst cal noFault r.requestId r.userId r.amount now (resetRow cal now tx sub) rest := by
  obtain ⟨plan, hsome⟩ := Option.isSome_iff_exists.mp hplan
  have hget : getSubscriptionPlanByIdTx (noFault (.findPlan sub.id)) tx sub.planId = .ok plan :=
    getPlan_of_planOf hsome
  rw [consumeFirst, hget, bind_ok, maybeReset_tx hsome, bind_ok]
  exact (ite_not _ _ _).symm

theorem consumeFirst_unplanned {tx : Store} {sub : UserSubscription}
    (hplan : planOf tx.plans sub = none) (rest : List UserSubscription) :
    ∃ e, consumeFirst cal noFault r.requestId r.userId r.amount now tx (sub :: rest) = .error e := by
  obtain ⟨e, he⟩ := getPlan_of_none hplan
  have hget : getSubscriptionPlanByIdTx (noFault (.findPlan sub.id)) tx sub.planId = .error e := he
  exact ⟨e, by rw [consumeFirst, hget]; rfl⟩

/-- The loop goes through subscriptions that do not cover the amount. -/
theorem consumeFirst_append {tx : Store} {before : List UserSubscription}
    (hplans : ∀ sub ∈ before, (planOf tx.plans sub).isSome)
    (hshort : ∀ sub ∈ before, ¬ Covers cal r tx.plans now sub) (rest : List UserSubscription) :
    consumeFirst cal noFault r.requestId r.userId r.amount now tx (before ++ rest) =
      consumeFirst cal noFault r.requestId r.userId r.amount now
        (before.foldl (resetRow cal now) tx) rest := by
  induction before generalizing tx with
  | nil => rfl
  | cons sub before ih =>
    have hsub : sub ∈ sub :: before := List.mem_cons_self
    rw [List.cons_append, consumeFirst_cons (hplans sub hsub), if_neg (hshort sub hsub)]
    refine ih ?_ ?_
    · intro other hother
      rw [resetRow_plans]
      exact hplans other (List.mem_cons_of_mem sub hother)
    · intro other hother
      rw [resetRow_plans]
      exact hshort other (List.mem_cons_of_mem sub hother)

/-- A missing plan ends the loop as much as the end of the list does. -/
theorem consumeFirst_stops {tx : Store} {before rest : List UserSubscription}
    (hshort : ∀ sub ∈ before, ¬ Covers cal r tx.plans now sub)
    (hrest : ∀ tx', tx'.plans = tx.plans → (∀ sub ∈ before, (planOf tx.plans sub).isSome) →
      ∃ e, consumeFirst cal noFault r.requestId r.userId r.amount now tx' rest = .error e) :
    ∃ e, consumeFirst cal noFault r.requestId r.userId r.amount now tx (before ++ rest) = .error e := by
  induction before generalizing tx with
  | nil => exact hrest tx rfl fun _ hsub ↦ absurd hsub List.not_mem_nil
  | cons sub before ih =>
    rw [List.cons_append]
    cases hplan : planOf tx.plans sub with
    | none => exact consumeFirst_unplanned hplan _
    | some plan =>
      have hsome : (planOf tx.plans sub).isSome := by rw [hplan]; rfl
      rw [consumeFirst_cons hsome, if_neg (hshort sub List.mem_cons_self)]
      refine ih ?_ ?_
      · intro other hother
        rw [resetRow_plans]
        exact hshort other (List.mem_cons_of_mem sub hother)
      · intro tx' htx' hplans
        rw [resetRow_plans] at htx' hplans
        exact hrest tx' htx' (List.forall_mem_cons.mpr ⟨hsome, hplans⟩)

variable {view tx : Store} {c : UserSubscription}

theorem foldl_plans (rows : List UserSubscription) (tx : Store) :
    (rows.foldl (resetRow cal now) tx).plans = tx.plans := by
  induction rows generalizing tx with
  | nil => rfl
  | cons sub rows ih => exact (ih _).trans (resetRow_plans tx sub)

theorem payFrom_pays (hplans : tx.plans = view.plans) (hc : Earliest cal r view now c)
    (hplanned : Planned r view now c) :
    payFrom cal r now tx (activeSubs view r.userId now) =
      consumeFrom noFault r.requestId r.userId r.amount
        ((upTo r view now c).foldl (resetRow cal now) tx) (renewed cal now view.plans c) := by
  obtain ⟨before, later, hsplit, hupTo, hshort⟩ := hc.split
  have hfound := planned_iff.mp hplanned
  rw [hupTo, ← hplans] at hfound
  have hcovers : Covers cal r (before.foldl (resetRow cal now) tx).plans now c := by
    rw [foldl_plans, hplans]
    exact hc.covers
  have hlast : (planOf (before.foldl (resetRow cal now) tx).plans c).isSome := by
    rw [foldl_plans]
    exact hfound c (List.mem_append_right _ List.mem_cons_self)
  have hne : before ++ c :: later ≠ [] := by simp
  rw [payFrom, hsplit, if_neg hne,
    consumeFirst_append (fun sub hsub ↦ hfound sub (List.mem_append_left _ hsub)) (hplans ▸ hshort),
    consumeFirst_cons hlast, if_pos hcovers, hupTo, List.foldl_append, foldl_plans, hplans]
  rfl

theorem payFrom_unplanned (hplans : tx.plans = view.plans) (hc : Earliest cal r view now c)
    (hplanned : ¬ Planned r view now c) :
    ∃ e, payFrom cal r now tx (activeSubs view r.userId now) = .error e := by
  obtain ⟨before, later, hsplit, hupTo, hshort⟩ := hc.split
  have hne : before ++ c :: later ≠ [] := by simp
  rw [payFrom, hsplit, if_neg hne]
  refine consumeFirst_stops (hplans ▸ hshort) ?_
  intro tx' htx' hbefore
  cases hplan : planOf tx'.plans c with
  | none => exact consumeFirst_unplanned hplan later
  | some plan =>
    refine absurd (planned_iff.mpr ?_) hplanned
    rw [hupTo, ← hplans]
    refine List.forall_mem_append.mpr ⟨hbefore, List.forall_mem_singleton.mpr ?_⟩
    rw [← htx', hplan]
    rfl

theorem payFrom_refuses (hplans : tx.plans = view.plans) (hnone : ∀ c, ¬ Earliest cal r view now c) :
    ∃ e, payFrom cal r now tx (activeSubs view r.userId now) = .error e := by
  unfold payFrom
  split_ifs
  · exact ⟨_, rfl⟩
  · rcases earliest_or_none cal r view now with ⟨c, hc⟩ | hshort
    · exact absurd hc (hnone c)
    · rw [← List.append_nil (activeSubs view r.userId now)]
      refine consumeFirst_stops (hplans ▸ hshort) fun _ _ _ ↦ ⟨_, rfl⟩

end Walk

section Rows

variable {cal : Calendar} {r : Request} {now : ℤ}

theorem renewal_id {plans : Table SubscriptionPlan.id} {sub sub' : UserSubscription}
    (h : renewal cal plans now sub = some sub') : sub'.id = sub.id := by
  obtain ⟨plan, _, hreset⟩ := Option.bind_eq_some_iff.mp h
  obtain ⟨used, last, next, _, rfl⟩ := maybeReset_cases cal plan hreset
  rfl

theorem renewal_due {db : Store} {sub sub' : UserSubscription}
    (h : renewal cal db.plans now sub = some sub') : Due cal db now sub sub' := by
  obtain ⟨plan, hplan, hreset⟩ := Option.bind_eq_some_iff.mp h
  unfold planOf at hplan
  split_ifs at hplan
  exact .inr ⟨plan, hplan, hreset⟩

theorem renewed_due (db : Store) (sub : UserSubscription) :
    Due cal db now sub (renewed cal now db.plans sub) := by
  rw [renewed_eq]
  cases hr : renewal cal db.plans now sub with
  | none => exact .inl rfl
  | some sub' => exact renewal_due hr

/-- The row that is stored after the reset of `sub`, where `row` was. -/
def written (cal : Calendar) (plans : Table SubscriptionPlan.id) (now : ℤ) (sub : UserSubscription)
    (row : Option UserSubscription) : Option UserSubscription :=
  match renewal cal plans now sub with
  | none => row
  | some sub' => row.map fun _ ↦ sub'

theorem resetRow_find (tx : Store) (sub : UserSubscription) (k : ℤ) :
    (resetRow cal now tx sub).subs.find k =
      if sub.id = k then written cal tx.plans now sub (tx.subs.find k) else tx.subs.find k := by
  rw [resetRow, written]
  cases hr : renewal cal tx.plans now sub with
  | none => exact (ite_self _).symm
  | some sub' =>
    rw [← renewal_id hr]
    exact Table.find_save tx.subs sub' k

theorem foldl_find_other {rows : List UserSubscription} {tx : Store} {k : ℤ}
    (hk : ∀ sub ∈ rows, sub.id ≠ k) :
    (rows.foldl (resetRow cal now) tx).subs.find k = tx.subs.find k := by
  induction rows generalizing tx with
  | nil => rfl
  | cons sub rows ih =>
    have hothers : ∀ other ∈ rows, other.id ≠ k := fun other hother ↦
      hk other (List.mem_cons_of_mem sub hother)
    refine (ih hothers).trans ?_
    rw [resetRow_find, if_neg (hk sub List.mem_cons_self)]

theorem foldl_find {rows : List UserSubscription} {tx : Store} (hnodup : (rows.map (·.id)).Nodup)
    {sub : UserSubscription} (hsub : sub ∈ rows) :
    (rows.foldl (resetRow cal now) tx).subs.find sub.id =
      written cal tx.plans now sub (tx.subs.find sub.id) := by
  induction rows generalizing tx with
  | nil => exact absurd hsub List.not_mem_nil
  | cons first rows ih =>
    obtain ⟨hnot, hnodup⟩ := List.nodup_cons.mp hnodup
    rcases List.mem_cons.mp hsub with rfl | hlater
    · have hothers : ∀ other ∈ rows, other.id ≠ sub.id := fun other hother hid ↦
        hnot (List.mem_map.mpr ⟨other, hother, hid⟩)
      exact (foldl_find_other hothers).trans (by rw [resetRow_find, if_pos rfl])
    · have hne : first.id ≠ sub.id := fun hid ↦ hnot (List.mem_map.mpr ⟨sub, hlater, hid.symm⟩)
      refine (ih hnodup hlater).trans ?_
      rw [resetRow_plans, resetRow_find, if_neg hne]

variable (cal now) in
theorem foldl_records (rows : List UserSubscription) (tx : Store) :
    (rows.foldl (resetRow cal now) tx).records = tx.records := by
  induction rows generalizing tx with
  | nil => rfl
  | cons sub rows ih => exact (ih _).trans (resetRow_records tx sub)

theorem upTo_nodup (r : Request) (db : Store) (now : ℤ) (c : UserSubscription) :
    ((upTo r db now c).map (·.id)).Nodup :=
  (activeSubs_nodup db).sublist (List.filter_sublist.map _)

variable (cal r now) in
/-- What the resets of the rows of `view` write in `tx`. -/
theorem upTo_find (view : Store) {tx : Store} (hplans : tx.plans = view.plans) (c : UserSubscription)
    (k : ℤ) :
    (∃ sub ∈ upTo r view now c, sub.id = k ∧ view.subs.find k = some sub ∧
      ((upTo r view now c).foldl (resetRow cal now) tx).subs.find k =
        written cal view.plans now sub (tx.subs.find k)) ∨
    ((upTo r view now c).foldl (resetRow cal now) tx).subs.find k = tx.subs.find k := by
  by_cases hk : ∃ sub ∈ upTo r view now c, sub.id = k
  · obtain ⟨sub, hsub, rfl⟩ := hk
    refine .inl ⟨sub, hsub, rfl, Table.find_of_mem (mem_upTo.mp hsub).1, ?_⟩
    rw [foldl_find (upTo_nodup r view now c) hsub, hplans]
  · exact .inr (foldl_find_other fun sub hsub hid ↦ hk ⟨sub, hsub, hid⟩)

variable (cal r now) in
theorem upTo_due (db : Store) (c : UserSubscription) (k : ℤ) : DueRow cal db now (db.subs.find k)
    (((upTo r db now c).foldl (resetRow cal now) db).subs.find k) := by
  rcases upTo_find cal r now db rfl c k with ⟨sub, _, _, hrow, hfind⟩ | hfind
  · rw [hfind, hrow, written]
    cases hr : renewal cal db.plans now sub with
    | none => exact .refl _
    | some sub' => exact .some (renewal_due hr)
  · rw [hfind]
    exact .refl _

end Rows

section Stale

variable {cal : Calendar} {plan : SubscriptionPlan} {nowA nowB : ℤ}

/-- What a reset saves: a new period with nothing used, or the time of the first reset. -/
theorem maybeReset_inv {sub sub' : UserSubscription} {now : ℤ}
    (h : maybeReset cal plan sub now = some sub') :
    ¬ (0 < sub.nextResetTime ∧ now < sub.nextResetTime) ∧
    (Advances cal now plan sub ∧ sub' = { sub with
        amountUsed := 0
        lastResetTime := (advance cal plan sub.endTime now (periodStart sub)).1
        nextResetTime := (advance cal plan sub.endTime now (periodStart sub)).2 } ∨
      ¬ Advances cal now plan sub ∧ ResetPeriod.never ≠ normalizeResetPeriod plan.quotaResetPeriod ∧
        sub.nextResetTime = 0 ∧ 0 < calcNextResetTime cal plan (periodStart sub) sub.endTime ∧
        sub' = { sub with
          lastResetTime := periodStart sub
          nextResetTime := calcNextResetTime cal plan (periodStart sub) sub.endTime }) := by
  unfold maybeReset at h
  dsimp only at h
  rw [← periodStart] at h
  split_ifs at h with hlater hnever hdue hfirst
  · cases h
    exact ⟨hlater, .inl ⟨⟨fun heq ↦ hnever heq.symm, hdue⟩, rfl⟩⟩
  · cases h
    rw [advance] at hfirst
    simp only [if_neg hdue] at hfirst
    refine ⟨hlater, .inr ⟨fun hadv ↦ hdue hadv.2, fun heq ↦ hnever heq.symm, hfirst.1, hfirst.2, ?_⟩⟩
    rw [advance]
    simp only [if_neg hdue]

/-- A subscription without a reset time gets one, whenever it is looked at. -/
theorem maybeReset_first {sub : UserSubscription} (now : ℤ)
    (hperiod : ResetPeriod.never ≠ normalizeResetPeriod plan.quotaResetPeriod)
    (hzero : sub.nextResetTime = 0)
    (hnext : 0 < calcNextResetTime cal plan (periodStart sub) sub.endTime) :
    (maybeReset cal plan sub now).isSome := by
  have hlater : ¬ (0 < sub.nextResetTime ∧ now < sub.nextResetTime) := by omega
  by_cases hadvances : Advances cal now plan sub
  · rw [maybeReset_advances _ hlater hadvances]
    rfl
  have hdue : ¬ (0 < calcNextResetTime cal plan (periodStart sub) sub.endTime ∧
      calcNextResetTime cal plan (periodStart sub) sub.endTime ≤ now) :=
    fun hdue ↦ hadvances ⟨hperiod, hdue⟩
  have hadvance : (advance cal plan sub.endTime now (periodStart sub)).2 =
      calcNextResetTime cal plan (periodStart sub) sub.endTime := by
    rw [advance]
    simp only [if_neg hdue]
  rw [maybeReset, if_neg hlater, if_neg hperiod.symm]
  dsimp only
  rw [← periodStart, if_neg hdue, hadvance, if_pos ⟨hzero, hnext⟩]
  rfl

/-- The used amount does not decide whether a reset is due. -/
theorem maybeReset_used (sub : UserSubscription) (now used : ℤ) :
    (maybeReset cal plan { sub with amountUsed := used } now).isSome =
      (maybeReset cal plan sub now).isSome := by
  unfold maybeReset
  dsimp only
  split_ifs <;> rfl

/-- A loop that goes on from where another has ended comes to where it would have come anyway. -/
theorem advance_advance {endTime base : ℤ}
    (h : (advance cal plan endTime nowA base).1 ≤ nowB) :
    advance cal plan endTime nowB (advance cal plan endTime nowA base).1 =
      advance cal plan endTime nowB base := by
  induction base using advance.induct cal plan endTime nowA with
  | case1 base next hdue ih =>
    rw [advance, if_pos hdue] at h
    have hreach : next ≤ nowB := (advance_ge cal plan endTime nowA next).trans h
    have hstep : advance cal plan endTime nowB base = advance cal plan endTime nowB next := by
      rw [advance, if_pos ⟨hdue.1, hreach⟩]
    have hsame : advance cal plan endTime nowA base = advance cal plan endTime nowA next := by
      rw [advance, if_pos hdue]
    rw [hstep, hsame]
    exact ih h
  | case2 base next hnot =>
    have hsame : (advance cal plan endTime nowA base).1 = base := advance_of_not_due hnot
    rw [hsame]

theorem calcNext_le_advance {endTime base : ℤ} (h : 0 < calcNextResetTime cal plan base endTime ∧
    calcNextResetTime cal plan base endTime ≤ nowA) :
    calcNextResetTime cal plan base endTime ≤ (advance cal plan endTime nowA base).1 := by
  have hge := advance_ge cal plan endTime nowA (calcNextResetTime cal plan base endTime)
  rw [advance]
  simp only [if_pos h]
  exact hge

/-- A row the first call has reset is due again for the second only if the second's reset of the row
before that comes to the same. -/
theorem maybeReset_again {sub first second : UserSubscription}
    (hA : maybeReset cal plan sub nowA = some first) (hagain : (maybeReset cal plan first nowB).isSome)
    (hB : maybeReset cal plan sub nowB = some second) (used : ℤ) :
    maybeReset cal plan { first with amountUsed := used } nowB = some second := by
  obtain ⟨third, hthird⟩ := Option.isSome_iff_exists.mp hagain
  obtain ⟨_, hfirst⟩ := maybeReset_inv hA
  obtain ⟨_, hsecond⟩ := maybeReset_inv hB
  obtain ⟨hnow, hthird⟩ := maybeReset_inv hthird
  rcases hfirst with ⟨hadvA, hfirst⟩ | ⟨_, _, _, hpos, hfirst⟩
  · -- the first call has advanced the row, past the point where it would be its first reset time
    obtain ⟨hlt, hlast⟩ := advance_of_due hadvA.2
    obtain ⟨hnext, _⟩ := advance_next cal plan sub.endTime nowA (periodStart sub)
    have hstart : periodStart first = (advance cal plan sub.endTime nowA (periodStart sub)).1 := by
      rw [hfirst]
      exact periodStart_of_pos rfl hlast
    have hend : first.endTime = sub.endTime := by rw [hfirst]
    have hfirstNext : first.nextResetTime = calcNextResetTime cal plan (periodStart first) sub.endTime := by
      rw [hstart, ← hnext, hfirst]
    rcases hthird with ⟨hadvB, _⟩ | ⟨_, _, hzero, hpos, _⟩
    · have hdueB := hadvB.2
      rw [hend] at hdueB
      have hgt := calcNextResetTime_gt cal plan hdueB.1
      have hreach : (advance cal plan sub.endTime nowA (periodStart sub)).1 ≤ nowB := by
        rw [← hstart]
        exact hgt.le.trans hdueB.2
      have hsame := advance_advance hreach
      rcases hsecond with ⟨_, hsecond⟩ | ⟨hnotB, hperiod, _, hpos, _⟩
      · rw [maybeReset_advances { first with amountUsed := used } hnow hadvB, hsecond, ← hsame,
          ← hstart, ← hend, hfirst]
        rfl
      · exact absurd ⟨hperiod, hpos, (calcNext_le_advance hadvA.2).trans hreach⟩ hnotB
    · rw [hend, ← hfirstNext, hzero] at hpos
      exact absurd hpos (lt_irrefl 0)
  · have hstart : periodStart first = periodStart sub := by
      rw [hfirst]
      exact periodStart_kept rfl rfl
    have hend : first.endTime = sub.endTime := by rw [hfirst]
    have hfirstNext : first.nextResetTime = calcNextResetTime cal plan (periodStart sub) sub.endTime := by
      rw [hfirst]
    rcases hthird with ⟨hadvB, _⟩ | ⟨_, _, hzero, _, _⟩
    · have hadv : Advances cal nowB plan sub := by
        have h := hadvB
        unfold Advances at h
        rw [hstart, hend] at h
        exact h
      rcases hsecond with ⟨_, hsecond⟩ | ⟨hnotB, _⟩
      · rw [maybeReset_advances { first with amountUsed := used } hnow hadvB, hsecond,
          ← hstart, ← hend, hfirst]
        rfl
      · exact absurd hadv hnotB
    · omega

/-- Where the first call has not reset the row, the second's reset is the one that is due. -/
theorem maybeReset_only {sub second : UserSubscription} (hA : maybeReset cal plan sub nowA = none)
    (hB : maybeReset cal plan sub nowB = some second) (used : ℤ) :
    maybeReset cal plan { sub with amountUsed := used } nowB = some second := by
  obtain ⟨hnow, ⟨hadv, hsecond⟩ | ⟨_, hperiod, hzero, hpos, _⟩⟩ := maybeReset_inv hB
  · rw [maybeReset_advances { sub with amountUsed := used } hnow hadv, hsecond]
    rfl
  · have hsome := maybeReset_first nowA hperiod hzero hpos
    rw [hA] at hsome
    cases hsome

theorem maybeReset_loses {sub first second : UserSubscription} {amount : ℤ} (hamount : 0 < amount)
    (hA : maybeReset cal plan sub nowA = some first)
    (hB : maybeReset cal plan sub nowB = some second) :
    second ≠ { first with amountUsed := first.amountUsed + amount } := by
  intro heq
  have hused := congrArg (·.amountUsed) heq
  have hlast := congrArg (·.lastResetTime) heq
  obtain ⟨_, ⟨hadvA, rfl⟩ | ⟨_, _, _, _, rfl⟩⟩ := maybeReset_inv hA <;>
  obtain ⟨_, ⟨hadvB, rfl⟩ | ⟨_, _, _, _, rfl⟩⟩ := maybeReset_inv hB <;>
  dsimp only at hused hlast
  · omega
  · have hlt := (advance_of_due hadvA.2).1
    omega
  · have hlt := (advance_of_due hadvB.2).1
    omega
  · omega

end Stale

section Once

variable {cal : Calendar} {r : Request} {now nowA nowB : ℤ} {db : Store} {c : UserSubscription}

variable (cal r now) in
theorem charged_id (db : Store) (c : UserSubscription) : (charged cal r db now c).id = c.id :=
  renewed_id db.plans c

variable (cal r now) in
theorem planOf_charged (db : Store) (c : UserSubscription) :
    planOf db.plans (charged cal r db now c) = planOf db.plans c := by
  have hplan : (charged cal r db now c).planId = c.planId := by
    rw [charged, renewed_eq]
    cases hr : renewal cal db.plans now c with
    | none => rfl
    | some sub' =>
      obtain ⟨plan, _, hreset⟩ := Option.bind_eq_some_iff.mp hr
      obtain ⟨used, last, next, _, rfl⟩ := maybeReset_cases cal plan hreset
      rfl
  rw [planOf, planOf, hplan]

/-- A second reset, of the row as it was before the charge, keeps the charge. -/
theorem written_due_iff : DueRow cal db nowB (some (charged cal r db nowA c))
      (written cal db.plans nowB c (some (charged cal r db nowA c))) ↔
    ((renewal cal db.plans nowA c).isSome → (renewal cal db.plans nowB c).isSome →
      (renewal cal db.plans nowB (renewed cal nowA db.plans c)).isSome) := by
  have hamount := r.amount_pos
  have hcharged := planOf_charged cal r nowA db c
  cases hB : renewal cal db.plans nowB c with
  | none =>
    rw [written, hB]
    exact ⟨fun _ _ h ↦ absurd h Bool.false_ne_true, fun _ ↦ .refl _⟩
  | some second =>
    obtain ⟨plan, hplan, hresetB⟩ := Option.bind_eq_some_iff.mp hB
    have hfound : db.plans.find (charged cal r db nowA c).planId = some plan := by
      rw [hplan] at hcharged
      unfold planOf at hcharged
      split_ifs at hcharged
      exact hcharged
    have hdue : DueRow cal db nowB (some (charged cal r db nowA c))
        (written cal db.plans nowB c (some (charged cal r db nowA c))) ↔
        second = charged cal r db nowA c ∨
          maybeReset cal plan (charged cal r db nowA c) nowB = some second := by
      rw [written, hB]
      constructor
      · intro h
        cases h with
        | some h =>
          rcases h with rfl | ⟨plan', hplan', hreset⟩
          · exact .inl rfl
          · rw [hfound, Option.some.injEq] at hplan'
            exact .inr (hplan' ▸ hreset)
      · rintro (h | h)
        · exact .some (.inl h)
        · exact .some (.inr ⟨plan, hfound, h⟩)
    rw [hdue]
    cases hA : renewal cal db.plans nowA c with
    | none =>
      refine ⟨fun _ h ↦ absurd h Bool.false_ne_true, fun _ ↦ .inr ?_⟩
      rw [renewal, hplan, Option.bind_some] at hA
      rw [charged, renewed_eq, renewal, hplan, Option.bind_some, hA]
      exact maybeReset_only hA hresetB _
    | some first =>
      have hrenewed : renewed cal nowA db.plans c = first := by
        rw [renewed_eq, hA]
        rfl
      have hplanFirst : planOf db.plans first = some plan := by
        rw [← hplan, ← hcharged, charged, hrenewed]
        rfl
      rw [renewal, hplan, Option.bind_some] at hA
      have hloses := maybeReset_loses hamount hA hresetB
      rw [charged, hrenewed, renewal, hplanFirst, Option.bind_some]
      constructor
      · rintro (heq | hreset) - -
        · exact absurd heq hloses
        · rw [← maybeReset_used first nowB (first.amountUsed + r.amount), hreset]
          rfl
      · intro h
        exact .inr (maybeReset_again hA (h rfl rfl) hresetB _)

theorem call_fresh (hfresh : db.records.find r.requestId = none) :
    call cal r now db = transaction noFault db
      (payFrom cal r now db (activeSubs db r.userId now)) := by
  have huser : ¬ r.userId ≤ 0 := not_le.mpr r.userId_pos
  have hamount : ¬ r.amount ≤ 0 := not_le.mpr r.amount_pos
  rw [call, preConsumeUserSubscription, if_neg huser, if_neg r.requestId_nonempty, if_neg hamount,
    preConsumeTx, hfresh]
  simp only [noFault, Bool.false_eq_true, false_or, if_false]
  rfl

variable (r db) in
theorem call_found (cal : Calendar) {record : SubscriptionPreConsumeRecord} (now : ℤ)
    (h : db.records.find r.requestId = some record) :
    call cal r now db = transaction noFault db
      (if record.status = .refunded then .error .alreadyRefunded
      else (first false (db.subs.find record.userSubscriptionId)).map fun sub ↦
        (⟨sub.id, record.preConsumed, sub.amountTotal, sub.amountUsed, sub.amountUsed⟩, db)) := by
  have huser : ¬ r.userId ≤ 0 := not_le.mpr r.userId_pos
  have hamount : ¬ r.amount ≤ 0 := not_le.mpr r.amount_pos
  rw [call, preConsumeUserSubscription, if_neg huser, if_neg r.requestId_nonempty, if_neg hamount,
    preConsumeTx, h]
  simp only [noFault, Bool.false_eq_true, if_false]
  cases first false (db.subs.find record.userSubscriptionId) <;> rfl

/-- A request that is recorded is answered by its record, at any time. -/
theorem call_recorded (cal : Calendar) {record : SubscriptionPreConsumeRecord}
    (h : db.records.find r.requestId = some record) :
    ∃ res, (∀ now, call cal r now db = (res, db)) ∧
      ∀ a, res = .ok a → a.userSubscriptionId = record.userSubscriptionId := by
  simp only [call_found r db cal _ h]
  by_cases hrefunded : record.status = .refunded
  · refine ⟨.error .alreadyRefunded, fun _ ↦ ?_, fun a ha ↦ by cases ha⟩
    rw [if_pos hrefunded]
    rfl
  · simp only [if_neg hrefunded]
    cases hsub : db.subs.find record.userSubscriptionId with
    | none => exact ⟨.error .recordNotFound, fun _ ↦ rfl, fun a ha ↦ by cases ha⟩
    | some sub =>
      refine ⟨.ok ⟨sub.id, record.preConsumed, sub.amountTotal, sub.amountUsed, sub.amountUsed⟩,
        fun _ ↦ rfl, fun a ha ↦ ?_⟩
      cases ha
      exact (Table.find_key hsub : sub.id = record.userSubscriptionId)

theorem afterCharge_plans (db : Store) (now : ℤ) (c : UserSubscription) :
    (afterCharge cal r db now c).plans = db.plans := foldl_plans _ db

variable (cal r now db) in
theorem afterCharge_due {k : ℤ} (hk : k ≠ c.id) :
    DueRow cal db now (db.subs.find k) ((afterCharge cal r db now c).subs.find k) := by
  have hne : (charged cal r db now c).id ≠ k := by
    rw [charged_id]
    exact hk.symm
  rw [afterCharge]
  dsimp only
  rw [Table.find_save_of_ne _ hne]
  exact upTo_due cal r now db c k

theorem afterCharge_find (hc : Earliest cal r db now c) :
    (afterCharge cal r db now c).subs.find c.id = some (charged cal r db now c) := by
  have hrow : db.subs.find c.id = some c := Table.find_of_mem hc.mem
  have hdue := upTo_due cal r now db c c.id
  rw [hrow] at hdue
  cases hreset : ((upTo r db now c).foldl (resetRow cal now) db).subs.find c.id with
  | none =>
    rw [hreset] at hdue
    cases hdue
  | some row =>
    have hid := charged_id cal r now db c
    rw [← hid] at hreset ⊢
    exact Table.find_save_self hreset

theorem consumeFrom_insert {tx : Store} {sub : UserSubscription}
    {records : Table SubscriptionPreConsumeRecord.requestId}
    (h : tx.records.insert ⟨r.requestId, r.userId, sub.id, r.amount, .consumed⟩ = some records) :
    consumeFrom noFault r.requestId r.userId r.amount tx sub =
      .ok (⟨sub.id, r.amount, sub.amountTotal, sub.amountUsed, sub.amountUsed + r.amount⟩,
        { tx with
          records := records
          subs := tx.subs.save { sub with amountUsed := sub.amountUsed + r.amount } }) := by
  rw [consumeFrom]
  simp only [noFault, Bool.false_eq_true, if_false, h]
  rfl

theorem consumeFrom_duplicate {tx : Store} {record : SubscriptionPreConsumeRecord}
    (h : tx.records.find r.requestId = some record) (hconsumed : record.status = .consumed)
    (sub : UserSubscription) :
    consumeFrom noFault r.requestId r.userId r.amount tx sub =
      .ok (⟨sub.id, record.preConsumed, sub.amountTotal, sub.amountUsed, sub.amountUsed⟩, tx) := by
  have hrefused : tx.records.insert ⟨r.requestId, r.userId, sub.id, r.amount, .consumed⟩ = none :=
    dif_pos (List.mem_map.mpr ⟨record, Table.find_mem h, Table.find_key h⟩)
  have hstatus : record.status ≠ .refunded := by
    rw [hconsumed]
    decide
  rw [consumeFrom, answerDuplicate]
  simp only [noFault, Bool.false_eq_true, if_false, hrefused, h, first, if_neg hstatus]

/-- The first call, where it finds the plans it looks for. -/
theorem call_pays (hfresh : db.records.find r.requestId = none) (hc : Earliest cal r db now c)
    (hplanned : Planned r db now c) : ∃ a records, a.userSubscriptionId = c.id ∧
      call cal r now db = (.ok a, { afterCharge cal r db now c with records := records }) ∧
      records.find r.requestId = some ⟨r.requestId, r.userId, c.id, r.amount, .consumed⟩ := by
  obtain ⟨records, hinsert⟩ := Table.insert_of_find_none (a := (⟨r.requestId, r.userId,
    (renewed cal now db.plans c).id, r.amount, .consumed⟩ : SubscriptionPreConsumeRecord)) hfresh
  have hsame := Table.find_insert hinsert r.requestId
  rw [if_pos rfl, renewed_id] at hsame
  rw [← foldl_records cal now (upTo r db now c) db] at hinsert
  have hpaid := consumeFrom_insert hinsert
  rw [call_fresh hfresh, payFrom_pays rfl hc hplanned, hpaid]
  exact ⟨_, records, renewed_id db.plans c, rfl, hsame⟩

theorem call_fails (hfresh : db.records.find r.requestId = none)
    (h : ∃ e, payFrom cal r now db (activeSubs db r.userId now) = .error e) :
    ∃ e, call cal r now db = (.error e, db) := by
  obtain ⟨e, he⟩ := h
  exact ⟨e, by rw [call_fresh hfresh, he]; rfl⟩

theorem call_refuses (hfresh : db.records.find r.requestId = none)
    (hnone : ∀ c, ¬ Earliest cal r db now c) : ∃ e, call cal r now db = (.error e, db) :=
  call_fails hfresh (payFrom_refuses rfl hnone)

theorem paysEarliest_iff (hfresh : db.records.find r.requestId = none) :
    PaysEarliest cal r db now (call cal r now db) ↔
      ∀ c, Earliest cal r db now c → Planned r db now c := by
  constructor
  · intro h c hc
    by_contra hplanned
    obtain ⟨e, he⟩ := call_fails hfresh (payFrom_unplanned rfl hc hplanned)
    obtain ⟨a, ha, _⟩ := (h.pays c hc).answer
    rw [he] at ha
    cases ha
  · intro h
    refine ⟨fun c hc ↦ ?_, call_refuses hfresh⟩
    obtain ⟨a, records, ha, hcall, hrecord⟩ := call_pays hfresh hc (h c hc)
    rw [hcall]
    exact ⟨⟨a, rfl, ha⟩, hrecord, afterCharge_find hc, fun k ↦ afterCharge_due cal r now db⟩

theorem race_pays {view tx : Store} (hplans : tx.plans = view.plans)
    {record : SubscriptionPreConsumeRecord} (hrecord : tx.records.find r.requestId = some record)
    (hconsumed : record.status = .consumed) (hc : Earliest cal r view now c)
    (hplanned : Planned r view now c) : ∃ a, a.userSubscriptionId = c.id ∧
      transaction noFault tx (payFrom cal r now tx (activeSubs view r.userId now)) =
        (.ok a, (upTo r view now c).foldl (resetRow cal now) tx) := by
  rw [← foldl_records cal now (upTo r view now c) tx] at hrecord
  have hpaid := consumeFrom_duplicate hrecord hconsumed (renewed cal now view.plans c)
  rw [payFrom_pays hplans hc hplanned, hpaid]
  exact ⟨_, renewed_id view.plans c, rfl⟩

variable (cal now) in
/-- The call that comes second to the insert, on the subscriptions as it has read them: it answers
with the one it would have charged. -/
theorem race_iff (view : Store) {tx : Store} (hplans : tx.plans = view.plans) (k : ℤ)
    {record : SubscriptionPreConsumeRecord} (hrecord : tx.records.find r.requestId = some record)
    (hconsumed : record.status = .consumed) :
    (∃ a, (transaction noFault tx (payFrom cal r now tx (activeSubs view r.userId now))).1 = .ok a ∧
      a.userSubscriptionId = k) ↔
    ∃ c, c.id = k ∧ Earliest cal r view now c ∧ Planned r view now c := by
  constructor
  · rintro ⟨a, ha, hid⟩
    have hnot : ¬ ∃ e, payFrom cal r now tx (activeSubs view r.userId now) = .error e := by
      rintro ⟨e, he⟩
      rw [he] at ha
      cases ha
    have hc : ∃ c, Earliest cal r view now c := by
      by_contra hnone
      exact hnot (payFrom_refuses hplans (not_exists.mp hnone))
    obtain ⟨c, hc⟩ := hc
    have hplanned : Planned r view now c := by
      by_contra hplanned
      exact hnot (payFrom_unplanned hplans hc hplanned)
    obtain ⟨b, hb, hrace⟩ := race_pays hplans hrecord hconsumed hc hplanned
    rw [hrace] at ha
    cases ha
    exact ⟨c, hb.symm.trans hid, hc, hplanned⟩
  · rintro ⟨c, rfl, hc, hplanned⟩
    obtain ⟨b, hb, hrace⟩ := race_pays hplans hrecord hconsumed hc hplanned
    exact ⟨b, by rw [hrace], hb⟩

theorem DueRow.of_plans {db' : Store} (h : db'.plans = db.plans) {a b : Option UserSubscription}
    (hdue : DueRow cal db' now a b) : DueRow cal db now a b := by
  cases hdue with
  | none => exact .none
  | some hrow =>
    unfold Due at hrow
    rw [h] at hrow
    exact .some hrow

variable {records : Table SubscriptionPreConsumeRecord.requestId}

/-- A race in which the second call reads the subscriptions after the charge. -/
theorem repeats_late_iff {a : SubscriptionPreConsumeResult}
    (hrecord : records.find r.requestId = some ⟨r.requestId, r.userId, c.id, r.amount, .consumed⟩) :
    Repeats cal db nowA nowB c (.ok a, { afterCharge cal r db nowA c with records := records })
      (transaction noFault { afterCharge cal r db nowA c with records := records }
        (payFrom cal r nowB { afterCharge cal r db nowA c with records := records }
          (activeSubs { afterCharge cal r db nowA c with records := records } r.userId nowB))) ↔
    Harmless cal r (.racing true) nowA nowB db c := by
  generalize hleft : ({ afterCharge cal r db nowA c with records := records } : Store) = left
  have hsubs : left.subs = (afterCharge cal r db nowA c).subs := by rw [← hleft]
  have hplans : left.plans = (afterCharge cal r db nowA c).plans := by rw [← hleft]
  have hrecords : left.records.find r.requestId =
      some ⟨r.requestId, r.userId, c.id, r.amount, .consumed⟩ := by rw [← hleft]; exact hrecord
  have hrace := race_iff cal nowB left rfl c.id hrecords rfl
  have hsame : (∃ c', c'.id = c.id ∧ Earliest cal r left nowB c' ∧ Planned r left nowB c') ↔
      Harmless cal r (.racing true) nowA nowB db c := by
    rw [← hleft]
    refine exists_congr fun c' ↦ and_congr_right fun _ ↦ and_congr_left fun _ ↦ ?_
    exact ⟨fun h ↦ ⟨h.mem, h.active, h.covers, h.first⟩, fun h ↦ ⟨h.mem, h.active, h.covers, h.first⟩⟩
  constructor
  · intro h
    exact hsame.mp (hrace.mp h.answer)
  · intro h
    obtain ⟨c', hid, hc', hplanned⟩ := hsame.mpr h
    obtain ⟨b, hb, hout⟩ := race_pays rfl hrecords rfl hc' hplanned
    have hdue : ∀ k, DueRow cal db nowB (left.subs.find k)
        (((upTo r left nowB c').foldl (resetRow cal nowB) left).subs.find k) := by
      intro k
      exact DueRow.of_plans (hplans.trans (afterCharge_plans db nowA c)) (upTo_due cal r nowB left c' k)
    rw [hout]
    refine ⟨⟨b, rfl, hb.trans hid⟩, foldl_records cal nowB _ left, hdue c.id, fun k hk ↦ ?_⟩
    have hfirst := afterCharge_due cal r nowA db hk
    rw [← hsubs] at hfirst
    exact ⟨left.subs.find k, hfirst, hdue k⟩

/-- A race in which the second call reads the subscriptions before the charge. -/
theorem repeats_early_iff {a : SubscriptionPreConsumeResult} (hc : Earliest cal r db nowA c)
    (hrecord : records.find r.requestId = some ⟨r.requestId, r.userId, c.id, r.amount, .consumed⟩) :
    Repeats cal db nowA nowB c (.ok a, { afterCharge cal r db nowA c with records := records })
      (transaction noFault { afterCharge cal r db nowA c with records := records }
        (payFrom cal r nowB { afterCharge cal r db nowA c with records := records }
          (activeSubs db r.userId nowB))) ↔
    Harmless cal r (.racing false) nowA nowB db c := by
  generalize hleft : ({ afterCharge cal r db nowA c with records := records } : Store) = left
  have hsubs : left.subs = (afterCharge cal r db nowA c).subs := by rw [← hleft]
  have hplans : left.plans = db.plans := by
    rw [← hleft]
    exact afterCharge_plans db nowA c
  have hrecords : left.records.find r.requestId =
      some ⟨r.requestId, r.userId, c.id, r.amount, .consumed⟩ := by rw [← hleft]; exact hrecord
  have hrow : left.subs.find c.id = some (charged cal r db nowA c) := by
    rw [hsubs]
    exact afterCharge_find hc
  have hrace := race_iff cal nowB db hplans c.id hrecords rfl
  have hsame : (∃ c', c'.id = c.id ∧ Earliest cal r db nowB c' ∧ Planned r db nowB c') ↔
      Earliest cal r db nowB c ∧ Planned r db nowB c := by
    refine ⟨?_, fun h ↦ ⟨c, rfl, h⟩⟩
    rintro ⟨c', hid, hc', hplanned⟩
    have hfind := Table.find_of_mem hc'.mem
    rw [hid, Table.find_of_mem hc.mem] at hfind
    cases hfind
    exact ⟨hc', hplanned⟩
  -- the row of `c` as the second call leaves it
  have hwritten : Earliest cal r db nowB c →
      ((upTo r db nowB c).foldl (resetRow cal nowB) left).subs.find c.id =
        written cal db.plans nowB c (some (charged cal r db nowA c)) := by
    intro hcB
    have hmem : c ∈ upTo r db nowB c := mem_upTo.mpr ⟨hcB.mem, hcB.active, .inr ⟨rfl, le_rfl⟩⟩
    rw [foldl_find (upTo_nodup r db nowB c) hmem, hplans, hrow]
  constructor
  · intro h
    obtain ⟨hcB, hplanned⟩ := hsame.mp (hrace.mp h.answer)
    obtain ⟨b, _, hout⟩ := race_pays hplans hrecords rfl hcB hplanned
    have hdue := h.row
    rw [hout] at hdue
    dsimp only at hdue
    rw [hrow, hwritten hcB] at hdue
    exact ⟨hcB, hplanned, written_due_iff.mp hdue⟩
  · rintro ⟨hcB, hplanned, hagain⟩
    obtain ⟨b, hb, hout⟩ := race_pays hplans hrecords rfl hcB hplanned
    rw [hout]
    refine ⟨⟨b, rfl, hb⟩, foldl_records cal nowB _ left, ?_, fun k hk ↦ ?_⟩
    · dsimp only
      rw [hrow, hwritten hcB]
      exact written_due_iff.mpr hagain
    · have hfirst := afterCharge_due cal r nowA db hk
      rw [← hsubs] at hfirst
      dsimp only
      rcases upTo_find cal r nowB db hplans c k with
        ⟨sub, _, _, hstored, hfind⟩ | hfind
      · rw [hfind, written]
        cases hreset : renewal cal db.plans nowB sub with
        | none => exact ⟨_, hfirst, .refl _⟩
        | some sub' =>
          rw [hstored] at hfirst ⊢
          cases hnow : left.subs.find k with
          | none =>
            rw [hnow] at hfirst
            cases hfirst
          | some row => exact ⟨some sub, .refl _, .some (renewal_due hreset)⟩
      · rw [hfind]
        exact ⟨_, hfirst, .refl _⟩

/-- A second call that follows the first. -/
theorem repeats_after {a : SubscriptionPreConsumeResult} (hc : Earliest cal r db nowA c)
    (hrecord : records.find r.requestId = some ⟨r.requestId, r.userId, c.id, r.amount, .consumed⟩) :
    Repeats cal db nowA nowB c (.ok a, { afterCharge cal r db nowA c with records := records })
      (call cal r nowB { afterCharge cal r db nowA c with records := records }) := by
  have hcall := call_found r { afterCharge cal r db nowA c with records := records }
    cal nowB hrecord
  dsimp only at hcall
  rw [if_neg (by decide), afterCharge_find hc] at hcall
  rw [hcall]
  exact ⟨⟨_, rfl, charged_id cal r nowA db c⟩, rfl, .refl _,
    fun k hk ↦ ⟨_, afterCharge_due cal r nowA db hk, .refl _⟩⟩

/-- The second call repeats the first. -/
theorem repeats_iff (how : Second) (hfresh : db.records.find r.requestId = none)
    (hc : Earliest cal r db nowA c) (hplanned : Planned r db nowA c) :
    Repeats cal db nowA nowB c (twice cal r how nowA nowB db).1 (twice cal r how nowA nowB db).2 ↔
      Harmless cal r how nowA nowB db c := by
  obtain ⟨a, records, _, hcall, hrecord⟩ := call_pays hfresh hc hplanned
  rw [twice, hcall]
  cases how with
  | after => exact iff_of_true (repeats_after hc hrecord) trivial
  | racing late =>
    rw [secondCall, hfresh]
    cases late with
    | false => exact repeats_early_iff hc hrecord
    | true => exact repeats_late_iff hrecord

theorem second_eq (how : Second) (hfresh : db.records.find r.requestId = none) :
    secondCall cal r how now db db = call cal r now db := by
  cases how with
  | after => rfl
  | racing late =>
    rw [secondCall, hfresh, call_fresh hfresh]
    cases late <;> rfl

/-- Both calls answer with the earliest-ending subscription that covers the amount, which is charged
once, as long as no active subscription up to it has lost its plan, and a second call that has not
seen the record still comes to it and does not write over its charge. -/
theorem paidOnce_iff (cal : Calendar) (r : Request) (how : Second) (nowA nowB : ℤ) (db : Store) :
    PaidOnce cal r nowA nowB db (twice cal r how nowA nowB db).1 (twice cal r how nowA nowB db).2 ↔
      (db.records.find r.requestId = none →
        (∀ c, Earliest cal r db nowA c →
          Planned r db nowA c ∧ Harmless cal r how nowA nowB db c) ∧
        ((∀ c, ¬ Earliest cal r db nowA c) →
          ∀ c, Earliest cal r db nowB c → Planned r db nowB c)) := by
  have hsecond : db.records.find r.requestId = none → (∀ c, ¬ Earliest cal r db nowA c) →
      (twice cal r how nowA nowB db).2 = call cal r nowB db := by
    intro hfresh hnone
    obtain ⟨e, he⟩ := call_refuses hfresh hnone
    rw [twice, he]
    exact second_eq how hfresh
  constructor
  · intro h hfresh
    have hplanned := (paysEarliest_iff hfresh).mp (h.pays hfresh)
    refine ⟨fun c hc ↦ ⟨hplanned c hc, ?_⟩, fun hnone ↦ ?_⟩
    · exact (repeats_iff how hfresh hc (hplanned c hc)).mp (h.repeats hfresh c hc)
    · have htries := h.tries hfresh hnone
      rw [hsecond hfresh hnone] at htries
      exact (paysEarliest_iff hfresh).mp htries
  · intro h
    refine ⟨fun record hrecord ↦ ?_, fun hfresh ↦ ?_, fun hfresh c hc ↦ ?_, fun hfresh hnone ↦ ?_⟩
    · obtain ⟨res, hcall, hid⟩ := call_recorded cal hrecord
      have hout : secondCall cal r how nowB db db = (res, db) := by
        cases how with
        | after => exact hcall nowB
        | racing late =>
          rw [secondCall, hrecord]
          exact hcall nowB
      rw [twice, hcall]
      exact ⟨rfl, hout, hid⟩
    · exact (paysEarliest_iff hfresh).mpr fun c hc ↦ ((h hfresh).1 c hc).1
    · obtain ⟨hplanned, hharmless⟩ := (h hfresh).1 c hc
      exact (repeats_iff how hfresh hc hplanned).mpr hharmless
    · rw [hsecond hfresh hnone]
      exact (paysEarliest_iff hfresh).mpr ((h hfresh).2 hnone)

def firstSub : UserSubscription where
  id := 1
  userId := 7
  planId := 1
  amountTotal := 100
  amountUsed := 0
  endTime := 1000

def twoSubs : Store where
  plans := .single { id := 1 }
  subs := ⟨[firstSub, { firstSub with id := 2, endTime := 2000 }], by decide⟩
  records := .empty

def sixty : Request where
  requestId := "req"
  userId := 7
  amount := 60
  userId_pos := by decide
  requestId_nonempty := by decide
  amount_pos := by decide

theorem twoSubs_answers_apart :
    ¬ PaidOnce .ticking sixty 500 500 twoSubs (twice .ticking sixty (.racing true) 500 500 twoSubs).1
      (twice .ticking sixty (.racing true) 500 500 twoSubs).2 := by
  intro h
  have hearliest : Earliest .ticking sixty twoSubs 500 firstSub := by
    refine ⟨List.mem_cons_self, rfl, by decide, ?_⟩
    simp only [twoSubs, List.forall_mem_cons]
    exact ⟨fun _ _ ↦ by decide, fun _ _ ↦ by decide, fun _ hsub ↦ absurd hsub List.not_mem_nil⟩
  obtain ⟨a, ha, hid⟩ := (h.repeats rfl firstSub hearliest).answer
  have hanswer : (twice .ticking sixty (.racing true) 500 500 twoSubs).2.1 =
      .ok ⟨2, 60, 100, 0, 0⟩ := rfl
  rw [hanswer] at ha
  cases ha
  exact absurd hid (by decide)

end Once

end AllAiTools.NewApi.Model.PreConsumeTwice
