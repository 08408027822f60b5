import AllAiTools.Foundation.Sorting
import AllAiTools.Foundation.Sweeps
import AllAiTools.NewApi.Model.SubscriptionReset

namespace AllAiTools.NewApi.Model.SubscriptionSweep

open Foundation Foundation.Result Subscription SubscriptionPreConsume SubscriptionReset

section Code

def subscriptionResetBatchSize : ℕ := 300

/-- The resets of `runSubscriptionQuotaResetOnce` on a database that does not fail: the stores the
calls find, and whether the loop has been left. -/
def resetLoop (cal : Calendar) (now : ℤ) : ℕ → Store → List Store × Bool
  | 0, _ => ([], false)
  | fuel + 1, db =>
    match resetDueSubscriptions cal (fun _ _ ↦ false) now false db subscriptionResetBatchSize with
    | (.error _, _) => ([db], true)
    | (.ok n, db') =>
      if n = 0 then ([db], true)
      else if n < subscriptionResetBatchSize then ([db], true)
      else (db :: (resetLoop cal now fuel db').1, (resetLoop cal now fuel db').2)

end Code

section Rows

variable (cal : Calendar) (now : ℤ)

def planOf (plans : Table SubscriptionPlan.id) (sub : UserSubscription) : Option SubscriptionPlan :=
  if sub.planId ≤ 0 then none else plans.find sub.planId

/-- Whether a reset is due by the plan and not only by the row. -/
def Advances (plan : SubscriptionPlan) (sub : UserSubscription) : Prop :=
  ResetPeriod.never ≠ normalizeResetPeriod plan.quotaResetPeriod ∧
    0 < calcNextResetTime cal plan (periodStart sub) sub.endTime ∧
    calcNextResetTime cal plan (periodStart sub) sub.endTime ≤ now

instance (plan : SubscriptionPlan) (sub : UserSubscription) : Decidable (Advances cal now plan sub) :=
  inferInstanceAs (Decidable (_ ∧ _))

def moves (plans : Table SubscriptionPlan.id) (sub : UserSubscription) : Bool :=
  (planOf plans sub).any fun plan ↦ Advances cal now plan sub

def counted (plans : Table SubscriptionPlan.id) (sub : UserSubscription) : Bool :=
  (planOf plans sub).isSome

def IsDue (sub : UserSubscription) : Prop := 0 < sub.nextResetTime ∧ sub.nextResetTime ≤ now

instance (sub : UserSubscription) : Decidable (IsDue now sub) := inferInstanceAs (Decidable (_ ∧ _))

/-- The row a sweep leaves in the place of a due one. -/
def renewed (plans : Table SubscriptionPlan.id) (sub : UserSubscription) : UserSubscription :=
  ((planOf plans sub).bind fun plan ↦ maybeReset cal plan sub now).getD sub

variable {cal} {now}

theorem moves_counted {plans : Table SubscriptionPlan.id} {sub : UserSubscription}
    (h : moves cal now plans sub) : counted plans sub := by
  obtain ⟨plan, hplan, _⟩ := (Option.any_eq_true _ _).mp h
  exact Option.isSome_iff_exists.mpr ⟨plan, hplan⟩

theorem maybeReset_advances {plan : SubscriptionPlan} (sub : UserSubscription)
    (hnow : ¬ (0 < sub.nextResetTime ∧ now < sub.nextResetTime)) (h : Advances cal now plan sub) :
    maybeReset cal plan sub now = some { sub with
      amountUsed := 0
      lastResetTime := (advance cal plan sub.endTime now (periodStart sub)).1
      nextResetTime := (advance cal plan sub.endTime now (periodStart sub)).2 } := by
  rw [maybeReset, if_neg hnow, if_neg h.1.symm]
  exact if_pos h.2

theorem maybeReset_of_advances {plan : SubscriptionPlan} {sub : UserSubscription}
    (hdue : IsDue now sub) (h : Advances cal now plan sub) :
    ∃ sub', maybeReset cal plan sub now = some sub' ∧ sub'.id = sub.id ∧
      (sub'.nextResetTime = 0 ∨ now < sub'.nextResetTime) := by
  have hlater : ¬ (0 < sub.nextResetTime ∧ now < sub.nextResetTime) := by
    unfold IsDue at hdue
    omega
  have hsaved := maybeReset_advances sub hlater h
  have hnext := h.2
  refine ⟨_, hsaved, rfl, ?_⟩
  obtain ⟨heq, hnot⟩ := advance_next cal plan sub.endTime now (periodStart sub)
  have hpos := (advance_of_due hnext).2
  have hnonneg := calcNextResetTime_nonneg cal plan hpos.le sub.endTime
  rw [← heq] at hnonneg
  dsimp only
  omega

theorem maybeReset_of_not_advances {plan : SubscriptionPlan} {sub : UserSubscription}
    (hdue : IsDue now sub) (h : ¬ Advances cal now plan sub) : maybeReset cal plan sub now = none := by
  have hlater : ¬ (0 < sub.nextResetTime ∧ now < sub.nextResetTime) := by
    unfold IsDue at hdue
    omega
  rw [maybeReset, if_neg hlater]
  by_cases hnever : normalizeResetPeriod plan.quotaResetPeriod = .never
  · exact if_pos hnever
  · have hnext : ¬ (0 < calcNextResetTime cal plan (periodStart sub) sub.endTime ∧
        calcNextResetTime cal plan (periodStart sub) sub.endTime ≤ now) :=
      fun hnext ↦ h ⟨fun heq ↦ hnever heq.symm, hnext⟩
    have hfirst : ¬ (sub.nextResetTime = 0 ∧
        0 < (advance cal plan sub.endTime now (periodStart sub)).2) :=
      fun hzero ↦ absurd hdue.1 (by omega)
    rw [if_neg hnever]
    exact (if_neg hnext).trans (if_neg hfirst)

theorem renewed_id (plans : Table SubscriptionPlan.id) (sub : UserSubscription) :
    (renewed cal now plans sub).id = sub.id := by
  rw [renewed]
  cases hrow : (planOf plans sub).bind fun plan ↦ maybeReset cal plan sub now with
  | none => rfl
  | some sub' =>
    obtain ⟨plan, _, hreset⟩ := Option.bind_eq_some_iff.mp hrow
    obtain ⟨used, last, next, _, rfl⟩ := maybeReset_cases cal plan hreset
    rfl

theorem renewed_of_not_moves {plans : Table SubscriptionPlan.id} {sub : UserSubscription}
    (hdue : IsDue now sub) (h : moves cal now plans sub = false) :
    renewed cal now plans sub = sub := by
  rw [renewed]
  cases hplan : planOf plans sub with
  | none => rfl
  | some plan =>
    have hnot : ¬ Advances cal now plan sub := by simpa [moves, hplan] using h
    exact congrArg (Option.getD · sub) (maybeReset_of_not_advances hdue hnot)

theorem renewed_of_moves {plans : Table SubscriptionPlan.id} {sub : UserSubscription}
    (hdue : IsDue now sub) (h : moves cal now plans sub) :
    (renewed cal now plans sub).nextResetTime = 0 ∨
      now < (renewed cal now plans sub).nextResetTime := by
  obtain ⟨plan, hplan, hadvances⟩ := (Option.any_eq_true _ _).mp h
  obtain ⟨sub', hreset, _, hnext⟩ := maybeReset_of_advances hdue (of_decide_eq_true hadvances)
  have hrow : renewed cal now plans sub = sub' := by
    rw [renewed, hplan]
    exact congrArg (Option.getD · sub) hreset
  rw [hrow]
  exact hnext

end Rows

section Call

variable (cal : Calendar) (now : ℤ)

def renewAll (due : List UserSubscription) (db : Store) : Store :=
  due.foldl (fun db sub ↦ { db with subs := db.subs.save (renewed cal now db.plans sub) }) db

/-- The due rows in the order in which the calls take them. -/
def dueQueue (db : Store) : List UserSubscription :=
  (db.subs.rows.filter fun sub ↦
      0 < sub.nextResetTime ∧ sub.nextResetTime ≤ now ∧ sub.status = .active).insertionSort
    fun a b ↦ a.nextResetTime ≤ b.nextResetTime

variable {cal} {now}

theorem getPlan_of_planOf {db : Store} {sub : UserSubscription} {plan : SubscriptionPlan}
    (h : planOf db.plans sub = some plan) :
    getSubscriptionPlanByIdTx false db sub.planId = .ok plan := by
  unfold planOf at h
  split_ifs at h with hid
  rw [getSubscriptionPlanByIdTx, if_neg hid, h]
  rfl

theorem getPlan_of_none {db : Store} {sub : UserSubscription} (h : planOf db.plans sub = none) :
    ∃ e, getSubscriptionPlanByIdTx false db sub.planId = .error e := by
  unfold planOf at h
  split_ifs at h with hid
  · exact ⟨_, if_pos hid⟩
  · rw [getSubscriptionPlanByIdTx, if_neg hid, h]
    exact ⟨_, rfl⟩

theorem resetTx_ok (cal : Calendar) {db : Store} {sub : UserSubscription} {plan : SubscriptionPlan}
    (hfound : db.subs.find sub.id = some sub) (hdue : IsDue now sub)
    (hplan : planOf db.plans sub = some plan) :
    resetTx cal (fun _ _ ↦ false) now db plan sub.id =
      .ok (1, { db with subs := db.subs.save (renewed cal now db.plans sub) }) := by
  have hlocked : (db.subs.find sub.id).filter
      (fun l ↦ decide (0 < l.nextResetTime ∧ l.nextResetTime ≤ now)) = some sub := by
    rw [hfound]
    exact if_pos (decide_eq_true hdue)
  have hrow : renewed cal now db.plans sub = (maybeReset cal plan sub now).getD sub := by
    rw [renewed, hplan]
    rfl
  rw [resetTx, hlocked, hrow]
  simp only [first, Bool.false_eq_true, if_false, maybeResetUserSubscriptionWithPlanTx]
  cases maybeReset cal plan sub now with
  | none =>
    rw [Option.getD_none, Table.save_of_find hfound]
    rfl
  | some sub' => rfl

theorem renewAll_cons (sub : UserSubscription) (due : List UserSubscription) (db : Store) :
    renewAll cal now (sub :: due) db =
      renewAll cal now due { db with subs := db.subs.save (renewed cal now db.plans sub) } := rfl

theorem renewAll_plans (due : List UserSubscription) (db : Store) :
    (renewAll cal now due db).plans = db.plans := by
  induction due generalizing db with
  | nil => rfl
  | cons sub due ih => exact ih _

/-- Rows that are found as they are and have keys of their own. -/
structure Fresh (now : ℤ) (due : List UserSubscription) (db : Store) : Prop where
  nodup : (due.map (·.id)).Nodup
  found : ∀ sub ∈ due, db.subs.find sub.id = some sub
  due : ∀ sub ∈ due, IsDue now sub

theorem Fresh.tail {sub : UserSubscription} {due : List UserSubscription} {db : Store}
    (h : Fresh now (sub :: due) db) (cal : Calendar) :
    Fresh now due { db with subs := db.subs.save (renewed cal now db.plans sub) } where
  nodup := (List.nodup_cons.mp h.nodup).2
  found other hother := by
    have hne : (renewed cal now db.plans sub).id ≠ other.id := by
      rw [renewed_id]
      intro heq
      exact (List.nodup_cons.mp h.nodup).1 (List.mem_map.mpr ⟨other, hother, heq.symm⟩)
    exact (Table.find_save_of_ne db.subs hne).trans
      (h.found other (List.mem_cons_of_mem sub hother))
  due other hother := h.due other (List.mem_cons_of_mem sub hother)

theorem resetAll_ok (cal : Calendar) {due : List UserSubscription} {db : Store} (h : Fresh now due db)
    (n : ℕ) :
    resetAll cal (fun _ _ ↦ false) now due n db =
      (.ok (n + due.countP (counted db.plans)), renewAll cal now due db) := by
  induction due generalizing n db with
  | nil => rfl
  | cons sub due ih =>
    have hfound := h.found sub List.mem_cons_self
    have hdue := h.due sub List.mem_cons_self
    rw [resetAll, renewAll_cons, List.countP_cons]
    cases hplan : planOf db.plans sub with
    | none =>
      obtain ⟨e, he⟩ := getPlan_of_none hplan
      have hsame : renewed cal now db.plans sub = sub := by
        rw [renewed, hplan]
        rfl
      have hcount : counted db.plans sub = false := by rw [counted, hplan]; rfl
      have htail := h.tail cal
      rw [hsame, Table.save_of_find hfound] at htail ⊢
      rw [he, hcount]
      exact ih htail n
    | some plan =>
      have hcount : counted db.plans sub = true := by rw [counted, hplan]; rfl
      rw [getPlan_of_planOf hplan, hcount]
      dsimp only
      rw [resetTx_ok cal hfound hdue hplan]
      refine (ih (h.tail cal) (n + 1)).trans ?_
      rw [if_pos rfl, Nat.add_assoc, Nat.add_comm 1]

theorem renewAll_found (cal : Calendar) {due : List UserSubscription} {db : Store} (h : Fresh now due db)
    {sub : UserSubscription} (hsub : sub ∈ due) :
    (renewAll cal now due db).subs.find sub.id = some (renewed cal now db.plans sub) := by
  have hkept : ∀ (due : List UserSubscription) (db : Store) (k : ℤ),
      (∀ other ∈ due, other.id ≠ k) → (renewAll cal now due db).subs.find k = db.subs.find k := by
    intro due
    induction due with
    | nil => exact fun _ _ _ ↦ rfl
    | cons first due ih =>
      intro db k hne
      rw [renewAll_cons, ih _ k fun other hother ↦ hne other (List.mem_cons_of_mem first hother)]
      refine Table.find_save_of_ne db.subs ?_
      rw [renewed_id]
      exact hne first List.mem_cons_self
  induction due generalizing db with
  | nil => exact absurd hsub List.not_mem_nil
  | cons first due ih =>
    rw [renewAll_cons]
    rcases List.mem_cons.mp hsub with rfl | hlater
    · have hne : ∀ other ∈ due, other.id ≠ sub.id := fun other hother heq ↦
        (List.nodup_cons.mp h.nodup).1 (List.mem_map.mpr ⟨other, hother, heq⟩)
      have hfound := h.found sub List.mem_cons_self
      rw [hkept due _ sub.id hne, Table.find_save, if_pos (renewed_id db.plans sub), hfound]
      rfl
    · exact ih (h.tail cal) hlater

abbrev InQueue (now : ℤ) (sub : UserSubscription) : Prop :=
  0 < sub.nextResetTime ∧ sub.nextResetTime ≤ now ∧ sub.status = .active

/-- A row that moves leaves the rows that are due, the others stay. -/
theorem filter_save {db : Store} {sub : UserSubscription}
    (hfound : db.subs.find sub.id = some sub) (hdue : IsDue now sub) :
    (db.subs.save (renewed cal now db.plans sub)).rows.filter (fun r ↦ InQueue now r) =
      (db.subs.rows.filter fun r ↦ InQueue now r).filter fun r ↦
        !(r.id = sub.id && moves cal now db.plans sub) := by
  cases hmoves : moves cal now db.plans sub with
  | false =>
    rw [renewed_of_not_moves hdue hmoves, Table.save_of_find hfound]
    simp
  | true =>
    have hgone : ¬ InQueue now (renewed cal now db.plans sub) := by
      have hnext := renewed_of_moves hdue hmoves
      unfold InQueue
      omega
    rw [Table.save, List.filter_filter]
    dsimp only
    induction db.subs.rows with
    | nil => rfl
    | cons row rows ih =>
      rw [List.map_cons, List.filter_cons, List.filter_cons, ih, renewed_id]
      by_cases hid : row.id = sub.id
      · rw [if_pos hid]
        simp [hgone, hid]
      · rw [if_neg hid]
        simp [hid]

theorem filter_renewAll {due : List UserSubscription} {db : Store} (h : Fresh now due db) :
    (renewAll cal now due db).subs.rows.filter (fun r ↦ InQueue now r) =
      (db.subs.rows.filter fun r ↦ InQueue now r).filter fun r ↦
        !due.any fun sub ↦ r.id = sub.id && moves cal now db.plans sub := by
  induction due generalizing db with
  | nil => simp [renewAll]
  | cons sub due ih =>
    rw [renewAll_cons, ih (h.tail cal),
      filter_save (h.found sub List.mem_cons_self) (h.due sub List.mem_cons_self),
      List.filter_filter]
    refine List.filter_congr fun r _ ↦ ?_
    rw [List.any_cons, Bool.not_or, Bool.and_comm]

theorem dueQueue_filter {db db' : Store} {p : UserSubscription → Bool}
    (h : db'.subs.rows.filter (fun r ↦ InQueue now r) =
      (db.subs.rows.filter fun r ↦ InQueue now r).filter p) :
    dueQueue now db' = (dueQueue now db).filter p := by
  have htrans : IsTrans UserSubscription fun a b ↦ a.nextResetTime ≤ b.nextResetTime :=
    ⟨fun _ _ _ ↦ le_trans⟩
  have htotal : Std.Total fun a b : UserSubscription ↦ a.nextResetTime ≤ b.nextResetTime :=
    ⟨fun a b ↦ le_total a.nextResetTime b.nextResetTime⟩
  rw [dueQueue, dueQueue, ← Sorting.insertionSort_filter]
  exact congrArg _ h

theorem mem_dueQueue {db : Store} {sub : UserSubscription} :
    sub ∈ dueQueue now db ↔ sub ∈ db.subs.rows ∧ InQueue now sub := by
  rw [dueQueue, (List.perm_insertionSort _ _).mem_iff, List.mem_filter, decide_eq_true_iff]

theorem dueQueue_nodup (now : ℤ) (db : Store) : ((dueQueue now db).map (·.id)).Nodup := by
  have hperm := (List.perm_insertionSort (fun a b : UserSubscription ↦
    a.nextResetTime ≤ b.nextResetTime) (db.subs.rows.filter fun r ↦ InQueue now r)).map (·.id)
  exact hperm.nodup_iff.mpr (db.subs.nodup.sublist (List.filter_sublist.map _))

theorem fresh_take (now : ℤ) (db : Store) (n : ℕ) : Fresh now ((dueQueue now db).take n) db where
  nodup := (dueQueue_nodup now db).sublist ((List.take_sublist n _).map _)
  found _ hsub := Table.find_of_mem (mem_dueQueue.mp (List.mem_of_mem_take hsub)).1
  due _ hsub :=
    have hqueue := (mem_dueQueue.mp (List.mem_of_mem_take hsub)).2
    ⟨hqueue.1, hqueue.2.1⟩

theorem dueResets_eq (db : Store) :
    dueResets now db subscriptionResetBatchSize =
      (dueQueue now db).take subscriptionResetBatchSize := rfl

/-- After a call the queue is as a sweep leaves it. -/
theorem dueQueue_renewAll (db : Store) (n : ℕ) :
    dueQueue now (renewAll cal now ((dueQueue now db).take n) db) =
      Sweeps.swept n (moves cal now db.plans) (dueQueue now db) := by
  rw [dueQueue_filter (filter_renewAll (fresh_take now db n)), Sweeps.swept]
  have hnodup := dueQueue_nodup now db
  generalize dueQueue now db = queue at hnodup ⊢
  have hsplit : (queue.take n ++ queue.drop n).filter (fun r ↦
      !(queue.take n).any fun sub ↦ r.id = sub.id && moves cal now db.plans sub) =
        (queue.take n).filter (!moves cal now db.plans ·) ++ queue.drop n := by
    rw [← List.take_append_drop n queue, List.map_append, List.nodup_append] at hnodup
    obtain ⟨hfront, -, hapart⟩ := hnodup
    rw [List.filter_append]
    congr 1
    · refine List.filter_congr fun r hr ↦ congrArg not ?_
      rw [Bool.eq_iff_iff, List.any_eq_true]
      constructor
      · rintro ⟨sub, hsub, hboth⟩
        obtain ⟨hid, hmoves⟩ := Bool.and_eq_true_iff.mp hboth
        rw [List.inj_on_of_nodup_map hfront hr hsub (of_decide_eq_true hid)]
        exact hmoves
      · exact fun hmoves ↦ ⟨r, hr, Bool.and_eq_true_iff.mpr ⟨decide_eq_true rfl, hmoves⟩⟩
    · refine List.filter_eq_self.mpr fun r hr ↦ ?_
      rw [Bool.not_eq_true', List.any_eq_false]
      intro sub hsub hboth
      have hid := of_decide_eq_true (Bool.and_eq_true_iff.mp hboth).1
      exact hapart _ (List.mem_map_of_mem hsub) _ (List.mem_map_of_mem hr) hid.symm
  rwa [List.take_append_drop] at hsplit

end Call

section Loop

variable {cal : Calendar} {now : ℤ}

theorem resetDue_ok (db : Store) :
    resetDueSubscriptions cal (fun _ _ ↦ false) now false db subscriptionResetBatchSize =
      (.ok (((dueQueue now db).take subscriptionResetBatchSize).countP (counted db.plans)),
        renewAll cal now ((dueQueue now db).take subscriptionResetBatchSize) db) := by
  have hok := resetAll_ok cal (fresh_take now db subscriptionResetBatchSize) 0
  rw [Nat.zero_add] at hok
  rw [resetDueSubscriptions, if_neg Bool.false_ne_true, dueResets_eq]
  exact hok

/-- The loop runs as sweeps over the queue do. -/
theorem resetLoop_sweeps (fuel : ℕ) (db : Store) :
    (resetLoop cal now fuel db).1.map (dueQueue now) =
        (Sweeps.sweeps subscriptionResetBatchSize (moves cal now db.plans) (counted db.plans) fuel
          (dueQueue now db)).1 ∧
      (resetLoop cal now fuel db).2 =
        (Sweeps.sweeps subscriptionResetBatchSize (moves cal now db.plans) (counted db.plans) fuel
          (dueQueue now db)).2 := by
  induction fuel generalizing db with
  | zero => exact ⟨rfl, rfl⟩
  | succ fuel ih =>
    rw [resetLoop, resetDue_ok]
    dsimp only
    by_cases hasks : Sweeps.Asks subscriptionResetBatchSize (counted db.plans) (dueQueue now db)
    · have hsize : (0 : ℕ) < subscriptionResetBatchSize := by decide
      have hge := hasks
      unfold Sweeps.Asks at hge
      rw [if_neg (by omega), if_neg (by omega), Sweeps.sweeps_of_asks hasks]
      have hnext := ih (renewAll cal now ((dueQueue now db).take subscriptionResetBatchSize) db)
      rw [dueQueue_renewAll, renewAll_plans] at hnext
      exact ⟨congrArg (dueQueue now db :: ·) hnext.1, hnext.2⟩
    · have hlt := hasks
      unfold Sweeps.Asks at hlt
      rw [Sweeps.sweeps_of_not_asks hasks]
      by_cases hzero : ((dueQueue now db).take subscriptionResetBatchSize).countP
          (counted db.plans) = 0
      · rw [if_pos hzero]
        exact ⟨rfl, rfl⟩
      · rw [if_neg hzero, if_pos (not_le.mp hlt)]
        exact ⟨rfl, rfl⟩

theorem resetLoop_plans {fuel : ℕ} {db store : Store} (h : store ∈ (resetLoop cal now fuel db).1) :
    store.plans = db.plans := by
  induction fuel generalizing db with
  | zero => exact absurd h List.not_mem_nil
  | succ fuel ih =>
    rw [resetLoop, resetDue_ok] at h
    dsimp only at h
    split_ifs at h
    · rw [List.mem_singleton.mp h]
    · rw [List.mem_singleton.mp h]
    · rcases List.mem_cons.mp h with rfl | hlater
      · rfl
      · exact (ih hlater).trans (renewAll_plans _ db)

end Loop

section Result

variable (cal : Calendar) (now : ℤ)

/-- The loop ends, and whatever one of its calls reports is not due again. -/
structure Terminates (db : Store) : Prop where
  ends : ∃ fuel, (resetLoop cal now fuel db).2 = true
  leaves : ∀ fuel, ∀ store ∈ (resetLoop cal now fuel db).1,
    ∀ sub ∈ dueResets now store subscriptionResetBatchSize,
    ∀ plan, getSubscriptionPlanByIdTx false store sub.planId = .ok plan →
    ∀ row, (resetDueSubscriptions cal (fun _ _ ↦ false) now false store
      subscriptionResetBatchSize).2.subs.find sub.id = some row →
    row.nextResetTime = 0 ∨ now < row.nextResetTime

variable {cal} {now}

theorem getPlan_iff_counted {db : Store} {sub : UserSubscription} :
    (∃ plan, getSubscriptionPlanByIdTx false db sub.planId = .ok plan) ↔ counted db.plans sub := by
  cases hplan : planOf db.plans sub with
  | none =>
    obtain ⟨e, he⟩ := getPlan_of_none hplan
    have hnot : counted db.plans sub = false := by rw [counted, hplan]; rfl
    rw [he, hnot]
    exact iff_of_false (fun ⟨_, h⟩ ↦ nomatch h) Bool.false_ne_true
  | some plan =>
    exact iff_of_true ⟨plan, getPlan_of_planOf hplan⟩ (Option.isSome_of_eq_some hplan)

theorem renewed_leaves_iff (cal : Calendar) (plans : Table SubscriptionPlan.id) {sub : UserSubscription}
    (hdue : IsDue now sub) : (renewed cal now plans sub).nextResetTime = 0 ∨
      now < (renewed cal now plans sub).nextResetTime ↔ moves cal now plans sub := by
  constructor
  · intro hnext
    by_contra hstays
    rw [renewed_of_not_moves hdue (Bool.eq_false_iff.mpr hstays)] at hnext
    unfold IsDue at hdue
    omega
  · exact renewed_of_moves hdue

theorem leaves_iff (store : Store) :
    (∀ sub ∈ dueResets now store subscriptionResetBatchSize,
      ∀ plan, getSubscriptionPlanByIdTx false store sub.planId = .ok plan →
      ∀ row, (resetDueSubscriptions cal (fun _ _ ↦ false) now false store
        subscriptionResetBatchSize).2.subs.find sub.id = some row →
      row.nextResetTime = 0 ∨ now < row.nextResetTime) ↔
    ∀ sub ∈ (dueQueue now store).take subscriptionResetBatchSize,
      counted store.plans sub → moves cal now store.plans sub := by
  rw [dueResets_eq, resetDue_ok]
  refine forall₂_congr fun sub hsub ↦ ?_
  have hfresh := fresh_take now store subscriptionResetBatchSize
  have hfound := renewAll_found cal hfresh hsub
  have hleaves := renewed_leaves_iff cal store.plans (hfresh.due sub hsub)
  rw [hfound]
  constructor
  · intro h hcounted
    obtain ⟨plan, hplan⟩ := getPlan_iff_counted.mpr hcounted
    exact hleaves.mp (h plan hplan _ rfl)
  · intro h plan hplan row hrow
    rw [← Option.some.inj hrow]
    exact hleaves.mpr (h (getPlan_iff_counted.mp ⟨plan, hplan⟩))

theorem ends_iff (db : Store) : (∃ fuel, (resetLoop cal now fuel db).2 = true) ↔
    ¬ Sweeps.Blocked subscriptionResetBatchSize (moves cal now db.plans) (counted db.plans)
      (dueQueue now db) := by
  rw [← Sweeps.ends_iff fun _ ↦ moves_counted]
  exact exists_congr fun fuel ↦ by rw [(resetLoop_sweeps fuel db).2]

/-- A subscription that was to be reset before its plan stopped having resets. -/
def leftSub (k : ℕ) : UserSubscription where
  id := k
  userId := 1
  planId := 1
  amountTotal := 100
  amountUsed := 40
  endTime := 1000
  nextResetTime := 100

def leftStore : Store where
  plans := .single { id := 1 }
  subs := {
    rows := (List.range subscriptionResetBatchSize).map leftSub
    nodup := by
      rw [List.map_map]
      exact List.nodup_range.map fun j k hjk ↦ Int.ofNat_inj.mp hjk }
  records := .empty

end Result

end AllAiTools.NewApi.Model.SubscriptionSweep
