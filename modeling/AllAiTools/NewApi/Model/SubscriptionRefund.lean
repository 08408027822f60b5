import AllAiTools.Foundation.Run
import AllAiTools.NewApi.Model.Subscription

namespace AllAiTools.NewApi.Model.SubscriptionRefund

open Foundation Foundation.Result Foundation.Run Common.Str Subscription

/-- The faults of one refund: the outer transaction's and those of the transaction
that `PostConsumeUserSubscriptionDelta` opens on its own. -/
structure RefundFaults where
  outer : Faults
  inner : Faults

/-- The end of the outer transaction: the record is marked refunded. -/
def saveRefunded (fault : Faults) (db : Store) (record : SubscriptionPreConsumeRecord) :
    Except Error Unit × Store :=
  match (do exec (fault .saveRecord); exec (fault .commit)) with
  | .error e => (.error e, db)
  | .ok () => (.ok (), { db with records := db.records.save { record with status := .refunded } })

/-- The inner transaction runs on the global handle, so what it commits stays
when the outer one fails afterwards. -/
def refundSubscriptionPreConsume (fault : RefundFaults) (db : Store) (requestId : String) :
    Except Error Unit × Store :=
  if trimSpace requestId = "" then (.error .requestIdEmpty, db)
  else
    match (do exec (fault.outer .begin); first (fault.outer .findRecord) (db.records.find requestId)) with
    | .error e => (.error e, db)
    | .ok record =>
      if record.status = .refunded then (exec (fault.outer .commit), db)
      else if record.preConsumed ≤ 0 then saveRefunded fault.outer db record
      else
        match postConsumeUserSubscriptionDelta fault.inner db record.userSubscriptionId
            (-record.preConsumed) with
        | (.error e, db') => (.error e, db')
        | (.ok (), db') => saveRefunded fault.outer db' record

def refundAttempts (fault : ℕ → RefundFaults) (requestId : String) :
    ℕ → Except Error Unit → Store → Except Error Unit × Store
  | 0, lastErr, db => (lastErr, db)
  | n + 1, _, db =>
    match refundSubscriptionPreConsume (fault n) db requestId with
    | (.ok (), db') => (.ok (), db')
    | (.error e, db') => refundAttempts fault requestId n (.error e) db'

/-- `refundWithRetry` around the refund of a request: three attempts. -/
def refundWithRetry (fault : ℕ → RefundFaults) (requestId : String) (db : Store) :
    Except Error Unit × Store :=
  refundAttempts fault requestId 3 (.ok ()) db

/-- The store after the record of a request has been marked refunded. -/
def markRefunded (db : Store) (record : SubscriptionPreConsumeRecord) : Store :=
  { db with records := db.records.save { record with status := .refunded } }

@[simp] theorem markRefunded_used (db : Store) (record : SubscriptionPreConsumeRecord) (id : ℤ) :
    (markRefunded db record).used id = db.used id := rfl

theorem markRefunded_find {db : Store} {requestId : String}
    {record : SubscriptionPreConsumeRecord} (h : db.records.find requestId = some record) :
    (markRefunded db record).records.find requestId = some { record with status := .refunded } := by
  have hk : record.requestId = requestId := Table.find_key h
  simp [markRefunded, hk, h]

theorem saveRefunded_cases (fault : Faults) (db : Store) (record : SubscriptionPreConsumeRecord) :
    (fault .saveRecord = false ∧ fault .commit = false ∧
      saveRefunded fault db record = (.ok (), markRefunded db record)) ∨
    ((fault .saveRecord = true ∨ fault .commit = true) ∧
      ∃ e, saveRefunded fault db record = (.error e, db)) := by
  unfold saveRefunded exec
  cases fault .saveRecord with
  | true => exact .inr ⟨.inl rfl, _, rfl⟩
  | false =>
    cases fault .commit with
    | true => exact .inr ⟨.inr rfl, _, rfl⟩
    | false => exact .inl ⟨rfl, rfl, rfl⟩

/-- The outer transaction has found the record of a request still consumed. -/
structure FindsConsumed (requestId : String) (db : Store) (fault : RefundFaults)
    (record : SubscriptionPreConsumeRecord) : Prop where
  named : trimSpace requestId ≠ ""
  begins : fault.outer .begin = false
  reads : fault.outer .findRecord = false
  found : db.records.find requestId = some record
  consumed : record.status = .consumed

theorem refund_of_finds {requestId : String} {db : Store} {fault : RefundFaults}
    {record : SubscriptionPreConsumeRecord} (h : FindsConsumed requestId db fault record) :
    refundSubscriptionPreConsume fault db requestId =
      if record.preConsumed ≤ 0 then saveRefunded fault.outer db record
      else
        match postConsumeUserSubscriptionDelta fault.inner db record.userSubscriptionId
            (-record.preConsumed) with
        | (.error e, db') => (.error e, db')
        | (.ok (), db') => saveRefunded fault.outer db' record := by
  simp only [refundSubscriptionPreConsume, if_neg h.named, exec, first, h.begins, h.reads, h.found,
    Bool.false_eq_true, if_false, bind_ok, h.consumed, reduceCtorEq]

/-- What a call can do: nothing to the store; mark a record without a charge; or
commit the inner delta and then mark the record or fail to. -/
theorem refund_cases (requestId : String) (db : Store) (fault : RefundFaults) :
    (refundSubscriptionPreConsume fault db requestId).2 = db ∨
    (∃ record, FindsConsumed requestId db fault record ∧ record.preConsumed ≤ 0 ∧
      refundSubscriptionPreConsume fault db requestId = (.ok (), markRefunded db record)) ∨
    ∃ record sub, FindsConsumed requestId db fault record ∧ 0 < record.preConsumed ∧
      DeltaCommits fault.inner db record.userSubscriptionId (-record.preConsumed) sub ∧
      ((fault.outer .saveRecord = false ∧ fault.outer .commit = false ∧
        refundSubscriptionPreConsume fault db requestId =
          (.ok (), markRefunded (db.charge sub (-record.preConsumed)) record)) ∨
      ((fault.outer .saveRecord = true ∨ fault.outer .commit = true) ∧
        ∃ e, refundSubscriptionPreConsume fault db requestId =
          (.error e, db.charge sub (-record.preConsumed)))) := by
  by_cases hf : ∃ record, FindsConsumed requestId db fault record
  · obtain ⟨record, hf⟩ := hf
    rw [refund_of_finds hf]
    by_cases hp : record.preConsumed ≤ 0
    · rw [if_pos hp]
      rcases saveRefunded_cases fault.outer db record with ⟨_, _, h⟩ | ⟨_, e, h⟩
      · exact .inr (.inl ⟨record, hf, hp, h⟩)
      · exact .inl (by rw [h])
    · rw [if_neg hp]
      rcases postConsume_cases fault.inner db (show -record.preConsumed ≠ 0 by omega) with
        ⟨e, h⟩ | ⟨sub, hd, h⟩
      · exact .inl (by rw [h])
      · refine .inr (.inr ⟨record, sub, hf, by omega, hd, ?_⟩)
        rw [h]
        exact saveRefunded_cases fault.outer _ record
  · left
    unfold refundSubscriptionPreConsume
    split_ifs with hn
    · rfl
    split
    · rfl
    rename_i record hr
    obtain ⟨_, hb, hr⟩ := bind_eq_ok.mp hr
    obtain ⟨hr, hfound⟩ := first_eq_ok.mp hr
    have hs : record.status = .refunded := by
      cases hs : record.status with
      | refunded => rfl
      | consumed => exact absurd ⟨record, hn, exec_eq_ok.mp hb, hr, hfound, hs⟩ hf
    rw [if_pos hs]

/-- The outer transaction does not fail once the inner one has committed. -/
def Whole (fault : RefundFaults) : Prop :=
  fault.outer .saveRecord = false ∧ fault.outer .commit = false

/-- The store after a record's amount has been taken off its subscription. -/
structure Refunded (db db' : Store) (record : SubscriptionPreConsumeRecord)
    (sub : UserSubscription) : Prop where
  id_pos : 0 < record.userSubscriptionId
  found : db.subs.find record.userSubscriptionId = some sub
  eq : db' = markRefunded (db.charge sub (-record.preConsumed)) record

theorem refund_whole {requestId : String} {db : Store} {fault : RefundFaults}
    {record : SubscriptionPreConsumeRecord} (hw : Whole fault)
    (hfound : db.records.find requestId = some record) (hc : record.status = .consumed)
    (hp : 0 < record.preConsumed) :
    (∃ e, refundSubscriptionPreConsume fault db requestId = (.error e, db)) ∨
      ∃ db' sub, Refunded db db' record sub ∧
        refundSubscriptionPreConsume fault db requestId = (.ok (), db') := by
  by_cases hn : trimSpace requestId = ""
  · exact .inl ⟨_, by rw [refundSubscriptionPreConsume, if_pos hn]⟩
  by_cases hreads : fault.outer .begin = false ∧ fault.outer .findRecord = false
  · obtain ⟨hb, hr⟩ := hreads
    rw [refund_of_finds ⟨hn, hb, hr, hfound, hc⟩, if_neg (by omega)]
    rcases postConsume_cases fault.inner db (show -record.preConsumed ≠ 0 by omega) with
      ⟨e, h⟩ | ⟨sub, hd, h⟩
    · exact .inl ⟨e, by rw [h]⟩
    · rw [h]
      rcases saveRefunded_cases fault.outer (db.charge sub (-record.preConsumed)) record with
        ⟨_, _, hs⟩ | ⟨hout, _⟩
      · exact .inr ⟨_, sub, ⟨hd.id_pos, hd.found, rfl⟩, hs⟩
      · simp [hw.1, hw.2] at hout
  · left
    rw [refundSubscriptionPreConsume, if_neg hn]
    unfold exec first
    cases hb : fault.outer .begin with
    | true => exact ⟨_, rfl⟩
    | false =>
      cases hr : fault.outer .findRecord with
      | true => exact ⟨_, rfl⟩
      | false => exact absurd ⟨hb, hr⟩ hreads

/-- Attempts of which none is torn change nothing until one refunds the record. -/
theorem refundAttempts_whole {requestId : String} {db : Store} {fault : ℕ → RefundFaults}
    {record : SubscriptionPreConsumeRecord} (hw : ∀ n, Whole (fault n))
    (hfound : db.records.find requestId = some record) (hc : record.status = .consumed)
    (hp : 0 < record.preConsumed) (n : ℕ) (lastErr : Except Error Unit) :
    (refundAttempts fault requestId n lastErr db).2 = db ∧
        ((refundAttempts fault requestId n lastErr db).1 = .ok () → n = 0) ∨
      ∃ db' sub, Refunded db db' record sub ∧
        refundAttempts fault requestId n lastErr db = (.ok (), db') := by
  induction n generalizing lastErr with
  | zero => exact .inl ⟨rfl, fun _ ↦ rfl⟩
  | succ n ih =>
    rcases refund_whole (hw n) hfound hc hp with ⟨e, h⟩ | ⟨db', sub, hr, h⟩
    · simp only [refundAttempts, h]
      rcases ih (.error e) with ⟨hdb, hok⟩ | hr
      · refine .inl ⟨hdb, fun hok' ↦ ?_⟩
        have hz := hok hok'
        subst hz
        cases hok'
      · exact .inr hr
    · exact .inr ⟨db', sub, hr, by simp only [refundAttempts, h]⟩

/-- One call on the store, for runs of calls. -/
def call (requestId : String) (db : Store) (fault : RefundFaults) : Store :=
  (refundSubscriptionPreConsume fault db requestId).2

/-- A call that returns an error leaves the used amounts and the record's status
as they were. -/
def CleanError (requestId : String) (db : Store) (fault : RefundFaults) : Prop :=
  ∀ e, (refundSubscriptionPreConsume fault db requestId).1 = .error e →
    (∀ id, (call requestId db fault).used id = db.used id) ∧
      ((call requestId db fault).records.find requestId).map (·.status) =
        (db.records.find requestId).map (·.status)

/-- A run of calls takes at most the recorded amount off the subscription's used
amount, and its failing calls change nothing. -/
def RefundedAtMostOnce (requestId : String) (db : Store) (calls : List RefundFaults) : Prop :=
  (∀ record, db.records.find requestId = some record →
    db.used record.userSubscriptionId -
      (run (call requestId) db calls).used record.userSubscriptionId ≤ record.preConsumed) ∧
    Along (call requestId) (CleanError requestId) db calls

/-- A call that finds its record consumed and whose inner transaction commits a
change of the used amount, while the outer one fails to save or to commit. -/
def Torn (requestId : String) (db : Store) (fault : RefundFaults) : Prop :=
  ∃ record sub, FindsConsumed requestId db fault record ∧ 0 < record.preConsumed ∧
    DeltaCommits fault.inner db record.userSubscriptionId (-record.preConsumed) sub ∧
    sub.amountUsed ≠ 0 ∧ (fault.outer .saveRecord = true ∨ fault.outer .commit = true)

theorem DeltaCommits.used {fault : Faults} {db : Store} {id delta : ℤ} {sub : UserSubscription}
    (h : DeltaCommits fault db id delta sub) : db.used id = sub.amountUsed := by
  simp [Store.used, h.found]

theorem newUsed_refund_eq {used p : ℤ} (hp : 0 < p) : newUsed used (-p) = used ↔ used = 0 := by
  unfold newUsed
  split_ifs <;> omega

theorem newUsed_refund_le {used p : ℤ} : used - newUsed used (-p) ≤ p := by
  unfold newUsed
  split_ifs <;> omega

theorem cleanError_of_not_torn {requestId : String} {db : Store} {fault : RefundFaults}
    (h : ¬ Torn requestId db fault) : CleanError requestId db fault := by
  intro e he
  rcases refund_cases requestId db fault with hr | ⟨record, _, _, hr⟩ |
    ⟨record, sub, hf, hp, hd, ⟨_, _, hr⟩ | ⟨hout, e', hr⟩⟩
  · simp [call, hr]
  · rw [hr] at he; cases he
  · rw [hr] at he; cases he
  · have hzero : sub.amountUsed = 0 := by
      by_contra hne
      exact h ⟨record, sub, hf, hp, hd, hne, hout⟩
    refine ⟨fun id ↦ ?_, by simp [call, hr]⟩
    simp only [call, hr, hd.used_charge]
    split_ifs with hid
    · subst hid
      exact (newUsed_refund_eq hp).mpr (by rw [DeltaCommits.used hd, hzero])
    · rfl

theorem not_cleanError_of_torn {requestId : String} {db : Store} {fault : RefundFaults}
    (h : Torn requestId db fault) : ¬ CleanError requestId db fault := by
  obtain ⟨record, sub, hf, hp, hd, hne, hout⟩ := h
  intro hc
  have hr : ∃ e, refundSubscriptionPreConsume fault db requestId =
      (.error e, db.charge sub (-record.preConsumed)) := by
    rw [refund_of_finds hf, if_neg (by omega), postConsume_of_commits (by omega) hd]
    rcases saveRefunded_cases fault.outer (db.charge sub (-record.preConsumed)) record with
      ⟨hs, hc, _⟩ | ⟨_, he⟩
    · simp [hs, hc] at hout
    · exact he
  obtain ⟨e, hr⟩ := hr
  have hu := (hc e (by rw [hr])).1 record.userSubscriptionId
  rw [call, hr, hd.used_charge, if_pos rfl, newUsed_refund_eq hp, DeltaCommits.used hd] at hu
  exact hne hu

/-- What a run keeps of the record it started from: while it is consumed nothing
has been taken off, and once it is refunded at most its amount has. -/
structure Kept (requestId : String) (db₀ : Store) (record : SubscriptionPreConsumeRecord)
    (db : Store) : Prop where
  found : ∃ status, db.records.find requestId = some { record with status } ∧
    (status = .consumed →
      db.used record.userSubscriptionId = db₀.used record.userSubscriptionId)
  taken : db₀.used record.userSubscriptionId - db.used record.userSubscriptionId ≤
    max 0 record.preConsumed
  still : record.preConsumed ≤ 0 →
    db.used record.userSubscriptionId = db₀.used record.userSubscriptionId

theorem Kept.step {requestId : String} {db₀ db : Store} {record : SubscriptionPreConsumeRecord}
    {fault : RefundFaults} (h : Kept requestId db₀ record db) (ht : ¬ Torn requestId db fault) :
    Kept requestId db₀ record (call requestId db fault) := by
  obtain ⟨⟨status, hfound, hsame⟩, htaken, hstill⟩ := h
  rcases refund_cases requestId db fault with hr | ⟨record', hf, _, hr⟩ |
    ⟨record', sub, hf, hp, hd, ⟨_, _, hr⟩ | ⟨hout, e', hr⟩⟩
  · rw [call, hr]
    exact ⟨⟨status, hfound, hsame⟩, htaken, hstill⟩
  · have hrec : record' = { record with status } := Option.some.inj (hf.found.symm.trans hfound)
    subst hrec
    rw [call, hr]
    exact ⟨⟨.refunded, markRefunded_find hfound, by simp⟩, htaken, hstill⟩
  · have hrec : record' = { record with status } := Option.some.inj (hf.found.symm.trans hfound)
    subst hrec
    rw [call, hr]
    refine ⟨⟨.refunded, markRefunded_find hfound, by simp⟩, ?_, fun hn ↦ absurd hp (by simpa using hn)⟩
    rw [markRefunded_used, hd.used_charge, if_pos rfl, ← hsame hf.consumed]
    exact newUsed_refund_le.trans (le_max_right _ _)
  · have hrec : record' = { record with status } := Option.some.inj (hf.found.symm.trans hfound)
    subst hrec
    have hzero : sub.amountUsed = 0 := by
      by_contra hne
      exact ht ⟨_, sub, hf, hp, hd, hne, hout⟩
    have hused : (db.charge sub (-record.preConsumed)).used record.userSubscriptionId =
        db.used record.userSubscriptionId := by
      rw [hd.used_charge, if_pos rfl]
      exact (newUsed_refund_eq hp).mpr (by rw [DeltaCommits.used hd, hzero])
    rw [call, hr]
    exact ⟨⟨status, hfound, fun hs ↦ hused.trans (hsame hs)⟩, by rwa [hused],
      fun hn ↦ hused.trans (hstill hn)⟩

theorem Kept.run {requestId : String} {db : Store} {record : SubscriptionPreConsumeRecord}
    (hfound : db.records.find requestId = some record) {calls : List RefundFaults}
    (ht : Along (call requestId) (fun db fault ↦ ¬ Torn requestId db fault) db calls) :
    Kept requestId db record (run (call requestId) db calls) :=
  ht.invariant (Kept requestId db record) (fun _ _ h hn ↦ h.step hn)
    ⟨⟨record.status, by simpa using hfound, fun _ ↦ rfl⟩, by simp, fun _ ↦ rfl⟩

/-- The refund of a request is made at most once, and its failing calls change
nothing, exactly when the record's amount is not negative and no call is torn
between its two transactions. -/
theorem refund_at_most_once (requestId : String) (db : Store) (calls : List RefundFaults) :
    RefundedAtMostOnce requestId db calls ↔
      (∀ record, db.records.find requestId = some record → 0 ≤ record.preConsumed) ∧
        Along (call requestId) (fun db fault ↦ ¬ Torn requestId db fault) db calls := by
  constructor
  · rintro ⟨htaken, hclean⟩
    have ht := hclean.mono (fun db fault hc h ↦ not_cleanError_of_torn h hc)
    refine ⟨fun record hfound ↦ ?_, ht⟩
    by_contra hneg
    have hk := (Kept.run hfound ht).still (by omega)
    have hle := htaken record hfound
    omega
  · rintro ⟨hpos, ht⟩
    refine ⟨fun record hfound ↦ ?_, ht.mono fun _ _ h ↦ cleanError_of_not_torn h⟩
    have hk := (Kept.run hfound ht).taken
    rwa [max_eq_right (hpos record hfound)] at hk

/-- A store with one subscription, of which 30 are used, and a consumed record of 10. -/
def oneRecord : Store where
  plans := .single { id := 1 }
  subs := .single
    { id := 1, userId := 1, planId := 1, amountTotal := 100, amountUsed := 30, endTime := 1000 }
  records := .single ⟨"req", 1, 1, 10, .consumed⟩

/-- No statement fails but the outer commit. -/
def commitFails : RefundFaults := ⟨fun s ↦ s = .commit, fun _ ↦ false⟩

/-- Three attempts, each failing at the outer commit, take 30 off for a record of 10. -/
theorem retries_refund_thrice :
    ¬ RefundedAtMostOnce "req" oneRecord [commitFails, commitFails, commitFails] := by
  rintro ⟨htaken, _⟩
  exact absurd (htaken ⟨"req", 1, 1, 10, .consumed⟩ (by decide)) (by decide)

/-- The retry loop is a run of at most as many calls as it has attempts. -/
theorem refundAttempts_run (fault : ℕ → RefundFaults) (requestId : String) (n : ℕ)
    (lastErr : Except Error Unit) (db : Store) :
    ∃ calls : List RefundFaults, calls.length ≤ n ∧
      (refundAttempts fault requestId n lastErr db).2 = run (call requestId) db calls := by
  induction n generalizing lastErr db with
  | zero => exact ⟨[], le_rfl, rfl⟩
  | succ n ih =>
    simp only [refundAttempts]
    split
    · rename_i db' h
      exact ⟨[fault n], by simp, by simp [call, h]⟩
    · rename_i e db' h
      obtain ⟨calls, hlen, hrun⟩ := ih (.error e) db'
      refine ⟨fault n :: calls, by simpa using hlen, ?_⟩
      rw [hrun, run_cons, call, h]

theorem refundWithRetry_run (fault : ℕ → RefundFaults) (requestId : String) (db : Store) :
    ∃ calls : List RefundFaults, calls.length ≤ 3 ∧
      (refundWithRetry fault requestId db).2 = run (call requestId) db calls :=
  refundAttempts_run fault requestId 3 (.ok ()) db

end AllAiTools.NewApi.Model.SubscriptionRefund
