import AllAiTools.NewApi.Model.SubscriptionRefund
import AllAiTools.NewApi.Model.SubscriptionReset

namespace AllAiTools.NewApi.Model.QuotaPeriods

open Foundation Foundation.Result Foundation.Run Common.Str Subscription SubscriptionPreConsume
open SubscriptionRefund SubscriptionReset

section Shares

/-- What a request has in the present period's usage. An early one was charged in a
period before, and has what it has consumed on top since. -/
structure Share where
  requestId : String
  early : Bool
  net : ℤ
  deriving DecidableEq

abbrev Shares := List Share

def Shares.total (shares : Shares) : ℤ := (shares.map (·.net)).sum

/-- A request without a share is an early one that has consumed nothing since. -/
def Shares.get (shares : Shares) (r : String) : Share :=
  (shares.find? (·.requestId = r)).getD ⟨r, true, 0⟩

/-- What an amount changes in the period: all of it for a request of the period, and
for an early one no more than it has there. -/
def Share.change (s : Share) (delta : ℤ) : ℤ := if s.early then max (-s.net) delta else delta

def Shares.add (r : String) (delta : ℤ) : Shares → Shares
  | [] => [⟨r, true, max 0 delta⟩]
  | s :: shares =>
    if s.requestId = r then { s with net := s.net + s.change delta } :: shares
    else s :: Shares.add r delta shares

theorem total_add (r : String) (delta : ℤ) (shares : Shares) :
    (shares.add r delta).total = shares.total + (shares.get r).change delta := by
  induction shares with
  | nil => simp [Shares.add, Shares.total, Shares.get, Share.change]
  | cons s shares ih =>
    unfold Shares.total Shares.get at ih ⊢
    by_cases hs : s.requestId = r
    · simp [Shares.add, hs]
      ring
    · simp only [Shares.add, if_neg hs, List.map_cons, List.sum_cons, ih]
      rw [List.find?_cons_of_neg (by simpa using hs)]
      ring

/-- What the usage and the share of a request must be for an amount to change the one
as it changes the other. -/
def Fits (used : ℤ) (s : Share) (delta : ℤ) : Prop :=
  if s.early ∧ s.net + delta < 0 then used = s.net else 0 ≤ used + delta

theorem fits_iff (used : ℤ) (s : Share) (delta : ℤ) :
    newUsed used delta = used + s.change delta ↔ Fits used s delta := by
  unfold newUsed Share.change Fits
  cases s.early with
  | true =>
    simp only [true_and, if_true]
    by_cases hn : s.net + delta < 0
    · rw [if_pos hn, max_eq_left (by omega)]
      split_ifs <;> omega
    · rw [if_neg hn, max_eq_right (by omega)]
      split_ifs <;> omega
  | false =>
    simp only [Bool.false_eq_true, false_and, if_false]
    split_ifs <;> omega

end Shares

section Runs

/-- A settle delta names the request whose consumption it corrects. -/
inductive Act
  | preConsume (fault : Faults) (requestId : String) (userId amount now : ℤ)
  | settle (fault : Faults) (requestId : String) (id delta : ℤ)
  | refund (fault : RefundFaults) (requestId : String)
  | reset (fault : ℤ → Faults) (now : ℤ) (failed : Bool) (limit : ℤ)

variable (cal : Calendar) (k : ℤ)

def Act.apply (db : Store) : Act → Store
  | .preConsume fault requestId userId amount now =>
    (preConsumeUserSubscription cal fault requestId userId amount now db).2
  | .settle fault _ id delta => (postConsumeUserSubscriptionDelta fault db id delta).2
  | .refund fault requestId => (refundSubscriptionPreConsume fault db requestId).2
  | .reset fault now failed limit => (resetDueSubscriptions cal fault now failed db limit).2

/-- The record of a request that a call has charged to the subscription `k`. -/
def newRecord (db db' : Store) (requestId : String) : Option SubscriptionPreConsumeRecord :=
  match db.records.find requestId with
  | some _ => none
  | none => (db'.records.find requestId).filter fun record ↦ record.userSubscriptionId = k

/-- The record whose amount the refund's inner transaction takes off the subscription `k`. -/
def takenRecord (fault : RefundFaults) (db : Store) (requestId : String) :
    Option SubscriptionPreConsumeRecord :=
  if trimSpace requestId = "" ∨ fault.outer .begin ∨ fault.outer .findRecord then none
  else (db.records.find requestId).filter fun record ↦
    record.status = .consumed ∧ 0 < record.preConsumed ∧ record.userSubscriptionId = k ∧
      (postConsumeUserSubscriptionDelta fault.inner db k (-record.preConsumed)).1.isOk

/-- The shares after a call, within one period. -/
def charge (db db' : Store) (shares : Shares) : Act → Shares
  | .preConsume _ requestId _ _ _ =>
    match newRecord k db db' requestId with
    | none => shares
    | some record => ⟨requestId, false, record.preConsumed⟩ :: shares
  | .settle fault requestId id delta =>
    if id = k ∧ delta ≠ 0 ∧ (postConsumeUserSubscriptionDelta fault db id delta).1.isOk then
      shares.add requestId delta
    else shares
  | .refund fault requestId =>
    match takenRecord k fault db requestId with
    | none => shares
    | some record => shares.add requestId (-record.preConsumed)
  | .reset _ _ _ _ => shares

/-- A point of a run, with the shares of the requests in the present period. -/
structure Point where
  db : Store
  shares : Shares

/-- A new period begins without shares. -/
def step (p : Point) (a : Act) : Point :=
  let db' := a.apply cal p.db
  let shares := if startOf p.db k < startOf db' k then [] else p.shares
  ⟨db', charge k p.db db' shares a⟩

/-- The used amount is the sum of the shares of the present period. -/
def Separate (p : Point) : Prop := p.db.used k = p.shares.total

/-- The condition on a step: an amount that a settlement or a refund brings fits the
share of its request. -/
def Ok (p : Point) : Act → Prop
  | .preConsume _ _ _ _ _ | .reset _ _ _ _ => True
  | .settle fault requestId id delta => ∀ sub, delta ≠ 0 → id = k →
    DeltaCommits fault p.db k delta sub → Fits (p.db.used k) (p.shares.get requestId) delta
  | .refund fault requestId => ∀ record, takenRecord k fault p.db requestId = some record →
    Fits (p.db.used k) (p.shares.get requestId) (-record.preConsumed)

variable {cal : Calendar} {k : ℤ} {p : Point} {db : Store}

theorem preConsume_existing {fault : Faults} {requestId : String} {userId amount now : ℤ}
    {existing : SubscriptionPreConsumeRecord} (h : db.records.find requestId = some existing) :
    (preConsumeUserSubscription cal fault requestId userId amount now db).2 = db := by
  unfold preConsumeUserSubscription
  split_ifs
  · rfl
  · rfl
  · rfl
  rcases transaction_cases fault db (preConsumeTx cal fault requestId userId amount now db) with
    ⟨e, he⟩ | ⟨res, db', _, _, hbody, hr⟩
  · rw [he]
  · unfold preConsumeTx at hbody
    simp only [h] at hbody
    split_ifs at hbody
    obtain ⟨sub, _, hbody⟩ := bind_eq_ok.mp hbody
    cases hbody
    rw [hr]

/-- What a pre-consume adds to the subscription `k`. -/
def added (db db' : Store) (k : ℤ) (requestId : String) : ℤ :=
  ((newRecord k db db' requestId).map (·.preConsumed)).getD 0

theorem added_same (requestId : String) : added db db k requestId = 0 := by
  unfold added newRecord
  cases h : db.records.find requestId with
  | some record => rfl
  | none => rfl

theorem charged_renews {requestId : String} {userId amount now : ℤ} {db' : Store}
    {res : SubscriptionPreConsumeResult} {sub : UserSubscription}
    (hfresh : db.records.find requestId = none)
    (h : Charged cal now db db' requestId userId amount res sub) :
    Renews (startOf db k) (db.used k) (startOf db' k) (db'.used k - added db db' k requestId) := by
  have hrec : db'.records.find requestId =
      some ⟨requestId, userId, res.userSubscriptionId, amount, .consumed⟩ := by
    rw [h.records, if_pos rfl]
  by_cases hk : res.userSubscriptionId = k
  · subst hk
    have hadded : added db db' res.userSubscriptionId requestId = amount := by
      simp [added, newRecord, hfresh, hrec, Option.filter]
    have hstart : startOf db' res.userSubscriptionId = periodStart sub := by
      simp [startOf, h.row, periodStart]
    have hused : db'.used res.userSubscriptionId = sub.amountUsed + amount := by
      simp [Store.used, h.row]
    rw [hadded, hstart, hused, add_sub_cancel_right]
    have hfound := h.found
    unfold startOf Store.used
    cases hrow : db.subs.find res.userSubscriptionId with
    | none =>
      rw [hrow] at hfound
      cases hfound
    | some row =>
      rw [hrow] at hfound
      cases hfound with
      | some hdue => exact Due.renews hdue
  · have hadded : added db db' k requestId = 0 := by
      simp [added, newRecord, hfresh, hrec, hk, Option.filter]
    rw [hadded, sub_zero]
    exact renewsAt_of_rel (fun _ _ ↦ Due.renews) (h.others k (Ne.symm hk))

theorem preConsume_renews (cal : Calendar) (fault : Faults) (requestId : String)
    (userId amount now : ℤ) (db : Store) (k : ℤ) :
    let db' := (preConsumeUserSubscription cal fault requestId userId amount now db).2
    Renews (startOf db k) (db.used k) (startOf db' k) (db'.used k - added db db' k requestId) := by
  have hsame : Renews (startOf db k) (db.used k) (startOf db k)
      (db.used k - added db db k requestId) := by
    rw [added_same, sub_zero]
    exact .refl _ _
  dsimp only
  cases hfind : db.records.find requestId with
  | some existing =>
    rw [preConsume_existing hfind]
    exact hsame
  | none =>
    rcases preConsume_cases cal fault userId amount now hfind with
      ⟨e, he⟩ | ⟨res, db', sub, _, hc, he⟩
    · rw [he]
      exact hsame
    · rw [he]
      exact charged_renews hfind hc

/-- The shares a step starts from, none in a new period. -/
def carried (k : ℤ) (p : Point) (db' : Store) : Shares :=
  if startOf p.db k < startOf db' k then [] else p.shares

theorem carried_total (h : Separate k p) {db' : Store} {used' : ℤ}
    (hr : Renews (startOf p.db k) (p.db.used k) (startOf db' k) used') :
    (carried k p db').total = used' := by
  unfold carried
  rcases hr with ⟨hlt, rfl⟩ | ⟨heq, rfl⟩
  · rw [if_pos hlt]
    rfl
  · rw [if_neg (by omega)]
    exact h.symm

theorem charge_total_of_none {shares : Shares} {db db' : Store} {a : Act}
    (h : charge k db db' shares a = shares) : (charge k db db' shares a).total = shares.total :=
  congrArg _ h

theorem preConsume_step (h : Separate k p) (fault : Faults) (requestId : String)
    (userId amount now : ℤ) :
    Separate k (step cal k p (.preConsume fault requestId userId amount now)) := by
  have hr := preConsume_renews cal fault requestId userId amount now p.db k
  dsimp only at hr
  have htotal := carried_total h hr
  unfold Separate step
  dsimp only [Act.apply]
  rw [← carried, charge]
  generalize (preConsumeUserSubscription cal fault requestId userId amount now p.db).2 = db' at *
  unfold added at htotal
  cases hn : newRecord k p.db db' requestId with
  | none =>
    rw [hn] at htotal
    dsimp only
    rw [htotal]
    simp
  | some record =>
    rw [hn] at htotal
    have hsplit : Shares.total (⟨requestId, false, record.preConsumed⟩ :: carried k p db') =
        record.preConsumed + (carried k p db').total := by
      simp [Shares.total]
    dsimp only
    rw [hsplit, htotal]
    simp

theorem reset_step (h : Separate k p) (fault : ℤ → Faults) (now : ℤ) (failed : Bool) (limit : ℤ) :
    Separate k (step cal k p (.reset fault now failed limit)) := by
  have hr := resetDue_renews cal fault now failed p.db limit k
  exact (carried_total h hr).symm

theorem startOf_charge {sub : UserSubscription} (hf : db.subs.find sub.id = some sub) (delta j : ℤ) :
    startOf (db.charge sub delta) j = startOf db j := by
  unfold startOf
  by_cases hj : sub.id = j
  · subst hj
    rw [find_charge hf, hf]
    rfl
  · simp [Store.charge, Table.find_save, hj]

/-- The shares after a call that leaves the period as it is. -/
theorem separate_step_of_start {a : Act} (hs : startOf (a.apply cal p.db) k = startOf p.db k) :
    Separate k (step cal k p a) ↔
      (a.apply cal p.db).used k = (charge k p.db (a.apply cal p.db) p.shares a).total := by
  unfold Separate step
  dsimp only
  rw [hs, if_neg (lt_irrefl _)]

/-- A committed amount keeps the sum exactly when it fits its request's share. -/
theorem add_iff (h : Separate k p) {fault : Faults} {delta : ℤ} {sub : UserSubscription}
    (hd : DeltaCommits fault p.db k delta sub) (requestId : String) :
    (p.db.charge sub delta).used k = (p.shares.add requestId delta).total ↔
      Fits (p.db.used k) (p.shares.get requestId) delta := by
  rw [hd.used_charge, if_pos rfl, total_add, ← h]
  exact fits_iff _ _ _

theorem start_of_commits {fault : Faults} {id delta : ℤ} {sub : UserSubscription}
    (hd : DeltaCommits fault db id delta sub) (j : ℤ) :
    startOf (db.charge sub delta) j = startOf db j := by
  have hk : sub.id = id := hd.key
  exact startOf_charge (hk ▸ hd.found) delta j

theorem settle_step_iff (h : Separate k p) (fault : Faults) (requestId : String) (id delta : ℤ) :
    Separate k (step cal k p (.settle fault requestId id delta)) ↔
      Ok k p (.settle fault requestId id delta) := by
  by_cases hzero : delta = 0
  · have hsame : (postConsumeUserSubscriptionDelta fault p.db id delta).2 = p.db := by
      unfold postConsumeUserSubscriptionDelta
      rw [if_pos hzero]
      split_ifs <;> rfl
    rw [separate_step_of_start (by rw [Act.apply, hsame])]
    dsimp only [Act.apply]
    rw [hsame, charge, if_neg fun hc ↦ hc.2.1 hzero]
    exact ⟨fun _ _ hd ↦ absurd hzero hd, fun _ ↦ h⟩
  rcases @postConsume_cases fault p.db id delta hzero with ⟨e, he⟩ | ⟨sub, hd, he⟩
  · rw [separate_step_of_start (by rw [Act.apply, he])]
    dsimp only [Act.apply]
    rw [charge, he, if_neg fun hc ↦ Bool.false_ne_true hc.2.2]
    refine ⟨fun _ sub _ hk hd ↦ ?_, fun _ ↦ h⟩
    subst hk
    rw [postConsume_of_commits hzero hd] at he
    cases he
  · rw [separate_step_of_start (by rw [Act.apply, he]; exact start_of_commits hd k)]
    dsimp only [Act.apply]
    rw [charge, he]
    by_cases hk : id = k
    · subst hk
      rw [if_pos ⟨rfl, hzero, rfl⟩, add_iff h hd]
      refine ⟨fun hf _ _ _ _ ↦ hf, fun hok ↦ hok sub hzero rfl hd⟩
    · rw [if_neg fun hc ↦ hk hc.1, hd.used_charge, if_neg (Ne.symm hk)]
      exact ⟨fun _ _ _ hk' ↦ absurd hk' hk, fun _ ↦ h⟩

theorem takenRecord_eq_some {fault : RefundFaults} {requestId : String}
    {record : SubscriptionPreConsumeRecord} :
    takenRecord k fault db requestId = some record ↔
      FindsConsumed requestId db fault record ∧ 0 < record.preConsumed ∧
        record.userSubscriptionId = k ∧
        (postConsumeUserSubscriptionDelta fault.inner db k (-record.preConsumed)).1.isOk := by
  unfold takenRecord
  split_ifs with hstop
  · refine ⟨fun hn ↦ (by cases hn), fun hf ↦ ?_⟩
    obtain ⟨⟨hn, hb, hr, _, _⟩, _⟩ := hf
    simp [hn, hb, hr] at hstop
  · rw [not_or, not_or] at hstop
    simp only [Option.filter_eq_some_iff, decide_eq_true_eq]
    constructor
    · rintro ⟨hfound, hc, hp, hk, hok⟩
      exact ⟨⟨hstop.1, by simpa using hstop.2.1, by simpa using hstop.2.2, hfound, hc⟩, hp, hk, hok⟩
    · rintro ⟨⟨_, _, _, hfound, hc⟩, hp, hk, hok⟩
      exact ⟨hfound, hc, hp, hk, hok⟩

/-- A store that agrees with another on the subscription `k`. -/
def Agrees (k : ℤ) (db db' : Store) : Prop := db'.used k = db.used k ∧ startOf db' k = startOf db k

theorem saveRefunded_agrees (fault : Faults) (db : Store) (record : SubscriptionPreConsumeRecord)
    (k : ℤ) : Agrees k db (saveRefunded fault db record).2 := by
  rcases saveRefunded_cases fault db record with ⟨_, _, he⟩ | ⟨_, e, he⟩
  · rw [he]
    exact ⟨rfl, rfl⟩
  · rw [he]
    exact ⟨rfl, rfl⟩

theorem refund_taken {fault : RefundFaults} {requestId : String}
    {record : SubscriptionPreConsumeRecord} (h : takenRecord k fault db requestId = some record) :
    ∃ sub, DeltaCommits fault.inner db k (-record.preConsumed) sub ∧
      Agrees k (db.charge sub (-record.preConsumed))
        (refundSubscriptionPreConsume fault db requestId).2 := by
  obtain ⟨hf, hp, hk, hok⟩ := takenRecord_eq_some.mp h
  subst hk
  have hne : -record.preConsumed ≠ 0 := by omega
  rcases @postConsume_cases fault.inner db record.userSubscriptionId (-record.preConsumed) hne with
    ⟨e, he⟩ | ⟨sub, hd, he⟩
  · rw [he] at hok
    cases hok
  · refine ⟨sub, hd, ?_⟩
    rw [refund_of_finds hf, if_neg (by omega), he]
    exact saveRefunded_agrees _ _ _ _

theorem refund_untaken {fault : RefundFaults} {requestId : String}
    (h : takenRecord k fault db requestId = none) :
    Agrees k db (refundSubscriptionPreConsume fault db requestId).2 := by
  have hother : ∀ {record : SubscriptionPreConsumeRecord} {sub : UserSubscription},
      FindsConsumed requestId db fault record → 0 < record.preConsumed →
      DeltaCommits fault.inner db record.userSubscriptionId (-record.preConsumed) sub →
      Agrees k db (db.charge sub (-record.preConsumed)) := by
    intro record sub hf hp hd
    have hk : k ≠ record.userSubscriptionId := by
      intro hk
      have hok : (postConsumeUserSubscriptionDelta fault.inner db k (-record.preConsumed)).1.isOk := by
        rw [hk, postConsume_of_commits (by omega) hd]
        rfl
      rw [takenRecord_eq_some.mpr ⟨hf, hp, hk.symm, hok⟩] at h
      cases h
    exact ⟨by rw [hd.used_charge, if_neg hk], start_of_commits hd k⟩
  rcases refund_cases requestId db fault with he | ⟨record, _, _, he⟩ |
    ⟨record, sub, hf, hp, hd, ⟨_, _, he⟩ | ⟨_, e, he⟩⟩
  · rw [he]
    exact ⟨rfl, rfl⟩
  · rw [he]
    exact ⟨rfl, rfl⟩
  · rw [he]
    exact hother hf hp hd
  · rw [he]
    exact hother hf hp hd

theorem refund_step_iff (h : Separate k p) (fault : RefundFaults) (requestId : String) :
    Separate k (step cal k p (.refund fault requestId)) ↔ Ok k p (.refund fault requestId) := by
  unfold Ok
  cases ht : takenRecord k fault p.db requestId with
  | none =>
    obtain ⟨hu, hs⟩ := refund_untaken ht
    rw [separate_step_of_start (a := .refund fault requestId) hs]
    dsimp only [Act.apply]
    rw [hu, charge, ht]
    exact ⟨fun _ record hr ↦ (by cases hr), fun _ ↦ h⟩
  | some record =>
    obtain ⟨sub, hd, hu, hs⟩ := refund_taken ht
    rw [separate_step_of_start (a := .refund fault requestId)
      (hs.trans (start_of_commits hd k))]
    dsimp only [Act.apply]
    rw [hu, charge, ht]
    dsimp only
    rw [add_iff h hd]
    refine ⟨fun hf record' hr ↦ ?_, fun hok ↦ hok record rfl⟩
    cases hr
    exact hf

theorem separate_step_iff (h : Separate k p) (a : Act) : Separate k (step cal k p a) ↔ Ok k p a := by
  cases a with
  | preConsume fault requestId userId amount now =>
    exact ⟨fun _ ↦ trivial, fun _ ↦ preConsume_step h fault requestId userId amount now⟩
  | settle fault requestId id delta => exact settle_step_iff h fault requestId id delta
  | refund fault requestId => exact refund_step_iff h fault requestId
  | reset fault now failed limit =>
    exact ⟨fun _ ↦ trivial, fun _ ↦ reset_step h fault now failed limit⟩

/-- The used amount is the sum of the present period's shares at every point of a run
exactly when every amount the run brings fits the share of its request. -/
theorem separate_throughout_iff (cal : Calendar) (k : ℤ) (p : Point) (h : Separate k p)
    (trace : List Act) :
    (∀ first rest, trace = first ++ rest → Separate k (run (step cal k) p first)) ↔
      Along (step cal k) (Ok k) p trace :=
  throughout_iff (Separate k) (fun _ a hp ↦ separate_step_iff hp a) h trace

def centPlan : SubscriptionPlan :=
  { id := 1, totalAmount := 100, quotaResetPeriod := "custom", quotaResetCustomSeconds := 100 }

/-- A subscription of 100 for every 100 seconds, with `used` of it used and the last
reset at a given time. -/
def centSub (used last : ℤ) : UserSubscription :=
  { id := 1, userId := 1, planId := 1, amountTotal := 100, amountUsed := used, endTime := 1000,
    lastResetTime := last, nextResetTime := last + 100 }

def centStore : Store := ⟨.single centPlan, .single (centSub 0 100), .empty⟩

/-- Settling a request in its own period keeps the sum. -/
theorem separate_throughout_settled :
    Separate 1 (run (step .ticking 1) ⟨centStore, []⟩
      [.preConsume (fun _ ↦ false) "a" 1 40 110, .settle (fun _ ↦ false) "a" 1 (-10)]) := by
  have halong : Along (step .ticking 1) (Ok 1) ⟨centStore, []⟩
      [.preConsume (fun _ ↦ false) "a" 1 40 110, .settle (fun _ ↦ false) "a" 1 (-10)] := by
    refine ⟨trivial, fun sub _ _ _ ↦ ?_, trivial⟩
    unfold Fits
    decide
  exact (separate_throughout_iff .ticking 1 ⟨centStore, []⟩ rfl _).mpr halong _ []
    (List.append_nil _).symm

theorem centSub_reset : maybeReset .ticking centPlan (centSub 40 100) 200 = some (centSub 0 200) := by
  have hnext : ∀ base, calcNextResetTime .ticking centPlan base 1000 =
      if 1000 < base + 100 then 0 else base + 100 := by
    intro base
    simp [calcNextResetTime, centPlan, normalizeResetPeriod, show trimSpace "custom" = "custom" by decide]
  have hadvance : advance .ticking centPlan 1000 200 100 = (200, 300) := by
    rw [advance, hnext]
    simp only [show ¬ (1000 : ℤ) < 100 + 100 by decide, if_false]
    rw [if_pos (by decide), advance, hnext]
    decide
  unfold maybeReset
  simp [centSub, hnext, hadvance]
  decide

def chargedStore (used last : ℤ) : Store :=
  ⟨.single centPlan, .single (centSub used last), .single ⟨"a", 1, 1, 40, .consumed⟩⟩

theorem chargedStore_reset :
    (Act.reset (fun _ _ ↦ false) 200 false 0).apply .ticking (chargedStore 40 100) =
      chargedStore 0 200 := by
  have hrow : maybeResetUserSubscriptionWithPlanTx .ticking centPlan (fun _ ↦ false)
      (chargedStore 40 100) (centSub 40 100) 200 = .ok (centSub 0 200, chargedStore 0 200) := by
    unfold maybeResetUserSubscriptionWithPlanTx
    rw [centSub_reset]
    rfl
  have htx : resetTx .ticking (fun _ _ ↦ false) 200 (chargedStore 40 100) centPlan 1 =
      .ok (1, chargedStore 0 200) :=
    bind_eq_ok.mpr ⟨_, hrow, rfl⟩
  have hall : resetAll .ticking (fun _ _ ↦ false) 200 [centSub 40 100] 0 (chargedStore 40 100) =
      (.ok 1, chargedStore 0 200) := by
    have hplan : getSubscriptionPlanByIdTx false (chargedStore 40 100) 1 = .ok centPlan := rfl
    rw [resetAll]
    simp only [centSub, hplan, htx]
    rfl
  exact congrArg Prod.snd hall

/-- A request of 40 is charged in one period and refunded in the next, where another
request has used 50: the refund leaves 10 used. -/
theorem late_refund_frees_quota :
    ¬ ∀ first rest, [.preConsume (fun _ ↦ false) "a" 1 40 110, .reset (fun _ _ ↦ false) 200 false 0,
        .preConsume (fun _ ↦ false) "b" 1 50 210, .refund ⟨fun _ ↦ false, fun _ ↦ false⟩ "a"] =
        first ++ rest → Separate 1 (run (step .ticking 1) ⟨centStore, []⟩ first) := by
  intro h
  have hlast := h _ [] (List.append_nil _).symm
  have hfirst : step .ticking 1 ⟨centStore, []⟩ (.preConsume (fun _ ↦ false) "a" 1 40 110) =
      ⟨chargedStore 40 100, [⟨"a", false, 40⟩]⟩ := rfl
  have hreset : step .ticking 1 ⟨chargedStore 40 100, [⟨"a", false, 40⟩]⟩
      (.reset (fun _ _ ↦ false) 200 false 0) = ⟨chargedStore 0 200, []⟩ := by
    rw [step, chargedStore_reset]
    rfl
  rw [run_cons, hfirst, run_cons, hreset] at hlast
  revert hlast
  unfold Separate
  decide

end Runs

end AllAiTools.NewApi.Model.QuotaPeriods
