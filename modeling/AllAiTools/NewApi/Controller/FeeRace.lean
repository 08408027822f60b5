import AllAiTools.NewApi.Controller.RelayCharged

namespace AllAiTools.NewApi.Controller.FeeRace

open Foundation Foundation.Run Model.Subscription Model.SubscriptionRefund Service.Funding Service.Session
open Service.Quota Service.Consumes RelayCharges RelayCharged
open RelayRetry (Attempt)
open OneAnswer (Failure)
open RelayBilling (Relaying)
open Service.SessionConserves hiding step Inv start ten

section Totals

/-- The amount that a subscription has in all. -/
def total (db : Store) (id : ℤ) : Option ℤ := (db.subs.find id).map (·.amountTotal)

theorem total_charge {db : Store} {sub : UserSubscription} (h : db.subs.find sub.id = some sub) (delta id : ℤ) :
    total (db.charge sub delta) id = total db id := by
  rw [total, total, Store.charge, Table.find_save]
  split_ifs with hid
  · subst hid
    rw [h]
    rfl
  · rfl

theorem total_postConsume (fault : Faults) (db : Store) (sub delta id : ℤ) :
    total (postConsumeUserSubscriptionDelta fault db sub delta).2 id = total db id := by
  by_cases hdelta : delta = 0
  · rw [postConsumeUserSubscriptionDelta, if_pos hdelta]
    split_ifs
    · rfl
    · rfl
  · rcases postConsume_cases fault db hdelta with ⟨e, he⟩ | ⟨row, hc, hok⟩
    · rw [he]
    · rw [hok]
      exact total_charge (hc.key ▸ hc.found) delta id

theorem total_refundOnce (fault : RefundFaults) (db : Store) (requestId : String) (id : ℤ) :
    total (refundSubscriptionPreConsume fault db requestId).2 id = total db id := by
  rcases refund_cases requestId db fault with h | ⟨record, _, _, h⟩ | ⟨record, row, _, _, hc, h⟩
  · rw [h]
  · rw [h]
    rfl
  · have hcharge := total_charge (hc.key ▸ hc.found) (-record.preConsumed) id
    rcases h with ⟨_, _, h⟩ | ⟨_, e, h⟩
    · rw [h]
      exact hcharge
    · rw [h]
      exact hcharge

theorem total_refundAttempts (fault : ℕ → RefundFaults) (requestId : String) (n : ℕ)
    (lastErr : Except Error Unit) (db : Store) (id : ℤ) :
    total (refundAttempts fault requestId n lastErr db).2 id = total db id := by
  induction n generalizing lastErr db with
  | zero => rfl
  | succ n ih =>
    have honce := total_refundOnce (fault n) db requestId id
    rw [refundAttempts]
    generalize refundSubscriptionPreConsume (fault n) db requestId = r at honce ⊢
    obtain ⟨e | u, db'⟩ := r
    · exact (ih (.error e) db').trans honce
    · exact honce

theorem total_fundingRefund (f : CallFaults) (w : World) (funding : FundingSource) (id : ℤ) :
    total (funding.refund f w).2.db id = total w.db id := by
  cases funding with
  | wallet consumed =>
    rw [FundingSource.refund]
    split_ifs
    · rfl
    · rcases updateQuota_cases f.wallet consumed w { w with userQuota := w.userQuota + consumed } with
        ⟨e, he⟩ | hok
      · rw [increaseUserQuota, he]
      · rw [increaseUserQuota, hok]
  | subscription sub =>
    rw [FundingSource.refund]
    split_ifs
    · rfl
    · have hattempts := total_refundAttempts f.refund sub.requestId 3 (.ok ()) w.db id
      rw [refundWithRetry]
      generalize refundAttempts f.refund sub.requestId 3 (.ok ()) w.db = r at hattempts ⊢
      obtain ⟨e | u, db'⟩ := r
      · exact hattempts
      · exact hattempts

theorem total_postConsumeDelta (fault : Faults) (w : World) (sub delta id : ℤ) :
    total (postConsumeDelta fault w sub delta).2.db id = total w.db id := by
  have hdelta := total_postConsume fault w.db sub delta id
  rw [postConsumeDelta]
  generalize postConsumeUserSubscriptionDelta fault w.db sub delta = r at hdelta ⊢
  obtain ⟨e | u, db'⟩ := r
  · exact hdelta
  · exact hdelta

theorem total_refundExtra (f : CallFaults) (session : BillingSession) (w : World) (id : ℤ) :
    total (session.refundExtra f w).db id = total w.db id := by
  unfold BillingSession.refundExtra
  split
  · rfl
  · split_ifs
    · exact total_postConsumeDelta f.delta w _ _ id
    · rfl

theorem total_consumeFunding (f : ConsumeFaults) (info : RelayInfo) (quota : ℤ) (w : World) (id : ℤ) :
    total (consumeFunding f info quota w).2.db id = total w.db id := by
  unfold consumeFunding
  split_ifs
  · rfl
  · rfl
  · have hdelta := total_postConsumeDelta f.delta w info.subscriptionId quota id
    generalize postConsumeDelta f.delta w info.subscriptionId quota = r at hdelta ⊢
    obtain ⟨e | u, w'⟩ := r
    · exact hdelta
    · exact hdelta
  · rcases takeUserQuota_cases f.wallet quota w with ⟨e, he⟩ | hok
    · rw [he]
    · rw [hok]

end Totals

section Decision

/-- A fee is too much for a subscription of which so much is used. -/
def Exceeds (total used fee : ℤ) : Prop := 0 < total ∧ total < used + fee

structure Quiet (faults : ConsumeFaults) : Prop where
  wallet : faults.wallet = false
  delta : ∀ stmt, faults.delta stmt = false

/-- The funding as the store has it can pay the fee. -/
def Fits (fee : ℤ) (funding : FundingSource) (db : Store) : Prop :=
  ∀ sub t, funding = .subscription sub → total db sub.subscriptionId = some t →
    ¬ Exceeds t (db.used sub.subscriptionId) fee

/-- A subscription can be charged at all. -/
structure Chargeable (sub : SubscriptionFunding) (db : Store) : Prop where
  id_pos : 0 < sub.subscriptionId
  found : ∃ t, total db sub.subscriptionId = some t
  nonneg : 0 ≤ db.used sub.subscriptionId

variable {faults : ConsumeFaults} {info : RelayInfo} {fee : ℤ} {w : World}

theorem subscription_decides {sub : SubscriptionFunding} (hnames : Names info (.subscription sub))
    (hfee : 0 < fee) (hsub : Chargeable sub w.db) (hquiet : Quiet faults) :
    (consumeFunding faults info fee w).1.isOk = true ↔ Fits fee (.subscription sub) w.db := by
  obtain ⟨hsource, hid⟩ := hnames
  have hpos := hsub.id_pos
  have hnonneg := hsub.nonneg
  obtain ⟨t, ht⟩ := hsub.found
  obtain ⟨row, hrow, hamount⟩ := Option.map_eq_some_iff.mp ht
  have hused : w.db.used sub.subscriptionId = row.amountUsed := by
    simp only [Store.used, hrow, Option.map_some, Option.getD_some]
  have hnew : newUsed row.amountUsed fee = row.amountUsed + fee := newUsed_of_nonneg (by omega)
  have hfits : Fits fee (.subscription sub) w.db ↔
      ¬ (0 < row.amountTotal ∧ row.amountTotal < newUsed row.amountUsed fee) := by
    rw [hnew]
    refine ⟨fun h ↦ ?_, fun h ↦ ?_⟩
    · have hrest := h sub t rfl ht
      rw [hused, ← hamount] at hrest
      exact hrest
    · intro sub' t' heq ht'
      cases heq
      rw [ht] at ht'
      cases ht'
      rw [hused, ← hamount]
      exact h
  unfold consumeFunding
  rw [if_pos hsource, hid, if_neg hpos.ne', if_neg hfee.ne', hfits]
  rcases postConsume_cases faults.delta w.db hfee.ne' with ⟨e, he⟩ | ⟨row', hc, hok⟩
  · rw [postConsumeDelta_error he]
    refine ⟨(fun h ↦ by cases h), fun h ↦ ?_⟩
    have hc : DeltaCommits faults.delta w.db sub.subscriptionId fee row :=
      ⟨hpos, hrow, h, hquiet.delta _, hquiet.delta _, hquiet.delta _, hquiet.delta _⟩
    rw [postConsume_of_commits hfee.ne' hc] at he
    cases he
  · rw [postConsumeDelta_ok hok]
    refine ⟨fun _ ↦ ?_, fun _ ↦ rfl⟩
    have hsame : row' = row := Option.some.inj (hc.found.symm.trans hrow)
    exact hsame ▸ hc.fits

/-- Nothing but the limit of a subscription refuses a fee. -/
theorem consumeFunding_decides {funding : FundingSource} (hnames : Names info funding) (hfee : 0 < fee)
    (hsub : ∀ sub, funding = .subscription sub → Chargeable sub w.db) (hquiet : Quiet faults) :
    (consumeFunding faults info fee w).1.isOk = true ↔ Fits fee funding w.db := by
  cases funding with
  | subscription sub => exact subscription_decides hnames hfee (hsub sub rfl) hquiet
  | wallet consumed =>
    have hsource : info.billingSource ≠ some .subscription := hnames
    unfold consumeFunding takeUserQuota
    rw [if_neg hsource, if_pos hfee, decreaseUserQuota, hquiet.wallet, updateQuota_ok hfee.le]
    refine ⟨fun _ ↦ ?_, fun _ ↦ rfl⟩
    intro sub t heq
    cases heq

end Decision

section Statement

/-- The fee fits only once the pre-consume has been given back. -/
def Tight (fee : ℤ) (s : State) : Prop :=
  ∃ sub t, s.funding = .subscription sub ∧ total s.world.db sub.subscriptionId = some t ∧
    Exceeds t (s.world.db.used sub.subscriptionId) fee ∧
    ¬ Exceeds t (s.world.db.used sub.subscriptionId - preConsumed s) fee

/-- What is left of a failed request and its refund, when the database works and nobody else is at the
funding. -/
def Deferred (s : State) : Event → Prop
  | .attempt _ _ => False
  | .charge faults => Quiet faults
  | .others _ => False
  | event => Works s event

def EndsAlike (config : Config) (s : State) : Prop :=
  ∃ ending, ∀ trace ending', Along (step config) Deferred s trace →
    Finished (run (step config) s trace) ending' → ending' = ending

end Statement

section Race

variable {config : Config} {base : ℤ} {w₀ : World} {s₀ s : State}

theorem works_of_deferred {event : Event} (h : Deferred s event) : Works s event := by
  cases event with
  | attempt outcome faults => cases h
  | charge faults => trivial
  | others world => cases h
  | _ => exact h

/-- What a deferred step leaves alone, and where the session of a refund comes from. -/
structure Frame (s s' : State) : Prop where
  others : s'.others = s.others
  limits : ∀ id, total s'.world.db id = total s.world.db id
  copied : ∀ session, s'.refund = .funding session →
    s.refund = .funding session ∨ session.preConsumedQuota = preConsumed s

theorem Frame.refl (s : State) : Frame s s := ⟨rfl, fun _ ↦ rfl, fun _ h ↦ .inl h⟩

theorem frame_refund (failure : Failure) (relaying : Relaying) (s : State) :
    Frame s (RelayCharges.refund failure relaying s) := by
  unfold RelayCharges.refund
  dsimp only
  cases hsession : s.session with
  | none => exact ⟨rfl, fun _ ↦ rfl, fun _ h ↦ .inl h⟩
  | some session =>
    dsimp only
    split_ifs
    · exact ⟨rfl, fun _ ↦ rfl, fun _ h ↦ .inl h⟩
    · refine ⟨rfl, fun _ ↦ rfl, ?_⟩
      intro session' h
      cases h
      refine .inr ?_
      rw [preConsumed, hsession]
      rfl

theorem frame_charge (config : Config) (faults : ConsumeFaults) (failure : Failure) (relaying : Relaying)
    (s : State) : Frame s (RelayCharges.charge config faults failure relaying s) := by
  unfold RelayCharges.charge
  dsimp only
  split_ifs
  · exact ⟨rfl, fun _ ↦ rfl, fun _ h ↦ .inl h⟩
  · have htotal := total_consumeFunding faults s.info (config.fee failure relaying) s.world
    generalize consumeFunding faults s.info (config.fee failure relaying) s.world = r at htotal ⊢
    obtain ⟨e | info, w⟩ := r
    · exact ⟨rfl, htotal, fun _ h ↦ .inl h⟩
    · obtain ⟨hrefund, hothers, -, -⟩ := withInfo_same s info
      exact ⟨hothers, htotal, fun _ h ↦ .inl (hrefund.symm.trans h)⟩

theorem frame_step {event : Event} (hbooked : Booked base w₀ s) (h : Deferred s event) :
    Frame s (step config s event) := by
  cases event with
  | attempt outcome faults => cases h
  | refund =>
    simp only [step]
    split
    · exact frame_refund _ _ s
    · exact .refl s
  | charge faults =>
    simp only [step]
    split
    · exact frame_charge config faults _ _ s
    · exact .refl s
  | chargeToken faults =>
    simp only [step]
    split
    · rw [chargeToken_works h]
      exact ⟨rfl, fun _ ↦ rfl, fun _ h ↦ .inl h⟩
    · exact .refl s
  | record =>
    simp only [step]
    split
    · exact ⟨rfl, fun _ ↦ rfl, fun _ h ↦ .inl h⟩
    · exact .refl s
  | refundFunding faults =>
    cases hrefund : s.refund with
    | funding session =>
      simp only [step, hrefund]
      refine ⟨rfl, fun id ↦ ?_, fun _ h ↦ by cases h⟩
      exact (total_refundExtra faults session _ id).trans (total_fundingRefund faults s.world _ id)
    | _ =>
      simp only [step, hrefund]
      exact .refl s
  | refundToken faults =>
    cases hrefund : s.refund with
    | token session =>
      obtain ⟨-, hnonneg⟩ := hbooked.owes session hrefund
      obtain ⟨-, -, -, hdb⟩ := refundToken_share (w := s.world) hnonneg h
      simp only [step, hrefund]
      refine ⟨rfl, fun id ↦ ?_, fun _ h ↦ by cases h⟩
      exact congrArg (total · id) hdb
    | _ =>
      simp only [step, hrefund]
      exact .refl s
  | others world => cases h

/-- A failed request on its way to its end. -/
structure Racing (base : ℤ) (w₀ : World) (s₀ s : State) : Prop where
  booked : Booked base w₀ s
  same : SameSession s₀ s
  others : s.others = s₀.others
  limits : ∀ id, total s.world.db id = total s₀.world.db id
  copied : ∀ session, s.refund = .funding session → session.preConsumedQuota = preConsumed s₀

theorem Racing.step {event : Event} (h : Racing base w₀ s₀ s) (hdeferred : Deferred s event) :
    Racing base w₀ s₀ (RelayCharges.step config s event) := by
  have hframe := @frame_step config _ _ _ _ h.booked hdeferred
  refine ⟨h.booked.step config (works_of_deferred hdeferred), h.same.trans (step_same config s event),
    hframe.others.trans h.others, fun id ↦ (hframe.limits id).trans (h.limits id), ?_⟩
  intro session hrefund
  rcases hframe.copied session hrefund with hsession | hsession
  · exact h.copied session hsession
  · exact hsession.trans h.same.1

theorem racing_start {failure : Failure} {relaying : Relaying} (hbooked : Booked base w₀ s₀)
    (hmain : s₀.main = .refunding failure relaying) : Racing base w₀ s₀ s₀ := by
  refine ⟨hbooked, .refl s₀, rfl, fun _ ↦ rfl, ?_⟩
  intro session hrefund
  rw [hbooked.idle (by rw [hmain]; rfl)] at hrefund
  cases hrefund

theorem drawn_refunding {failure : Failure} {relaying : Relaying} (hbooked : Booked base w₀ s₀)
    (hmain : s₀.main = .refunding failure relaying) :
    drawn s₀.world s₀.funding = base + s₀.others.drawn + preConsumed s₀ := by
  have hkeeps : keeps s₀.main = true := by rw [hmain]; rfl
  obtain ⟨htaken, htokens, hsettled⟩ := keeps_amounts hkeeps
  cases hsession : s₀.session with
  | none =>
    have hgone := (hbooked.gone ((holding_of_keeps hkeeps).trans hsession)).funding
    rw [preConsumed, hsession]
    rw [htaken, hsettled] at hgone
    exact hgone
  | some session =>
    have hsome := (holding_of_keeps hkeeps).trans hsession
    have hgone := (gone_of_held (hbooked.own session (.inl hsome)) (hbooked.held session hsome)).funding
    rw [htaken, zero_add] at hgone
    rw [preConsumed, hsession]
    exact hgone

/-- The fee finds the pre-consume still out, or given back. -/
theorem Racing.drawn_charging {failure : Failure} {relaying : Relaying} (h : Racing base w₀ s₀ s)
    (hmain : s.main = .charging failure relaying) :
    (∃ session, s.refund = .funding session ∧
      drawn s.world s.funding = base + s₀.others.drawn + preConsumed s₀) ∨
    (refunding s.refund = none ∧ drawn s.world s.funding = base + s₀.others.drawn) := by
  have hkeeps : keeps s.main = false := by rw [hmain]; rfl
  have htaken : taken s.main = 0 := by rw [hmain]; rfl
  have hsettled : settledAt s.main = 0 := by rw [hmain]; rfl
  have hholding := holding_of_not hkeeps
  have hgone := h.booked.gone
  have hothers := h.others
  cases hrefund : s.refund with
  | funding session =>
    rw [hrefund] at hholding
    have hown := h.booked.own session (.inl hholding)
    have hdrawn := (h.booked.held session hholding).funded.drawn_eq
    have hcopied := h.copied session hrefund
    rw [hown.funding, htaken, hothers, hcopied, add_zero] at hdrawn
    exact .inl ⟨session, rfl, hdrawn⟩
  | _ =>
    rw [hrefund] at hholding
    have hfunding := (hgone hholding).funding
    rw [htaken, hsettled, hothers, add_zero, add_zero] at hfunding
    exact .inr ⟨rfl, hfunding⟩

end Race

section Endings

variable {config : Config} {base : ℤ} {w₀ : World} {s₀ s : State} {failure : Failure} {relaying : Relaying}
  {fee : ℤ} {paid : Prop}

/-- How far a failed request has come whose fee is paid or not. -/
def Decided (fee : ℤ) (failure : Failure) (relaying : Relaying) (paid : Prop) : MainAt → Prop
  | .attempting _ _ _ _ => False
  | .refunding failure' relaying' => failure' = failure ∧ relaying' = relaying
  | .charging failure' relaying' => failure' = normalize failure ∧ relaying' = relaying
  | .chargingToken failure' fee' => failure' = normalize failure ∧ fee' = fee ∧ paid
  | .recording failure' fee' => failure' = normalize failure ∧ fee' = fee ∧ paid
  | .ended ending => (paid → ending = .failed (normalize failure) fee true) ∧
    (¬ paid → ending = .failed (normalize failure) 0 false)

theorem charge_unpaid {faults : ConsumeFaults} (hunpaid : 0 < config.fee failure relaying →
      ¬ (consumeFunding faults s.info (config.fee failure relaying) s.world).1.isOk = true) :
    (charge config faults failure relaying s).main = .ended (.failed failure 0 false) := by
  unfold charge
  dsimp only
  split_ifs with hfee
  · rfl
  · have hnot := hunpaid (not_le.mp hfee)
    generalize consumeFunding faults s.info (config.fee failure relaying) s.world = r at hnot ⊢
    obtain ⟨e | info, w⟩ := r
    · rfl
    · exact absurd rfl hnot

theorem charge_paid {faults : ConsumeFaults} (hfee : 0 < config.fee failure relaying)
    (hpaid : (consumeFunding faults s.info (config.fee failure relaying) s.world).1.isOk = true) :
    (charge config faults failure relaying s).main =
      .chargingToken failure (config.fee failure relaying) := by
  unfold charge
  dsimp only
  rw [if_neg (not_le.mpr hfee)]
  generalize consumeFunding faults s.info (config.fee failure relaying) s.world = r at hpaid ⊢
  obtain ⟨e | info, w⟩ := r
  · cases hpaid
  · rfl

/-- The fee is decided where it is charged, and nowhere else. -/
theorem decided_step {event : Event}
    (h : Decided (config.fee (normalize failure) relaying) failure relaying paid s.main)
    (hdecides : ∀ faults, s.main = .charging (normalize failure) relaying → Quiet faults →
      (0 < config.fee (normalize failure) relaying ∧
        (consumeFunding faults s.info (config.fee (normalize failure) relaying) s.world).1.isOk = true ↔
          paid))
    (hdeferred : Deferred s event) :
    Decided (config.fee (normalize failure) relaying) failure relaying paid (step config s event).main := by
  cases event with
  | attempt outcome faults => cases hdeferred
  | refund =>
    cases hmain : s.main with
    | refunding failure' relaying' =>
      simp only [Decided, hmain] at h
      obtain ⟨rfl, rfl⟩ := h
      have hcharging : (RelayCharges.refund failure' relaying' s).main =
          .charging (normalize failure') relaying' := by
        unfold RelayCharges.refund
        dsimp only
        split
        · rfl
        · split_ifs
          · rfl
          · rfl
      simp only [step, hmain, hcharging]
      exact ⟨rfl, rfl⟩
    | _ =>
      simp only [step, hmain]
      simp only [hmain] at h
      exact h
  | charge faults =>
    cases hmain : s.main with
    | charging failure' relaying' =>
      simp only [Decided, hmain] at h
      obtain ⟨rfl, rfl⟩ := h
      have hiff := hdecides faults hmain hdeferred
      simp only [step, hmain]
      by_cases hpaid : paid
      · obtain ⟨hfee, hok⟩ := hiff.mpr hpaid
        rw [charge_paid hfee hok]
        exact ⟨rfl, rfl, hpaid⟩
      · rw [charge_unpaid (fun hfee hok ↦ hpaid (hiff.mp ⟨hfee, hok⟩))]
        exact ⟨fun h ↦ absurd h hpaid, fun _ ↦ rfl⟩
    | _ =>
      simp only [step, hmain]
      simp only [hmain] at h
      exact h
  | chargeToken faults =>
    cases hmain : s.main with
    | chargingToken failure' fee' =>
      simp only [Decided, hmain] at h
      simp only [step, hmain, chargeToken_works hdeferred]
      exact h
    | _ =>
      simp only [step, hmain]
      simp only [hmain] at h
      exact h
  | record =>
    cases hmain : s.main with
    | recording failure' fee' =>
      simp only [Decided, hmain] at h
      obtain ⟨rfl, rfl, hpaid⟩ := h
      simp only [step, hmain]
      exact ⟨fun _ ↦ rfl, fun hnot ↦ absurd hpaid hnot⟩
    | _ =>
      simp only [step, hmain]
      simp only [hmain] at h
      exact h
  | refundFunding faults =>
    cases hrefund : s.refund with
    | funding session =>
      simp only [step, hrefund]
      exact h
    | _ =>
      simp only [step, hrefund]
      exact h
  | refundToken faults =>
    cases hrefund : s.refund with
    | token session =>
      simp only [step, hrefund]
      exact h
    | _ =>
      simp only [step, hrefund]
      exact h
  | others world => cases hdeferred

theorem preConsumed_nonneg (hbooked : Booked base w₀ s₀) (hmain : s₀.main = .refunding failure relaying) :
    0 ≤ preConsumed s₀ := by
  have hkeeps : keeps s₀.main = true := by rw [hmain]; rfl
  cases hsession : s₀.session with
  | none =>
    rw [preConsumed, hsession]
    exact le_refl 0
  | some session =>
    have hheld := hbooked.held session ((holding_of_keeps hkeeps).trans hsession)
    rw [preConsumed, hsession]
    exact hheld.nonneg

theorem Racing.chargeable (h : Racing base w₀ s₀ s)
    (hsub : ∀ sub, s₀.funding = .subscription sub → 0 < sub.subscriptionId ∧
      ∃ t, total s₀.world.db sub.subscriptionId = some t) (sub : SubscriptionFunding)
    (heq : s.funding = .subscription sub) : Chargeable sub s.world.db := by
  obtain ⟨hpos, t, ht⟩ := hsub sub (h.same.2.symm.trans heq)
  have hnonneg := h.booked.nonneg sub heq
  rw [heq] at hnonneg
  exact ⟨hpos, ⟨t, (h.limits _).trans ht⟩, hnonneg⟩

/-- Where the limit is not tight the fee finds the same whether the pre-consume is back or not. -/
theorem Racing.fits_iff (h : Racing base w₀ s₀ s) (hbooked : Booked base w₀ s₀)
    (hstart : s₀.main = .refunding failure relaying)
    (hmain : s.main = .charging (normalize failure) relaying) (hloose : ¬ Tight fee s₀) :
    Fits fee s.funding s.world.db ↔ Fits fee s₀.funding s₀.world.db := by
  have hfunding := h.same.2
  have hpre := preConsumed_nonneg hbooked hstart
  have hbefore := drawn_refunding hbooked hstart
  have hnow : drawn s.world s.funding = drawn s₀.world s₀.funding ∨
      drawn s.world s.funding = drawn s₀.world s₀.funding - preConsumed s₀ := by
    rcases h.drawn_charging hmain with ⟨session, -, hdrawn⟩ | ⟨-, hdrawn⟩
    · exact .inl (by omega)
    · exact .inr (by omega)
  rw [hfunding] at hnow ⊢
  have hone : ∀ sub t, s₀.funding = .subscription sub → total s₀.world.db sub.subscriptionId = some t →
      (Exceeds t (s.world.db.used sub.subscriptionId) fee ↔
        Exceeds t (s₀.world.db.used sub.subscriptionId) fee) := by
    intro sub t heq ht
    rw [heq] at hnow
    have hused : s.world.db.used sub.subscriptionId = s₀.world.db.used sub.subscriptionId ∨
        s.world.db.used sub.subscriptionId = s₀.world.db.used sub.subscriptionId - preConsumed s₀ := hnow
    rcases hused with hused | hused
    · rw [hused]
    · rw [hused]
      refine ⟨fun hlow ↦ ?_, fun hhigh ↦ ?_⟩
      · have hpos := hlow.1
        have hover := hlow.2
        exact ⟨hpos, by omega⟩
      · by_contra hfits
        exact hloose ⟨sub, t, heq, ht, hhigh, hfits⟩
  refine ⟨fun hfits sub t heq ht hover ↦ ?_, fun hfits sub t heq ht hover ↦ ?_⟩
  · exact hfits sub t heq ((h.limits _).trans ht) ((hone sub t heq ht).mpr hover)
  · rw [h.limits] at ht
    exact hfits sub t heq ht ((hone sub t heq ht).mp hover)

theorem ends_alike (hbooked : Booked base w₀ s₀) (hmain : s₀.main = .refunding failure relaying)
    (hsub : ∀ sub, s₀.funding = .subscription sub → 0 < sub.subscriptionId ∧
      ∃ t, total s₀.world.db sub.subscriptionId = some t)
    (hloose : ¬ Tight (config.fee (normalize failure) relaying) s₀) : EndsAlike config s₀ := by
  let paid := 0 < config.fee (normalize failure) relaying ∧
    Fits (config.fee (normalize failure) relaying) s₀.funding s₀.world.db
  have hrun : ∀ trace, Along (step config) Deferred s₀ trace →
      Racing base w₀ s₀ (run (step config) s₀ trace) ∧
        Decided (config.fee (normalize failure) relaying) failure relaying paid
          (run (step config) s₀ trace).main := by
    intro trace hdeferred
    refine hdeferred.invariant (fun s ↦ Racing base w₀ s₀ s ∧
      Decided (config.fee (normalize failure) relaying) failure relaying paid s.main) ?_ ⟨?_, ?_⟩
    · intro s event hs hevent
      refine ⟨hs.1.step hevent, decided_step hs.2 ?_ hevent⟩
      intro faults hcharging hquiet
      refine and_congr_right fun hfee ↦ ?_
      have hdecides := consumeFunding_decides hs.1.booked.names hfee (hs.1.chargeable hsub) hquiet
      exact hdecides.trans (hs.1.fits_iff hbooked hmain hcharging hloose)
    · exact racing_start hbooked hmain
    · rw [hmain]
      exact ⟨rfl, rfl⟩
  by_cases hpaid : paid
  · refine ⟨.failed (normalize failure) (config.fee (normalize failure) relaying) true, ?_⟩
    intro trace ending hdeferred hfinished
    have hend := (hrun trace hdeferred).2
    rw [hfinished.1] at hend
    exact hend.1 hpaid
  · refine ⟨.failed (normalize failure) 0 false, ?_⟩
    intro trace ending hdeferred hfinished
    have hend := (hrun trace hdeferred).2
    rw [hfinished.1] at hend
    exact hend.2 hpaid

end Endings

section Races

variable {config : Config} {base : ℤ} {w₀ : World} {s₀ s : State} {failure : Failure} {relaying : Relaying}
  {fee : ℤ} {session : BillingSession} {f : CallFaults}

theorem quiet_quiet : Quiet quiet := ⟨rfl, fun _ ↦ rfl⟩

theorem charge_refund (config : Config) (faults : ConsumeFaults) (failure : Failure) (relaying : Relaying)
    (s : State) : (charge config faults failure relaying s).refund = s.refund := by
  unfold charge
  dsimp only
  split_ifs
  · rfl
  · generalize consumeFunding faults s.info (config.fee failure relaying) s.world = r
    obtain ⟨e | info, w⟩ := r
    · rfl
    · exact (withInfo_same s info).1

theorem finishes_paid (hmain : s.main = .chargingToken failure fee) (hrefund : s.refund = .done) :
    Finished (run (step config) s [.chargeToken quiet, .record]) (.failed failure fee true) := by
  have htoken : step config s (.chargeToken quiet) =
      { s with world := s.world.drawToken (tokenShare s.info fee), main := .recording failure fee } := by
    simp only [step, hmain]
    exact chargeToken_works rfl
  rw [run_cons, htoken]
  exact ⟨rfl, .inr hrefund⟩

/-- A request of which the refund has been asked for, before its goroutine begins. -/
def asked (failure : Failure) (relaying : Relaying) (session : BillingSession) (s : State) : State :=
  { s with
    main := .charging (normalize failure) relaying
    session := some { session with refunded := true }
    refund := .funding session }

/-- The fee comes first and is refused. -/
theorem refused_run (hnames : Names (asked failure relaying session s).info session.funding)
    (hok : RefundOk f session s.world) (hfee : 0 < config.fee (normalize failure) relaying)
    (hsub : ∀ sub, session.funding = .subscription sub → Chargeable sub s.world.db)
    (hfull : ¬ Fits (config.fee (normalize failure) relaying) session.funding s.world.db) :
    Along (step config) Deferred (asked failure relaying session s)
        [.charge quiet, .refundFunding f, .refundToken noFaults] ∧
      Finished (run (step config) (asked failure relaying session s)
        [.charge quiet, .refundFunding f, .refundToken noFaults]) (.failed (normalize failure) 0 false) := by
  have hcharge : step config (asked failure relaying session s) (.charge quiet) =
      { asked failure relaying session s with main := .ended (.failed (normalize failure) 0 false) } := by
    have hstep : step config (asked failure relaying session s) (.charge quiet) =
        charge config quiet (normalize failure) relaying (asked failure relaying session s) := rfl
    have hdecides := @consumeFunding_decides quiet _ _ (asked failure relaying session s).world _ hnames hfee
      hsub quiet_quiet
    rw [hstep, charge]
    dsimp only
    rw [if_neg (not_le.mpr hfee)]
    rcases consumeFunding_pays quiet (config.fee (normalize failure) relaying)
      (asked failure relaying session s).world hnames with ⟨e, he⟩ | ⟨d, w', hpaid, -⟩
    · rw [he]
    · rw [hpaid] at hdecides
      exact absurd (hdecides.mp rfl) hfull
  rw [along_cons, run_cons, hcharge]
  refine ⟨⟨quiet_quiet, ?_, rfl, trivial⟩, rfl, .inr rfl⟩
  intro session' hsession'
  cases hsession'
  exact hok

/-- The refund comes first, and the fee is paid out of it. -/
theorem paid_run (hracing : Racing base w₀ s₀ (asked failure relaying session s))
    (hok : RefundOk f session s.world) (hfee : 0 < config.fee (normalize failure) relaying)
    (hsub : ∀ sub, s₀.funding = .subscription sub → 0 < sub.subscriptionId ∧
      ∃ t, total s₀.world.db sub.subscriptionId = some t)
    (hfits : ∀ db, (∀ sub, s₀.funding = .subscription sub →
        db.used sub.subscriptionId = base + s₀.others.drawn) →
      (∀ id, total db id = total s₀.world.db id) →
        Fits (config.fee (normalize failure) relaying) s₀.funding db) :
    Along (step config) Deferred (asked failure relaying session s)
        [.refundFunding f, .refundToken noFaults, .charge quiet, .chargeToken quiet, .record] ∧
      Finished (run (step config) (asked failure relaying session s)
          [.refundFunding f, .refundToken noFaults, .charge quiet, .chargeToken quiet, .record])
        (.failed (normalize failure) (config.fee (normalize failure) relaying) true) := by
  have hgives : Deferred (asked failure relaying session s) (.refundFunding f) := by
    intro session' hsession'
    cases hsession'
    exact hok
  have hgiven : Racing base w₀ s₀ (step config (step config (asked failure relaying session s)
      (.refundFunding f)) (.refundToken noFaults)) := (hracing.step hgives).step rfl
  have hmain : (step config (step config (asked failure relaying session s) (.refundFunding f))
      (.refundToken noFaults)).main = .charging (normalize failure) relaying := rfl
  have hrefund : (step config (step config (asked failure relaying session s) (.refundFunding f))
      (.refundToken noFaults)).refund = .done := rfl
  rw [along_cons, along_cons, run_cons, run_cons]
  generalize step config (step config (asked failure relaying session s) (.refundFunding f))
    (.refundToken noFaults) = back at hgiven hmain hrefund ⊢
  have hdrawn : drawn back.world back.funding = base + s₀.others.drawn := by
    rcases hgiven.drawn_charging hmain with ⟨session', hsession', -⟩ | ⟨-, hdrawn⟩
    · rw [hrefund] at hsession'
      cases hsession'
    · exact hdrawn
  have hpays : (consumeFunding quiet back.info (config.fee (normalize failure) relaying)
      back.world).1.isOk = true := by
    refine (consumeFunding_decides hgiven.booked.names hfee (hgiven.chargeable hsub) quiet_quiet).mpr ?_
    have hfunding := hgiven.same.2
    rw [hfunding] at hdrawn ⊢
    refine hfits _ (fun sub heq ↦ ?_) hgiven.limits
    rw [heq] at hdrawn
    exact hdrawn
  have hcharge : step config back (.charge quiet) = charge config quiet (normalize failure) relaying back := by
    simp only [step, hmain]
  refine ⟨⟨hgives, rfl, quiet_quiet, rfl, trivial, trivial⟩, ?_⟩
  rw [run_cons, hcharge]
  exact finishes_paid (charge_paid hfee hpays) ((charge_refund config quiet _ _ back).trans hrefund)

end Races

section Main

variable {config : Config} {base : ℤ} {w₀ : World} {s₀ : State} {failure : Failure} {relaying : Relaying}

/-- What a request on a subscription holds of it. -/
theorem backed_refunding {session : BillingSession} (hbooked : Booked base w₀ s₀)
    (hmain : s₀.main = .refunding failure relaying) (hsession : s₀.session = some session)
    {sub : SubscriptionFunding} (heq : s₀.funding = .subscription sub) :
    session.funding = .subscription sub ∧ Open session ∧
      Held (base + s₀.others.drawn + taken s₀.main) (before w₀ s₀) session s₀.world ∧
      Backed (base + s₀.others.drawn + taken s₀.main) sub session s₀.world.db := by
  have hkeeps : keeps s₀.main = true := by rw [hmain]; rfl
  have hsome := (holding_of_keeps hkeeps).trans hsession
  have hheld := hbooked.held session hsome
  have hfunding := (hbooked.own session (.inl hsome)).funding.trans heq
  have hbacked := hheld.funded
  simp only [Funded, hfunding] at hbacked
  exact ⟨hfunding, hbooked.opened hkeeps session hsession, hheld, hbacked⟩

theorem session_of_subscription {sub : SubscriptionFunding} (heq : s₀.funding = .subscription sub) :
    ∃ session, s₀.session = some session := by
  cases hsession : s₀.session with
  | none =>
    rw [State.funding, hsession] at heq
    cases heq
  | some session => exact ⟨session, rfl⟩

/-- The order of the fee and the refund decides a tight fee. -/
theorem not_alike_of_tight {session : BillingSession} {f : CallFaults} (hbooked : Booked base w₀ s₀)
    (hmain : s₀.main = .refunding failure relaying) (hsession : s₀.session = some session)
    (hok : RefundOk f session s₀.world) (htight : Tight (config.fee (normalize failure) relaying) s₀) :
    ¬ EndsAlike config s₀ := by
  obtain ⟨sub, t, heq, ht, hover, hlow⟩ := htight
  obtain ⟨hfunding, hopen, hheld, hbacked⟩ := backed_refunding hbooked hmain hsession heq
  obtain ⟨db', row', -, hpos, -⟩ := refundRecord_subscription hfunding hbacked hok
  obtain ⟨row, hrow, hamount, hcap⟩ := hbacked.row
  have htotal : row.amountTotal = t := by
    rw [total, hrow] at ht
    exact Option.some.inj ht
  have hused : s₀.world.db.used sub.subscriptionId = row.amountUsed := by
    simp only [Store.used, hrow, Option.map_some, Option.getD_some]
  have hpre : preConsumed s₀ = session.preConsumedQuota := by
    rw [preConsumed, hsession]
    rfl
  obtain ⟨hlimited, htoo⟩ := hover
  have hfee : 0 < config.fee (normalize failure) relaying := by
    have hfits := hcap (htotal.symm ▸ hlimited)
    omega
  have hheldPos : 0 < session.preConsumedQuota := by
    by_contra hnot
    exact hlow ⟨hlimited, by omega⟩
  have hneeds : session.needsRefund = true := by
    cases hn : session.needsRefund with
    | true => rfl
    | false =>
      have hzero := preConsumed_of_not_needsRefund hopen hheld hn
      omega
  have hask : step config s₀ .refund = asked failure relaying session s₀ := by
    simp only [step, hmain]
    exact refund_given hsession hopen hneeds
  have hracing : Racing base w₀ s₀ (asked failure relaying session s₀) :=
    hask ▸ (racing_start hbooked hmain).step (trivial : Deferred s₀ .refund)
  have hdrawn := drawn_refunding hbooked hmain
  rw [heq] at hdrawn
  have hnow : s₀.world.db.used sub.subscriptionId = base + s₀.others.drawn + preConsumed s₀ := hdrawn
  have hchargeable : Chargeable sub s₀.world.db := by
    have hnonneg := hbooked.nonneg sub heq
    rw [heq] at hnonneg
    exact ⟨hpos, ⟨t, ht⟩, hnonneg⟩
  have hrefused := @refused_run config s₀ failure relaying session f hracing.booked.names hok hfee
    (fun sub' heq' ↦ by
      rw [hfunding] at heq'
      cases heq'
      exact hchargeable)
    (fun hfits ↦ hfits sub t hfunding ht ⟨hlimited, htoo⟩)
  have hpaid := @paid_run config base w₀ s₀ s₀ failure relaying session f hracing hok hfee
    (fun sub' heq' ↦ by
      rw [heq] at heq'
      cases heq'
      exact ⟨hpos, t, ht⟩)
    (fun db hdb hsame sub' t' heq' ht' hexceeds ↦ by
      have hgiven := hdb sub' heq'
      rw [heq] at heq'
      cases heq'
      rw [hsame, ht] at ht'
      cases ht'
      rw [hgiven] at hexceeds
      refine hlow ?_
      rw [hnow, add_sub_cancel_right]
      exact hexceeds)
  intro halike
  obtain ⟨ending, halike⟩ := halike
  have hfirst := halike [.refund, .charge quiet, .refundFunding f, .refundToken noFaults] _
    ⟨trivial, hask ▸ hrefused.1⟩ (by
      rw [run_cons, hask]
      exact hrefused.2)
  have hsecond := halike [.refund, .refundFunding f, .refundToken noFaults, .charge quiet,
      .chargeToken quiet, .record] _ ⟨trivial, hask ▸ hpaid.1⟩ (by
      rw [run_cons, hask]
      exact hpaid.2)
  have hrecorded := (Ending.failed.inj (hfirst.trans hsecond.symm)).2.2
  cases hrecorded

end Main

section Examples

/-- A subscription of twelve of which nothing is used. -/
def limitedWorld : World := { Service.SessionConserves.start with
  db := {
    plans := .single { id := 1 }
    subs := .single { id := 1, userId := 1, planId := 1, amountTotal := 12, amountUsed := 0, endTime := 1000 }
    records := .empty } }

def limitedInfo : RelayInfo := { plainInfo with billingPreference := "subscription_only" }

def limited : BillingSession × World :=
  ((newSession limitedInfo 10 .subscription).preConsume plainEnv noFaults 10 limitedWorld).2

theorem limited_opened :
    Service.NewSession.newBillingSession plainEnv Service.NewSession.plainOpen limitedInfo 10 limitedWorld =
      (.ok limited.1, limited.2) := rfl

/-- A request that fails for a violation, with ten of the twelve pre-consumed. -/
def failing : State :=
  { start (some limited.1) limitedInfo limited.2 (some firstChannel) relayingGrok with
    main := .refunding (normalize csam) relayingGrok }

theorem failing_reached : run (step plainConfig)
    (start (some limited.1) limitedInfo limited.2 (some firstChannel) relayingGrok)
    [.attempt (.failed csam) noFaults] = failing := rfl

theorem failing_tight : Tight (plainConfig.fee (normalize (normalize csam)) relayingGrok) failing := by
  have hused : failing.world.db.used 1 = 10 := rfl
  have hpre : preConsumed failing = 10 := rfl
  refine ⟨_, 12, rfl, rfl, ⟨by decide, ?_⟩, fun hover ↦ ?_⟩
  · refine (?_ : (12 : ℤ) < failing.world.db.used 1 + _)
    rw [hused, csam_fee]
    decide
  · have htoo : (12 : ℤ) < failing.world.db.used 1 - preConsumed failing +
        plainConfig.fee (normalize (normalize csam)) relayingGrok := hover.2
    rw [hused, hpre, csam_fee] at htoo
    omega

end Examples

end AllAiTools.NewApi.Controller.FeeRace
