import AllAiTools.NewApi.Controller.RelayCharges
import AllAiTools.NewApi.Service.Consumes

namespace AllAiTools.NewApi.Controller.RelayCharged

open Foundation.Run Model.Subscription Model.SubscriptionRefund Service.Funding Service.Session Service.Quota
open Service.Consumes RelayCharges
open RelayRetry (Attempt)
open OneAnswer (Failure)
open RelayBilling (Relaying)
open Service.SessionConserves hiding step Inv start

section Statement

/-- The pre-consume of a request is not given back as long as, or where, the request is so far. -/
def keeps : MainAt → Bool
  | .attempting _ _ _ _ => true
  | .refunding _ _ => true
  | .ended .unanswered => true
  | .ended (.served _ settled) => !settled
  | _ => false

/-- What the goroutine of the refund has still to give back to the funding. -/
def refunding : RefundAt → Option BillingSession
  | .funding session => some session
  | _ => none

/-- The session whose pre-consume is still out. -/
def holding (s : State) : Option BillingSession :=
  if keeps s.main then s.session else refunding s.refund

/-- What has been taken of the funding besides the session. -/
def taken : MainAt → ℤ
  | .chargingToken _ fee => fee
  | .recording _ fee => fee
  | .ended (.failed _ fee _) => fee
  | _ => 0

/-- What has been taken of the token besides the session. -/
def tokenTaken : MainAt → ℤ
  | .recording _ fee => fee
  | .ended (.failed _ fee _) => fee
  | _ => 0

def settledAt : MainAt → ℤ
  | .ended (.served quota settled) => if settled then quota else 0
  | _ => 0

/-- What the goroutine of the refund has still to give back to the token. -/
def owed : RefundAt → ℤ
  | .token session => session.preConsumedQuota
  | _ => 0

/-- Since `w₀`, when `base` was gone from the funding of a request, so much has gone from it and from the
token, besides what other requests have taken. -/
structure Gone (base : ℤ) (w₀ : World) (charged tokenCharged : ℤ) (s : State) : Prop where
  funding : drawn s.world s.funding = base + s.others.drawn + charged
  remain : w₀.remainQuota - s.world.remainQuota = s.others.remain + tokenShare s.info tokenCharged
  used : s.world.usedQuota - w₀.usedQuota = s.others.used + tokenShare s.info tokenCharged

def preConsumed (s : State) : ℤ := (s.session.map BillingSession.preConsumedQuota).getD 0

/-- What a request costs: an answer what it is settled at, or what was pre-consumed where its settlement
is refused; a failure nothing but the fee for a violation. -/
def cost (preConsumed : ℤ) : Ending → ℤ
  | .unanswered => preConsumed
  | .served quota settled => if settled then quota else preConsumed
  | .failed _ fee _ => fee

/-- The request has ended and nothing of its refund is left to do. -/
def Finished (s : State) (ending : Ending) : Prop :=
  s.main = .ended ending ∧ (s.refund = .idle ∨ s.refund = .done)

/-- Other requests leave alone what a request has pre-consumed of a subscription: its record, and of the
used amount at least so much. -/
structure Leaves (s : State) (world : World) : Prop where
  nonneg : ∀ sub, s.funding = .subscription sub → 0 ≤ drawn world s.funding
  row : ∀ session sub, holding s = some session → s.funding = .subscription sub →
    ∃ row, world.db.subs.find sub.subscriptionId = some row ∧
      session.preConsumedQuota ≤ row.amountUsed ∧ (0 < row.amountTotal → row.amountUsed ≤ row.amountTotal)
  record : ∀ sub, s.funding = .subscription sub →
    world.db.records.find sub.requestId = s.world.db.records.find sub.requestId

/-- The database does not fail in a refund, nor for the token once the funding has paid; whether the
funding pays an answer or a fee is left open. An answer is settled at no negative quota. -/
def Works (s : State) : Event → Prop
  | .attempt outcome faults =>
    faults.token = false ∧ ∀ quota, outcome = .served quota → ∀ relaying, 0 ≤ quota relaying
  | .chargeToken faults => faults.token = false
  | .refundFunding faults => ∀ session, s.refund = .funding session → RefundOk faults session s.world
  | .refundToken faults => faults.token = false
  | .others world => Leaves s world
  | _ => True

end Statement

section Invariant

variable {base : ℤ} {w₀ : World} {s s' : State}

/-- Where a session is measured from: other requests and the fee have taken of the token meanwhile. -/
def before (w₀ : World) (s : State) : World :=
  { w₀ with
    remainQuota := w₀.remainQuota - s.others.remain - tokenShare s.info (tokenTaken s.main)
    usedQuota := w₀.usedQuota + s.others.used + tokenShare s.info (tokenTaken s.main) }

/-- A session of the request itself. -/
structure Own (session : BillingSession) (s : State) : Prop where
  funding : session.funding = s.funding
  playground : session.relayInfo.isPlayground = s.info.isPlayground

/-- The state of a request's billing at any time: the session that holds the pre-consume does so from
where the others and the fee have left its funding, and when none does the cost is what has gone. -/
structure Booked (base : ℤ) (w₀ : World) (s : State) : Prop where
  names : Names s.info s.funding
  nonneg : ∀ sub, s.funding = .subscription sub → 0 ≤ drawn s.world s.funding
  free : s.session = none → s.relayInfo.finalPreConsumedQuota = 0
  idle : keeps s.main = true → s.refund = .idle
  opened : keeps s.main = true → ∀ session, s.session = some session → Open session
  unsettled : s.refund ≠ .idle → settledAt s.main = 0
  fee_pos : ∀ failure fee, s.main = .chargingToken failure fee → 0 < fee
  own : ∀ session, holding s = some session ∨ s.refund = .token session → Own session s
  owes : ∀ session, s.refund = .token session → session.tokenConsumed = session.preConsumedQuota ∧
    0 ≤ session.tokenConsumed
  held : ∀ session, holding s = some session →
    Held (base + s.others.drawn + taken s.main) (before w₀ s) session s.world
  gone : holding s = none → Gone base w₀ (settledAt s.main + taken s.main)
    (settledAt s.main + tokenTaken s.main + owed s.refund) s

theorem keeps_amounts {main : MainAt} (h : keeps main = true) :
    taken main = 0 ∧ tokenTaken main = 0 ∧ settledAt main = 0 := by
  cases main with
  | attempting n inContext relaying newAPIError => exact ⟨rfl, rfl, rfl⟩
  | refunding failure relaying => exact ⟨rfl, rfl, rfl⟩
  | charging failure relaying => cases h
  | chargingToken failure fee => cases h
  | recording failure fee => cases h
  | ended ending =>
    cases ending with
    | unanswered => exact ⟨rfl, rfl, rfl⟩
    | served quota settled =>
      have hnot : settled = false := by
        rw [keeps, Bool.not_eq_true'] at h
        exact h
      subst hnot
      exact ⟨rfl, rfl, rfl⟩
    | failed failure fee recorded => cases h

theorem holding_of_keeps (h : keeps s.main = true) : holding s = s.session := if_pos h

theorem holding_of_not (h : keeps s.main = false) : holding s = refunding s.refund := by
  rw [holding, h, if_neg Bool.false_ne_true]

theorem before_congr (hothers : s'.others = s.others)
    (hshare : tokenShare s'.info (tokenTaken s'.main) = tokenShare s.info (tokenTaken s.main)) :
    before w₀ s' = before w₀ s := by
  rw [before, hothers, hshare]
  rfl

theorem tokenShare_none (info : RelayInfo) : tokenShare info 0 = 0 := ite_self 0

/-- The request goes on, with what is held and what has been taken as they were. -/
theorem Booked.moves (h : Booked base w₀ s) {main : MainAt} {calls : List Service.TextQuota.Call}
    (hkeeps : keeps main = keeps s.main) (htaken : taken main = taken s.main)
    (htokens : tokenTaken main = tokenTaken s.main) (hsettled : settledAt main = settledAt s.main)
    (hfee : ∀ failure fee, main = .chargingToken failure fee → 0 < fee) :
    Booked base w₀ { s with main, calls } := by
  have hbefore : before w₀ { s with main, calls } = before w₀ s := by
    simp only [before, htokens]
    rfl
  have hholding : holding { s with main, calls } = holding s := by
    simp only [holding, hkeeps]
  refine ⟨h.names, h.nonneg, h.free, ?_, ?_, ?_, hfee, ?_, h.owes, ?_, ?_⟩
  · exact fun hk ↦ h.idle (hkeeps.symm.trans hk)
  · exact fun hk ↦ h.opened (hkeeps.symm.trans hk)
  · exact fun hr ↦ hsettled.trans (h.unsettled hr)
  · intro session hsession
    rw [hholding] at hsession
    exact ⟨(h.own session hsession).funding, (h.own session hsession).playground⟩
  · intro session hsession
    rw [hholding] at hsession
    rw [hbefore]
    dsimp only
    rw [htaken]
    exact h.held session hsession
  · intro hnone
    rw [hholding] at hnone
    have hgone := h.gone hnone
    dsimp only
    rw [htaken, htokens, hsettled]
    exact ⟨hgone.funding, hgone.remain, hgone.used⟩

/-- The pre-consume stays where it was. -/
theorem Booked.goesOn (h : Booked base w₀ s) (hkeeps : keeps s.main = true) {main : MainAt}
    (hmain : keeps main = true) : Booked base w₀ { s with main } := by
  obtain ⟨htaken, htokens, hsettled⟩ := keeps_amounts hkeeps
  obtain ⟨htaken', htokens', hsettled'⟩ := keeps_amounts hmain
  refine h.moves (hmain.trans hkeeps.symm) (htaken'.trans htaken.symm) (htokens'.trans htokens.symm)
    (hsettled'.trans hsettled.symm) ?_
  intro failure fee heq
  rw [heq] at hmain
  cases hmain

/-- Two states of one request. -/
structure Alike (s s' : State) : Prop where
  funding : s'.funding = s.funding
  others : s'.others = s.others
  playground : s'.info.isPlayground = s.info.isPlayground

theorem Own.alike {session : BillingSession} (h : Own session s) (halike : Alike s s') : Own session s' :=
  ⟨h.funding.trans halike.funding.symm, h.playground.trans halike.playground.symm⟩

theorem Gone.pay {charged tokenCharged quota : ℤ} (h : Gone base w₀ charged tokenCharged s)
    (halike : Alike s s') (hq : 0 ≤ quota)
    (hnonneg : ∀ sub, s.funding = .subscription sub → 0 ≤ drawn s.world s.funding)
    (hpays : Pays s.funding quota s.world s'.world) :
    Gone base w₀ (charged + quota) tokenCharged s' := by
  have hdrawn := hpays.drawn hq hnonneg
  have hgone := h.funding
  refine ⟨?_, ?_, ?_⟩
  · rw [halike.funding, halike.others]
    omega
  · rw [halike.others, tokenShare_congr halike.playground, hpays.remain]
    exact h.remain
  · rw [halike.others, tokenShare_congr halike.playground, hpays.used]
    exact h.used

theorem drawn_drawToken (w : World) (quota : ℤ) (funding : FundingSource) :
    drawn (w.drawToken quota) funding = drawn w funding := by
  cases funding with
  | wallet consumed => rfl
  | subscription sub => rfl

theorem Gone.drawToken {charged tokenCharged quota : ℤ} (h : Gone base w₀ charged tokenCharged s)
    (halike : Alike s s') (hworld : s'.world = s.world.drawToken (tokenShare s.info quota)) :
    Gone base w₀ charged (tokenCharged + quota) s' := by
  have hremain := h.remain
  have hused := h.used
  have hadd := tokenShare_add s.info tokenCharged quota
  refine ⟨?_, ?_, ?_⟩
  · rw [halike.funding, halike.others, hworld, drawn_drawToken]
    exact h.funding
  · rw [halike.others, tokenShare_congr halike.playground, hworld, hadd, World.drawToken]
    dsimp only
    omega
  · rw [halike.others, tokenShare_congr halike.playground, hworld, hadd, World.drawToken]
    dsimp only
    omega

/-- Once the pre-consume is given back or settled, what has gone is the whole of the books. -/
theorem booked_of_gone (hnames : Names s.info s.funding)
    (hnonneg : ∀ sub, s.funding = .subscription sub → 0 ≤ drawn s.world s.funding)
    (hfree : s.session = none → s.relayInfo.finalPreConsumedQuota = 0) (hkeeps : keeps s.main = false)
    (hidle : s.refund = .idle) (hfee : ∀ failure fee, s.main = .chargingToken failure fee → 0 < fee)
    (hgone : Gone base w₀ (settledAt s.main + taken s.main) (settledAt s.main + tokenTaken s.main) s) :
    Booked base w₀ s := by
  have hnone : holding s = none := by
    rw [holding_of_not hkeeps, hidle]
    rfl
  refine ⟨hnames, hnonneg, hfree, fun h ↦ ?_, fun h ↦ ?_, fun h ↦ absurd hidle h, hfee, ?_, ?_, ?_,
    fun _ ↦ ?_⟩
  · rw [hkeeps] at h
    cases h
  · rw [hkeeps] at h
    cases h
  · intro session hsession
    rw [hnone, hidle] at hsession
    rcases hsession with hsession | hsession
    · cases hsession
    · cases hsession
  · intro session hsession
    rw [hidle] at hsession
    cases hsession
  · intro session hsession
    rw [hnone] at hsession
    cases hsession
  · have howed : owed s.refund = 0 := by rw [hidle]; rfl
    rw [howed, add_zero]
    exact hgone

theorem nonneg_of_held {session : BillingSession} {base' : ℤ} {w₁ w : World}
    (h : Held base' w₁ session w) (sub : SubscriptionFunding) (hsub : session.funding = .subscription sub) :
    0 ≤ drawn w session.funding := by
  have hdrawn := h.funded.drawn_eq
  have hpre := h.nonneg
  have hfunded := h.funded
  simp only [Funded, hsub] at hfunded
  have hbase := hfunded.base_nonneg
  omega

/-- An answer without a session is charged outright. -/
theorem Booked.chargesFree (h : Booked base w₀ s) (hkeeps : keeps s.main = true) (hfree : s.session = none)
    {faults : CallFaults} (htoken : faults.token = false) {quota : ℤ} (hq : 0 ≤ quota) :
    Booked base w₀ { (settleBilling faults quota s).2 with
      main := .ended (.served quota (settleBilling faults quota s).1) } := by
  obtain ⟨htaken, htokens, hsettled⟩ := keeps_amounts hkeeps
  have hinfo : s.info = s.relayInfo := by rw [State.info, hfree]; rfl
  have hwallet : s.funding = .wallet 0 := by rw [State.funding, hfree]; rfl
  have hgone := h.gone (by rw [holding_of_keeps hkeeps, hfree])
  have howed : owed s.refund = 0 := by rw [h.idle hkeeps]; rfl
  rw [htaken, htokens, hsettled, howed, add_zero, add_zero] at hgone
  have hcall : settleBilling faults quota s = if quota = 0 then (true, s) else
      ((postConsumeQuota ⟨faults.wallet, faults.delta, faults.token⟩ s.relayInfo quota s.world).1.isOk,
        { s with
          relayInfo :=
            (postConsumeQuota ⟨faults.wallet, faults.delta, faults.token⟩ s.relayInfo quota s.world).2.1
          world :=
            (postConsumeQuota ⟨faults.wallet, faults.delta, faults.token⟩ s.relayInfo quota s.world).2.2 }) := by
    simp only [settleBilling, hfree, h.free hfree, sub_zero]
  rw [hcall]
  split_ifs with hzero
  · subst hzero
    dsimp only
    refine booked_of_gone h.names h.nonneg h.free rfl (h.idle hkeeps) ?_ ?_
    · intro failure fee heq
      cases heq
    · exact ⟨hgone.funding, hgone.remain, hgone.used⟩
  have hnames : Names s.relayInfo s.funding := hinfo ▸ h.names
  rcases consumeFunding_pays ⟨faults.wallet, faults.delta, faults.token⟩ quota s.world hnames with
    ⟨e, he⟩ | ⟨d, w', hok, hpays⟩
  · have hpost : postConsumeQuota ⟨faults.wallet, faults.delta, faults.token⟩ s.relayInfo quota s.world =
        (.error e, s.relayInfo, s.world) := by
      rw [postConsumeQuota, he]
    rw [hpost]
    exact h.goesOn hkeeps rfl
  · rw [postConsumeQuota_works htoken hok]
    dsimp only
    have hpaid : Gone base w₀ (0 + quota) 0 { s with world := w' } :=
      hgone.pay ⟨rfl, rfl, rfl⟩ hq h.nonneg hpays
    have hshare : tokenShare { s.relayInfo with subscriptionPostDelta := d } quota =
        tokenShare s.info quota := tokenShare_congr (by rw [hinfo]) quota
    refine booked_of_gone ?_ ?_ h.free rfl (h.idle hkeeps) ?_ ?_
    · simp only [State.info, State.funding, hfree]
      rw [hwallet] at hnames
      exact hnames
    · intro sub hsub
      simp only [State.funding, hfree] at hsub
      cases hsub
    · intro failure fee heq
      cases heq
    · refine (?_ : Gone base w₀ (quota + 0) (quota + 0) _)
      rw [add_comm quota 0]
      refine hpaid.drawToken ⟨?_, ?_, ?_⟩ ?_
      · rfl
      · rfl
      · simp only [State.info, hfree]
        rfl
      · dsimp only
        rw [hshare]
        rfl

/-- An answer of a session is settled whole, or the pre-consume stays where it is. -/
theorem Booked.settles (h : Booked base w₀ s) (hkeeps : keeps s.main = true) {session : BillingSession}
    (hsession : s.session = some session) {faults : CallFaults} (htoken : faults.token = false) {quota : ℤ}
    (hq : 0 ≤ quota) :
    Booked base w₀ { (settleBilling faults quota s).2 with
      main := .ended (.served quota (settleBilling faults quota s).1) } := by
  obtain ⟨htaken, htokens, hsettled⟩ := keeps_amounts hkeeps
  have hheld := h.held session ((holding_of_keeps hkeeps).trans hsession)
  have hown := h.own session (.inl ((holding_of_keeps hkeeps).trans hsession))
  rw [htaken, add_zero] at hheld
  have hcall : settleBilling faults quota s = ((session.settle faults quota s.world).1.isOk,
      { s with
        session := some (session.settle faults quota s.world).2.1
        world := (session.settle faults quota s.world).2.2 }) := by
    simp only [settleBilling, hsession]
  rw [hcall]
  rcases settle_whole (h.opened hkeeps session hsession) hheld (.inr hq) htoken with ⟨e, he⟩ | ⟨hok, hdone⟩
  · rw [he]
    dsimp only
    rw [← hsession]
    exact h.goesOn hkeeps rfl
  · obtain ⟨hfunding, hshare, hnames⟩ := settle_keeps faults quota session s.world
    obtain ⟨hremain, hused⟩ := hdone.token hok
    have hgone := hdone.funding
    rw [hshare, tokenShare_congr hown.playground] at hremain hused
    simp only [before, htokens, tokenShare_none] at hremain hused
    rw [hok]
    generalize session.settle faults quota s.world = r at hfunding hshare hnames hdone hremain hused hgone
    obtain ⟨answer, session', w'⟩ := r
    dsimp only at hfunding hshare hnames hdone hremain hused hgone ⊢
    have hfund : session'.funding = s.funding := hfunding.trans hown.funding
    have hrelay : s.info = session.relayInfo := by rw [State.info, hsession]; rfl
    rw [hfund] at hgone
    refine booked_of_gone ?_ ?_ (fun hnone ↦ by cases hnone) rfl (h.idle hkeeps) ?_ ?_
    · have hold := h.names
      rw [hrelay] at hold
      have hnew := hnames s.funding hold
      rw [← hfund] at hnew
      exact hnew
    · intro sub hsub
      have hbacked := hheld.funded
      simp only [Funded, hown.funding.trans (hfund.symm.trans hsub)] at hbacked
      have hbase := hbacked.base_nonneg
      rw [← hfund] at hgone
      change 0 ≤ drawn w' session'.funding
      omega
    · intro failure fee heq
      cases heq
    · refine (?_ : Gone base w₀ (quota + 0) (quota + 0) _)
      rw [add_zero]
      have hnew : tokenShare session'.relayInfo quota = tokenShare s.info quota :=
        (hshare quota).trans (tokenShare_congr hown.playground quota)
      refine ⟨?_, ?_, ?_⟩
      · change drawn w' session'.funding = _
        rw [hfund]
        dsimp only
        omega
      · refine Eq.trans ?_ (congrArg (s.others.remain + ·) hnew.symm)
        dsimp only
        omega
      · refine Eq.trans ?_ (congrArg (s.others.used + ·) hnew.symm)
        dsimp only
        omega

/-- As long as a session is held its pre-consume has gone too. -/
theorem gone_of_held {session : BillingSession} (hown : Own session s)
    (hheld : Held (base + s.others.drawn + taken s.main) (before w₀ s) session s.world) :
    Gone base w₀ (taken s.main + session.preConsumedQuota) (tokenTaken s.main + session.preConsumedQuota)
      s := by
  have hdrawn := hheld.funded.drawn_eq
  have hremain := hheld.token
  have hused := hheld.usage
  rw [tokenShare_congr hown.playground] at hremain hused
  simp only [before] at hremain hused
  have hadd := tokenShare_add s.info (tokenTaken s.main) session.preConsumedQuota
  rw [hown.funding] at hdrawn
  refine ⟨?_, ?_, ?_⟩
  · omega
  · omega
  · omega

theorem preConsumed_of_not_needsRefund {session : BillingSession} {base' : ℤ} {w₁ w : World}
    (hopen : Open session) (hheld : Held base' w₁ session w) (hneeds : session.needsRefund = false) :
    session.preConsumedQuota = 0 := by
  have hcounter := hheld.counter
  have hnonneg := hheld.nonneg
  by_contra hne
  have hpos : 0 < session.tokenConsumed := by omega
  rw [BillingSession.needsRefund, hopen.1, hopen.2, hheld.pending] at hneeds
  simp only [Bool.or_self, Bool.false_eq_true, if_false, if_pos hpos, Bool.true_eq_false] at hneeds

theorem refund_free {failure : Failure} {relaying : Relaying} (h : s.session = none) :
    RelayCharges.refund failure relaying s =
      { s with main := .charging (normalize failure) relaying } := by
  simp only [RelayCharges.refund, h]

theorem refund_kept {failure : Failure} {relaying : Relaying} {session : BillingSession}
    (h : s.session = some session) (hneeds : session.needsRefund = false) :
    RelayCharges.refund failure relaying s =
      { s with main := .charging (normalize failure) relaying } := by
  simp only [RelayCharges.refund, h, hneeds, Bool.not_false, Bool.or_true, if_true]

theorem refund_given {failure : Failure} {relaying : Relaying} {session : BillingSession}
    (h : s.session = some session) (hopen : Open session) (hneeds : session.needsRefund = true) :
    RelayCharges.refund failure relaying s =
      { s with
        main := .charging (normalize failure) relaying
        session := some { session with refunded := true }
        refund := .funding session } := by
  simp only [RelayCharges.refund, h, hopen.1, hopen.2, hneeds, Bool.or_self, Bool.not_true,
    Bool.false_eq_true, if_false]

/-- The pre-consume goes over to the goroutine of the refund, if there is one to give back. -/
theorem Booked.refund {failure : Failure} {relaying : Relaying} (h : Booked base w₀ s)
    (hmain : s.main = .refunding failure relaying) :
    Booked base w₀ (RelayCharges.refund failure relaying s) := by
  have hkeeps : keeps s.main = true := by rw [hmain]; rfl
  obtain ⟨htaken, htokens, hsettled⟩ := keeps_amounts hkeeps
  have hidle := h.idle hkeeps
  have howed : owed s.refund = 0 := by rw [hidle]; rfl
  have hrest : Gone base w₀ 0 0 s →
      Booked base w₀ { s with main := .charging (normalize failure) relaying } := by
    intro hgone
    refine booked_of_gone h.names h.nonneg h.free rfl hidle ?_ ⟨hgone.funding, hgone.remain, hgone.used⟩
    intro failure' fee heq
    cases heq
  cases hsession : s.session with
  | none =>
    have hgone := h.gone ((holding_of_keeps hkeeps).trans hsession)
    rw [htaken, htokens, hsettled, howed] at hgone
    rw [refund_free hsession]
    exact hrest hgone
  | some session =>
    have hheld := h.held session ((holding_of_keeps hkeeps).trans hsession)
    have hown := h.own session (.inl ((holding_of_keeps hkeeps).trans hsession))
    have hopen := h.opened hkeeps session hsession
    cases hneeds : session.needsRefund with
    | false =>
      have hgone := gone_of_held hown hheld
      rw [preConsumed_of_not_needsRefund hopen hheld hneeds, htaken, htokens] at hgone
      rw [refund_kept hsession hneeds]
      exact hrest hgone
    | true =>
      rw [refund_given hsession hopen hneeds]
      have hinfo : s.info = session.relayInfo := by rw [State.info, hsession]; rfl
      have hfunding : s.funding = session.funding := hown.funding.symm
      refine ⟨?_, ?_, ?_, ?_, ?_, fun _ ↦ rfl, ?_, ?_, ?_, ?_, ?_⟩
      · have hnames := h.names
        rw [hinfo, hfunding] at hnames
        exact hnames
      · have hnonneg := h.nonneg
        rw [hfunding] at hnonneg
        exact hnonneg
      · intro hnone
        cases hnone
      · intro hkept
        cases hkept
      · intro hkept
        cases hkept
      · intro failure' fee heq
        cases heq
      · rintro session' (hsession' | hsession')
        · cases hsession'
          exact ⟨rfl, rfl⟩
        · cases hsession'
      · intro session' hsession'
        cases hsession'
      · intro session' hsession'
        cases hsession'
        rw [htaken] at hheld
        simp only [before, htokens, hinfo] at hheld
        exact hheld
      · intro hnone
        cases hnone

theorem names_delta {info : RelayInfo} {funding : FundingSource} {d : ℤ} (h : Names info funding) :
    Names { info with subscriptionPostDelta := d } funding := by
  cases funding with
  | wallet consumed => exact h
  | subscription sub => exact h

theorem withInfo_info (s : State) (info : RelayInfo) : (s.withInfo info).info = info := by
  unfold State.withInfo State.info
  cases s.session with
  | none => rfl
  | some session => rfl

theorem withInfo_funding (s : State) (info : RelayInfo) : (s.withInfo info).funding = s.funding := by
  unfold State.withInfo State.funding
  cases s.session with
  | none => rfl
  | some session => rfl

theorem withInfo_same (s : State) (info : RelayInfo) :
    (s.withInfo info).refund = s.refund ∧ (s.withInfo info).others = s.others ∧
      (s.withInfo info).calls = s.calls ∧
      ((s.withInfo info).session = none → s.session = none ∧ (s.withInfo info).relayInfo = info) := by
  unfold State.withInfo
  cases hsession : s.session with
  | none => exact ⟨rfl, rfl, rfl, fun _ ↦ ⟨rfl, rfl⟩⟩
  | some session => exact ⟨rfl, rfl, rfl, fun h ↦ by cases h⟩

/-- The funding pays the fee, whether the pre-consume has been given back or not. -/
theorem Booked.paysFee (h : Booked base w₀ s) (hkeeps : keeps s.main = false) (htaken : taken s.main = 0)
    (htokens : tokenTaken s.main = 0) (hsettled : settledAt s.main = 0) {failure : Failure} {fee d : ℤ}
    (hfee : 0 < fee) {w' : World} (hpays : Pays s.funding fee s.world w') :
    Booked base w₀ { s.withInfo { s.info with subscriptionPostDelta := d } with
      world := w'
      main := .chargingToken failure fee } := by
  obtain ⟨hrefund, hothers, hcalls, hnone⟩ := withInfo_same s { s.info with subscriptionPostDelta := d }
  have hinfo := withInfo_info s { s.info with subscriptionPostDelta := d }
  have hfunding := withInfo_funding s { s.info with subscriptionPostDelta := d }
  generalize s.withInfo { s.info with subscriptionPostDelta := d } = s₁
    at hrefund hothers hcalls hnone hinfo hfunding
  have halike : Alike s { s₁ with world := w', main := .chargingToken failure fee } := by
    refine ⟨hfunding, hothers, ?_⟩
    change s₁.info.isPlayground = s.info.isPlayground
    rw [hinfo]
  have hholding : holding { s₁ with world := w', main := .chargingToken failure fee } = holding s := by
    rw [holding_of_not hkeeps, ← hrefund]
    rfl
  have hbefore : before w₀ { s₁ with world := w', main := .chargingToken failure fee } = before w₀ s := by
    refine before_congr hothers ?_
    rw [htokens]
    exact (tokenShare_none _).trans (tokenShare_none _).symm
  refine ⟨?_, ?_, ?_, ?_, ?_, fun _ ↦ rfl, ?_, ?_, ?_, ?_, ?_⟩
  · have hnames := names_delta (d := d) h.names
    rw [← hinfo, ← hfunding] at hnames
    exact hnames
  · intro sub hsub
    have hold := h.nonneg sub (hfunding.symm.trans hsub)
    have hnew := hpays.drawn hfee.le h.nonneg
    rw [halike.funding]
    dsimp only
    omega
  · intro hn
    obtain ⟨hfree, hrelay⟩ := hnone hn
    have hzero := h.free hfree
    have hsame : s.info = s.relayInfo := by rw [State.info, hfree]; rfl
    dsimp only
    rw [hrelay, hsame]
    exact hzero
  · intro hk
    cases hk
  · intro hk
    cases hk
  · intro failure' fee' heq
    cases heq
    exact hfee
  · intro session hsession
    rw [hholding, hrefund] at hsession
    exact (h.own session hsession).alike halike
  · intro session hsession
    exact h.owes session (hrefund.symm.trans hsession)
  · intro session hsession
    rw [hholding] at hsession
    have hheld := h.held session hsession
    rw [htaken, add_zero] at hheld
    have hown := h.own session (.inl hsession)
    rw [hbefore]
    dsimp only
    rw [hothers]
    exact held_paid hheld hfee.le (hown.funding.symm ▸ hpays)
  · intro hn
    rw [hholding] at hn
    have hgone := h.gone hn
    rw [htaken, htokens, hsettled] at hgone
    have hpaid := hgone.pay halike hfee.le h.nonneg hpays
    rw [hrefund]
    rw [zero_add] at hpaid
    exact hpaid

theorem Booked.charge (config : Config) (faults : ConsumeFaults) {failure : Failure} {relaying : Relaying}
    (h : Booked base w₀ s) (hmain : s.main = .charging failure relaying) :
    Booked base w₀ (RelayCharges.charge config faults failure relaying s) := by
  have hkeeps : keeps s.main = false := by rw [hmain]; rfl
  have htaken : taken s.main = 0 := by rw [hmain]; rfl
  have htokens : tokenTaken s.main = 0 := by rw [hmain]; rfl
  have hsettled : settledAt s.main = 0 := by rw [hmain]; rfl
  have hrefused : Booked base w₀ { s with main := .ended (.failed failure 0 false) } := by
    refine h.moves hkeeps.symm htaken.symm htokens.symm hsettled.symm ?_
    intro failure' fee heq
    cases heq
  unfold RelayCharges.charge
  dsimp only
  split_ifs with hfee
  · exact hrefused
  · rcases consumeFunding_pays faults (config.fee failure relaying) s.world h.names with
      ⟨e, he⟩ | ⟨d, w', hok, hpays⟩
    · rw [he]
      exact hrefused
    · rw [hok]
      exact h.paysFee hkeeps htaken htokens hsettled (not_le.mp hfee) hpays

theorem chargeToken_works {faults : ConsumeFaults} (htoken : faults.token = false) {failure : Failure}
    {fee : ℤ} : RelayCharges.chargeToken faults failure fee s =
      { s with world := s.world.drawToken (tokenShare s.info fee), main := .recording failure fee } := by
  unfold RelayCharges.chargeToken
  cases hplay : s.info.isPlayground with
  | true =>
    have hshare : tokenShare s.info fee = 0 := if_pos hplay
    rw [hshare, drawToken_none]
    rfl
  | false =>
    have hshare : tokenShare s.info fee = fee := if_neg (by rw [hplay]; decide)
    rw [hshare, htoken, takeTokenQuota_works, if_neg Bool.false_ne_true]

/-- The token pays the fee. -/
theorem Booked.chargeToken {faults : ConsumeFaults} {failure : Failure} {fee : ℤ} (h : Booked base w₀ s)
    (hmain : s.main = .chargingToken failure fee) (htoken : faults.token = false) :
    Booked base w₀ (RelayCharges.chargeToken faults failure fee s) := by
  have hkeeps : keeps s.main = false := by rw [hmain]; rfl
  have htaken : taken s.main = fee := by rw [hmain]; rfl
  have htokens : tokenTaken s.main = 0 := by rw [hmain]; rfl
  have hsettled : settledAt s.main = 0 := by rw [hmain]; rfl
  rw [chargeToken_works htoken]
  have hdrawn := drawn_drawToken s.world (tokenShare s.info fee)
  have hholding : holding { s with
      world := s.world.drawToken (tokenShare s.info fee)
      main := .recording failure fee } = holding s := by
    rw [holding_of_not hkeeps]
    rfl
  refine ⟨h.names, ?_, h.free, ?_, ?_, fun _ ↦ rfl, ?_, ?_, h.owes, ?_, ?_⟩
  · intro sub hsub
    have hold := h.nonneg sub hsub
    rw [← hdrawn] at hold
    exact hold
  · intro hk
    cases hk
  · intro hk
    cases hk
  · intro failure' fee' heq
    cases heq
  · intro session hsession
    rw [hholding] at hsession
    exact (h.own session hsession).alike ⟨rfl, rfl, rfl⟩
  · intro session hsession
    rw [hholding] at hsession
    have hheld := h.held session hsession
    rw [htaken] at hheld
    have hzero : tokenShare s.info (tokenTaken s.main) = 0 := by
      rw [htokens]
      exact tokenShare_none s.info
    refine held_token hheld rfl rfl ?_ ?_
    · change w₀.remainQuota - s.others.remain - tokenShare s.info fee -
        (s.world.remainQuota - tokenShare s.info fee) =
          w₀.remainQuota - s.others.remain - tokenShare s.info (tokenTaken s.main) - s.world.remainQuota
      omega
    · change s.world.usedQuota + tokenShare s.info fee -
        (w₀.usedQuota + s.others.used + tokenShare s.info fee) =
          s.world.usedQuota - (w₀.usedQuota + s.others.used + tokenShare s.info (tokenTaken s.main))
      omega
  · intro hn
    rw [hholding] at hn
    have hgone := h.gone hn
    rw [htaken, htokens, hsettled] at hgone
    have hpaid : Gone base w₀ (0 + fee) (0 + 0 + owed s.refund + fee) { s with
        world := s.world.drawToken (tokenShare s.info fee)
        main := .recording failure fee } := hgone.drawToken ⟨rfl, rfl, rfl⟩ rfl
    have hsum : 0 + 0 + owed s.refund + fee = 0 + fee + owed s.refund := by omega
    rw [hsum] at hpaid
    exact hpaid

theorem Booked.record (config : Config) {failure : Failure} {fee : ℤ} (h : Booked base w₀ s)
    (hmain : s.main = .recording failure fee) :
    Booked base w₀ (RelayCharges.record config failure fee s) := by
  refine h.moves ?_ ?_ ?_ ?_ ?_
  · rw [hmain]
    rfl
  · rw [hmain]
    rfl
  · rw [hmain]
    rfl
  · rw [hmain]
    rfl
  · intro failure' fee' heq
    cases heq

/-- Once its refund has begun a request holds nothing itself. -/
theorem Booked.not_keeps (h : Booked base w₀ s) (hrefund : s.refund ≠ .idle) : keeps s.main = false := by
  cases hk : keeps s.main with
  | false => rfl
  | true => exact absurd (h.idle hk) hrefund

/-- The funding gets back what was pre-consumed, wherever the fee and the others have left it. -/
theorem Booked.refundFunding {faults : CallFaults} {session : BillingSession} (h : Booked base w₀ s)
    (hrefund : s.refund = .funding session) (hok : RefundOk faults session s.world) :
    Booked base w₀ (RelayCharges.refundFunding faults session s) := by
  have hkeeps := h.not_keeps (by rw [hrefund]; exact fun heq ↦ by cases heq)
  have hholding : holding s = some session := by
    rw [holding_of_not hkeeps, hrefund]
    rfl
  have hsettled : settledAt s.main = 0 := h.unsettled (by rw [hrefund]; exact fun heq ↦ by cases heq)
  have hheld := h.held session hholding
  have hown := h.own session (.inl hholding)
  have hrest : Restored (base + s.others.drawn + taken s.main) session.funding s.world
      (session.refundExtra faults (session.funding.refund faults s.world).2) := by
    cases hfunding : session.funding with
    | wallet consumed => exact hfunding ▸ refund_wallet hfunding hheld.funded hheld.nonneg hok
    | subscription sub => exact hfunding ▸ refund_subscription hfunding hheld.funded hok
  obtain ⟨hdrawn, hremain, hused⟩ := hrest
  rw [RelayCharges.refundFunding]
  generalize session.refundExtra faults (session.funding.refund faults s.world).2 = w'
    at hdrawn hremain hused ⊢
  have htoken := hheld.token
  have husage := hheld.usage
  rw [tokenShare_congr hown.playground] at htoken husage
  have hadd := tokenShare_add s.info (tokenTaken s.main) session.preConsumedQuota
  have hnone : holding { s with world := w', refund := .token session } = none := holding_of_not hkeeps
  rw [hown.funding] at hdrawn
  refine ⟨h.names, ?_, h.free, ?_, ?_, fun _ ↦ hsettled, h.fee_pos, ?_, ?_, ?_, fun _ ↦ ⟨?_, ?_, ?_⟩⟩
  · intro sub hsub
    have hbacked := hheld.funded
    simp only [Funded, hown.funding.trans hsub] at hbacked
    have hbase := hbacked.base_nonneg
    exact hbase.trans hdrawn.ge
  · intro hk
    dsimp only at hk
    rw [hkeeps] at hk
    cases hk
  · intro hk
    dsimp only at hk
    rw [hkeeps] at hk
    cases hk
  · intro session' hsession'
    rw [hnone] at hsession'
    rcases hsession' with hsession' | hsession'
    · cases hsession'
    · cases hsession'
      exact hown.alike ⟨rfl, rfl, rfl⟩
  · intro session' hsession'
    cases hsession'
    have hcounter := hheld.counter
    have hnonneg := hheld.nonneg
    exact ⟨hcounter, by omega⟩
  · intro session' hsession'
    rw [hnone] at hsession'
    cases hsession'
  · refine hdrawn.trans ?_
    change _ = base + s.others.drawn + (settledAt s.main + taken s.main)
    omega
  · change w₀.remainQuota - s.others.remain - tokenShare s.info (tokenTaken s.main) - s.world.remainQuota =
      tokenShare s.info session.preConsumedQuota at htoken
    change w₀.remainQuota - w'.remainQuota =
      s.others.remain + tokenShare s.info (settledAt s.main + tokenTaken s.main + session.preConsumedQuota)
    rw [hsettled, zero_add]
    omega
  · change s.world.usedQuota - (w₀.usedQuota + s.others.used + tokenShare s.info (tokenTaken s.main)) =
      tokenShare s.info session.preConsumedQuota at husage
    change w'.usedQuota - w₀.usedQuota =
      s.others.used + tokenShare s.info (settledAt s.main + tokenTaken s.main + session.preConsumedQuota)
    rw [hsettled, zero_add]
    omega

/-- The token gets back what was pre-consumed. -/
theorem Booked.refundToken {faults : CallFaults} {session : BillingSession} (h : Booked base w₀ s)
    (hrefund : s.refund = .token session) (htoken : faults.token = false) :
    Booked base w₀ (RelayCharges.refundToken faults session s) := by
  have hkeeps := h.not_keeps (by rw [hrefund]; exact fun heq ↦ by cases heq)
  have hsettled : settledAt s.main = 0 := h.unsettled (by rw [hrefund]; exact fun heq ↦ by cases heq)
  have hgone := h.gone (by rw [holding_of_not hkeeps, hrefund]; rfl)
  have hown := h.own session (.inr hrefund)
  obtain ⟨hcounter, hnonneg⟩ := h.owes session hrefund
  obtain ⟨hremain, hused, huser, hdb⟩ := refundToken_share (w := s.world) hnonneg htoken
  rw [hcounter, tokenShare_congr hown.playground] at hremain hused
  rw [RelayCharges.refundToken]
  generalize session.refundToken faults s.world = w' at hremain hused huser hdb ⊢
  have hdrawn : ∀ funding, drawn w' funding = drawn s.world funding := by
    intro funding
    simp only [drawn, huser, hdb]
  have hnone : holding { s with world := w', refund := .done } = none := holding_of_not hkeeps
  have howed : owed s.refund = session.preConsumedQuota := by rw [hrefund]; rfl
  have hback := hgone.funding
  have hbackRemain := hgone.remain
  have hbackUsed := hgone.used
  rw [howed] at hbackRemain hbackUsed
  have hadd := tokenShare_add s.info (settledAt s.main + tokenTaken s.main) session.preConsumedQuota
  refine ⟨h.names, ?_, h.free, ?_, ?_, fun _ ↦ hsettled, h.fee_pos, ?_, ?_, ?_, fun _ ↦ ⟨?_, ?_, ?_⟩⟩
  · intro sub hsub
    exact (h.nonneg sub hsub).trans (hdrawn s.funding).ge
  · intro hk
    dsimp only at hk
    rw [hkeeps] at hk
    cases hk
  · intro hk
    dsimp only at hk
    rw [hkeeps] at hk
    cases hk
  · intro session' hsession'
    rw [hnone] at hsession'
    rcases hsession' with hsession' | hsession'
    · cases hsession'
    · cases hsession'
  · intro session' hsession'
    cases hsession'
  · intro session' hsession'
    rw [hnone] at hsession'
    cases hsession'
  · exact (hdrawn s.funding).trans hback
  · change w₀.remainQuota - w'.remainQuota =
      s.others.remain + tokenShare s.info (settledAt s.main + tokenTaken s.main + 0)
    rw [add_zero]
    omega
  · change w'.usedQuota - w₀.usedQuota =
      s.others.used + tokenShare s.info (settledAt s.main + tokenTaken s.main + 0)
    rw [add_zero]
    omega

/-- A held session goes on being held from where others have left its funding. -/
theorem held_left {session : BillingSession} {w' : World} (hown : Own session s)
    (hholding : holding s = some session)
    (hheld : Held (base + s.others.drawn + taken s.main) (before w₀ s) session s.world)
    (hleaves : Leaves s w') :
    Held (base + (interfere w' s).others.drawn + taken s.main) (before w₀ (interfere w' s)) session w' := by
  have hremain := hheld.token
  have hused := hheld.usage
  have hfunded := hheld.funded
  have hdrawn := hheld.funded.drawn_eq
  rw [hown.funding] at hdrawn
  refine ⟨hheld.pending, hheld.nonneg, hheld.counter, ?_, ?_, ?_⟩
  · refine Eq.trans ?_ hremain
    change w₀.remainQuota - (s.others.remain + (s.world.remainQuota - w'.remainQuota)) -
      tokenShare s.info (tokenTaken s.main) - w'.remainQuota =
        w₀.remainQuota - s.others.remain - tokenShare s.info (tokenTaken s.main) - s.world.remainQuota
    omega
  · refine Eq.trans ?_ hused
    change w'.usedQuota - (w₀.usedQuota + (s.others.used + (w'.usedQuota - s.world.usedQuota)) +
      tokenShare s.info (tokenTaken s.main)) =
        s.world.usedQuota - (w₀.usedQuota + s.others.used + tokenShare s.info (tokenTaken s.main))
    omega
  · cases hfunding : session.funding with
    | wallet consumed =>
      simp only [Funded, hfunding] at hfunded ⊢
      have hwallet : s.funding = .wallet consumed := hown.funding.symm.trans hfunding
      refine ⟨hfunded.1, ?_⟩
      have hleft : (interfere w' s).others.drawn = s.others.drawn + (-w'.userQuota - -s.world.userQuota) := by
        simp only [interfere, hwallet, drawn]
      rw [hwallet] at hdrawn
      simp only [drawn] at hdrawn
      omega
    | subscription sub =>
      simp only [Funded, hfunding] at hfunded ⊢
      have hsub : s.funding = .subscription sub := hown.funding.symm.trans hfunding
      obtain ⟨row, hrow, hleft, hfits⟩ := hleaves.row session sub hholding hsub
      have hrecord := hleaves.record sub hsub
      have hnow : drawn w' s.funding = row.amountUsed := by
        simp only [hsub, drawn, Store.used, hrow, Option.map_some, Option.getD_some]
      have hledger : (interfere w' s).others.drawn =
          s.others.drawn + (drawn w' s.funding - drawn s.world s.funding) := rfl
      refine ⟨?_, hfunded.pos, hfunded.extra, hfunded.extra_nonneg, hfunded.synced, ⟨row, hrow, ?_, hfits⟩,
        ?_⟩
      · omega
      · omega
      · rw [hrecord]
        exact hfunded.record

theorem Booked.interfere {w' : World} (h : Booked base w₀ s) (hleaves : Leaves s w') :
    Booked base w₀ (RelayCharges.interfere w' s) := by
  have hholding : holding (RelayCharges.interfere w' s) = holding s := rfl
  refine ⟨h.names, hleaves.nonneg, h.free, h.idle, h.opened, h.unsettled, h.fee_pos, ?_, h.owes, ?_, ?_⟩
  · intro session hsession
    have hown := h.own session hsession
    exact ⟨hown.funding, hown.playground⟩
  · intro session hsession
    exact held_left (h.own session (.inl hsession)) hsession (h.held session hsession) hleaves
  · intro hnone
    have hgone := h.gone hnone
    have hfunding := hgone.funding
    have hremain := hgone.remain
    have hused := hgone.used
    refine ⟨?_, ?_, ?_⟩
    · change drawn w' s.funding = base + (s.others.drawn + (drawn w' s.funding - drawn s.world s.funding)) +
        (settledAt s.main + taken s.main)
      omega
    · change w₀.remainQuota - w'.remainQuota = s.others.remain + (s.world.remainQuota - w'.remainQuota) +
        tokenShare s.info (settledAt s.main + tokenTaken s.main + owed s.refund)
      omega
    · change w'.usedQuota - w₀.usedQuota = s.others.used + (w'.usedQuota - s.world.usedQuota) +
        tokenShare s.info (settledAt s.main + tokenTaken s.main + owed s.refund)
      omega

theorem afterFailure_keeps (config : Config) (n : ℕ) (relaying : Relaying) (failure : Failure) :
    keeps (afterFailure config n relaying failure) = true := by
  unfold afterFailure
  split_ifs
  · rfl
  · rfl

/-- A turn of the retry loop leaves the pre-consume where it is, unless its answer is settled. -/
theorem Booked.attempt (config : Config) {outcome : Outcome} {faults : CallFaults} {n : ℕ}
    {inContext : Option Attempt} {relaying : Relaying} {newAPIError : Option Failure} (h : Booked base w₀ s)
    (hmain : s.main = .attempting n inContext relaying newAPIError) (htoken : faults.token = false)
    (hquota : ∀ quota, outcome = .served quota → ∀ relaying, 0 ≤ quota relaying) :
    Booked base w₀ (RelayCharges.attempt config outcome faults n inContext relaying newAPIError s) := by
  have hkeeps : keeps s.main = true := by rw [hmain]; rfl
  unfold RelayCharges.attempt
  split_ifs
  · split
    · exact h.goesOn hkeeps rfl
    · cases outcome with
      | unread failure => exact h.goesOn hkeeps rfl
      | failed failure => exact h.goesOn hkeeps (afterFailure_keeps config _ _ _)
      | served quota =>
        have hq := hquota quota rfl
        cases hsession : s.session with
        | none => exact h.chargesFree hkeeps hsession htoken (hq _)
        | some session => exact h.settles hkeeps hsession htoken (hq _)
  · cases newAPIError with
    | none => exact h.goesOn hkeeps rfl
    | some failure => exact h.goesOn hkeeps rfl

theorem Booked.step (config : Config) {event : Event} (h : Booked base w₀ s) (hworks : Works s event) :
    Booked base w₀ (step config s event) := by
  cases event with
  | attempt outcome faults =>
    cases hmain : s.main with
    | attempting n inContext relaying newAPIError =>
      simp only [RelayCharges.step, hmain]
      exact h.attempt config hmain hworks.1 hworks.2
    | _ =>
      simp only [RelayCharges.step, hmain]
      exact h
  | refund =>
    cases hmain : s.main with
    | refunding failure relaying =>
      simp only [RelayCharges.step, hmain]
      exact h.refund hmain
    | _ =>
      simp only [RelayCharges.step, hmain]
      exact h
  | charge faults =>
    cases hmain : s.main with
    | charging failure relaying =>
      simp only [RelayCharges.step, hmain]
      exact h.charge config faults hmain
    | _ =>
      simp only [RelayCharges.step, hmain]
      exact h
  | chargeToken faults =>
    cases hmain : s.main with
    | chargingToken failure fee =>
      simp only [RelayCharges.step, hmain]
      exact h.chargeToken hmain hworks
    | _ =>
      simp only [RelayCharges.step, hmain]
      exact h
  | record =>
    cases hmain : s.main with
    | recording failure fee =>
      simp only [RelayCharges.step, hmain]
      exact h.record config hmain
    | _ =>
      simp only [RelayCharges.step, hmain]
      exact h
  | refundFunding faults =>
    cases hrefund : s.refund with
    | funding session =>
      simp only [RelayCharges.step, hrefund]
      exact h.refundFunding hrefund (hworks session hrefund)
    | _ =>
      simp only [RelayCharges.step, hrefund]
      exact h
  | refundToken faults =>
    cases hrefund : s.refund with
    | token session =>
      simp only [RelayCharges.step, hrefund]
      exact h.refundToken hrefund hworks
    | _ =>
      simp only [RelayCharges.step, hrefund]
      exact h
  | others world => exact h.interfere hworks

/-- When a request has ended and its refund is through, its cost has gone, from the funding and from the
token. -/
theorem Booked.cost {ending : Ending} (h : Booked base w₀ s) (hfinished : Finished s ending) :
    Gone base w₀ (RelayCharged.cost (preConsumed s) ending) (RelayCharged.cost (preConsumed s) ending)
      s := by
  obtain ⟨hmain, hrefund⟩ := hfinished
  have howed : owed s.refund = 0 := by
    rcases hrefund with hrefund | hrefund
    · rw [hrefund]
      rfl
    · rw [hrefund]
      rfl
  have hkept : keeps s.main = true → Gone base w₀ (preConsumed s) (preConsumed s) s := by
    intro hkeeps
    obtain ⟨htaken, htokens, hsettled⟩ := keeps_amounts hkeeps
    cases hsession : s.session with
    | none =>
      have hgone := h.gone ((holding_of_keeps hkeeps).trans hsession)
      rw [htaken, htokens, hsettled, howed] at hgone
      rw [preConsumed, hsession]
      exact hgone
    | some session =>
      have hsome := (holding_of_keeps hkeeps).trans hsession
      have hgone := gone_of_held (h.own session (.inl hsome)) (h.held session hsome)
      rw [htaken, htokens, zero_add] at hgone
      rw [preConsumed, hsession]
      exact hgone
  have hspent : keeps s.main = false → Gone base w₀ (settledAt s.main + taken s.main)
      (settledAt s.main + tokenTaken s.main) s := by
    intro hkeeps
    have hgone := h.gone (by
      rw [holding_of_not hkeeps]
      rcases hrefund with hrefund | hrefund
      · rw [hrefund]
        rfl
      · rw [hrefund]
        rfl)
    rw [howed, add_zero] at hgone
    exact hgone
  rw [hmain] at hkept hspent
  cases ending with
  | unanswered => exact hkept rfl
  | served quota settled =>
    cases settled with
    | false => exact hkept rfl
    | true =>
      have hgone := hspent rfl
      simp only [settledAt, taken, tokenTaken, if_true, add_zero] at hgone
      exact hgone
  | failed failure fee recorded =>
    have hgone := hspent rfl
    simp only [settledAt, taken, tokenTaken, zero_add] at hgone
    exact hgone

end Invariant

section Fee

/-- The records of a fee: none but the one for a fee that has been charged, and none charged but for a
violation. -/
def Recorded (config : Config) (s : State) : Prop :=
  match s.main with
  | .chargingToken failure fee => s.calls = [] ∧ 0 < fee ∧ shouldChargeViolationFee failure = true
  | .recording failure fee => s.calls = [] ∧ 0 < fee ∧ shouldChargeViolationFee failure = true
  | .ended (.failed failure fee _) => s.calls = (if 0 < fee then feeCalls config fee else []) ∧
    0 ≤ fee ∧ (0 < fee → shouldChargeViolationFee failure = true)
  | _ => s.calls = []

theorem violates_of_fee {config : Config} {failure : Failure} {relaying : Relaying}
    (h : 0 < config.fee failure relaying) : shouldChargeViolationFee failure = true := by
  rw [Config.fee, violationFee] at h
  cases hcharge : shouldChargeViolationFee failure with
  | true => rfl
  | false =>
    rw [hcharge, Bool.not_false, if_pos rfl] at h
    omega

theorem settleBilling_calls (faults : CallFaults) (quota : ℤ) (s : State) :
    (settleBilling faults quota s).2.calls = s.calls := by
  unfold settleBilling
  split
  · rfl
  · dsimp only
    split_ifs
    · rfl
    · rfl

theorem recorded_attempt (config : Config) {s : State} {outcome : Outcome} {faults : CallFaults} {n : ℕ}
    {inContext : Option Attempt} {relaying : Relaying} {newAPIError : Option Failure}
    (h : s.calls = []) :
    Recorded config (attempt config outcome faults n inContext relaying newAPIError s) := by
  unfold attempt
  split_ifs
  · split
    · exact h
    · cases outcome with
      | unread failure => exact h
      | failed failure =>
        dsimp only
        unfold afterFailure
        split_ifs
        · exact h
        · exact h
      | served quota => exact (settleBilling_calls faults _ s).trans h
  · cases newAPIError with
    | none => exact h
    | some failure => exact h

theorem recorded_refund (config : Config) {s : State} {failure : Failure} {relaying : Relaying}
    (h : s.calls = []) : Recorded config (refund failure relaying s) := by
  unfold refund
  dsimp only
  split
  · exact h
  · split_ifs
    · exact h
    · exact h

theorem recorded_charge (config : Config) {s : State} {faults : ConsumeFaults} {failure : Failure}
    {relaying : Relaying} (h : s.calls = []) :
    Recorded config (charge config faults failure relaying s) := by
  have hnothing : ∀ s' : State, s'.calls = [] → s'.main = .ended (.failed failure 0 false) →
      Recorded config s' := by
    intro s' hcalls hmain
    rw [Recorded, hmain]
    refine ⟨hcalls, le_refl 0, ?_⟩
    intro hpos
    omega
  unfold charge
  dsimp only
  split_ifs with hfee
  · exact hnothing _ h rfl
  · split
    · exact hnothing _ h rfl
    · obtain ⟨-, -, hcalls, -⟩ := withInfo_same s (by assumption)
      exact ⟨hcalls.trans h, not_le.mp hfee, violates_of_fee (not_le.mp hfee)⟩

theorem recorded_step (config : Config) {s : State} {event : Event} (h : Recorded config s)
    (hworks : Works s event) : Recorded config (step config s event) := by
  cases event with
  | attempt outcome faults =>
    cases hmain : s.main with
    | attempting n inContext relaying newAPIError =>
      simp only [Recorded, hmain] at h
      simp only [step, hmain]
      exact recorded_attempt config h
    | _ =>
      simp only [step, hmain]
      exact h
  | refund =>
    cases hmain : s.main with
    | refunding failure relaying =>
      simp only [Recorded, hmain] at h
      simp only [step, hmain]
      exact recorded_refund config h
    | _ =>
      simp only [step, hmain]
      exact h
  | charge faults =>
    cases hmain : s.main with
    | charging failure relaying =>
      simp only [Recorded, hmain] at h
      simp only [step, hmain]
      exact recorded_charge config h
    | _ =>
      simp only [step, hmain]
      exact h
  | chargeToken faults =>
    cases hmain : s.main with
    | chargingToken failure fee =>
      simp only [Recorded, hmain] at h
      simp only [step, hmain, chargeToken_works hworks]
      exact h
    | _ =>
      simp only [step, hmain]
      exact h
  | record =>
    cases hmain : s.main with
    | recording failure fee =>
      simp only [Recorded, hmain] at h
      obtain ⟨hcalls, hpos, hviolates⟩ := h
      simp only [step, hmain]
      refine ⟨?_, hpos.le, fun _ ↦ hviolates⟩
      rw [if_pos hpos]
      exact congrArg (· ++ feeCalls config fee) hcalls
    | _ =>
      simp only [step, hmain]
      exact h
  | refundFunding faults =>
    cases hrefund : s.refund with
    | funding session =>
      simp only [step, hrefund]
      exact h
    | _ =>
      simp only [step, hrefund]
      exact h
  | refundToken faults =>
    cases hrefund : s.refund with
    | token session =>
      simp only [step, hrefund]
      exact h
    | _ =>
      simp only [step, hrefund]
      exact h
  | others world => exact h

end Fee

section Run

/-- A request stays with what its session has pre-consumed and where it is funded. -/
def SameSession (s s' : State) : Prop := preConsumed s' = preConsumed s ∧ s'.funding = s.funding

theorem SameSession.refl (s : State) : SameSession s s := ⟨rfl, rfl⟩

theorem SameSession.trans {s s' s'' : State} (h : SameSession s s') (h' : SameSession s' s'') :
    SameSession s s'' := ⟨h'.1.trans h.1, h'.2.trans h.2⟩

theorem sameSession_of_eq {s s' : State} (h : s'.session = s.session) : SameSession s s' := by
  refine ⟨?_, ?_⟩
  · rw [preConsumed, h, preConsumed]
  · rw [State.funding, h, State.funding]

theorem settleBilling_same (faults : CallFaults) (quota : ℤ) (s : State) :
    SameSession s (settleBilling faults quota s).2 := by
  unfold settleBilling
  cases hsession : s.session with
  | none =>
    dsimp only
    split_ifs
    · exact .refl s
    · exact sameSession_of_eq hsession.symm
  | some session =>
    dsimp only
    rw [SameSession, preConsumed, preConsumed, State.funding, State.funding, hsession]
    rcases settle_session faults quota session s.world with h | h | h
    all_goals
      dsimp only
      rw [h]
      exact ⟨rfl, rfl⟩

theorem withInfo_sameSession (s : State) (info : RelayInfo) : SameSession s (s.withInfo info) := by
  refine ⟨?_, withInfo_funding s info⟩
  unfold State.withInfo preConsumed
  cases hsession : s.session with
  | none => rfl
  | some session => rfl

theorem attempt_same (config : Config) (outcome : Outcome) (faults : CallFaults) (n : ℕ)
    (inContext : Option Attempt) (relaying : Relaying) (newAPIError : Option Failure) (s : State) :
    SameSession s (attempt config outcome faults n inContext relaying newAPIError s) := by
  unfold attempt
  split_ifs
  · split
    · exact sameSession_of_eq rfl
    · cases outcome with
      | unread failure => exact sameSession_of_eq rfl
      | failed failure => exact sameSession_of_eq rfl
      | served quota => exact (settleBilling_same faults _ s).trans (sameSession_of_eq rfl)
  · cases newAPIError with
    | none => exact sameSession_of_eq rfl
    | some failure => exact sameSession_of_eq rfl

theorem refund_same (failure : Failure) (relaying : Relaying) (s : State) :
    SameSession s (refund failure relaying s) := by
  unfold refund
  cases hsession : s.session with
  | none => exact sameSession_of_eq hsession.symm
  | some session =>
    dsimp only
    split_ifs
    · exact sameSession_of_eq hsession.symm
    · rw [SameSession, preConsumed, preConsumed, State.funding, State.funding, hsession]
      exact ⟨rfl, rfl⟩

theorem charge_same (config : Config) (faults : ConsumeFaults) (failure : Failure) (relaying : Relaying)
    (s : State) : SameSession s (charge config faults failure relaying s) := by
  unfold charge
  dsimp only
  split_ifs
  · exact sameSession_of_eq rfl
  · split
    · exact sameSession_of_eq rfl
    · exact (withInfo_sameSession s _).trans (sameSession_of_eq rfl)

theorem chargeToken_same (faults : ConsumeFaults) (failure : Failure) (fee : ℤ) (s : State) :
    SameSession s (chargeToken faults failure fee s) := by
  unfold chargeToken
  split_ifs
  · exact sameSession_of_eq rfl
  · split
    · exact sameSession_of_eq rfl
    · exact sameSession_of_eq rfl

theorem step_same (config : Config) (s : State) (event : Event) : SameSession s (step config s event) := by
  cases event with
  | attempt outcome faults =>
    simp only [step]
    split
    · exact attempt_same config outcome faults _ _ _ _ s
    · exact .refl s
  | refund =>
    simp only [step]
    split
    · exact refund_same _ _ s
    · exact .refl s
  | charge faults =>
    simp only [step]
    split
    · exact charge_same config faults _ _ s
    · exact .refl s
  | chargeToken faults =>
    simp only [step]
    split
    · exact chargeToken_same faults _ _ s
    · exact .refl s
  | record =>
    simp only [step]
    split
    · exact sameSession_of_eq rfl
    · exact .refl s
  | refundFunding faults =>
    simp only [step]
    split
    · exact sameSession_of_eq rfl
    · exact .refl s
  | refundToken faults =>
    simp only [step]
    split
    · exact sameSession_of_eq rfl
    · exact .refl s
  | others world => exact sameSession_of_eq rfl

/-- What holds all along a run. -/
structure Kept (config : Config) (base : ℤ) (w₀ : World) (start s : State) : Prop where
  booked : Booked base w₀ s
  recorded : Recorded config s
  same : SameSession start s

theorem Kept.run {config : Config} {base : ℤ} {w₀ : World} {start s : State} {trace : List Event}
    (h : Kept config base w₀ start s) (hworks : Along (step config) Works s trace) :
    Kept config base w₀ start (run (step config) s trace) := by
  apply hworks.invariant (Kept config base w₀ start) _ h
  intro s event hs hok
  exact ⟨hs.booked.step config hok, recorded_step config hs.recorded hok,
    hs.same.trans (step_same config s event)⟩

end Run

section Opening

/-- A pre-consume that fails leaves the world as it was, one that succeeds opens a session. -/
def Opens (cal : Calendar) (w₀ : World) (r : Except ApiError BillingSession × World) : Prop :=
  (∃ e, r = (.error e, w₀)) ∨ ∃ session src now base, r.1 = .ok session ∧
    Opened src cal now base w₀ session r.2 ∧ Names session.relayInfo session.funding

variable {env : Env} {f : Service.NewSession.OpenFaults} {info : RelayInfo} {quota : ℤ} {w : World}

theorem started_opens {g : CallFaults} {amount : ℤ} {src : BillingSource} (hq : 0 ≤ amount)
    (hsound : Sound w.db) (hfresh : w.db.records.find info.requestId = none)
    (hroll : g.tokenRollback = false) :
    Opens env.cal w (Service.NewSession.started
      ((newSession info amount src).preConsume env g amount w)) := by
  have hcases := newSession_preConsume env g src hq hsound hfresh
  have hnames := @preConsume_names env g amount (newSession info amount src) w
  generalize (newSession info amount src).preConsume env g amount w = r at hcases hnames ⊢
  obtain ⟨answer, session, w'⟩ := r
  dsimp only at hcases hnames
  rcases hcases with ⟨e, rfl, href⟩ | ⟨rfl, base, hopened⟩
  · have hw : w' = w := href.world hroll
    refine .inl ⟨e, ?_⟩
    rw [Service.NewSession.started, hw]
  · exact .inr ⟨session, src, g.now, base, rfl, hopened, hnames rfl⟩

theorem tryWallet_opens (hq : 0 ≤ quota) (hsound : Sound w.db)
    (hfresh : w.db.records.find info.requestId = none) (hroll : f.wallet.tokenRollback = false) :
    Opens env.cal w (Service.NewSession.tryWallet env f info quota w) := by
  unfold Service.NewSession.tryWallet
  split
  · exact .inl ⟨_, rfl⟩
  · split_ifs
    · exact .inl ⟨_, rfl⟩
    · exact .inl ⟨_, rfl⟩
    · exact started_opens hq hsound hfresh hroll

theorem trySubscription_opens (hsound : Sound w.db) (hfresh : w.db.records.find info.requestId = none)
    (hroll : f.subscription.tokenRollback = false) :
    Opens env.cal w (Service.NewSession.trySubscription env f info quota w) := by
  refine started_opens ?_ hsound hfresh hroll
  split_ifs
  · omega
  · omega

theorem fallback_opens {cal : Calendar} {first second : World → Except ApiError BillingSession × World}
    (h₁ : Opens cal w (first w)) (h₂ : Opens cal w (second w)) :
    Opens cal w (Service.NewSession.fallback first second w) := by
  unfold Service.NewSession.fallback
  rcases h₁ with ⟨e, he⟩ | ⟨session, src, now, base, hok, hopened⟩
  · rw [he]
    dsimp only
    split_ifs
    · exact h₂
    · exact .inl ⟨e, rfl⟩
  · rcases hf : first w with ⟨answer, w'⟩
    rw [hf] at hok hopened
    dsimp only at hok hopened
    subst hok
    exact .inr ⟨session, src, now, base, rfl, hopened⟩

theorem newBillingSession_opens (hq : 0 ≤ quota) (hsound : Sound w.db)
    (hfresh : w.db.records.find info.requestId = none) (hwallet : f.wallet.tokenRollback = false)
    (hsubscription : f.subscription.tokenRollback = false) :
    Opens env.cal w (Service.NewSession.newBillingSession env f info quota w) := by
  have hw := @tryWallet_opens env f info quota w hq hsound hfresh hwallet
  have hs := @trySubscription_opens env f info quota w hsound hfresh hsubscription
  unfold Service.NewSession.newBillingSession
  cases Common.Str.normalizeBillingPreference info.billingPreference with
  | subscriptionOnly => exact hs
  | walletOnly => exact hw
  | walletFirst => exact fallback_opens hw hs
  | subscriptionFirst =>
    dsimp only
    split
    · exact .inl ⟨_, rfl⟩
    · split_ifs
      · exact hw
      · exact fallback_opens hs hw

/-- How a request begins: with the session its pre-consume opens, or without one where its model is free. -/
inductive Begins (env : Env) (f : Service.NewSession.OpenFaults) (info : RelayInfo) (quota : ℤ)
    (w₀ : World) : Option BillingSession → World → Prop
  | free : info.billingSource = none → info.finalPreConsumedQuota = 0 → Begins env f info quota w₀ none w₀
  | opened {session : BillingSession} {w : World} :
    Service.NewSession.newBillingSession env f info quota w₀ = (.ok session, w) →
      Begins env f info quota w₀ (some session) w

end Opening

section Main

/-- What a request that has ended leaves: its cost has gone from its funding and its token, and of a
violation's fee exactly what has been charged is recorded. -/
structure Charged (config : Config) (base : ℤ) (w₀ : World) (start s : State) (ending : Ending) : Prop where
  funding : s.funding = start.funding
  gone : Gone base w₀ (cost (preConsumed start) ending) (cost (preConsumed start) ending) s
  fee : ∀ failure fee recorded, ending = .failed failure fee recorded →
    s.calls = (if 0 < fee then feeCalls config fee else []) ∧ 0 ≤ fee ∧
      (0 < fee → shouldChargeViolationFee failure = true)

variable (config : Config) (env : Env) (f : Service.NewSession.OpenFaults) (info : RelayInfo) {quota : ℤ}
  {w₀ : World}

theorem booked_free (hsource : info.billingSource = none) (hfinal : info.finalPreConsumedQuota = 0)
    (inContext : Option Attempt) (relaying : Relaying) :
    Booked (-w₀.userQuota) w₀ (start none info w₀ inContext relaying) := by
  refine ⟨?_, ?_, fun _ ↦ hfinal, fun _ ↦ rfl, ?_, fun _ ↦ rfl, ?_, ?_, ?_, ?_, fun _ ↦ ⟨?_, ?_, ?_⟩⟩
  · change info.billingSource ≠ some .subscription
    rw [hsource]
    exact fun heq ↦ by cases heq
  · intro sub hsub
    cases hsub
  · intro _ session hsession
    cases hsession
  · intro failure fee heq
    cases heq
  · rintro session (hsession | hsession)
    · cases hsession
    · cases hsession
  · intro session hsession
    cases hsession
  · intro session hsession
    cases hsession
  · change -w₀.userQuota = -w₀.userQuota + 0 + (0 + 0)
    omega
  · change w₀.remainQuota - w₀.remainQuota = 0 + tokenShare info 0
    rw [tokenShare_none]
    omega
  · change w₀.usedQuota - w₀.usedQuota = 0 + tokenShare info 0
    rw [tokenShare_none]
    omega

theorem booked_opened {session : BillingSession} {w : World} {base : ℤ} (hopen : Open session)
    (hheld : Held base w₀ session w) (hnames : Names session.relayInfo session.funding)
    (inContext : Option Attempt) (relaying : Relaying) :
    Booked base w₀ (start (some session) info w inContext relaying) := by
  refine ⟨hnames, nonneg_of_held hheld, ?_, fun _ ↦ rfl, ?_, fun _ ↦ rfl, ?_, ?_, ?_, ?_, ?_⟩
  · intro hnone
    cases hnone
  · intro _ session' hsession'
    cases hsession'
    exact hopen
  · intro failure fee heq
    cases heq
  · rintro session' (hsession' | hsession')
    · cases hsession'
      exact ⟨rfl, rfl⟩
    · cases hsession'
  · intro session' hsession'
    cases hsession'
  · intro session' hsession'
    cases hsession'
    have hbase : Held (base + 0 + 0) w₀ session w := by
      rw [add_zero, add_zero]
      exact hheld
    refine held_token hbase rfl rfl ?_ ?_
    · change w₀.remainQuota - 0 - tokenShare session.relayInfo 0 - w.remainQuota =
        w₀.remainQuota - w.remainQuota
      rw [tokenShare_none]
      omega
    · change w.usedQuota - (w₀.usedQuota + 0 + tokenShare session.relayInfo 0) = w.usedQuota - w₀.usedQuota
      rw [tokenShare_none]
      omega
  · intro hnone
    cases hnone

theorem begins_booked (hq : 0 ≤ quota) (hsound : Sound w₀.db)
    (hfresh : w₀.db.records.find info.requestId = none) (hwallet : f.wallet.tokenRollback = false)
    (hsubscription : f.subscription.tokenRollback = false) {session : Option BillingSession} {w : World}
    (hbegins : Begins env f info quota w₀ session w) (inContext : Option Attempt) (relaying : Relaying) :
    ∃ now base, Baseline env.cal now base w₀ (start session info w inContext relaying).funding ∧
      Booked base w₀ (start session info w inContext relaying) := by
  cases hbegins with
  | free hsource hfinal =>
    exact ⟨0, -w₀.userQuota, rfl, booked_free info hsource hfinal inContext relaying⟩
  | @opened session w hopens =>
    rcases @newBillingSession_opens env f info quota w₀ hq hsound hfresh hwallet hsubscription with
      ⟨e, he⟩ | ⟨session', src, now, base, hok, hopened, hnames⟩
    · rw [hopens] at he
      cases he
    · rw [hopens] at hok hopened
      cases hok
      exact ⟨now, base, hopened.baseline,
        booked_opened info hopened.opened hopened.held hnames inContext relaying⟩

end Main

section Examples

/-- A fee of five, and no second attempt. -/
def plainConfig : Config where
  settings := {
    floats := ⟨id⟩
    quotaPerUnit := 100
    modelPrice := fun _ ↦ none
    defaultModelPrice := fun _ ↦ none
    modelRatio := fun name ↦ (1, true, name)
    groupGroupRatio := fun _ _ ↦ none
    groupRatio := fun _ ↦ 1
    enableFreeModelPreConsume := false
    taskPricePatches := []
    isAdmin := fun _ ↦ false }
  select := { autoGroups := [], usable := fun _ _ ↦ true, retryTimes := 0 }
  cache := { group2model2channels := fun _ _ ↦ [1], channelsIDM := fun id ↦ some { id } }
  rules := {
    affinitySkipRetry := false
    specificChannel := false
    alwaysSkipRetryCode := fun _ ↦ false
    retryByStatusCode := fun code ↦ 500 ≤ code }
  upstream := {
    draws := fun _ _ ↦ 0
    failure := fun _ ↦ { errorCode := "", skipRetry := false, statusCode := 502 }
    setupContext := fun _ ↦ none }
  pricing := {
    ctx := { path := "/v1/chat/completions", body := .error "", channelType := 1, channelId := 1 }
    info := {
      userId := 1
      userGroup := "default"
      usingGroup := "default"
      originModelName := "grok-4"
      priceData := { groupRatioInfo := { groupRatio := 1 } } }
    promptTokens := 10
    tokens := {}
    requestInput := .ok {}
    preConsume := id }
  grok := {}
  logConsumeEnabled := true
  feeLog := {
    userId := 1
    channelId := 1
    promptTokens := 0
    completionTokens := 0
    modelName := "grok-4"
    tokenName := ""
    quota := 0
    tokenId := 1
    useTimeSeconds := 0
    isStream := false
    group := "default" }

def relayingGrok : Relaying where
  param := { tokenGroup := "default", modelName := "grok-4", retry := some 0 }
  ctx := { userGroup := "default", tokenCrossGroupRetry := false }
  priced := { info := plainConfig.pricing.info, quotaToPreConsume := 10 }
  finalPreConsumedQuota := 10

def firstChannel : Attempt := { place := 0, channel := { id := 1 } }

def csam : Failure where
  error := { errorCode := "bad_response", skipRetry := false, statusCode := 403 }
  message := "Failed check: SAFETY_CHECK_TYPE_CSAM".toList

def quiet : ConsumeFaults := ⟨false, fun _ ↦ false, false⟩

theorem csam_fee : plainConfig.fee (normalize (normalize csam)) relayingGrok = 5 := by decide +kernel

theorem ten_opened : Service.NewSession.newBillingSession plainEnv Service.NewSession.plainOpen plainInfo 10
    Service.SessionConserves.start = (.ok ten.1, ten.2) := rfl

/-- The fee is charged between the two steps of the refund. -/
def racing : List Event :=
  [.attempt (.failed csam) noFaults, .refund, .refundFunding noFaults, .charge quiet, .refundToken noFaults,
    .chargeToken quiet, .record]

def begun : State := start (some ten.1) plainInfo ten.2 (some firstChannel) relayingGrok

theorem racing_run : run (step plainConfig) begun racing =
    { begun with
      session := some { ten.1 with refunded := true }
      world := { Service.SessionConserves.start with userQuota := 95, remainQuota := 95, usedQuota := 5 }
      main := .ended (.failed (normalize (normalize csam)) 5 true)
      refund := .done
      calls := feeCalls plainConfig 5 } := by
  have hrefunded : run (step plainConfig) begun (racing.take 3) =
      { begun with
        session := some { ten.1 with refunded := true }
        world := { ten.2 with userQuota := 100 }
        main := .charging (normalize (normalize csam)) relayingGrok
        refund := .token ten.1 } := rfl
  have hcharged : step plainConfig { begun with
        session := some { ten.1 with refunded := true }
        world := { ten.2 with userQuota := 100 }
        main := .charging (normalize (normalize csam)) relayingGrok
        refund := .token ten.1 } (.charge quiet) =
      { begun with
        session := some { ten.1 with refunded := true }
        world := { ten.2 with userQuota := 95 }
        main := .chargingToken (normalize (normalize csam)) 5
        refund := .token ten.1 } := by
    simp only [step, charge, csam_fee]
    rfl
  have hsplit : racing = racing.take 3 ++ [.charge quiet, .refundToken noFaults, .chargeToken quiet, .record] :=
    rfl
  rw [hsplit, run_append, hrefunded, run_cons, hcharged]
  rfl

end Examples

end AllAiTools.NewApi.Controller.RelayCharged
