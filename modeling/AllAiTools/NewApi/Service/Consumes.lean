import AllAiTools.NewApi.Service.Quota
import AllAiTools.NewApi.Service.SessionConserves

namespace AllAiTools.NewApi.Service.Consumes

open Model.Subscription Funding Session Quota
open SessionConserves hiding step Inv start ten
open Session.BillingSession (syncRelayInfo)

section Consume

variable {f : ConsumeFaults} {relay : RelayInfo} {funding : FundingSource} {quota : ℤ}
  {w w' : World}

/-- The relay info names a funding: what is charged to it outside a session goes there. -/
def Names (relay : RelayInfo) : FundingSource → Prop
  | .wallet _ => relay.billingSource ≠ some .subscription
  | .subscription sub =>
    relay.billingSource = some .subscription ∧ relay.subscriptionId = sub.subscriptionId

/-- A funding has paid an amount. -/
structure Pays (funding : FundingSource) (quota : ℤ) (w w' : World) : Prop where
  remain : w'.remainQuota = w.remainQuota
  used : w'.usedQuota = w.usedQuota
  drawn : 0 ≤ quota → (∀ sub, funding = .subscription sub → 0 ≤ drawn w funding) →
    drawn w' funding = drawn w funding + quota
  backed : ∀ base sub s, 0 ≤ quota → funding = .subscription sub → Backed base sub s w.db →
    Backed (base + quota) sub s w'.db

theorem takeUserQuota_pays (failed : Bool) (quota consumed : ℤ) (w : World) :
    (∃ e, takeUserQuota failed quota w = (.error e, w)) ∨
      ∃ w', takeUserQuota failed quota w = (.ok (), w') ∧ Pays (.wallet consumed) quota w w' := by
  rcases takeUserQuota_cases failed quota w with he | hok
  · exact .inl he
  · refine .inr ⟨_, hok, rfl, rfl, ?_, ?_⟩
    · intro _ _
      simp only [drawn]
      omega
    · intro base sub s _ h
      cases h

theorem charge_backed {base : ℤ} {sub : SubscriptionFunding} {s : BillingSession} {db : Store}
    {fault : Faults} {row : UserSubscription} (hq : 0 ≤ quota) (h : Backed base sub s db)
    (hc : DeltaCommits fault db sub.subscriptionId quota row) :
    Backed (base + quota) sub s (db.charge row quota) := by
  obtain ⟨row', hrow, hused, _⟩ := h.row
  have hrow' : row' = row := Option.some.inj (hrow.symm.trans hc.found)
  subst hrow'
  have hnonneg := h.used_nonneg
  have hbase := h.base_nonneg
  have hnew : newUsed row'.amountUsed quota = row'.amountUsed + quota := newUsed_of_nonneg (by omega)
  have hfits := hc.fits
  have hfind := find_charge (hc.key ▸ hc.found) quota
  rw [hc.key, hnew] at hfind
  rw [hnew] at hfits
  refine ⟨by omega, h.pos, h.extra, h.extra_nonneg, h.synced, ⟨_, hfind, ?_, ?_⟩, h.record⟩
  · dsimp only
    omega
  · dsimp only
    omega

theorem charge_pays {sub : SubscriptionFunding} {fault : Faults} {row : UserSubscription}
    (hc : DeltaCommits fault w.db sub.subscriptionId quota row) :
    Pays (.subscription sub) quota w { w with db := w.db.charge row quota } where
  remain := rfl
  used := rfl
  drawn := by
    intro hq hdrawn
    have hnonneg : 0 ≤ w.db.used sub.subscriptionId := hdrawn sub rfl
    have hused := hc.used_charge sub.subscriptionId
    rw [if_pos rfl, newUsed_of_nonneg (by omega)] at hused
    exact hused
  backed := by
    intro base sub' s hq hsub h
    cases hsub
    exact charge_backed hq h hc

theorem consumeFunding_pays (f : ConsumeFaults) (quota : ℤ) (w : World) (hnames : Names relay funding) :
    (∃ e, consumeFunding f relay quota w = (.error e, w)) ∨
      ∃ d w', consumeFunding f relay quota w = (.ok { relay with subscriptionPostDelta := d }, w') ∧
        Pays funding quota w w' := by
  unfold consumeFunding
  cases funding with
  | wallet consumed =>
    have hsource : relay.billingSource ≠ some .subscription := hnames
    rw [if_neg hsource]
    rcases takeUserQuota_pays f.wallet quota consumed w with ⟨e, he⟩ | ⟨w', hok, hpays⟩
    · rw [he]
      exact .inl ⟨_, rfl⟩
    · rw [hok]
      exact .inr ⟨relay.subscriptionPostDelta, w', rfl, hpays⟩
  | subscription sub =>
    obtain ⟨hsource, hsub⟩ := hnames
    rw [if_pos hsource]
    split_ifs with hzero hquota
    · exact .inl ⟨_, rfl⟩
    · subst hquota
      refine .inr ⟨relay.subscriptionPostDelta, w, rfl, rfl, rfl, ?_, ?_⟩
      · intro _ _
        omega
      · intro base sub' s _ _ h
        rw [add_zero]
        exact h
    · rcases postConsume_cases f.delta w.db hquota with ⟨e, he⟩ | ⟨row, hc, hok⟩
      · rw [postConsumeDelta_error he]
        exact .inl ⟨_, rfl⟩
      · rw [postConsumeDelta_ok hok]
        exact .inr ⟨_, _, rfl, charge_pays (hsub ▸ hc)⟩

theorem takeTokenQuota_draws (failed : Bool) (quota : ℤ) (w : World) :
    (∃ e, takeTokenQuota failed quota w = (.error e, w)) ∨
      takeTokenQuota failed quota w = (.ok (), w.drawToken quota) := by
  unfold takeTokenQuota
  split_ifs
  · exact updateQuota_cases failed quota w (w.drawToken quota)
  · have hback : w.drawToken quota =
        { w with remainQuota := w.remainQuota + -quota, usedQuota := w.usedQuota - -quota } := by
      rw [World.drawToken, sub_eq_add_neg, sub_neg_eq_add]
    rw [hback]
    exact updateQuota_cases failed (-quota) w _

theorem pays_zero (funding : FundingSource) (w : World) : Pays funding 0 w w where
  remain := rfl
  used := rfl
  drawn := fun _ _ ↦ (add_zero _).symm
  backed := by
    intro base sub s _ _ h
    rw [add_zero]
    exact h

theorem drawToken_none (w : World) : w.drawToken 0 = w := by
  rw [World.drawToken, sub_zero, add_zero]

theorem drawToken_zero (relay : RelayInfo) (w : World) :
    w.drawToken (tokenShare relay 0) = w := by
  have hzero : tokenShare relay 0 = 0 := ite_self 0
  rw [hzero, drawToken_none]

theorem postConsumeQuota_of_funded {relay' : RelayInfo}
    (h : consumeFunding f relay quota w = (.ok relay', w')) :
    postConsumeQuota f relay quota w = (.ok (), relay', w'.drawToken (tokenShare relay' quota)) ∨
      ∃ e, postConsumeQuota f relay quota w = (.error e, relay', w') := by
  rw [postConsumeQuota, h]
  dsimp only
  cases hplay : relay'.isPlayground with
  | true =>
    have hshare : tokenShare relay' quota = 0 := if_pos hplay
    rw [if_pos rfl, hshare, drawToken_none]
    exact .inl rfl
  | false =>
    have hshare : tokenShare relay' quota = quota := if_neg (by rw [hplay]; decide)
    rw [if_neg Bool.false_ne_true, hshare]
    rcases takeTokenQuota_draws f.token quota w' with ⟨e, he⟩ | hok
    · rw [he]
      exact .inr ⟨_, rfl⟩
    · rw [hok]
      exact .inl rfl

theorem takeTokenQuota_works (quota : ℤ) (w : World) :
    takeTokenQuota false quota w = (.ok (), w.drawToken quota) := by
  rcases takeTokenQuota_draws false quota w with ⟨e, he⟩ | hok
  · exfalso
    unfold takeTokenQuota at he
    split_ifs at he with hpos
    · rw [decreaseTokenQuota, updateQuota_ok hpos.le] at he
      cases he
    · rw [increaseTokenQuota, updateQuota_ok (by omega)] at he
      cases he
  · exact hok

theorem postConsumeQuota_works {relay' : RelayInfo} (htoken : f.token = false)
    (h : consumeFunding f relay quota w = (.ok relay', w')) :
    postConsumeQuota f relay quota w = (.ok (), relay', w'.drawToken (tokenShare relay' quota)) := by
  rw [postConsumeQuota, h]
  dsimp only
  cases hplay : relay'.isPlayground with
  | true =>
    have hshare : tokenShare relay' quota = 0 := if_pos hplay
    rw [if_pos rfl, hshare, drawToken_none]
  | false =>
    have hshare : tokenShare relay' quota = quota := if_neg (by rw [hplay]; decide)
    rw [if_neg Bool.false_ne_true, hshare, htoken, takeTokenQuota_works]

theorem tokenShare_congr {relay' : RelayInfo} (h : relay'.isPlayground = relay.isPlayground) (quota : ℤ) :
    tokenShare relay' quota = tokenShare relay quota := by
  rw [tokenShare, h, tokenShare]

/-- Of a charge, what the funding does not pay is not taken, nor what the token does not. -/
theorem postConsumeQuota_consumes (f : ConsumeFaults) (quota : ℤ) (w : World)
    (hnames : Names relay funding) :
    ∃ d w', Pays funding (if (consumeFunding f relay quota w).1.isOk then quota else 0) w w' ∧
      (postConsumeQuota f relay quota w).2 = ({ relay with subscriptionPostDelta := d },
        w'.drawToken (tokenShare relay
          (if (postConsumeQuota f relay quota w).1.isOk then quota else 0))) := by
  rcases consumeFunding_pays f quota w hnames with ⟨e, he⟩ | ⟨d, w', hok, hpays⟩
  · have hcall : postConsumeQuota f relay quota w = (.error e, relay, w) := by
      rw [postConsumeQuota, he]
    rw [he, hcall]
    exact ⟨relay.subscriptionPostDelta, w, pays_zero funding w, Prod.ext rfl (drawToken_zero relay w).symm⟩
  · refine ⟨d, w', ?_, ?_⟩
    · rw [hok]
      exact hpays
    · rcases postConsumeQuota_of_funded hok with hcall | ⟨e, hcall⟩
      · rw [hcall]
        rfl
      · rw [hcall]
        exact Prod.ext rfl (drawToken_zero relay w').symm

end Consume

section Balance

variable {base : ℤ} {w₀ w w' : World} {session : BillingSession}

theorem drawToken_drawToken (w : World) (a b : ℤ) : (w.drawToken a).drawToken b = w.drawToken (a + b) := by
  rw [World.drawToken, World.drawToken, World.drawToken]
  congr 1
  · dsimp only
    omega
  · dsimp only
    omega

/-- A session that is held goes on being held from where a charge has left its funding. -/
theorem held_paid {q : ℤ} (h : Held base w₀ session w) (hq : 0 ≤ q) (hpays : Pays session.funding q w w') :
    Held (base + q) w₀ session w' := by
  have hfunded := h.funded
  refine ⟨h.pending, h.nonneg, h.counter, ?_, ?_, ?_⟩
  · rw [hpays.remain]
    exact h.token
  · rw [hpays.used]
    exact h.usage
  · cases hfunding : session.funding with
    | wallet consumed =>
      rw [hfunding] at hpays
      have hdrawn := hpays.drawn hq fun sub hsub ↦ by cases hsub
      simp only [Funded, hfunding] at hfunded ⊢
      simp only [drawn] at hdrawn
      omega
    | subscription sub =>
      rw [hfunding] at hpays
      simp only [Funded, hfunding] at hfunded ⊢
      exact hpays.backed base sub session hq rfl hfunded

/-- What is taken from the token apart from a session moves what the session is measured from. -/
theorem held_token {w₁ : World} (h : Held base w₀ session w) (huser : w'.userQuota = w.userQuota)
    (hdb : w'.db = w.db) (hremain : w₁.remainQuota - w'.remainQuota = w₀.remainQuota - w.remainQuota)
    (hused : w'.usedQuota - w₁.usedQuota = w.usedQuota - w₀.usedQuota) : Held base w₁ session w' := by
  refine ⟨h.pending, h.nonneg, h.counter, hremain.trans h.token, hused.trans h.usage, ?_⟩
  have hfunded := h.funded
  rw [Funded] at hfunded ⊢
  rw [huser, hdb]
  exact hfunded

theorem held_pays {q t d : ℤ} (h : Held base w₀ session w) (hq : 0 ≤ q)
    (hpays : Pays session.funding q w w') :
    Held (base + q) (w₀.drawToken (tokenShare session.relayInfo t))
      { session with relayInfo := { session.relayInfo with subscriptionPostDelta := d } }
      (w'.drawToken (tokenShare session.relayInfo t)) := by
  have hdrawn : Held (base + q) (w₀.drawToken (tokenShare session.relayInfo t)) session
      (w'.drawToken (tokenShare session.relayInfo t)) :=
    held_token (held_paid h hq hpays) rfl rfl (sub_sub_sub_cancel_right _ _ _)
      (add_sub_add_right_eq_sub _ _ _)
  have hfunded := hdrawn.funded
  refine ⟨hdrawn.pending, hdrawn.nonneg, hdrawn.counter, hdrawn.token, hdrawn.usage, ?_⟩
  cases hfunding : session.funding with
  | wallet consumed =>
    simp only [Funded, hfunding] at hfunded ⊢
    exact hfunded
  | subscription sub =>
    simp only [Funded, hfunding] at hfunded ⊢
    exact ⟨hfunded.base_nonneg, hfunded.pos, hfunded.extra, hfunded.extra_nonneg, hfunded.synced,
      hfunded.row, hfunded.record⟩

/-- So much is gone from the funding and the token of a session. -/
structure Balance (base : ℤ) (w₀ : World) (charged tokenCharged : ℤ) (session : BillingSession)
    (w : World) : Prop where
  funding : drawn w session.funding - base = charged
  token : w₀.remainQuota - w.remainQuota = tokenShare session.relayInfo tokenCharged
  usage : w.usedQuota - w₀.usedQuota = tokenShare session.relayInfo tokenCharged

theorem balance_pays {q t d charged tokenCharged : ℤ}
    (h : Balance base w₀ charged tokenCharged session w) (hq : 0 ≤ q)
    (hdrawn : ∀ sub, session.funding = .subscription sub → 0 ≤ drawn w session.funding)
    (hpays : Pays session.funding q w w') :
    Balance base w₀ (charged + q) (tokenCharged + t)
      { session with relayInfo := { session.relayInfo with subscriptionPostDelta := d } }
      (w'.drawToken (tokenShare session.relayInfo t)) := by
  have hfunding := h.funding
  have hremain := h.token
  have hused := h.usage
  have hnew := hpays.drawn hq hdrawn
  have hadd := tokenShare_add session.relayInfo tokenCharged t
  have hsame : drawn (w'.drawToken (tokenShare session.relayInfo t)) session.funding =
      drawn w' session.funding := by
    cases session.funding with
    | wallet consumed => rfl
    | subscription sub => rfl
  refine ⟨?_, ?_, ?_⟩
  · dsimp only
    omega
  · refine Eq.trans ?_ hadd.symm
    simp only [World.drawToken, hpays.remain]
    omega
  · refine Eq.trans ?_ hadd.symm
    simp only [World.drawToken, hpays.used]
    omega

end Balance

section Sessions

theorem settle_session (f : CallFaults) (actual : ℤ) (session : BillingSession) (w : World) :
    (session.settle f actual w).2.1 = session ∨
      (session.settle f actual w).2.1 = { session with settled := true } ∨
      (session.settle f actual w).2.1 = session.committed (actual - session.preConsumedQuota) := by
  unfold BillingSession.settle
  by_cases hsettled : session.settled = true
  · exact .inl (by rw [if_pos hsettled])
  rw [if_neg hsettled]
  by_cases hdelta : actual - session.preConsumedQuota = 0
  · exact .inr (.inl (by simp only [hdelta, if_true]))
  simp only [if_neg hdelta]
  split
  · exact .inl rfl
  · exact .inr (.inr rfl)

/-- A settlement leaves the funding of a session, what its relay info names, and the token's share. -/
theorem settle_keeps (f : CallFaults) (actual : ℤ) (session : BillingSession) (w : World) :
    (session.settle f actual w).2.1.funding = session.funding ∧
      (∀ quota, tokenShare (session.settle f actual w).2.1.relayInfo quota =
        tokenShare session.relayInfo quota) ∧
      ∀ funding, Names session.relayInfo funding →
        Names (session.settle f actual w).2.1.relayInfo funding := by
  rcases settle_session f actual session w with h | h | h
  all_goals
    rw [h]
    exact ⟨rfl, fun _ ↦ rfl, fun _ h ↦ h⟩

theorem settleToken_works {f : CallFaults} (htoken : f.token = false) (info : RelayInfo) (delta : ℤ)
    (w : World) : (BillingSession.settleToken f info delta w).1 = .ok () := by
  unfold BillingSession.settleToken
  rw [htoken]
  split_ifs with hplay hpos
  · rfl
  · rw [decreaseTokenQuota, updateQuota_ok hpos.le]
  · rw [increaseTokenQuota, updateQuota_ok (by omega)]

/-- Where the token can pay, a settlement is refused at the funding and changes nothing, or is whole. -/
theorem settle_whole {base actual : ℤ} {w₀ w : World} {session : BillingSession} {f : CallFaults}
    (hopen : Open session) (h : Held base w₀ session w)
    (ha : (∃ consumed, session.funding = .wallet consumed) ∨ 0 ≤ actual) (htoken : f.token = false) :
    (∃ e, session.settle f actual w = (.error e, session, w)) ∨
      (session.settle f actual w).1 = .ok () ∧ Settled base w₀ actual (session.settle f actual w).1
        (session.settle f actual w).2.1 (session.settle f actual w).2.2 := by
  rcases settle_cases (f := f) hopen h ha with herror | hsettled
  · exact .inl herror
  refine .inr ⟨?_, hsettled⟩
  have hdone := hsettled.settled
  have hnot : session.settled ≠ true := by
    rw [hopen.1]
    exact Bool.false_ne_true
  unfold BillingSession.settle at hdone ⊢
  rw [if_neg hnot] at hdone ⊢
  dsimp only at hdone ⊢
  by_cases hdelta : actual - session.preConsumedQuota = 0
  · rw [if_pos hdelta]
  rw [if_neg hdelta, h.pending, if_neg Bool.false_ne_true] at hdone ⊢
  generalize session.funding.settle f (actual - session.preConsumedQuota) w = r at hdone ⊢
  obtain ⟨e | u, w'⟩ := r
  · exact absurd hdone hnot
  · exact settleToken_works htoken session.relayInfo _ _

theorem syncRelayInfo_names (session : BillingSession) :
    Names session.syncRelayInfo.relayInfo session.syncRelayInfo.funding := by
  unfold syncRelayInfo
  cases hfunding : session.funding with
  | wallet consumed => simp only [Names, ne_eq, Option.some.injEq, reduceCtorEq, not_false_eq_true]
  | subscription sub => simp only [Names, and_self]

theorem consume_cases_names (env : Env) (f : CallFaults) (quota : ℤ) (session : BillingSession) (w : World) :
    (∃ e, (session.consume env f quota w).1 = .error e) ∨
      Names (session.consume env f quota w).2.1.relayInfo (session.consume env f quota w).2.1.funding := by
  unfold BillingSession.consume
  split
  · exact .inl ⟨_, rfl⟩
  · dsimp only
    split
    · exact .inl ⟨_, rfl⟩
    · exact .inr (syncRelayInfo_names _)

theorem consume_names {env : Env} {f : CallFaults} {quota : ℤ} {session : BillingSession} {w : World}
    (h : (session.consume env f quota w).1 = .ok ()) :
    Names (session.consume env f quota w).2.1.relayInfo (session.consume env f quota w).2.1.funding := by
  rcases consume_cases_names env f quota session w with ⟨e, he⟩ | hnames
  · rw [h] at he
    cases he
  · exact hnames

theorem preConsume_names {env : Env} {f : CallFaults} {quota : ℤ} {session : BillingSession} {w : World}
    (h : (session.preConsume env f quota w).1 = .ok ()) :
    Names (session.preConsume env f quota w).2.1.relayInfo
      (session.preConsume env f quota w).2.1.funding := by
  unfold BillingSession.preConsume at h ⊢
  split_ifs at h ⊢ with htrust
  · exact consume_names h
  · exact consume_names h

end Sessions

end AllAiTools.NewApi.Service.Consumes
