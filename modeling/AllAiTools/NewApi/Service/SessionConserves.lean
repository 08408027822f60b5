import AllAiTools.NewApi.Service.Session

namespace AllAiTools.NewApi.Service.SessionConserves

open Foundation Foundation.Run Model.Subscription Model.SubscriptionPreConsume
open Model.SubscriptionRefund Funding Session Session.BillingSession

inductive Call
  | reserve (target : ℤ) (f : CallFaults)
  | settle (actual : ℤ) (f : CallFaults)
  | refund (f : CallFaults)

variable (env : Env)

def step (st : BillingSession × World) : Call → BillingSession × World
  | .reserve target f => (st.1.reserve env f target st.2).2
  | .settle actual f => (st.1.settle f actual st.2).2
  | .refund f => st.1.refund f st.2

/-- A failed token step finds the funding's rollback working. -/
def RollsBack (f : CallFaults) : Prop :=
  f.walletRollback = false ∧ ∀ s, f.deltaRollback s = false

def Call.RollsBack : Call → Prop
  | .reserve _ f => SessionConserves.RollsBack f
  | .settle _ _ => True
  | .refund _ => True

/-- How much is gone from a funding source. -/
def drawn (w : World) : FundingSource → ℤ
  | .wallet _ => -w.userQuota
  | .subscription sub => w.db.used sub.subscriptionId

/-- A playground request has no token to charge. -/
def tokenShare (info : RelayInfo) (quota : ℤ) : ℤ := if info.isPlayground then 0 else quota

/-- Neither settled nor refunded. -/
def Open (s : BillingSession) : Prop := s.settled = false ∧ s.refunded = false

/-- The counters of a session say what has been taken since `w₀`, when `base` was
gone from its funding. -/
structure Describes (base : ℤ) (w₀ : World) (s : BillingSession) (w : World) : Prop where
  funding : drawn w s.funding - base = s.preConsumedQuota
  wallet : ∀ consumed, s.funding = .wallet consumed → consumed = s.preConsumedQuota
  counter : s.tokenConsumed = s.preConsumedQuota
  token : w₀.remainQuota - w.remainQuota = tokenShare s.relayInfo s.tokenConsumed
  usage : w.usedQuota - w₀.usedQuota = tokenShare s.relayInfo s.tokenConsumed

/-- The subscription behind an open session still holds its charge, and its record
can still be refunded. -/
structure Backed (base : ℤ) (sub : SubscriptionFunding) (s : BillingSession) (db : Store) :
    Prop where
  base_nonneg : 0 ≤ base
  pos : 0 < sub.preConsumed
  extra : s.preConsumedQuota = sub.preConsumed + s.extraReserved
  extra_nonneg : 0 ≤ s.extraReserved
  synced : s.relayInfo.subscriptionId = sub.subscriptionId
  row : ∃ row, db.subs.find sub.subscriptionId = some row ∧
    row.amountUsed = base + s.preConsumedQuota ∧
    (0 < row.amountTotal → row.amountUsed ≤ row.amountTotal)
  record : ∃ record, db.records.find sub.requestId = some record ∧ record.status = .consumed ∧
    record.preConsumed = sub.preConsumed ∧ record.userSubscriptionId = sub.subscriptionId

def Funded (base : ℤ) (s : BillingSession) (w : World) : Prop :=
  match s.funding with
  | .wallet consumed => consumed = s.preConsumedQuota ∧ -w.userQuota = base + s.preConsumedQuota
  | .subscription sub => Backed base sub s w.db

/-- The state of an open session. -/
structure Held (base : ℤ) (w₀ : World) (s : BillingSession) (w : World) : Prop where
  pending : s.fundingSettled = false
  nonneg : 0 ≤ s.preConsumedQuota
  counter : s.tokenConsumed = s.preConsumedQuota
  token : w₀.remainQuota - w.remainQuota = tokenShare s.relayInfo s.preConsumedQuota
  usage : w.usedQuota - w₀.usedQuota = tokenShare s.relayInfo s.preConsumedQuota
  funded : Funded base s w

variable {env} {base : ℤ} {w₀ w : World} {s : BillingSession} {f : CallFaults}

theorem Funded.drawn_eq (h : Funded base s w) : drawn w s.funding = base + s.preConsumedQuota := by
  cases hs : s.funding with
  | wallet consumed =>
    simp only [Funded, hs] at h
    exact h.2
  | subscription sub =>
    simp only [Funded, hs] at h
    obtain ⟨row, hrow, hused, _⟩ := h.row
    simp [drawn, Store.used, hrow, hused]

theorem Held.describes (h : Held base w₀ s w) : Describes base w₀ s w where
  funding := by have := h.funded.drawn_eq; omega
  wallet consumed hs := by
    have hf := h.funded
    simp only [Funded, hs] at hf
    exact hf.1
  counter := h.counter
  token := h.counter ▸ h.token
  usage := h.counter ▸ h.usage

section Reserve

theorem preConsumeTokenQuota_cases (info : RelayInfo) (quota : ℤ) :
    (∃ e, preConsumeTokenQuota f info quota w = (.error e, w)) ∨
      0 ≤ quota ∧ preConsumeTokenQuota f info quota w =
        (.ok (), w.drawToken (tokenShare info quota)) := by
  unfold preConsumeTokenQuota
  by_cases hq : quota < 0
  · exact .inl ⟨_, by rw [if_pos hq]⟩
  rw [if_neg hq]
  cases hp : info.isPlayground with
  | true => exact .inr ⟨by omega, by simp [tokenShare, hp, World.drawToken]⟩
  | false =>
    simp only [Bool.false_eq_true, if_false, tokenShare, hp]
    split
    · exact .inl ⟨_, rfl⟩
    split_ifs
    · exact .inl ⟨_, rfl⟩
    · rcases updateQuota_cases f.token quota w (w.drawToken quota) with he | hok
      · exact .inl he
      · exact .inr ⟨by omega, hok⟩

theorem reserveToken_cases (info : RelayInfo) {delta : ℤ} (hd : 0 < delta) :
    (∃ e, reserveToken f info delta w = (.error e, w)) ∨
      reserveToken f info delta w = (.ok (), w.drawToken (tokenShare info delta)) := by
  unfold reserveToken
  split_ifs with h
  · right
    have hp : info.isPlayground = true := by
      rcases h with h | h
      · omega
      · exact h
    simp [tokenShare, hp, World.drawToken]
  · rcases preConsumeTokenQuota_cases (f := f) (w := w) info delta with he | ⟨_, hok⟩
    · exact .inl he
    · exact .inr hok

/-- The session with `delta` more reserved, before its fields are synced. -/
def reserved (s : BillingSession) (funding : FundingSource) (delta : ℤ) : BillingSession :=
  { s with
    funding
    preConsumedQuota := s.preConsumedQuota + delta
    tokenConsumed := s.tokenConsumed + delta
    extraReserved := s.extraReserved + delta }

theorem postConsumeDelta_ok {fault : Faults} {id delta : ℤ} {db : Store}
    (h : postConsumeUserSubscriptionDelta fault w.db id delta = (.ok (), db)) :
    postConsumeDelta fault w id delta = (.ok (), { w with db }) := by
  rw [postConsumeDelta, h]

theorem postConsumeDelta_error {fault : Faults} {id delta : ℤ} {e : Error}
    (h : postConsumeUserSubscriptionDelta fault w.db id delta = (.error e, w.db)) :
    postConsumeDelta fault w id delta = (.error (.subscription e), w) := by
  rw [postConsumeDelta, h]

theorem Backed.used_nonneg {sub : SubscriptionFunding} {db : Store} (h : Backed base sub s db) :
    0 ≤ base + s.preConsumedQuota := by
  have hb := h.base_nonneg
  have hp := h.pos
  have he := h.extra
  have hn := h.extra_nonneg
  omega

theorem Backed.reserved {sub : SubscriptionFunding} {db : Store} {fault : Faults} {delta : ℤ}
    {row : UserSubscription} (h : Backed base sub s db) (hd : 0 < delta)
    (hc : DeltaCommits fault db sub.subscriptionId delta row) :
    Backed base sub (reserved s (.subscription sub) delta) (db.charge row delta) := by
  obtain ⟨row', hrow, hused, _⟩ := h.row
  have hrow' : row' = row := Option.some.inj (hrow.symm.trans hc.found)
  subst hrow'
  have hn := h.used_nonneg
  have hnew : newUsed row'.amountUsed delta = row'.amountUsed + delta :=
    newUsed_of_nonneg (by omega)
  have hfits := hc.fits
  have hfind := find_charge (hc.key ▸ hc.found) delta
  rw [hc.key, hnew] at hfind
  rw [hnew] at hfits
  have he := h.extra
  have hx := h.extra_nonneg
  have hextra : (SessionConserves.reserved s (.subscription sub) delta).preConsumedQuota =
      sub.preConsumed + (SessionConserves.reserved s (.subscription sub) delta).extraReserved := by
    simp only [SessionConserves.reserved]
    omega
  have hpre : row'.amountUsed + delta =
      base + (SessionConserves.reserved s (.subscription sub) delta).preConsumedQuota := by
    simp only [SessionConserves.reserved]
    omega
  refine ⟨h.base_nonneg, h.pos, hextra, ?_, h.synced, ⟨_, hfind, hpre, ?_⟩, h.record⟩
  · simp only [SessionConserves.reserved]
    omega
  · dsimp only
    omega

theorem reserveFunding_wallet {consumed delta : ℤ} (hs : s.funding = .wallet consumed)
    (h : Funded base s w) (hr : RollsBack f) (hd : 0 < delta) :
    (∃ e, reserveFunding f delta w s.funding = (.error e, s.funding, w)) ∨
      ∃ funding w', reserveFunding f delta w s.funding = (.ok (), funding, w') ∧
        w'.remainQuota = w.remainQuota ∧ w'.usedQuota = w.usedQuota ∧
        Funded base (reserved s funding delta) w' ∧
        rollbackFundingReserve f delta w' funding = (s.funding, w) := by
  simp only [Funded, hs] at h
  simp only [hs, reserveFunding, decreaseUserQuota]
  rcases updateQuota_cases f.wallet delta w { w with userQuota := w.userQuota - delta } with
    ⟨e, he⟩ | hok
  · exact .inl ⟨e, by rw [he]⟩
  · rw [hok]
    refine .inr ⟨_, _, rfl, rfl, rfl, ?_, ?_⟩
    · simp only [Funded, SessionConserves.reserved]
      omega
    · simp [rollbackFundingReserve, increaseUserQuota, hr.1, updateQuota_ok hd.le]

theorem reserveFunding_subscription {sub : SubscriptionFunding} {delta : ℤ}
    (hs : s.funding = .subscription sub) (h : Funded base s w) (hr : RollsBack f) (hd : 0 < delta) :
    (∃ e, reserveFunding f delta w s.funding = (.error e, s.funding, w)) ∨
      ∃ funding w', reserveFunding f delta w s.funding = (.ok (), funding, w') ∧
        w'.remainQuota = w.remainQuota ∧ w'.usedQuota = w.usedQuota ∧
        Funded base (reserved s funding delta) w' ∧
        rollbackFundingReserve f delta w' funding = (s.funding, w) := by
  simp only [Funded, hs] at h
  simp only [hs, reserveFunding]
  rcases postConsume_cases f.delta w.db (show delta ≠ 0 by omega) with ⟨e, he⟩ | ⟨row, hc, hok⟩
  · exact .inl ⟨_, by rw [postConsumeDelta_error he]⟩
  · rw [postConsumeDelta_ok hok]
    obtain ⟨row', hrow, hused, _⟩ := h.row
    have hrow' : row' = row := Option.some.inj (hrow.symm.trans hc.found)
    subst hrow'
    have hn := h.used_nonneg
    have hundo := postConsume_undo hd (by omega) hc hr.2
    refine .inr ⟨_, _, rfl, rfl, rfl, h.reserved hd hc, ?_⟩
    simp only [rollbackFundingReserve]
    rw [postConsumeDelta_ok (w := { w with db := w.db.charge row' delta }) hundo]

theorem reserveFunding_cases (h : Funded base s w) (hr : RollsBack f) {delta : ℤ} (hd : 0 < delta) :
    (∃ e, reserveFunding f delta w s.funding = (.error e, s.funding, w)) ∨
      ∃ funding w', reserveFunding f delta w s.funding = (.ok (), funding, w') ∧
        w'.remainQuota = w.remainQuota ∧ w'.usedQuota = w.usedQuota ∧
        Funded base (reserved s funding delta) w' ∧
        rollbackFundingReserve f delta w' funding = (s.funding, w) := by
  cases hs : s.funding with
  | wallet consumed => exact hs ▸ reserveFunding_wallet hs h hr hd
  | subscription sub => exact hs ▸ reserveFunding_subscription hs h hr hd

theorem tokenShare_add (info : RelayInfo) (a b : ℤ) :
    tokenShare info (a + b) = tokenShare info a + tokenShare info b := by
  unfold tokenShare
  split_ifs <;> omega

/-- Syncing writes the public fields only. -/
theorem Held.sync (h : Held base w₀ s w) : Held base w₀ s.syncRelayInfo w := by
  obtain ⟨hpending, hnonneg, hcounter, htoken, husage, hfunded⟩ := h
  unfold syncRelayInfo
  unfold Funded at hfunded
  cases hs : s.funding with
  | wallet consumed =>
    simp only [hs] at hfunded ⊢
    exact ⟨hpending, hnonneg, hcounter, htoken, husage, by simpa [Funded] using hfunded⟩
  | subscription sub =>
    simp only [hs] at hfunded ⊢
    obtain ⟨hb, hp, he, hx, _, hrow, hrec⟩ := hfunded
    exact ⟨hpending, hnonneg, hcounter, htoken, husage, hb, hp, he, hx, rfl, hrow, hrec⟩

theorem Held.reserved {funding : FundingSource} {w' : World} {delta : ℤ} (h : Held base w₀ s w)
    (hd : 0 < delta) (hremain : w'.remainQuota = w.remainQuota) (hused : w'.usedQuota = w.usedQuota)
    (hf : Funded base (reserved s funding delta) w') :
    Held base w₀ (reserved s funding delta) (w'.drawToken (tokenShare s.relayInfo delta)) := by
  have hn := h.nonneg
  have hc := h.counter
  have ht := h.token
  have hu := h.usage
  have hadd := tokenShare_add s.relayInfo s.preConsumedQuota delta
  refine ⟨h.pending, ?_, ?_, ?_, ?_, hf⟩
  · simp only [SessionConserves.reserved]
    omega
  · simp only [SessionConserves.reserved]
    omega
  · simp only [SessionConserves.reserved, World.drawToken]
    omega
  · simp only [SessionConserves.reserved, World.drawToken]
    omega

theorem syncRelayInfo_eq (s : BillingSession) :
    ∃ info, s.syncRelayInfo = { s with relayInfo := info } ∧
      info.isPlayground = s.relayInfo.isPlayground := by
  unfold syncRelayInfo
  cases s.funding <;> exact ⟨_, rfl, rfl⟩

theorem syncRelayInfo_open (h : Open s) : Open s.syncRelayInfo := by
  obtain ⟨info, heq, _⟩ := syncRelayInfo_eq s
  rw [heq]
  exact h

/-- A reservation does nothing, fails and undoes what it did, or takes the difference. -/
theorem reserve_cases (env : Env) (target : ℤ) (h : Open s → Held base w₀ s w) (hr : RollsBack f) :
    (s.reserve env f target w).2 = (s, w) ∨
      Open s ∧ (s.reserve env f target w).1 = .ok () ∧
        Open (s.reserve env f target w).2.1 ∧
        Held base w₀ (s.reserve env f target w).2.1 (s.reserve env f target w).2.2 := by
  unfold reserve
  split_ifs with hskip
  · exact .inl rfl
  simp only [not_or, Bool.not_eq_true] at hskip
  obtain ⟨hsettled, hrefunded, _, htarget⟩ := hskip
  have hopen : Open s := ⟨hsettled, hrefunded⟩
  have hheld := h hopen
  have hd : 0 < target - s.preConsumedQuota := by omega
  dsimp only
  rcases reserveFunding_cases hheld.funded hr hd with ⟨e, he⟩ | ⟨funding, w', hok, hrem, huse, hf, hb⟩
  · exact .inl (by rw [he])
  rw [hok]
  dsimp only
  rcases reserveToken_cases (f := f) (w := w') s.relayInfo hd with ⟨e, he⟩ | htok
  · refine .inl ?_
    rw [he]
    dsimp only
    rw [hb]
  · rw [htok]
    have hheld' := hheld.reserved hd hrem huse hf
    exact .inr ⟨hopen, rfl, syncRelayInfo_open (s := reserved s funding _) hopen, hheld'.sync⟩

end Reserve

section Settle

/-- What a settle leaves of a session whose funding it moved. -/
structure Settled (base : ℤ) (w₀ : World) (actual : ℤ) (r : Except Cause Unit)
    (s : BillingSession) (w : World) : Prop where
  settled : s.settled = true
  funding : drawn w s.funding - base = actual
  token : r = .ok () → w₀.remainQuota - w.remainQuota = tokenShare s.relayInfo actual ∧
    w.usedQuota - w₀.usedQuota = tokenShare s.relayInfo actual

theorem settleToken_cases (info : RelayInfo) (delta : ℤ) :
    (∃ e, settleToken f info delta w = (.error e, w)) ∨
      ∃ w', settleToken f info delta w = (.ok (), w') ∧
        w' = w.drawToken (tokenShare info delta) := by
  unfold settleToken
  split_ifs with hp hd
  · exact .inr ⟨w, rfl, by simp [tokenShare, hp, World.drawToken]⟩
  · rcases updateQuota_cases f.token delta w (w.drawToken delta) with he | hok
    · exact .inl he
    · exact .inr ⟨_, hok, by simp [tokenShare, hp]⟩
  · rcases updateQuota_cases f.token (-delta) w
      { w with remainQuota := w.remainQuota + -delta, usedQuota := w.usedQuota - -delta } with
      he | hok
    · exact .inl he
    · exact .inr ⟨_, hok, by simp [tokenShare, hp, World.drawToken, sub_eq_add_neg]⟩

theorem settleFunding_cases {actual : ℤ} (h : Funded base s w)
    (ha : (∃ consumed, s.funding = .wallet consumed) ∨ 0 ≤ actual)
    (hd : actual - s.preConsumedQuota ≠ 0) :
    (∃ e, s.funding.settle f (actual - s.preConsumedQuota) w = (.error e, w)) ∨
      ∃ w', s.funding.settle f (actual - s.preConsumedQuota) w = (.ok (), w') ∧
        w'.remainQuota = w.remainQuota ∧ w'.usedQuota = w.usedQuota ∧
        drawn w' s.funding - base = actual := by
  cases hs : s.funding with
  | wallet consumed =>
    simp only [Funded, hs] at h
    simp only [FundingSource.settle, if_neg hd]
    split_ifs with hpos
    · rcases updateQuota_cases f.wallet (actual - s.preConsumedQuota) w
        { w with userQuota := w.userQuota - (actual - s.preConsumedQuota) } with he | hok
      · exact .inl he
      · refine .inr ⟨_, hok, rfl, rfl, ?_⟩
        simp only [drawn]
        omega
    · rcases updateQuota_cases f.wallet (-(actual - s.preConsumedQuota)) w
        { w with userQuota := w.userQuota + -(actual - s.preConsumedQuota) } with he | hok
      · exact .inl he
      · refine .inr ⟨_, hok, rfl, rfl, ?_⟩
        simp only [drawn]
        omega
  | subscription sub =>
    have hactual : 0 ≤ actual := by
      rcases ha with ⟨consumed, hw⟩ | ha
      · rw [hs] at hw
        cases hw
      · exact ha
    simp only [Funded, hs] at h
    simp only [FundingSource.settle, if_neg hd]
    rcases postConsume_cases f.delta w.db hd with ⟨e, he⟩ | ⟨row, hc, hok⟩
    · exact .inl ⟨_, postConsumeDelta_error he⟩
    · refine .inr ⟨_, postConsumeDelta_ok hok, rfl, rfl, ?_⟩
      obtain ⟨row', hrow, hused, _⟩ := h.row
      have hb := h.base_nonneg
      have hbefore : w.db.used sub.subscriptionId = base + s.preConsumedQuota := by
        simp [Store.used, hrow, hused]
      simp only [drawn]
      rw [hc.used_charge, if_pos rfl, hbefore, newUsed_of_nonneg (by omega)]
      omega

theorem settleFunding_error {delta : ℤ} {funding : FundingSource} {e : Cause} {w' : World}
    (h : funding.settle f delta w = (.error e, w')) : w' = w := by
  cases funding with
  | wallet consumed =>
    simp only [FundingSource.settle] at h
    split_ifs at h
    · cases h
    · rcases updateQuota_cases f.wallet delta w { w with userQuota := w.userQuota - delta } with
        ⟨e', he⟩ | hok
      · exact (Prod.mk.inj (he.symm.trans h)).2.symm
      · cases hok.symm.trans h
    · rcases updateQuota_cases f.wallet (-delta) w
        { w with userQuota := w.userQuota + -delta } with ⟨e', he⟩ | hok
      · exact (Prod.mk.inj (he.symm.trans h)).2.symm
      · cases hok.symm.trans h
  | subscription sub =>
    simp only [FundingSource.settle] at h
    split_ifs at h with hd
    · cases h
    · rcases postConsume_cases f.delta w.db hd with ⟨e', he⟩ | ⟨row, _, hok⟩
      · rw [postConsumeDelta_error he] at h
        exact (Prod.mk.inj h).2.symm
      · rw [postConsumeDelta_ok hok] at h
        cases h

/-- A settle either changes nothing or marks the session settled. -/
theorem settle_marks (f : CallFaults) (actual : ℤ) (s : BillingSession) (w : World) :
    (s.settle f actual w).2 = (s, w) ∨
      (s.settle f actual w).2.1.settled = true ∧
        (s.settle f actual w).2.1.refunded = s.refunded := by
  unfold settle
  by_cases hs : s.settled = true
  · exact .inl (by rw [if_pos hs])
  rw [if_neg hs]
  by_cases hd : actual - s.preConsumedQuota = 0
  · exact .inr (by simp [hd])
  simp only [if_neg hd]
  split
  · rename_i e w' he
    split_ifs at he with hf
    · cases he
    · exact .inl (by rw [settleFunding_error he])
  · exact .inr ⟨rfl, rfl⟩

theorem committed_funding (s : BillingSession) (delta : ℤ) :
    (s.committed delta).funding = s.funding := rfl

theorem committed_share (s : BillingSession) (delta quota : ℤ) :
    tokenShare (s.committed delta).relayInfo quota = tokenShare s.relayInfo quota := rfl

/-- A settle of an open session fails at the funding and changes nothing, or moves
the funding to the actual amount, and the token too when it reports success. -/
theorem settle_cases {actual : ℤ} (hopen : Open s) (h : Held base w₀ s w)
    (ha : (∃ consumed, s.funding = .wallet consumed) ∨ 0 ≤ actual) :
    (∃ e, s.settle f actual w = (.error e, s, w)) ∨
      Settled base w₀ actual (s.settle f actual w).1 (s.settle f actual w).2.1
        (s.settle f actual w).2.2 := by
  have hdrawn := h.funded.drawn_eq
  have ht := h.token
  have hu := h.usage
  unfold settle
  rw [if_neg (by simp [hopen.1])]
  dsimp only
  split_ifs with hd hf
  · have hactual : actual = s.preConsumedQuota := by omega
    subst hactual
    exact .inr ⟨rfl, by dsimp only; omega, fun _ ↦ ⟨ht, hu⟩⟩
  · rw [h.pending] at hf
    cases hf
  rcases settleFunding_cases (f := f) h.funded ha hd with ⟨e, he⟩ | ⟨w', hok, hrem, huse, hdraw⟩
  · exact .inl ⟨e, by rw [he]⟩
  right
  rw [hok]
  dsimp only
  have hadd := tokenShare_add s.relayInfo s.preConsumedQuota (actual - s.preConsumedQuota)
  rw [show s.preConsumedQuota + (actual - s.preConsumedQuota) = actual by omega] at hadd
  rcases settleToken_cases (f := f) (w := w') s.relayInfo (actual - s.preConsumedQuota) with
    ⟨e, he⟩ | ⟨w'', htok, rfl⟩
  · rw [he]
    refine ⟨rfl, hdraw, ?_⟩
    intro hr
    cases hr
  · rw [htok]
    refine ⟨rfl, ?_, fun _ ↦ ⟨?_, ?_⟩⟩
    · rw [← hdraw, committed_funding]
      cases s.funding <;> rfl
    · simp only [committed_share, World.drawToken]
      omega
    · simp only [committed_share, World.drawToken]
      omega

end Settle

section Refund

/-- The steps of a refund succeed, and no attempt at the record is torn between its
two transactions. -/
structure RefundOk (f : CallFaults) (s : BillingSession) (w : World) : Prop where
  token : f.token = false
  extra : ∀ stmt, f.delta stmt = false
  whole : ∀ n, Whole (f.refund n)
  succeeds : (s.funding.refund f w).1 = .ok ()

/-- The funding of a session is back where it was and the token untouched so far. -/
structure Restored (base : ℤ) (funding : FundingSource) (w w' : World) : Prop where
  funding : drawn w' funding = base
  remain : w'.remainQuota = w.remainQuota
  usage : w'.usedQuota = w.usedQuota

theorem refund_wallet {consumed : ℤ} (hs : s.funding = .wallet consumed) (h : Funded base s w)
    (hn : 0 ≤ s.preConsumedQuota) (hf : RefundOk f s w) :
    Restored base s.funding w (refundExtra f s (s.funding.refund f w).2) := by
  have hok := hf.succeeds
  simp only [Funded, hs] at h
  simp only [hs, FundingSource.refund] at hok
  simp only [refundExtra, hs, FundingSource.refund]
  split_ifs at hok ⊢ with hc
  · refine ⟨?_, rfl, rfl⟩
    simp only [drawn]
    omega
  · unfold increaseUserQuota at hok ⊢
    rcases updateQuota_cases f.wallet consumed w { w with userQuota := w.userQuota + consumed } with
      ⟨e, he⟩ | hr
    · rw [he] at hok
      cases hok
    · rw [hr]
      refine ⟨?_, rfl, rfl⟩
      simp only [drawn]
      omega

theorem refunded_used {db db' : Store} {record : SubscriptionPreConsumeRecord}
    {row : UserSubscription} (h : Refunded db db' record row)
    (hp : record.preConsumed ≤ row.amountUsed) :
    db'.subs.find record.userSubscriptionId =
      some { row with amountUsed := row.amountUsed - record.preConsumed } := by
  obtain ⟨_, hfound, rfl⟩ := h
  have hk : row.id = record.userSubscriptionId := Table.find_key hfound
  rw [← hk] at hfound ⊢
  have hfind := find_charge hfound (-record.preConsumed)
  rw [newUsed_of_nonneg (by omega)] at hfind
  exact hfind

/-- After the record has been refunded only the extra reservation is still out. -/
theorem refundRecord_subscription {sub : SubscriptionFunding} (hs : s.funding = .subscription sub)
    (h : Backed base sub s w.db) (hf : RefundOk f s w) :
    ∃ db' row, s.funding.refund f w = (.ok (), { w with db := db' }) ∧
      0 < sub.subscriptionId ∧ db'.subs.find sub.subscriptionId = some row ∧
      row.amountUsed = base + s.extraReserved ∧
      (0 < row.amountTotal → row.amountUsed ≤ row.amountTotal) := by
  have hok := hf.succeeds
  have hpos := h.pos
  obtain ⟨record, hfound, hc, hp, hid⟩ := h.record
  obtain ⟨row, hrow, hused, hfits⟩ := h.row
  have hb := h.base_nonneg
  have he := h.extra
  have hx := h.extra_nonneg
  simp only [hs, FundingSource.refund, if_neg (show ¬ sub.preConsumed ≤ 0 by omega)] at hok ⊢
  rcases refundAttempts_whole hf.whole hfound hc (by omega) 3 (.ok ()) with
    ⟨_, hzero⟩ | ⟨db', row', hr, heq⟩
  · exfalso
    have hne : (refundWithRetry f.refund sub.requestId w.db).1 ≠ .ok () := by
      intro heq
      have := hzero heq
      omega
    rcases hres : refundWithRetry f.refund sub.requestId w.db with ⟨r, db'⟩
    rw [hres] at hok hne
    cases r with
    | error e => cases hok
    | ok u => exact hne rfl
  · have hrow' : row' = row := Option.some.inj ((hid ▸ hr.found).symm.trans hrow)
    subst hrow'
    have hfind := refunded_used hr (by omega)
    rw [hid, hp] at hfind
    refine ⟨db', _, ?_, hid ▸ hr.id_pos, hfind, ?_, ?_⟩
    · rw [refundWithRetry, heq]
    · dsimp only
      omega
    · dsimp only
      omega

theorem refund_subscription {sub : SubscriptionFunding} (hs : s.funding = .subscription sub)
    (h : Funded base s w) (hf : RefundOk f s w) :
    Restored base s.funding w (refundExtra f s (s.funding.refund f w).2) := by
  simp only [Funded, hs] at h
  obtain ⟨db', row, hr, hid, hrow, hused, hfits⟩ := refundRecord_subscription hs h hf
  have hb := h.base_nonneg
  have hx := h.extra_nonneg
  rw [hr]
  simp only [refundExtra, hs]
  rw [h.synced]
  split_ifs with hextra
  · have hc : DeltaCommits f.delta db' sub.subscriptionId (-s.extraReserved) row := by
      refine ⟨hid, hrow, ?_, hf.extra _, hf.extra _, hf.extra _, hf.extra _⟩
      rw [newUsed_of_nonneg (by omega)]
      omega
    have hcommit := postConsume_of_commits (by omega) hc
    rw [postConsumeDelta_ok (w := { w with db := db' }) hcommit]
    have hbefore : db'.used sub.subscriptionId = base + s.extraReserved := by
      simp [Store.used, hrow, hused]
    refine ⟨?_, rfl, rfl⟩
    simp only [drawn]
    rw [hc.used_charge, if_pos rfl, hbefore, newUsed_of_nonneg (by omega)]
    omega
  · refine ⟨?_, rfl, rfl⟩
    simp only [drawn, Store.used, hrow, Option.map_some, Option.getD_some]
    omega

theorem refundToken_share (hn : 0 ≤ s.tokenConsumed) (hf : f.token = false) (w : World) :
    (refundToken f s w).remainQuota = w.remainQuota + tokenShare s.relayInfo s.tokenConsumed ∧
      (refundToken f s w).usedQuota = w.usedQuota - tokenShare s.relayInfo s.tokenConsumed ∧
      (refundToken f s w).userQuota = w.userQuota ∧ (refundToken f s w).db = w.db := by
  unfold refundToken tokenShare
  cases hp : s.relayInfo.isPlayground with
  | true => simp
  | false =>
    simp only [Bool.not_false, and_true, Bool.false_eq_true, if_false]
    split_ifs with hpos
    · simp [increaseTokenQuota, hf, updateQuota_ok hn]
    · have hz : s.tokenConsumed = 0 := by omega
      simp [hz]

/-- A refund of an open session whose steps succeed brings funding and token back to
where they were. -/
theorem refund_restores (hopen : Open s) (h : Held base w₀ s w) (hf : RefundOk f s w) :
    drawn (s.refund f w).2 (s.refund f w).1.funding = base ∧
      (s.refund f w).2.remainQuota = w₀.remainQuota ∧
      (s.refund f w).2.usedQuota = w₀.usedQuota := by
  have hdrawn := h.funded.drawn_eq
  have ht := h.token
  have hu := h.usage
  have hn := h.nonneg
  have hcount := h.counter
  unfold refund
  rw [hopen.1, hopen.2]
  by_cases hneeds : s.needsRefund = true
  · simp only [hneeds, Bool.or_self, Bool.not_true, Bool.false_eq_true, if_false]
    have hrest : Restored base s.funding w (refundExtra f s (s.funding.refund f w).2) := by
      cases hs : s.funding with
      | wallet consumed => exact hs ▸ refund_wallet hs h.funded hn hf
      | subscription sub => exact hs ▸ refund_subscription hs h.funded hf
    obtain ⟨hd, hrem, huse⟩ := hrest
    obtain ⟨h₁, h₂, h₃, h₄⟩ := refundToken_share (f := f) (s := s) (by omega) hf.token
      (refundExtra f s (s.funding.refund f w).2)
    rw [hcount] at h₁ h₂
    refine ⟨?_, by omega, by omega⟩
    rw [← hd]
    unfold drawn
    rw [h₃, h₄]
  · simp only [Bool.or_self, hneeds, Bool.not_false, Bool.or_true, if_true]
    have hzero : s.preConsumedQuota = 0 := by
      by_contra hne
      have hpos : 0 < s.tokenConsumed := by omega
      exact hneeds (by simp [needsRefund, hopen.1, hopen.2, h.pending, hpos])
    simp only [hzero, tokenShare, ite_self] at hdrawn ht hu
    exact ⟨by omega, by omega, by omega⟩

theorem refund_again (f : CallFaults) (h : s.needsRefund = false ∨ s.refunded = true) :
    s.refund f w = (s, w) := by
  unfold refund
  rcases h with h | h <;> simp [h]

end Refund

section Run

/-- An open session holds what it says it holds. -/
def Inv (base : ℤ) (w₀ : World) (st : BillingSession × World) : Prop :=
  Open st.1 → Held base w₀ st.1 st.2

theorem step_settled (h : s.settled = true) (c : Call) : step env (s, w) c = (s, w) := by
  cases c with
  | reserve target f => simp [step, reserve, h]
  | settle actual f => simp [step, settle, h]
  | refund f => simp [step, BillingSession.refund, h]

theorem run_settled (h : s.settled = true) (calls : List Call) :
    run (step env) (s, w) calls = (s, w) := by
  induction calls with
  | nil => rfl
  | cons c calls ih => rw [run_cons, step_settled h, ih]

theorem run_refunds (h : s.needsRefund = false ∨ s.refunded = true) (fs : List CallFaults) :
    run (step env) (s, w) (fs.map .refund) = (s, w) := by
  induction fs with
  | nil => rfl
  | cons f fs ih => rw [List.map_cons, run_cons, step, refund_again f h, ih]

/-- No call opens a session again. -/
theorem open_of_step {st : BillingSession × World} {c : Call} (h : Open (step env st c).1) :
    Open st.1 := by
  obtain ⟨s, w⟩ := st
  by_cases hs : s.settled = true
  · rw [step_settled hs] at h
    exact h
  refine ⟨by simpa using hs, ?_⟩
  by_contra hr
  simp only [Bool.not_eq_false] at hr
  cases c with
  | reserve target f =>
    simp only [step, reserve, hr, true_or, or_true, if_true] at h
    exact absurd h.2 (by simp [hr])
  | settle actual f =>
    rcases settle_marks f actual s w with hsame | ⟨_, hkeep⟩
    · rw [step, hsame] at h
      exact absurd h.2 (by simp [hr])
    · exact absurd h.2 (by simp [step, hkeep, hr])
  | refund f =>
    rw [step, refund_again f (.inr hr)] at h
    exact absurd h.2 (by simp [hr])

theorem Inv.step {st : BillingSession × World} {c : Call} (h : Inv base w₀ st) (hc : c.RollsBack) :
    Inv base w₀ (SessionConserves.step env st c) := by
  intro hopen'
  have hheld := h (open_of_step hopen')
  obtain ⟨s, w⟩ := st
  cases c with
  | reserve target f =>
    rcases reserve_cases env target h hc with hr | ⟨_, _, _, hr⟩
    · rw [SessionConserves.step, hr]
      exact hheld
    · exact hr
  | settle actual f =>
    rcases settle_marks f actual s w with hsame | ⟨hsettled, _⟩
    · rw [SessionConserves.step, hsame]
      exact hheld
    · exact absurd hopen'.1 (by simp [SessionConserves.step, hsettled])
  | refund f =>
    by_cases hskip : s.settled || s.refunded || !s.needsRefund
    · rw [SessionConserves.step, BillingSession.refund, if_pos hskip]
      exact hheld
    · have hmarked := hopen'.2
      rw [SessionConserves.step, BillingSession.refund, if_neg hskip] at hmarked
      cases hmarked

end Run

section Opening

/-- Every stored used amount is nonnegative. -/
def Sound (db : Store) : Prop := ∀ id row, db.subs.find id = some row → 0 ≤ row.amountUsed

/-- What was gone from the funding before the session: of a subscription, what is
used after its due reset. -/
def Baseline (cal : Calendar) (now base : ℤ) (w₀ : World) : FundingSource → Prop
  | .wallet _ => base = -w₀.userQuota
  | .subscription sub => ∃ row,
    DueRow cal w₀.db now (w₀.db.subs.find sub.subscriptionId) (some row) ∧ base = row.amountUsed

/-- The source that does not pay is left alone, and so are the other subscriptions,
due resets apart. -/
def OthersKept (cal : Calendar) (now : ℤ) (w₀ w : World) : FundingSource → Prop
  | .wallet _ => w.db = w₀.db
  | .subscription sub => w.userQuota = w₀.userQuota ∧ ∀ id, id ≠ sub.subscriptionId →
    DueRow cal w₀.db now (w₀.db.subs.find id) (w.db.subs.find id)

/-- A session that has just been opened. -/
structure Opened (src : BillingSource) (cal : Calendar) (now base : ℤ) (w₀ : World)
    (s : BillingSession) (w : World) : Prop where
  opened : Open s
  source_eq : source s.funding = src
  held : Held base w₀ s w
  baseline : Baseline cal now base w₀ s.funding
  others : OthersKept cal now w₀ w s.funding

/-- A session that has consumed nothing yet. -/
structure Unused (amount : ℤ) (s : BillingSession) : Prop where
  opened : Open s
  pending : s.fundingSettled = false
  extra : s.extraReserved = 0
  wallet : ∀ consumed, s.funding = .wallet consumed → consumed = 0
  amount : ∀ sub, s.funding = .subscription sub → sub.amount = amount

theorem newSession_unused (info : RelayInfo) (amount : ℤ) (src : BillingSource) :
    Unused amount (newSession info amount src) := by
  cases src with
  | wallet =>
    refine ⟨⟨rfl, rfl⟩, rfl, rfl, ?_, ?_⟩
    · intro c h
      cases h
      rfl
    · intro sub h
      cases h
  | subscription =>
    refine ⟨⟨rfl, rfl⟩, rfl, rfl, ?_, ?_⟩
    · intro c h
      cases h
    · intro sub h
      cases h
      rfl

theorem Charged.sound {cal : Calendar} {now : ℤ} {db db' : Store} {requestId : String}
    {userId amount : ℤ} {res : SubscriptionPreConsumeResult} {row : UserSubscription}
    (hsound : Sound db) (h : Charged cal now db db' requestId userId amount res row) :
    0 ≤ row.amountUsed := by
  rcases hfind : db.subs.find res.userSubscriptionId with _ | row₀
  · have hf := h.found
    rw [hfind] at hf
    cases hf
  · have hf := h.found
    rw [hfind] at hf
    cases hf with
    | some hdue =>
      have h₀ := hsound _ _ hfind
      rcases hdue.fields.2.2.2 with hz | hz <;> omega

/-- The session after its pre-consume. -/
def consumed (s : BillingSession) (funding : FundingSource) (quota : ℤ) : BillingSession :=
  { s with funding, preConsumedQuota := quota }.syncRelayInfo

theorem fundingPreConsume_cases (cal : Calendar) {quota : ℤ} (hq : 0 ≤ quota)
    (hs : Unused quota s) (hsound : Sound w.db)
    (hfresh : ∀ sub, s.funding = .subscription sub → w.db.records.find sub.requestId = none) :
    (∃ e, s.funding.preConsume cal f quota w = (.error e, s.funding, w)) ∨
      ∃ funding w' base, s.funding.preConsume cal f quota w = (.ok (), funding, w') ∧
        w'.remainQuota = w.remainQuota ∧ w'.usedQuota = w.usedQuota ∧
        Funded base (consumed s funding quota) w' ∧ source funding = source s.funding ∧
        Baseline cal f.now base w funding ∧ OthersKept cal f.now w w' funding := by
  cases hfund : s.funding with
  | wallet c =>
    have hc := hs.wallet c hfund
    subst hc
    simp only [FundingSource.preConsume]
    split_ifs with hle
    · refine .inr ⟨_, _, -w.userQuota, rfl, rfl, rfl, ?_, rfl, rfl, rfl⟩
      simp only [Funded, consumed, syncRelayInfo]
      omega
    · unfold decreaseUserQuota
      rcases updateQuota_cases f.wallet quota w { w with userQuota := w.userQuota - quota } with
        ⟨e, he⟩ | hok
      · exact .inl ⟨e, by rw [he]⟩
      · rw [hok]
        refine .inr ⟨_, _, -w.userQuota, rfl, rfl, rfl, ?_, rfl, rfl, rfl⟩
        simp only [Funded, consumed, syncRelayInfo]
        exact ⟨trivial, by omega⟩
  | subscription sub =>
    have hamount := hs.amount sub hfund
    simp only [FundingSource.preConsume]
    rcases preConsume_cases cal f.preConsume sub.userId sub.amount f.now (hfresh sub hfund) with
      ⟨e, he⟩ | ⟨res, db', row, hpos, hc, hok⟩
    · exact .inl ⟨_, by rw [he]⟩
    · rw [hok]
      refine .inr ⟨_, _, row.amountUsed, rfl, rfl, rfl, ?_, rfl, ⟨row, hc.found, rfl⟩, rfl,
        hc.others⟩
      have hrec := hc.records sub.requestId
      rw [if_pos rfl] at hrec
      refine ⟨Charged.sound hsound hc, ?_, ?_, ?_, rfl, ⟨_, hc.row, ?_, ?_⟩,
        ⟨_, hrec, rfl, hc.preConsumed.symm, rfl⟩⟩
      · simp only [SubscriptionFunding.consumed, hc.preConsumed]
        exact hpos
      · simp only [consumed, syncRelayInfo, SubscriptionFunding.consumed, hs.extra, hc.preConsumed]
        omega
      · exact hs.extra.ge
      · simp only [consumed, syncRelayInfo, hamount]
      · exact hc.fits

/-- What a failing pre-consume leaves: nothing is taken, the rollback of the token
apart, and of the session only the token's counter has moved. -/
structure Refused (f : CallFaults) (s s' : BillingSession) (w w' : World) : Prop where
  world : f.tokenRollback = false → w' = w
  session : ∃ t, s' = { s with tokenConsumed := t } ∧
    (s.relayInfo.isPlayground = false → t = s.tokenConsumed)

theorem rollbackToken_refused {quota : ℤ} (hs : s.tokenConsumed = 0) (hq : 0 < quota) :
    Refused f s (rollbackToken f { s with tokenConsumed := quota }
        (w.drawToken (tokenShare s.relayInfo quota))).1 w
      (rollbackToken f { s with tokenConsumed := quota }
        (w.drawToken (tokenShare s.relayInfo quota))).2 := by
  unfold rollbackToken
  cases hp : s.relayInfo.isPlayground with
  | true =>
    simp only [hp, tokenShare, World.drawToken, if_true, Bool.not_true, Bool.false_eq_true,
      and_false, if_false, sub_zero, add_zero]
    exact ⟨fun _ ↦ rfl, quota, rfl, fun h ↦ absurd h (by simp [hp])⟩
  | false =>
    simp only [hp, tokenShare, Bool.not_false, and_true, if_pos hq, Bool.false_eq_true, if_false]
    refine ⟨fun hr ↦ ?_, 0, rfl, fun _ ↦ hs.symm⟩
    rw [increaseTokenQuota, hr, updateQuota_ok hq.le]
    simp [World.drawToken]

theorem opened_of_funding {cal : Calendar} {now quota : ℤ} {funding : FundingSource} {w' : World}
    (hs : Unused quota s) (hq : 0 ≤ quota) (htok : s.tokenConsumed = quota)
    (hw : w = w₀.drawToken (tokenShare s.relayInfo quota)) (hrem : w'.remainQuota = w.remainQuota)
    (huse : w'.usedQuota = w.usedQuota) (hf : Funded base (consumed s funding quota) w')
    (hb : Baseline cal now base w funding) (ho : OthersKept cal now w w' funding) :
    Opened (source funding) cal now base w₀ (consumed s funding quota) w' := by
  subst hw
  simp only [World.drawToken] at hrem huse
  obtain ⟨info, heq, hplay⟩ := syncRelayInfo_eq { s with funding, preConsumedQuota := quota }
  have hshare : tokenShare info quota = tokenShare s.relayInfo quota := by
    rw [tokenShare, hplay, tokenShare]
  unfold consumed at hf ⊢
  rw [heq] at hf ⊢
  refine ⟨hs.opened, rfl, ⟨hs.pending, hq, htok, ?_, ?_, hf⟩, ?_, ?_⟩
  · dsimp only
    omega
  · dsimp only
    omega
  · cases funding <;> exact hb
  · cases funding <;> exact ho

theorem consume_cases (env : Env) {quota : ℤ} (hq : 0 ≤ quota) (hs : Unused quota s)
    (htok : s.tokenConsumed = 0) (hsound : Sound w.db)
    (hfresh : ∀ sub, s.funding = .subscription sub → w.db.records.find sub.requestId = none) :
    (∃ e, (consume env f quota s w).1 = .error e ∧
      Refused f s (consume env f quota s w).2.1 w (consume env f quota s w).2.2) ∨
      (consume env f quota s w).1 = .ok () ∧
        ∃ base, Opened (source s.funding) env.cal f.now base w (consume env f quota s w).2.1
          (consume env f quota s w).2.2 := by
  have hkeep : Refused f s s w w := ⟨fun _ ↦ rfl, s.tokenConsumed, rfl, fun _ ↦ rfl⟩
  unfold consume
  by_cases hpos : 0 < quota
  · simp only [if_pos hpos]
    rcases preConsumeTokenQuota_cases (f := f) (w := w) s.relayInfo quota with ⟨e, he⟩ | ⟨_, hok⟩
    · exact .inl ⟨_, by rw [he], by rw [he]; exact hkeep⟩
    rw [hok]
    have hs' : Unused quota { s with tokenConsumed := quota } :=
      ⟨hs.opened, hs.pending, hs.extra, hs.wallet, hs.amount⟩
    rcases fundingPreConsume_cases env.cal (f := f)
      (w := w.drawToken (tokenShare s.relayInfo quota)) hq hs' hsound hfresh with
      ⟨e, he⟩ | ⟨funding, w', base, hok', hrem, huse, hf, hsrc, hb, ho⟩
    · dsimp only at he ⊢
      rw [he]
      exact .inl ⟨_, rfl, rollbackToken_refused htok hpos⟩
    · dsimp only at hok' ⊢
      rw [hok']
      exact .inr ⟨rfl, base, hsrc ▸ opened_of_funding hs' hq rfl rfl hrem huse hf hb ho⟩
  · have hzero : quota = 0 := by omega
    subst hzero
    simp only [lt_irrefl, if_false]
    rcases fundingPreConsume_cases env.cal (f := f) hq hs hsound hfresh with
      ⟨e, he⟩ | ⟨funding, w', base, hok, hrem, huse, hf, hsrc, hb, ho⟩
    · rw [he]
      have hroll : rollbackToken f s w = (s, w) := by simp [rollbackToken, htok]
      refine .inl ⟨_, rfl, ?_⟩
      dsimp only
      rw [hroll]
      exact hkeep
    · rw [hok]
      refine .inr ⟨rfl, base, hsrc ▸ opened_of_funding hs hq htok ?_ hrem huse hf hb ho⟩
      simp [World.drawToken, tokenShare]

/-- The trusted shortcut of a wallet takes nothing. -/
theorem consume_trusted (env : Env) (hs : s.funding = .wallet 0) :
    consume env f 0 s w = (.ok (), consumed s (.wallet 0) 0, w) := by
  simp [consume, hs, FundingSource.preConsume, consumed]

/-- A new session's pre-consume fails and takes nothing, or opens the session. -/
theorem newSession_preConsume (env : Env) (f : CallFaults) (src : BillingSource) {info : RelayInfo}
    {quota : ℤ} (hq : 0 ≤ quota)
    (hsound : Sound w.db) (hfresh : w.db.records.find info.requestId = none) :
    (∃ e, ((newSession info quota src).preConsume env f quota w).1 = .error e ∧
      Refused f (newSession info quota src)
        ((newSession info quota src).preConsume env f quota w).2.1 w
        ((newSession info quota src).preConsume env f quota w).2.2) ∨
      ((newSession info quota src).preConsume env f quota w).1 = .ok () ∧
        ∃ base, Opened src env.cal f.now base w
          ((newSession info quota src).preConsume env f quota w).2.1
          ((newSession info quota src).preConsume env f quota w).2.2 := by
  have hs := newSession_unused info quota src
  have hfresh' : ∀ sub, (newSession info quota src).funding = .subscription sub →
      w.db.records.find sub.requestId = none := by
    intro sub hsub
    cases src with
    | wallet => cases hsub
    | subscription => cases hsub; exact hfresh
  unfold preConsume
  split_ifs with htrust
  · cases src with
    | wallet =>
      have hs' : Unused 0 { newSession info quota .wallet with trusted := true } :=
        ⟨hs.opened, hs.pending, hs.extra, hs.wallet, fun _ h ↦ by cases h⟩
      have heq := consume_trusted env (f := f) (w := w)
        (s := { newSession info quota .wallet with trusted := true }) rfl
      rw [heq]
      have hw : w = w.drawToken (tokenShare info 0) := by simp [World.drawToken, tokenShare]
      have hf : Funded (-w.userQuota)
          (consumed { newSession info quota .wallet with trusted := true } (.wallet 0) 0) w := by
        simp [Funded, consumed, syncRelayInfo]
      have hb : Baseline env.cal f.now (-w.userQuota) w (.wallet 0) := rfl
      have ho : OthersKept env.cal f.now w w (.wallet 0) := rfl
      exact .inr ⟨rfl, _, opened_of_funding hs' le_rfl rfl hw rfl rfl hf hb ho⟩
    | subscription =>
      simp [shouldTrust, newSession] at htrust
  · have htok : (newSession info quota src).tokenConsumed = 0 := by cases src <;> rfl
    have hsrc : source (newSession info quota src).funding = src := by cases src <;> rfl
    have hcases := consume_cases env (f := f) hq hs htok hsound hfresh'
    rw [hsrc] at hcases
    exact hcases

end Opening

section Main

/-- The money is conserved in a state reached from `w₀`, when `base` was gone from
the funding: the counters of an open session are exact, a refused reservation changes
nothing, a settle leaves exactly the actual amount taken and a refund nothing. -/
structure Conserves (env : Env) (base : ℤ) (w₀ : World) (s : BillingSession) (w : World) :
    Prop where
  describes : Open s → Describes base w₀ s w
  reserve : ∀ target f e, RollsBack f → (s.reserve env f target w).1 = .error e →
    (s.reserve env f target w).2 = (s, w)
  settle : Open s → ∀ actual f, (∃ consumed, s.funding = .wallet consumed) ∨ 0 ≤ actual →
    (∃ e, s.settle f actual w = (.error e, s, w)) ∨
      Settled base w₀ actual (s.settle f actual w).1 (s.settle f actual w).2.1
        (s.settle f actual w).2.2 ∧
      ∀ calls, run (step env) (s.settle f actual w).2 calls = (s.settle f actual w).2
  refund : Open s → ∀ f, RefundOk f s w →
    (drawn (s.refund f w).2 (s.refund f w).1.funding = base ∧
      (s.refund f w).2.remainQuota = w₀.remainQuota ∧
      (s.refund f w).2.usedQuota = w₀.usedQuota) ∧
    ∀ fs : List CallFaults, run (step env) (s.refund f w) (fs.map .refund) = s.refund f w

theorem refund_closes (f : CallFaults) (s : BillingSession) (w : World) :
    (s.refund f w).1.needsRefund = false ∨ (s.refund f w).1.refunded = true := by
  unfold BillingSession.refund
  split_ifs with hskip
  · left
    simp only [Bool.or_eq_true, Bool.not_eq_true'] at hskip
    rcases hskip with (h | h) | h
    · simp [needsRefund, h]
    · simp [needsRefund, h]
    · exact h
  · exact .inr rfl

theorem Inv.conserves {st : BillingSession × World} (h : Inv base w₀ st) :
    Conserves env base w₀ st.1 st.2 := by
  obtain ⟨s, w⟩ := st
  refine ⟨fun ho ↦ (h ho).describes, ?_, ?_, ?_⟩
  · intro target f e hr he
    rcases reserve_cases env target h hr with hsame | ⟨_, hok, _⟩
    · exact hsame
    · rw [hok] at he
      cases he
  · intro ho actual f ha
    rcases settle_cases (f := f) ho (h ho) ha with he | hs
    · exact .inl he
    · exact .inr ⟨hs, run_settled hs.settled⟩
  · intro ho f hf
    exact ⟨refund_restores ho (h ho) hf, run_refunds (refund_closes f s w)⟩

/-- A billing session conserves money over every run of its calls in which no
rollback of a reservation fails. -/
theorem session_conserves (env : Env) (f : CallFaults) (info : RelayInfo) (src : BillingSource)
    (quota : ℤ) (w₀ : World) (hq : 0 ≤ quota) (hsound : Sound w₀.db)
    (hfresh : w₀.db.records.find info.requestId = none) :
    (∃ e, ((newSession info quota src).preConsume env f quota w₀).1 = .error e ∧
      Refused f (newSession info quota src)
        ((newSession info quota src).preConsume env f quota w₀).2.1 w₀
        ((newSession info quota src).preConsume env f quota w₀).2.2) ∨
      ((newSession info quota src).preConsume env f quota w₀).1 = .ok () ∧
        ∃ base, Baseline env.cal f.now base w₀
            ((newSession info quota src).preConsume env f quota w₀).2.1.funding ∧
          ∀ calls : List Call, (∀ c ∈ calls, c.RollsBack) →
            Conserves env base w₀
              (run (step env) ((newSession info quota src).preConsume env f quota w₀).2 calls).1
              (run (step env) ((newSession info quota src).preConsume env f quota w₀).2 calls).2 := by
  rcases newSession_preConsume env f src hq hsound hfresh with
    he | ⟨hok, base, ho⟩
  · exact .inl he
  · refine .inr ⟨hok, base, ho.baseline, ?_⟩
    intro calls hc
    have hinv : Inv base w₀ (run (step env)
        ((newSession info quota src).preConsume env f quota w₀).2 calls) :=
      (along_of_forall hc _).invariant (Inv base w₀) (fun _ _ h hr ↦ h.step hr) (fun _ ↦ ho.held)
    exact hinv.conserves

def plainEnv : Env where
  cal := .ticking
  trustQuota := 5000
  tokenQuota := 100
  formatQuota := toString

/-- No step fails, and the token's quota is read as 100. -/
def noFaults : CallFaults where
  wallet := false
  walletRollback := false
  tokenRead := some 100
  token := false
  tokenRollback := false
  now := 0
  planInfo := none
  preConsume := fun _ ↦ false
  delta := fun _ ↦ false
  deltaRollback := fun _ ↦ false
  refund := fun _ ↦ ⟨fun _ ↦ false, fun _ ↦ false⟩

def plainInfo : RelayInfo := ⟨1, "req", "wallet_only", false, false, false, 100, 0, none, 0, 0, 0, 0, 0, 0, ""⟩

def start : World := ⟨100, 100, 0, ⟨.empty, .empty, .empty⟩⟩

/-- A wallet session with 10 pre-consumed. -/
def ten : BillingSession × World :=
  ((newSession plainInfo 10 .wallet).preConsume plainEnv noFaults 10 start).2

theorem session_conserves_reserve_settle : ∃ base, base = -100 ∧
    Conserves plainEnv base start
      (run (step plainEnv) ten [.reserve 20 noFaults, .settle 15 noFaults]).1
      (run (step plainEnv) ten [.reserve 20 noFaults, .settle 15 noFaults]).2 := by
  rcases session_conserves plainEnv noFaults plainInfo .wallet 10 start (by decide)
    (by intro id row h; cases h) rfl with ⟨e, he, _⟩ | ⟨_, base, hb, h⟩
  · cases he
  · refine ⟨base, hb, h _ ?_⟩
    simp [Call.RollsBack, RollsBack, noFaults]

/-- As the counters are not moved by a settle, the failures of rollbacks and refunds
are only logged, and a settle that fails at the token has moved the funding, the
stated conservation fails. -/
theorem session_not_conserved :
    ¬ Describes (-100) start (step plainEnv ten (.settle 30 noFaults)).1
      (step plainEnv ten (.settle 30 noFaults)).2 ∧
    (step plainEnv ten (.reserve 20 { noFaults with token := true, walletRollback := true })).2.userQuota
      ≠ ten.2.userQuota ∧
    (step plainEnv ten (.refund { noFaults with wallet := true })).2.userQuota ≠ start.userQuota := by
  refine ⟨?_, by decide, by decide⟩
  intro h
  exact absurd h.funding (by decide)

end Main

end AllAiTools.NewApi.Service.SessionConserves
