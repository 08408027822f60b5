import AllAiTools.NewApi.Service.SessionConserves

namespace AllAiTools.NewApi.Service.NewSession

open Foundation Common.Str Model.Subscription Model.SubscriptionPreConsume Funding Session
open Session.BillingSession SessionConserves

/-- What the opening of a session meets: the answers of its two queries, and the
steps of each of the two attempts. -/
structure OpenFaults where
  userQuotaRead : Option ℤ
  hasSubFails : Bool
  hasSubNow : ℤ
  wallet : CallFaults
  subscription : CallFaults

variable (env : Env) (f : OpenFaults) (info : RelayInfo) (quota : ℤ)

/-- A session is returned only when its pre-consume succeeds. -/
def started : Except ApiError Unit × BillingSession × World → Except ApiError BillingSession × World
  | (.error e, _, w) => (.error e, w)
  | (.ok (), s, w) => (.ok s, w)

def tryWallet (w : World) : Except ApiError BillingSession × World :=
  match f.userQuotaRead with
  | none => (.error ⟨.queryDataError, "database error"⟩, w)
  | some userQuota =>
    if userQuota ≤ 0 then
      (.error ⟨.insufficientUserQuota, "用户额度不足, 剩余额度: " ++ env.formatQuota userQuota⟩, w)
    else if userQuota - quota < 0 then
      (.error ⟨.insufficientUserQuota, "预扣费额度失败, 用户剩余额度: " ++ env.formatQuota userQuota ++
        ", 需要预扣费额度: " ++ env.formatQuota quota⟩, w)
    else
      started ((newSession { info with userQuota } quota .wallet).preConsume env f.wallet quota w)

def trySubscription (w : World) : Except ApiError BillingSession × World :=
  let subConsume := if quota ≤ 0 then 1 else quota
  started ((newSession info subConsume .subscription).preConsume env f.subscription subConsume w)

/-- The second source is tried when the first one has too little. -/
def fallback (first second : World → Except ApiError BillingSession × World) (w : World) :
    Except ApiError BillingSession × World :=
  match first w with
  | (.ok s, w) => (.ok s, w)
  | (.error e, w) => if e.code = .insufficientUserQuota then second w else (.error e, w)

def newBillingSession (w : World) : Except ApiError BillingSession × World :=
  match normalizeBillingPreference info.billingPreference with
  | .subscriptionOnly => trySubscription env f info quota w
  | .walletOnly => tryWallet env f info quota w
  | .walletFirst => fallback (tryWallet env f info quota) (trySubscription env f info quota) w
  | .subscriptionFirst =>
    match hasActiveUserSubscription f.hasSubFails w.db info.userId f.hasSubNow with
    | .error e => (.error ⟨.queryDataError, e.text⟩, w)
    | .ok hasSub =>
      if !hasSub then tryWallet env f info quota w
      else fallback (trySubscription env f info quota) (tryWallet env f info quota) w

/-- A returned session has been paid for: its one source by exactly the session's
pre-consumed quota, the token by the same, and the other source by nothing. -/
structure PaidOnce (cal : Calendar) (now : ℤ) (w₀ : World) (s : BillingSession) (w : World) :
    Prop where
  charged : ∃ base, Baseline cal now base w₀ s.funding ∧
    drawn w s.funding - base = s.preConsumedQuota
  others : OthersKept cal now w₀ w s.funding
  token : w₀.remainQuota - w.remainQuota = tokenShare s.relayInfo s.preConsumedQuota
  usage : w.usedQuota - w₀.usedQuota = tokenShare s.relayInfo s.preConsumedQuota

/-- An attempt either fails and leaves the world as it was, or returns a session
that has been paid for. -/
def Atomic (cal : Calendar) (now : ℤ) (w₀ : World) (r : Except ApiError BillingSession × World) :
    Prop :=
  (∃ e, r = (.error e, w₀)) ∨ ∃ s, r.1 = .ok s ∧ PaidOnce cal now w₀ s r.2

variable {env} {f} {info} {quota} {w : World}

/-- Only a subscription's attempt depends on the time. -/
theorem Opened.paidOnce {src : BillingSource} {cal : Calendar} {now now' base : ℤ} {w₀ : World}
    {s : BillingSession} (h : Opened src cal now base w₀ s w)
    (hnow : src = .subscription → now' = now) : PaidOnce cal now' w₀ s w := by
  have hdrawn := h.held.funded.drawn_eq
  have hcharged : drawn w s.funding - base = s.preConsumedQuota := by omega
  have hb := h.baseline
  have ho := h.others
  have hsrc := h.source_eq
  refine ⟨⟨base, ?_, hcharged⟩, ?_, h.held.token, h.held.usage⟩
  all_goals
    cases hs : s.funding with
    | wallet consumed =>
      rw [hs] at hb ho
      assumption
    | subscription sub =>
      rw [hs] at hsrc hb ho
      rw [hnow hsrc.symm]
      assumption

theorem started_atomic {g : CallFaults} {now amount : ℤ} {src : BillingSource} (hq : 0 ≤ amount)
    (hnow : src = .subscription → now = g.now) (hsound : Sound w.db)
    (hfresh : w.db.records.find info.requestId = none) (hroll : g.tokenRollback = false) :
    Atomic env.cal now w (started ((newSession info amount src).preConsume env g amount w)) := by
  have hcases := newSession_preConsume env g src hq hsound hfresh
  generalize (newSession info amount src).preConsume env g amount w = r at hcases ⊢
  obtain ⟨r, s, w'⟩ := r
  dsimp only at hcases
  rcases hcases with ⟨e, rfl, href⟩ | ⟨rfl, base, ho⟩
  · have hw : w' = w := href.world hroll
    exact .inl ⟨e, by rw [started, hw]⟩
  · exact .inr ⟨s, rfl, Opened.paidOnce ho hnow⟩

theorem tryWallet_atomic (env : Env) (now : ℤ) (hq : 0 ≤ quota) (hsound : Sound w.db)
    (hfresh : w.db.records.find info.requestId = none) (hroll : f.wallet.tokenRollback = false) :
    Atomic env.cal now w (tryWallet env f info quota w) := by
  unfold tryWallet
  split
  · exact .inl ⟨_, rfl⟩
  · split_ifs
    · exact .inl ⟨_, rfl⟩
    · exact .inl ⟨_, rfl⟩
    · exact started_atomic hq (by intro h; cases h) hsound hfresh hroll

theorem trySubscription_atomic (env : Env) (quota : ℤ) (hsound : Sound w.db)
    (hfresh : w.db.records.find info.requestId = none)
    (hroll : f.subscription.tokenRollback = false) :
    Atomic env.cal f.subscription.now w (trySubscription env f info quota w) := by
  refine started_atomic ?_ (fun _ ↦ rfl) hsound hfresh hroll
  split_ifs <;> omega

/-- A fallback of atomic attempts is atomic: the second starts where the first did. -/
theorem fallback_atomic {cal : Calendar} {now : ℤ}
    {first second : World → Except ApiError BillingSession × World}
    (h₁ : Atomic cal now w (first w)) (h₂ : Atomic cal now w (second w)) :
    Atomic cal now w (fallback first second w) := by
  unfold fallback
  rcases h₁ with ⟨e, he⟩ | ⟨s, hs, hp⟩
  · rw [he]
    dsimp only
    split_ifs
    · exact h₂
    · exact .inl ⟨e, rfl⟩
  · rcases hf : first w with ⟨r, w'⟩
    rw [hf] at hs hp
    dsimp only at hs hp
    subst hs
    exact .inr ⟨s, rfl, hp⟩

/-- Opening a session is atomic over its fallbacks. -/
theorem newBillingSession_atomic (env : Env) (f : OpenFaults) (info : RelayInfo) (quota : ℤ)
    (w : World) (hq : 0 ≤ quota) (hsound : Sound w.db)
    (hfresh : w.db.records.find info.requestId = none) (hw : f.wallet.tokenRollback = false)
    (hs : f.subscription.tokenRollback = false) :
    (∃ e, newBillingSession env f info quota w = (.error e, w)) ∨
      ∃ s w', newBillingSession env f info quota w = (.ok s, w') ∧
        PaidOnce env.cal f.subscription.now w s w' := by
  have hwallet := tryWallet_atomic env f.subscription.now hq hsound hfresh hw
  have hsub := trySubscription_atomic env quota hsound hfresh hs
  have hatomic : Atomic env.cal f.subscription.now w (newBillingSession env f info quota w) := by
    unfold newBillingSession
    cases normalizeBillingPreference info.billingPreference with
    | subscriptionOnly => exact hsub
    | walletOnly => exact hwallet
    | walletFirst => exact fallback_atomic hwallet hsub
    | subscriptionFirst =>
      dsimp only
      split
      · exact .inl ⟨_, rfl⟩
      · split_ifs
        · exact hwallet
        · exact fallback_atomic hsub hwallet
  rcases hatomic with he | ⟨s, hok, hp⟩
  · exact .inl he
  · exact .inr ⟨s, _, Prod.ext hok rfl, hp⟩

/-- Nothing fails, and the user's quota is read as 100. -/
def plainOpen : OpenFaults := ⟨some 100, false, 0, noFaults, noFaults⟩

theorem newBillingSession_atomic_plain : ∃ s w',
    newBillingSession plainEnv plainOpen plainInfo 10 start = (.ok s, w') ∧
      PaidOnce plainEnv.cal 0 start s w' := by
  rcases newBillingSession_atomic plainEnv plainOpen plainInfo 10 start (by decide)
    (by intro id row h; cases h) rfl rfl rfl with ⟨e, he⟩ | h
  · have hcharged : (newBillingSession plainEnv plainOpen plainInfo 10 start).2.userQuota = 90 := by
      decide
    rw [he] at hcharged
    simp [start] at hcharged
  · exact h

/-- The wallet's update fails and so does the rollback of the token, which is only logged. -/
def rollbackFails : OpenFaults :=
  { plainOpen with wallet := { noFaults with wallet := true, tokenRollback := true } }

/-- The session is refused and the token stays charged. -/
theorem newBillingSession_not_atomic :
    (∃ e, (newBillingSession plainEnv rollbackFails plainInfo 10 start).1 = .error e) ∧
      (newBillingSession plainEnv rollbackFails plainInfo 10 start).2.remainQuota ≠
        start.remainQuota :=
  ⟨⟨_, rfl⟩, by decide⟩

end AllAiTools.NewApi.Service.NewSession
