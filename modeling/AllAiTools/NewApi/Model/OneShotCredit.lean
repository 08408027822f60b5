import AllAiTools.NewApi.Model.OneShot

namespace AllAiTools.NewApi.Model.OneShotCredit

open Foundation Foundation.Run Foundation.ReadCommitted Common.Str Subscription OneShot

/-- The code is enabled, or the order pending. -/
def isPending (s : Ledger) : Origin → Bool
  | .redemption key => (s.redemptions.find key).any fun r ↦ r.status = .enabled
  | .topUp tradeNo => (s.topUps.find tradeNo).any fun t ↦ t.status = .pending
  | .order tradeNo => (s.orders.find tradeNo).any fun o ↦ o.status = .pending

/-- One for a write that grants the credit of `o`. -/
def credit (o : Origin) : Write → ℤ
  | .addQuota origin _ _ _ _ => if origin = o then 1 else 0
  | .createSub origin _ => if origin = o then 1 else 0
  | _ => 0

/-- The write makes the code or the order available. -/
def opens (o : Origin) : Write → Bool
  | .saveRedemption r => .redemption r.key = o && r.status = .enabled
  | .createTopUp t => .topUp t.tradeNo = o && t.status = .pending
  | .saveTopUp t => .topUp t.tradeNo = o && t.status = .pending
  | .saveOrder r => .order r.tradeNo = o && r.status = .pending
  | _ => false

/-- The write saves the row of `o` with another status. -/
def closes (o : Origin) : Write → Bool
  | .saveRedemption r => .redemption r.key = o && r.status ≠ .enabled
  | .saveTopUp t => .topUp t.tradeNo = o && t.status ≠ .pending
  | .saveOrder r => .order r.tradeNo = o && r.status ≠ .pending
  | _ => false

variable {o : Origin} {s : Ledger} {b : List Write} {next : Prog} {env : Env}

/-- What a transaction may commit: it makes nothing available again, and it grants
nothing, or grants once and closes. -/
structure GrantsOnce (o : Origin) (b : List Write) (next : Prog) : Prop where
  opens : ∀ w ∈ b, opens o w = false
  credit : weigh (credit o) b = 0 ∨ weigh (credit o) b = 1 ∧ ∃ w ∈ b, closes o w = true

theorem updateUser_pending (id : ℤ) (f : User → User) (o : Origin) :
    isPending (updateUser s id f) o = isPending s o := by
  unfold updateUser
  split
  · rfl
  · cases o <;> rfl

theorem any_save {κ α : Type} [DecidableEq κ] {key : α → κ} (t : Table key) (a : α) (k : κ)
    (p : α → Bool) : ((t.save a).find k).any p =
      if key a = k then (t.find k).isSome && p a else (t.find k).any p := by
  rw [Table.find_save]
  split_ifs
  · cases t.find k <;> rfl
  · rfl

theorem any_insert {κ α : Type} [DecidableEq κ] {key : α → κ} (t : Table key) (a : α) (k : κ)
    {p : α → Bool} (h : (((t.insert a).getD t).find k).any p = true) :
    key a = k ∧ p a = true ∨ (t.find k).any p = true := by
  cases hi : t.insert a with
  | none =>
    rw [hi] at h
    exact .inr h
  | some t' =>
    rw [hi, Option.getD_some, Table.find_insert hi] at h
    split_ifs at h with hk
    · exact .inl ⟨hk, h⟩
    · exact .inr h

/-- Only a write that says so makes a code or an order available. -/
theorem pending_of_apply {w : Write} (hw : opens o w = false)
    (h : isPending (apply w s) o = true) : isPending s o = true := by
  cases w with
  | addQuota origin id quota email customer =>
    rwa [apply, updateUser_pending] at h
  | setGroup id group => rwa [apply, updateUser_pending] at h
  | createSub origin sub => cases o <;> exact h
  | createTopUp t =>
    cases o with
    | topUp tradeNo =>
      rcases any_insert s.topUps t tradeNo h with ⟨hk, hp⟩ | hold
      · simp [opens, hk] at hw hp
        exact absurd hp hw
      · exact hold
    | redemption key => exact h
    | order tradeNo => exact h
  | saveRedemption r =>
    cases o with
    | redemption key =>
      simp only [isPending, apply, any_save] at h ⊢
      split_ifs at h with hk
      · simp [opens, hk] at hw h
        exact absurd h.2 hw
      · exact h
    | topUp tradeNo => exact h
    | order tradeNo => exact h
  | saveTopUp t =>
    cases o with
    | topUp tradeNo =>
      simp only [isPending, apply, any_save] at h ⊢
      split_ifs at h with hk
      · simp [opens, hk] at hw h
        exact absurd h.2 hw
      · exact h
    | redemption key => exact h
    | order tradeNo => exact h
  | saveOrder r =>
    cases o with
    | order tradeNo =>
      simp only [isPending, apply, any_save] at h ⊢
      split_ifs at h with hk
      · simp [opens, hk] at hw h
        exact absurd h.2 hw
      · exact h
    | redemption key => exact h
    | topUp tradeNo => exact h

theorem not_pending_of_closes {w : Write} (hw : closes o w = true) :
    isPending (apply w s) o = false := by
  cases w with
  | saveRedemption r =>
    simp only [closes, Bool.and_eq_true, decide_eq_true_eq] at hw
    obtain ⟨rfl, hs⟩ := hw
    simp [isPending, apply, any_save, hs]
  | saveTopUp t =>
    simp only [closes, Bool.and_eq_true, decide_eq_true_eq] at hw
    obtain ⟨rfl, hs⟩ := hw
    simp [isPending, apply, any_save, hs]
  | saveOrder r =>
    simp only [closes, Bool.and_eq_true, decide_eq_true_eq] at hw
    obtain ⟨rfl, hs⟩ := hw
    simp [isPending, apply, any_save, hs]
  | createTopUp t => cases hw
  | addQuota origin id quota email customer => cases hw
  | setGroup id group => cases hw
  | createSub origin sub => cases hw

theorem pending_of_applyAll (hb : ∀ w ∈ b, opens o w = false)
    (h : isPending (rules.applyAll b s) o = true) : isPending s o = true := by
  induction b generalizing s with
  | nil => exact h
  | cons w b ih =>
    have hrest := ih (s := apply w s) (fun w' hw' ↦ hb w' (List.mem_cons_of_mem w hw')) h
    exact pending_of_apply (hb w List.mem_cons_self) hrest

theorem not_pending_of_applyAll (hb : ∀ w ∈ b, opens o w = false)
    (hc : ∃ w ∈ b, closes o w = true) : isPending (rules.applyAll b s) o = false := by
  obtain ⟨w, hw, hclose⟩ := hc
  obtain ⟨b₁, b₂, rfl⟩ := List.append_of_mem hw
  have hsplit : rules.applyAll (b₁ ++ w :: b₂) s =
      rules.applyAll b₂ (apply w (rules.applyAll b₁ s)) := List.foldl_append
  have hb₂ : ∀ w' ∈ b₂, opens o w' = false := fun w' hw' ↦
    hb w' (List.mem_append_right _ (List.mem_cons_of_mem w hw'))
  rw [hsplit]
  by_contra hne
  have hpend := pending_of_applyAll hb₂ (by simpa using hne)
  rw [not_pending_of_closes hclose] at hpend
  cases hpend

section Programs

/-- What a transaction has written so far: nothing made available, and the credit of
`origin` granted or not. -/
structure Written (o : Origin) (granted : ℤ) (b : List Write) : Prop where
  opens : ∀ w ∈ b, opens o w = false
  credit : weigh (credit o) b = granted

theorem Written.nil : Written o 0 [] := ⟨by simp, rfl⟩

theorem Written.append {n m : ℤ} {w : Write} (h : Written o n b)
    (hw : OneShotCredit.opens o w = false) (hm : n + OneShotCredit.credit o w = m) :
    Written o m (b ++ [w]) := by
  refine ⟨?_, ?_⟩
  · intro w' hw'
    rcases List.mem_append.mp hw' with hb | hl
    · exact h.opens w' hb
    · rw [List.mem_singleton.mp hl]
      exact hw
  · rw [weigh_append, h.credit, ← hm]
    simp [weigh]

/-- A write that is no credit. -/
theorem Written.quiet {n : ℤ} {w : Write} (h : Written o n b)
    (hw : OneShotCredit.opens o w = false) (hc : OneShotCredit.credit o w = 0) :
    Written o n (b ++ [w]) := h.append hw (by rw [hc, add_zero])

/-- A write that is the credit of `origin`. -/
theorem Written.grant (origin : Origin) {w : Write} (h : Written o 0 b)
    (hw : OneShotCredit.opens o w = false)
    (hc : OneShotCredit.credit o w = if origin = o then 1 else 0) :
    Written o (if origin = o then 1 else 0) (b ++ [w]) := h.append hw (by rw [hc, zero_add])

theorem finish_commits {report : String → String} (h : ∀ next, GrantsOnce o b next) :
    (finish report).Commits (GrantsOnce o) b := ⟨h _, trivial, trivial⟩

theorem Written.none (h : Written o 0 b) : GrantsOnce o b next := ⟨h.opens, .inl h.credit⟩

/-- A transaction that grants the credit of `origin` and closes its row. -/
theorem Written.once {origin : Origin} {w : Write} (h : Written o (if origin = o then 1 else 0) b)
    (hw : w ∈ b) (hclose : closes origin w = true) : GrantsOnce o b next := by
  refine ⟨h.opens, ?_⟩
  rw [h.credit]
  split_ifs with ho
  · exact .inr ⟨rfl, w, hw, ho ▸ hclose⟩
  · exact .inl rfl

theorem redeem_commits (key : String) (userId : ℤ) :
    (redeem env key userId).Commits (GrantsOnce o) [] := by
  unfold redeem
  dsimp only
  split_ifs
  · trivial
  · trivial
  refine ⟨fun s ↦ ?_, trivial⟩
  dsimp only
  split
  · trivial
  rename_i r hr
  split_ifs
  · trivial
  · trivial
  refine ⟨⟨finish_commits fun next ↦ ?_, trivial⟩, trivial⟩
  have hkey : r.key = key := Table.find_key hr
  have hgrant := Written.nil.grant (o := o) (.redemption key)
    (w := .addQuota (.redemption key) userId r.quota none none) rfl rfl
  have hsave := hgrant.quiet
    (w := .saveRedemption { r with redeemedTime := env.now, status := .used, usedUserId := userId })
    (by simp [opens]) rfl
  exact hsave.once (List.mem_append_right _ (List.mem_singleton.mpr rfl)) (by simp [closes, hkey])

theorem creditTopUp_commits (rule : TopUpRule) (topUp : TopUp) (h : Written o 0 b)
    (hc : ∃ w ∈ b, closes (.topUp topUp.tradeNo) w = true) :
    (creditTopUp rule topUp).Commits (GrantsOnce o) b := by
  have hadd (email : Option String) :
      (Program.write (.addQuota (.topUp topUp.tradeNo) topUp.userId (rule.quota topUp) email
        rule.stripeCustomer) (finish rule.report)
        (fail (rule.report "database error"))).Commits (GrantsOnce o) b := by
    refine ⟨finish_commits fun next ↦ ?_, trivial⟩
    obtain ⟨w, hw, hclose⟩ := hc
    have hgrant := h.grant (.topUp topUp.tradeNo) (w := .addQuota (.topUp topUp.tradeNo)
      topUp.userId (rule.quota topUp) email rule.stripeCustomer) rfl rfl
    exact hgrant.once (List.mem_append_left _ hw) hclose
  unfold creditTopUp
  dsimp only
  split_ifs
  · exact hadd none
  · refine ⟨fun s ↦ ?_, trivial⟩
    dsimp only
    split
    · trivial
    · exact hadd _

theorem completeTopUp_commits (rule : TopUpRule) (tradeNo : String) :
    (completeTopUp env rule tradeNo).Commits (GrantsOnce o) [] := by
  unfold completeTopUp
  dsimp only
  split_ifs
  · trivial
  refine ⟨fun s ↦ ?_, trivial⟩
  dsimp only
  split
  · trivial
  rename_i topUp htopUp
  split_ifs
  · trivial
  · exact finish_commits fun next ↦ Written.nil.none
  · trivial
  · trivial
  refine ⟨?_, trivial⟩
  have hsave := Written.nil.quiet (o := o)
    (w := .saveTopUp { topUp with completeTime := env.now, status := .success })
    (by simp [opens]) rfl
  refine creditTopUp_commits rule topUp hsave ?_
  exact ⟨_, List.mem_append_right _ (List.mem_singleton.mpr rfl), by simp [closes]⟩

theorem upsert_commits {n : ℤ} {order : SubscriptionOrder} (h : Written o n b)
    (hnext : ∀ b, Written o n b → next.Commits (GrantsOnce o) b) :
    (upsertSubscriptionTopUpTx env order next).Commits (GrantsOnce o) b := by
  refine ⟨fun s ↦ ?_, trivial⟩
  dsimp only
  split
  · exact ⟨hnext _ (h.quiet (by simp [opens]) rfl), trivial⟩
  · rename_i topUp _
    by_cases hm : topUp.paymentMethod ≠ "" ∧ topUp.paymentMethod ≠ order.paymentMethod
    · rw [if_pos hm]
      trivial
    · rw [if_neg hm]
      exact ⟨hnext _ (h.quiet (by simp [opens]) rfl), trivial⟩

theorem createUserSubscription_commits {origin : Origin} {userId endTime : ℤ}
    {plan : SubscriptionPlan} {source : String} (h : Written o 0 b)
    (hnext : ∀ b, Written o (if origin = o then 1 else 0) b → next.Commits (GrantsOnce o) b) :
    (createUserSubscription env origin userId plan source endTime next).Commits
      (GrantsOnce o) b := by
  have hcreate {b : List Write} (h : Written o 0 b) (sub : UserSubscription) :
      (Program.write (.createSub origin sub) next (fail "database error")).Commits
        (GrantsOnce o) b := ⟨hnext _ (h.grant origin rfl rfl), trivial⟩
  unfold createUserSubscription
  dsimp only
  by_cases hg : trimSpace plan.upgradeGroup = ""
  · rw [if_pos hg]
    exact hcreate h _
  rw [if_neg hg]
  refine ⟨fun s ↦ ?_, trivial⟩
  dsimp only
  by_cases hu : getUserGroupById s userId = trimSpace plan.upgradeGroup
  · rw [if_pos hu]
    exact hcreate h _
  · rw [if_neg hu]
    exact ⟨hcreate (h.quiet rfl rfl) _, trivial⟩

theorem createFromPlan_commits {origin : Origin} {userId : ℤ} {plan : SubscriptionPlan}
    {source : String} (h : Written o 0 b)
    (hnext : ∀ b, Written o (if origin = o then 1 else 0) b → next.Commits (GrantsOnce o) b) :
    (createUserSubscriptionFromPlanTx env origin userId plan source next).Commits
      (GrantsOnce o) b := by
  have hcreate : (createForPlan env origin userId plan source next).Commits (GrantsOnce o) b := by
    unfold createForPlan
    split
    · trivial
    · exact createUserSubscription_commits h hnext
  unfold createUserSubscriptionFromPlanTx
  dsimp only
  split_ifs
  · trivial
  · trivial
  · refine ⟨fun s ↦ ?_, trivial⟩
    dsimp only
    split_ifs
    · trivial
    · exact hcreate
  · exact hcreate

theorem saveOrder_commits {order : SubscriptionOrder} (hs : order.status = .success)
    (h : Written o (if .order order.tradeNo = o then 1 else 0) b) :
    (Program.write (.saveOrder order) (finish id) (fail "database error")).Commits
      (GrantsOnce o) b := by
  refine ⟨finish_commits fun next ↦ ?_, trivial⟩
  have hsave := h.quiet (w := .saveOrder order) (by simp [opens, hs]) rfl
  exact hsave.once (List.mem_append_right _ (List.mem_singleton.mpr rfl)) (by simp [closes, hs])

theorem completeSubscriptionOrder_commits (tradeNo payload provider method : String) :
    (completeSubscriptionOrder env tradeNo payload provider method).Commits (GrantsOnce o) [] := by
  unfold completeSubscriptionOrder
  dsimp only
  by_cases hempty : tradeNo = ""
  · rw [if_pos hempty]
    trivial
  rw [if_neg hempty]
  refine ⟨fun s ↦ ?_, trivial⟩
  dsimp only
  split
  · trivial
  rename_i order horder
  have hkey : order.tradeNo = tradeNo := Table.find_key horder
  by_cases hp : provider ≠ "" ∧ order.paymentProvider ≠ provider
  · rw [if_pos hp]
    trivial
  rw [if_neg hp]
  by_cases hdone : order.status = .success
  · rw [if_pos hdone]
    exact finish_commits fun next ↦ Written.nil.none
  rw [if_neg hdone]
  by_cases hpend : order.status ≠ .pending
  · rw [if_pos hpend]
    trivial
  rw [if_neg hpend]
  refine ⟨fun s ↦ ?_, trivial⟩
  dsimp only
  by_cases hplan : order.planId ≤ 0
  · rw [if_pos hplan]
    trivial
  rw [if_neg hplan]
  split
  · trivial
  subst hkey
  exact createFromPlan_commits Written.nil fun b hb ↦ upsert_commits hb fun b hb ↦
    saveOrder_commits rfl hb

theorem program_commits (c : Call) : c.program.Commits (GrantsOnce o) [] := by
  cases c with
  | redeem env key userId => exact redeem_commits key userId
  | recharge env referenceId customerId => exact completeTopUp_commits _ referenceId
  | rechargeCreem env referenceId email => exact completeTopUp_commits _ referenceId
  | rechargeWaffo env tradeNo => exact completeTopUp_commits _ tradeNo
  | rechargeWaffoPancake env tradeNo => exact completeTopUp_commits _ tradeNo
  | manualCompleteTopUp env tradeNo => exact completeTopUp_commits _ tradeNo
  | completeSubscriptionOrder env tradeNo payload provider method =>
    exact completeSubscriptionOrder_commits tradeNo payload provider method

end Programs

section Main

/-- A transaction that grants the credit still finds it available when it commits. -/
def Fresh (o : Origin) (s : Ledger) (b : List Write) : Prop :=
  weigh (credit o) b ≠ 0 → isPending s o = true

/-- The credit of `o` has been granted at most once. -/
def GrantedAtMostOnce (o : Origin) (sys : System Ledger Write String) : Prop :=
  sys.total (credit o) ≤ 1

/-- A grant moves the code or the order from available to closed, once. -/
def closed (o : Origin) (s : Ledger) : ℤ := if isPending s o then 0 else 1

theorem closed_applyAll (hb : GrantsOnce o b next) (hf : Fresh o s b) :
    closed o s + weigh (credit o) b ≤ closed o (rules.applyAll b s) := by
  rcases hb.credit with hz | ⟨hone, hclose⟩
  · rw [hz]
    unfold closed
    by_cases hp : isPending (rules.applyAll b s) o = true
    · simp [hp, pending_of_applyAll hb.opens hp]
    · simp only [hp, Bool.false_eq_true, if_false]
      split_ifs <;> omega
  · have hp : isPending s o = true := hf (by omega)
    have hn := not_pending_of_applyAll (s := s) hb.opens hclose
    simp [closed, hp, hn, hone]

/-- In a run whose granting commits all find the credit still available, no code and
no order is credited twice. -/
theorem granted_at_most_once (o : Origin) (s : Ledger) (calls : List Call) (trace : List Move)
    (hrun : FreshRun rules (Fresh o) (.start s (calls.map Call.program)) trace) :
    GrantedAtMostOnce o (interleave s calls trace) := by
  have hp : ∀ p ∈ calls.map Call.program, p.Commits (GrantsOnce o) [] := by
    intro p hp
    obtain ⟨c, _, rfl⟩ := List.mem_map.mp hp
    exact program_commits c
  have hle := total_le (GrantsOnce o) (Fresh o) (credit o) (closed o)
      (fun _ _ _ hb hf ↦ closed_applyAll hb hf) hp hrun
  have h₀ : 0 ≤ closed o s := by
    unfold closed
    split_ifs <;> omega
  have h₁ : closed o (interleave s calls trace).store ≤ 1 := by
    unfold closed
    split_ifs <;> omega
  unfold GrantedAtMostOnce
  unfold interleave at h₁ ⊢
  omega

def plainEnv : Env where
  now := 0
  quotaPerUnit := 500000
  storedQuota := fun q ↦ ⌊q⌋
  addYears := fun t n ↦ t + n * 31536000
  addMonths := fun t n ↦ t + n * 2592000
  cal := .ticking

/-- Two users and one enabled code. -/
def oneCode : Ledger where
  redemptions := .single { key := "k", quota := 100 }
  topUps := .empty
  orders := .empty
  users := ⟨[{ id := 1 }, { id := 2 }], by decide⟩
  plans := .empty
  subs := []

theorem granted_at_most_once_serial : GrantedAtMostOnce (.redemption "k")
    (interleave oneCode [.redeem plainEnv "k" 1, .redeem plainEnv "k" 2]
      [⟨0, false⟩, ⟨0, false⟩, ⟨0, false⟩, ⟨0, false⟩, ⟨1, false⟩]) := by
  refine granted_at_most_once _ _ _ _ ?_
  refine ⟨?_, ?_, ?_, ?_, ?_, trivial⟩
  all_goals
    intro b hb
    cases hb
  intro _
  rfl

/-- Both calls read the code as enabled before either commits, and both are paid. -/
theorem redeemed_twice : ¬ GrantedAtMostOnce (.redemption "k")
    (interleave oneCode [.redeem plainEnv "k" 1, .redeem plainEnv "k" 2]
      [⟨0, false⟩, ⟨1, false⟩, ⟨0, false⟩, ⟨0, false⟩, ⟨0, false⟩, ⟨1, false⟩, ⟨1, false⟩,
        ⟨1, false⟩]) := by
  unfold GrantedAtMostOnce
  decide

end Main

end AllAiTools.NewApi.Model.OneShotCredit
