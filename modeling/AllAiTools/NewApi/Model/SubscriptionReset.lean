import AllAiTools.NewApi.Model.SubscriptionPreConsume

namespace AllAiTools.NewApi.Model.SubscriptionReset

open Foundation Foundation.Result Common.Str Subscription SubscriptionPreConsume

section Code

variable (cal : Calendar) (fault : ℤ → Faults) (now : ℤ)

/-- The due row is read again under a lock; without it there is nothing to do. -/
def resetTx (tx : Store) (plan : SubscriptionPlan) (id : ℤ) : Except Error (ℕ × Store) :=
  match first (fault id .findSub)
      ((tx.subs.find id).filter fun l ↦ 0 < l.nextResetTime ∧ l.nextResetTime ≤ now) with
  | .error _ => .ok (0, tx)
  | .ok locked => do
    let (_, tx') ← maybeResetUserSubscriptionWithPlanTx cal plan (fault id) tx locked now
    .ok (1, tx')

/-- The loop over the due rows; a row whose plan is not found is passed over, and the
callers drop the count that comes with an error. -/
def resetAll : List UserSubscription → ℕ → Store → Except Error ℕ × Store
  | [], resetCount, db => (.ok resetCount, db)
  | sub :: rest, resetCount, db =>
    match getSubscriptionPlanByIdTx (fault sub.id (.findPlan sub.id)) db sub.planId with
    | .error _ => resetAll rest resetCount db
    | .ok plan =>
      match transaction (fault sub.id) db (resetTx cal fault now db plan sub.id) with
      | (.error e, db') => (.error e, db')
      | (.ok n, db') => resetAll rest (resetCount + n) db'

def dueResets (db : Store) (limit : ℤ) : List UserSubscription :=
  let due := db.subs.rows.filter fun sub ↦
    0 < sub.nextResetTime ∧ sub.nextResetTime ≤ now ∧ sub.status = .active
  (due.insertionSort fun a b ↦ a.nextResetTime ≤ b.nextResetTime).take
    (if limit ≤ 0 then 200 else limit.toNat)

def resetDueSubscriptions (failed : Bool) (db : Store) (limit : ℤ) : Except Error ℕ × Store :=
  if failed then (.error .database, db)
  else resetAll cal fault now (dueResets now db limit) 0 db

end Code

section Periods

variable {cal : Calendar} {plan : SubscriptionPlan} {now : ℤ}

/-- When the present period of a subscription began. -/
def periodStart (sub : UserSubscription) : ℤ :=
  if sub.lastResetTime ≤ 0 then sub.startTime else sub.lastResetTime

/-- A new period has begun with nothing used, or the old one goes on. -/
def Renews (start used start' used' : ℤ) : Prop :=
  start < start' ∧ used' = 0 ∨ start' = start ∧ used' = used

theorem Renews.refl (start used : ℤ) : Renews start used start used := .inr ⟨rfl, rfl⟩

theorem Renews.trans {start used start' used' start'' used'' : ℤ}
    (h : Renews start used start' used') (h' : Renews start' used' start'' used'') :
    Renews start used start'' used'' := by
  unfold Renews at *
  omega

theorem advance_ge (cal : Calendar) (plan : SubscriptionPlan) (endTime now base : ℤ) :
    base ≤ (advance cal plan endTime now base).1 := by
  induction base using advance.induct cal plan endTime now with
  | case1 base next hdue ih =>
    have hgt := calcNextResetTime_gt cal plan hdue.1
    rw [advance, if_pos hdue]
    exact (le_of_lt hgt).trans ih
  | case2 base next hnot =>
    rw [advance, if_neg hnot]

theorem advance_of_due {endTime base : ℤ} (h : 0 < calcNextResetTime cal plan base endTime ∧
    calcNextResetTime cal plan base endTime ≤ now) :
    base < (advance cal plan endTime now base).1 ∧ 0 < (advance cal plan endTime now base).1 := by
  have hgt := calcNextResetTime_gt cal plan h.1
  have hge := advance_ge cal plan endTime now
    (calcNextResetTime cal plan base endTime)
  rw [advance]
  simp only [if_pos h]
  omega

theorem calcNextResetTime_nonneg (cal : Calendar) (plan : SubscriptionPlan) {base : ℤ}
    (hbase : 0 ≤ base) (endUnix : ℤ) : 0 ≤ calcNextResetTime cal plan base endUnix := by
  have hd := cal.nextDay_gt base
  have hw := cal.nextMonday_gt base
  have hm := cal.nextMonth_gt base
  unfold calcNextResetTime
  cases hp : normalizeResetPeriod plan.quotaResetPeriod <;> simp only [] <;> split_ifs <;> omega

/-- The last reset is followed by one that is not due. -/
theorem advance_next (cal : Calendar) (plan : SubscriptionPlan) (endTime now base : ℤ) :
    (advance cal plan endTime now base).2 =
        calcNextResetTime cal plan (advance cal plan endTime now base).1 endTime ∧
      ¬ (0 < (advance cal plan endTime now base).2 ∧
        (advance cal plan endTime now base).2 ≤ now) := by
  induction base using advance.induct cal plan endTime now with
  | case1 base next hdue ih =>
    rw [advance, if_pos hdue]
    exact ih
  | case2 base next hnot =>
    rw [advance, if_neg hnot]
    exact ⟨rfl, hnot⟩

/-- The loop does not go past the present. -/
theorem advance_le {endTime base : ℤ} (h : base ≤ now) :
    (advance cal plan endTime now base).1 ≤ now := by
  induction base using advance.induct cal plan endTime now with
  | case1 base next hdue ih =>
    rw [advance, if_pos hdue]
    exact ih hdue.2
  | case2 base next hnot =>
    rw [advance, if_neg hnot]
    exact h

theorem advance_of_not_due {endTime base : ℤ} (h : ¬ (0 < calcNextResetTime cal plan base endTime ∧
    calcNextResetTime cal plan base endTime ≤ now)) :
    (advance cal plan endTime now base).1 = base := by
  rw [advance]
  simp only [if_neg h]

theorem periodStart_of_pos {sub : UserSubscription} {t : ℤ} (hl : sub.lastResetTime = t)
    (h : 0 < t) : periodStart sub = t := by
  rw [periodStart, hl, if_neg (not_le.mpr h)]

theorem periodStart_kept {sub sub' : UserSubscription} (hs : sub'.startTime = sub.startTime)
    (hl : sub'.lastResetTime = periodStart sub) : periodStart sub' = periodStart sub := by
  by_cases hp : periodStart sub ≤ 0
  · have hstart : sub.startTime = periodStart sub := by
      unfold periodStart at hp ⊢
      split_ifs at hp ⊢
      · rfl
      · omega
    rw [periodStart, hl, if_pos hp, hs, hstart]
  · rw [periodStart, hl, if_neg hp]

theorem maybeReset_renews {sub sub' : UserSubscription} (h : maybeReset cal plan sub now = some sub') :
    Renews (periodStart sub) sub.amountUsed (periodStart sub') sub'.amountUsed := by
  unfold maybeReset at h
  dsimp only at h
  rw [← periodStart] at h
  split_ifs at h with hlater hnever hdue hfirst
  · cases h
    obtain ⟨hlt, hpos⟩ := advance_of_due hdue
    refine .inl ⟨lt_of_lt_of_eq hlt (Eq.symm ?_), rfl⟩
    exact periodStart_of_pos rfl hpos
  · cases h
    exact .inr ⟨periodStart_kept rfl (advance_of_not_due hdue), rfl⟩

theorem Due.renews {db : Store} {sub sub' : UserSubscription} (h : Due cal db now sub sub') :
    Renews (periodStart sub) sub.amountUsed (periodStart sub') sub'.amountUsed := by
  rcases h with rfl | ⟨plan, _, hr⟩
  · exact .refl _ _
  · exact maybeReset_renews hr

/-- The start of the present period of the subscription with a given key. -/
def startOf (db : Store) (k : ℤ) : ℤ := ((db.subs.find k).map periodStart).getD 0

/-- The subscription with a given key is in a new, unused period, or as it was. -/
def RenewsAt (k : ℤ) (db db' : Store) : Prop :=
  Renews (startOf db k) (db.used k) (startOf db' k) (db'.used k)

theorem RenewsAt.refl (k : ℤ) (db : Store) : RenewsAt k db db := Renews.refl _ _

theorem RenewsAt.trans {k : ℤ} {db db' db'' : Store} (h : RenewsAt k db db')
    (h' : RenewsAt k db' db'') : RenewsAt k db db'' := Renews.trans h h'

theorem renewsAt_of_rel {R : UserSubscription → UserSubscription → Prop}
    (hR : ∀ a b, R a b → Renews (periodStart a) a.amountUsed (periodStart b) b.amountUsed) {k : ℤ}
    {db db' : Store} (h : Option.Rel R (db.subs.find k) (db'.subs.find k)) : RenewsAt k db db' := by
  unfold RenewsAt startOf Store.used
  cases hd : db.subs.find k with
  | none =>
    rw [hd] at h
    cases hd' : db'.subs.find k with
    | none => exact .refl _ _
    | some b =>
      rw [hd'] at h
      cases h
  | some a =>
    rw [hd] at h
    cases hd' : db'.subs.find k with
    | none =>
      rw [hd'] at h
      cases h
    | some b =>
      rw [hd'] at h
      cases h with
      | some h => exact hR a b h

theorem resetTx_renews {fault : ℤ → Faults} {db db' : Store} {id : ℤ} {n : ℕ}
    (h : resetTx cal fault now db plan id = .ok (n, db')) (k : ℤ) : RenewsAt k db db' := by
  unfold resetTx at h
  cases hl : first (fault id .findSub)
      ((db.subs.find id).filter fun l ↦ 0 < l.nextResetTime ∧ l.nextResetTime ≤ now) with
  | error e =>
    rw [hl] at h
    cases h
    exact .refl k db
  | ok locked =>
    rw [hl] at h
    obtain ⟨⟨sub', tx'⟩, hr, h⟩ := bind_eq_ok.mp h
    cases h
    have hfound : db.subs.find id = some locked := (Option.filter_eq_some_iff.mp (first_eq_ok.mp hl).2).1
    have hid : locked.id = id := Table.find_key hfound
    unfold maybeResetUserSubscriptionWithPlanTx at hr
    cases hm : maybeReset cal plan locked now with
    | none =>
      rw [hm] at hr
      cases hr
      exact .refl k db
    | some row =>
      rw [hm] at hr
      obtain ⟨_, _, hr⟩ := bind_eq_ok.mp hr
      cases hr
      obtain ⟨used, last, next, _, hrow⟩ := maybeReset_cases cal plan hm
      have hkey : sub'.id = id := by rw [hrow]; exact hid
      refine renewsAt_of_rel (R := fun a b ↦ a = b ∨ a = locked ∧ b = sub') ?_ ?_
      · rintro a b (rfl | ⟨rfl, rfl⟩)
        · exact .refl _ _
        · exact maybeReset_renews hm
      · dsimp only
        rw [Table.find_save, hkey]
        by_cases hk : id = k
        · subst hk
          rw [if_pos rfl, hfound]
          exact .some (.inr ⟨rfl, rfl⟩)
        · rw [if_neg hk]
          cases db.subs.find k with
          | none => exact .none
          | some a => exact .some (.inl rfl)

theorem resetAll_renews (cal : Calendar) (fault : ℤ → Faults) (now : ℤ)
    (due : List UserSubscription) (n : ℕ) (db : Store) (k : ℤ) :
    RenewsAt k db (resetAll cal fault now due n db).2 := by
  induction due generalizing n db with
  | nil => exact .refl k db
  | cons sub due ih =>
    rw [resetAll]
    cases hp : getSubscriptionPlanByIdTx (fault sub.id (.findPlan sub.id)) db sub.planId with
    | error e => exact ih n db
    | ok plan =>
      rcases transaction_cases (fault sub.id) db (resetTx cal fault now db plan sub.id) with
        ⟨e, ht⟩ | ⟨m, db', _, _, hbody, ht⟩
      · simp only [ht]
        exact .refl k db
      · simp only [ht]
        exact (resetTx_renews hbody k).trans (ih (n + m) db')

theorem resetDue_renews (cal : Calendar) (fault : ℤ → Faults) (now : ℤ) (failed : Bool) (db : Store)
    (limit k : ℤ) : RenewsAt k db (resetDueSubscriptions cal fault now failed db limit).2 := by
  unfold resetDueSubscriptions
  split_ifs
  · exact .refl k db
  · exact resetAll_renews cal fault now _ 0 db k

end Periods

end AllAiTools.NewApi.Model.SubscriptionReset
