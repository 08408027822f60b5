import AllAiTools.Foundation.CivilCalendar
import AllAiTools.NewApi.Model.SubscriptionReset

namespace AllAiTools.NewApi.Model.SubscriptionZone

open Foundation.CivilCalendar Subscription SubscriptionReset

/-- A time zone: the seconds it is ahead of UTC at each instant, and the instants `time.Date` finds
for local times. Where a transition leaves out a local time, that is by either of its offsets. -/
structure Zone where
  offset : ℤ → ℤ
  date : ℤ → ℤ
  date_exact : ∀ t, date (t + offset t) + offset (date (t + offset t)) = t + offset t
  date_gap : ∀ l, (∀ t, t + offset t ≠ l) →
    ∃ t, t - 1 + offset (t - 1) < l ∧ l < t + offset t ∧
      (date l = l - offset (t - 1) ∨ date l = l - offset t)

namespace Zone

variable (zone : Zone)

/-- The local time at an instant, in seconds of a clock without transitions. -/
def wall (t : ℤ) : ℤ := t + zone.offset t

def day (t : ℤ) : ℤ := zone.wall t / 86400

def midnight (day : ℤ) : ℤ := zone.date (86400 * day)

/-- `AddDate`, which keeps the day of the month and the time of the day. -/
def addDate (t months days : ℤ) : ℤ :=
  let month := monthOf (zone.day t)
  let day := monthStart (month + months) + (zone.day t - monthStart month) + days
  zone.date (86400 * day + zone.wall t % 86400)

/-- `Weekday`, from Sunday. -/
def weekday (t : ℤ) : ℤ := (zone.day t + 4) % 7

def nextDay (base : ℤ) : ℤ := zone.addDate (zone.midnight (zone.day base)) 0 1

def nextMonday (base : ℤ) : ℤ :=
  let weekday := if zone.weekday base = 0 then 7 else zone.weekday base
  zone.addDate (zone.midnight (zone.day base)) 0 (8 - weekday)

def nextMonth (base : ℤ) : ℤ :=
  zone.addDate (zone.midnight (monthStart (monthOf (zone.day base)))) 1 0

end Zone

section Code

variable (zone : Zone) (plan : SubscriptionPlan)

def calcNextResetTime (base endUnix : ℤ) : ℤ :=
  let next := match normalizeResetPeriod plan.quotaResetPeriod with
    | .never => 0
    | .daily => zone.nextDay base
    | .weekly => zone.nextMonday base
    | .monthly => zone.nextMonth base
    | .custom => if plan.quotaResetCustomSeconds ≤ 0 then 0 else base + plan.quotaResetCustomSeconds
  if 0 < endUnix ∧ endUnix < next then 0 else next

/-- The loop of `maybeResetUserSubscriptionWithPlanTx`, as long as there is fuel. -/
def advance (endTime now : ℤ) : ℕ → ℤ → Option (ℤ × ℤ)
  | 0, _ => none
  | fuel + 1, base =>
    let next := calcNextResetTime zone plan base endTime
    if 0 < next ∧ next ≤ now then advance endTime now fuel next else some (base, next)

/-- The row that `maybeResetUserSubscriptionWithPlanTx` saves, if it ends and saves one. -/
def maybeReset (fuel : ℕ) (sub : UserSubscription) (now : ℤ) : Option (Option UserSubscription) :=
  if 0 < sub.nextResetTime ∧ now < sub.nextResetTime then some none
  else if normalizeResetPeriod plan.quotaResetPeriod = .never then some none
  else
    let base := if sub.lastResetTime ≤ 0 then sub.startTime else sub.lastResetTime
    let next := calcNextResetTime zone plan base sub.endTime
    (advance zone plan sub.endTime now fuel base).map fun reached ↦
      if 0 < next ∧ next ≤ now then
        some { sub with amountUsed := 0, lastResetTime := reached.1, nextResetTime := reached.2 }
      else if sub.nextResetTime = 0 ∧ 0 < reached.2 then
        some { sub with lastResetTime := reached.1, nextResetTime := reached.2 }
      else none

end Code

section Property

variable (zone : Zone) (plan : SubscriptionPlan) (sub : UserSubscription) (now : ℤ)

structure CatchesUp : Prop where
  later : ∀ base endUnix, calcNextResetTime zone plan base endUnix = 0 ∨
    base < calcNextResetTime zone plan base endUnix
  ends : ∃ fuel row, maybeReset zone plan fuel sub now = some row
  caught : ∀ fuel sub', maybeReset zone plan fuel sub now = some (some sub') →
    sub'.lastResetTime ≤ now ∧ (now < sub'.nextResetTime ∨ sub'.nextResetTime = 0)
  settled : ∀ fuel row, maybeReset zone plan fuel sub now = some row →
    ∃ fuel', maybeReset zone plan fuel' (row.getD sub) now = some none

/-- Every time of a later day comes after the instants of a day. -/
def Zone.Orderly : Prop := ∀ t l, zone.day t < l / 86400 → t < zone.date l

/-- A midnight that comes to lie in an earlier day, or not after all of the day before it. -/
inductive Zone.Misplaced : Prop
  | early (d : ℤ) (hday : zone.day (zone.midnight d) < d)
      (hpos : 0 < zone.date (zone.wall (zone.midnight d) + 86400))
      (hwall : zone.wall (zone.date (zone.wall (zone.midnight d) + 86400)) =
        zone.wall (zone.midnight d) + 86400)
      (hsame : zone.day (zone.date (zone.wall (zone.midnight d) + 86400)) = d)
  | repeated (t : ℤ) (hwall : zone.wall (zone.midnight (zone.day t)) = 86400 * zone.day t)
      (hpos : 0 < zone.midnight (zone.day t + 1)) (hle : zone.midnight (zone.day t + 1) ≤ t)

end Property

section Days

variable {zone : Zone}

theorem Zone.addDate_days (t days : ℤ) :
    zone.addDate t 0 days = zone.date (86400 * (zone.day t + days) + zone.wall t % 86400) := by
  rw [Zone.addDate, add_zero]
  congr 2
  ring

theorem clock_div (d t : ℤ) : (86400 * d + zone.wall t % 86400) / 86400 = d := by
  omega

theorem Zone.Orderly.midnight (h : zone.Orderly) (d : ℤ) : d ≤ zone.day (zone.midnight d) := by
  by_contra hlt
  have hdiv : 86400 * d / 86400 = d := Int.mul_ediv_cancel_left d (by decide)
  exact lt_irrefl _ (h (zone.midnight d) (86400 * d) (by rw [hdiv]; exact not_le.mp hlt))

/-- Days added to the midnight of a day lead past all of it. -/
theorem Zone.Orderly.addDate_gt (h : zone.Orderly) (t : ℤ) {days : ℤ} (hdays : 0 < days) :
    t < zone.addDate (zone.midnight (zone.day t)) 0 days := by
  have hmidnight := h.midnight (zone.day t)
  rw [Zone.addDate_days]
  refine h t _ ?_
  rw [clock_div]
  omega

theorem Zone.Orderly.nextDay_gt (h : zone.Orderly) (t : ℤ) : t < zone.nextDay t :=
  h.addDate_gt t (by decide)

theorem Zone.Orderly.nextMonday_gt (h : zone.Orderly) (t : ℤ) : t < zone.nextMonday t := by
  refine h.addDate_gt t ?_
  rw [Zone.weekday]
  split_ifs <;> omega

theorem Zone.Orderly.nextMonth_gt (h : zone.Orderly) (t : ℤ) : t < zone.nextMonth t := by
  refine h t _ ?_
  have hmidnight := h.midnight (monthStart (monthOf (zone.day t)))
  have hmonth := monthOf_mono hmidnight
  rw [monthOf_monthStart] at hmonth
  have hstart := monthStart_strictMono.monotone (Int.add_le_add_right hmonth 1)
  have hday := (monthOf_spec (zone.day t)).2
  have hfirst := (monthOf_spec
    (zone.day (zone.midnight (monthStart (monthOf (zone.day t)))))).1
  rw [clock_div]
  omega

/-- The calendar of an orderly zone. -/
def Zone.Orderly.calendar (h : zone.Orderly) : Calendar where
  nextDay := zone.nextDay
  nextMonday := zone.nextMonday
  nextMonth := zone.nextMonth
  nextDay_gt := h.nextDay_gt
  nextMonday_gt := h.nextMonday_gt
  nextMonth_gt := h.nextMonth_gt

theorem Zone.Orderly.calcNextResetTime_eq (h : zone.Orderly) (plan : SubscriptionPlan)
    (base endUnix : ℤ) : calcNextResetTime zone plan base endUnix =
      Subscription.calcNextResetTime h.calendar plan base endUnix := rfl

end Days

section Orderly

variable {zone : Zone} (h : zone.Orderly) (plan : SubscriptionPlan)

include h

theorem calcNextResetTime_later (base endUnix : ℤ) :
    calcNextResetTime zone plan base endUnix = 0 ∨
      base < calcNextResetTime zone plan base endUnix := by
  have hd := h.nextDay_gt base
  have hw := h.nextMonday_gt base
  have hm := h.nextMonth_gt base
  unfold calcNextResetTime
  cases hp : normalizeResetPeriod plan.quotaResetPeriod <;> simp only [] <;> split_ifs <;> omega

/-- Given fuel the loop ends as it does by the calendar. -/
theorem advance_ends (endTime now base : ℤ) :
    ∃ fuel, advance zone plan endTime now fuel base =
      some (Subscription.advance h.calendar plan endTime now base) := by
  induction base using Subscription.advance.induct h.calendar plan endTime now with
  | case1 base next hdue ih =>
    obtain ⟨fuel, hfuel⟩ := ih
    refine ⟨fuel + 1, ?_⟩
    rw [advance, Subscription.advance, if_pos hdue]
    exact (if_pos hdue).trans hfuel
  | case2 base next hnot =>
    refine ⟨1, ?_⟩
    rw [advance, Subscription.advance, if_neg hnot]
    exact if_neg hnot

theorem advance_eq {endTime now base : ℤ} {fuel : ℕ} {reached : ℤ × ℤ}
    (hreached : advance zone plan endTime now fuel base = some reached) :
    reached = Subscription.advance h.calendar plan endTime now base := by
  induction fuel generalizing base with
  | zero => exact absurd hreached (Option.some_ne_none _).symm
  | succ fuel ih =>
    rw [Subscription.advance]
    rw [advance] at hreached
    by_cases hdue : 0 < calcNextResetTime zone plan base endTime ∧
        calcNextResetTime zone plan base endTime ≤ now
    · rw [if_pos hdue] at hreached
      exact (ih hreached).trans (if_pos hdue).symm
    · rw [if_neg hdue] at hreached
      exact (Option.some.inj hreached).symm.trans (if_neg hdue).symm

theorem maybeReset_ends (sub : UserSubscription) (now : ℤ) :
    ∃ fuel, maybeReset zone plan fuel sub now =
      some (Subscription.maybeReset h.calendar plan sub now) := by
  obtain ⟨fuel, hfuel⟩ := advance_ends h plan sub.endTime now (periodStart sub)
  refine ⟨fuel, ?_⟩
  rw [maybeReset, Subscription.maybeReset]
  by_cases hlater : 0 < sub.nextResetTime ∧ now < sub.nextResetTime
  · rw [if_pos hlater, if_pos hlater]
  · rw [if_neg hlater, if_neg hlater]
    by_cases hnever : normalizeResetPeriod plan.quotaResetPeriod = .never
    · rw [if_pos hnever, if_pos hnever]
    · rw [if_neg hnever, if_neg hnever]
      exact congrArg (Option.map _) hfuel

theorem maybeReset_eq {fuel : ℕ} {sub : UserSubscription} {now : ℤ} {row : Option UserSubscription}
    (hrow : maybeReset zone plan fuel sub now = some row) :
    row = Subscription.maybeReset h.calendar plan sub now := by
  rw [maybeReset] at hrow
  rw [Subscription.maybeReset]
  by_cases hlater : 0 < sub.nextResetTime ∧ now < sub.nextResetTime
  · rw [if_pos hlater] at hrow ⊢
    exact (Option.some.inj hrow).symm
  · rw [if_neg hlater] at hrow ⊢
    by_cases hnever : normalizeResetPeriod plan.quotaResetPeriod = .never
    · rw [if_pos hnever] at hrow ⊢
      exact (Option.some.inj hrow).symm
    · rw [if_neg hnever] at hrow ⊢
      obtain ⟨reached, hreached, rfl⟩ := Option.map_eq_some_iff.mp hrow
      rw [advance_eq h plan hreached]
      rfl

end Orderly

section Calendars

variable {cal : Calendar} {plan : SubscriptionPlan} {sub sub' : UserSubscription} {now : ℤ}

/-- A row without a next reset that gets one, with the period it is in. -/
def Schedules (next : ℤ) (plan : SubscriptionPlan) (sub : UserSubscription) : Prop :=
  sub.nextResetTime = 0 ∧ normalizeResetPeriod plan.quotaResetPeriod ≠ .never ∧ 0 < next

/-- What is saved has been caught up to the present, or scheduled for the first time. -/
theorem maybeReset_saved (h : Subscription.maybeReset cal plan sub now = some sub') :
    sub'.endTime = sub.endTime ∧ (0 < sub'.lastResetTime ∧ sub'.lastResetTime ≤ now ∧
        sub'.nextResetTime =
          Subscription.calcNextResetTime cal plan sub'.lastResetTime sub.endTime ∧
        (now < sub'.nextResetTime ∨ sub'.nextResetTime = 0) ∨
      Schedules (Subscription.calcNextResetTime cal plan (periodStart sub) sub.endTime) plan sub ∧
        sub'.lastResetTime = periodStart sub ∧ 0 < sub'.nextResetTime ∧
        now < sub'.nextResetTime) := by
  rw [Subscription.maybeReset] at h
  by_cases hlater : 0 < sub.nextResetTime ∧ now < sub.nextResetTime
  · rw [if_pos hlater] at h
    exact absurd h (Option.some_ne_none _).symm
  by_cases hnever : normalizeResetPeriod plan.quotaResetPeriod = .never
  · rw [if_neg hlater, if_pos hnever] at h
    exact absurd h (Option.some_ne_none _).symm
  rw [if_neg hlater, if_neg hnever] at h
  dsimp only at h
  rw [← periodStart] at h
  have hnext := advance_next cal plan sub.endTime now (periodStart sub)
  split_ifs at h with hdue hfirst
  · obtain ⟨hgt, hpos⟩ := advance_of_due hdue
    have hle : (Subscription.advance cal plan sub.endTime now (periodStart sub)).1 ≤ now := by
      rw [Subscription.advance]
      simp only [if_pos hdue]
      exact advance_le hdue.2
    have hnonneg := calcNextResetTime_nonneg cal plan hpos.le sub.endTime
    rw [← hnext.1] at hnonneg
    cases h
    refine ⟨rfl, Or.inl ⟨hpos, hle, hnext.1, ?_⟩⟩
    have hnot := hnext.2
    dsimp only
    omega
  · cases h
    have hstart := advance_of_not_due hdue
    have hnot := hnext.2
    rw [hstart] at hnext
    refine ⟨rfl, Or.inr ⟨⟨hfirst.1, hnever, hnext.1 ▸ hfirst.2⟩, hstart, hfirst.2, ?_⟩⟩
    dsimp only
    omega

/-- A row that has been caught up is left as it is. -/
theorem maybeReset_again (h : Subscription.maybeReset cal plan sub now = some sub') :
    Subscription.maybeReset cal plan sub' now = none := by
  obtain ⟨hend, hcaught⟩ := maybeReset_saved h
  rw [Subscription.maybeReset]
  by_cases hlater : 0 < sub'.nextResetTime ∧ now < sub'.nextResetTime
  · exact if_pos hlater
  rw [if_neg hlater]
  by_cases hnever : normalizeResetPeriod plan.quotaResetPeriod = .never
  · exact if_pos hnever
  rw [if_neg hnever]
  rcases hcaught with ⟨hpos, hle, hcalc, hnext⟩ | ⟨_, _, hpos, hnext⟩
  · have hzero : sub'.nextResetTime = 0 := by
      rcases hnext with hgt | hzero
      · by_contra hne
        have hnonneg := calcNextResetTime_nonneg cal plan hpos.le sub.endTime
        omega
      · exact hzero
    have hcalc' : Subscription.calcNextResetTime cal plan sub'.lastResetTime sub'.endTime = 0 := by
      rw [hend, ← hcalc, hzero]
    have hbase : (if sub'.lastResetTime ≤ 0 then sub'.startTime else sub'.lastResetTime) =
        sub'.lastResetTime := if_neg (not_le.mpr hpos)
    have hadvance : Subscription.advance cal plan sub'.endTime now sub'.lastResetTime =
        (sub'.lastResetTime, 0) := by
      rw [Subscription.advance, hcalc']
      exact if_neg fun hdue ↦ lt_irrefl _ hdue.1
    dsimp only
    rw [hbase, hadvance, hcalc', if_neg fun hdue ↦ lt_irrefl _ hdue.1]
    exact if_neg fun hfirst ↦ lt_irrefl _ hfirst.2
  · exact absurd ⟨hpos, hnext⟩ hlater

variable (cal) in
/-- A row is scheduled where it has no next reset. -/
theorem maybeReset_schedules (hfuture : now < periodStart sub)
    (h : Schedules (Subscription.calcNextResetTime cal plan (periodStart sub) sub.endTime) plan
      sub) : ∃ sub', Subscription.maybeReset cal plan sub now = some sub' ∧
        sub'.lastResetTime = periodStart sub := by
  obtain ⟨hzero, hperiod, hpos⟩ := h
  have hgt := calcNextResetTime_gt cal plan hpos
  have hdue : ¬ (0 < Subscription.calcNextResetTime cal plan (periodStart sub) sub.endTime ∧
      Subscription.calcNextResetTime cal plan (periodStart sub) sub.endTime ≤ now) := by omega
  have hadvance : Subscription.advance cal plan sub.endTime now (periodStart sub) =
      (periodStart sub,
        Subscription.calcNextResetTime cal plan (periodStart sub) sub.endTime) := by
    rw [Subscription.advance]
    exact if_neg hdue
  have hlater : ¬ (0 < sub.nextResetTime ∧ now < sub.nextResetTime) := by omega
  have hsaved : Subscription.maybeReset cal plan sub now = some { sub with
      lastResetTime := periodStart sub
      nextResetTime :=
        Subscription.calcNextResetTime cal plan (periodStart sub) sub.endTime } := by
    rw [Subscription.maybeReset, if_neg hlater, if_neg hperiod]
    dsimp only
    rw [← periodStart, hadvance, if_neg hdue]
    exact if_pos ⟨hzero, hpos⟩
  exact ⟨_, hsaved, rfl⟩

end Calendars

section Result

variable {zone : Zone}

theorem catchesUp_of_orderly (h : zone.Orderly) (plan : SubscriptionPlan) (sub : UserSubscription)
    (now : ℤ) : CatchesUp zone plan sub now ↔
      (Schedules (calcNextResetTime zone plan (periodStart sub) sub.endTime) plan sub →
        periodStart sub ≤ now) := by
  constructor
  · intro hcatches hfirst
    by_contra hfuture
    obtain ⟨sub', hsaved, hlast⟩ := maybeReset_schedules h.calendar (not_le.mp hfuture) hfirst
    obtain ⟨fuel, hfuel⟩ := maybeReset_ends h plan sub now
    have hle := (hcatches.caught fuel sub' (hfuel.trans (congrArg some hsaved))).1
    exact hfuture (hlast ▸ hle)
  · intro hstart
    obtain ⟨fuel, hfuel⟩ := maybeReset_ends h plan sub now
    refine ⟨calcNextResetTime_later h plan, ⟨fuel, _, hfuel⟩, fun fuel sub' hrow ↦ ?_,
      fun fuel row hrow ↦ ?_⟩
    · obtain ⟨_, hcaught⟩ := maybeReset_saved (maybeReset_eq h plan hrow).symm
      rcases hcaught with ⟨_, hle, _, hnext⟩ | ⟨hfirst, hlast, _, hnext⟩
      · exact ⟨hle, hnext⟩
      · exact ⟨hlast ▸ hstart hfirst, Or.inl hnext⟩
    · obtain ⟨fuel', hfuel'⟩ := maybeReset_ends h plan (row.getD sub) now
      refine ⟨fuel', hfuel'.trans (congrArg some ?_)⟩
      have heq := maybeReset_eq h plan hrow
      cases row with
      | none => exact heq.symm
      | some sub' => exact maybeReset_again heq.symm

def dailyPlan : SubscriptionPlan := { id := 1, quotaResetPeriod := "daily" }

theorem calcNextResetTime_daily (base endUnix : ℤ) :
    calcNextResetTime zone dailyPlan base endUnix =
      if 0 < endUnix ∧ endUnix < zone.nextDay base then 0 else zone.nextDay base := rfl

theorem nextDay_eq (base : ℤ) :
    zone.nextDay base = zone.date (zone.wall (zone.midnight (zone.day base)) + 86400) := by
  have hclock := Int.mul_ediv_add_emod (zone.wall (zone.midnight (zone.day base))) 86400
  rw [Zone.nextDay, Zone.addDate_days]
  congr 1
  rw [Zone.day, mul_add]
  omega

/-- Where a midnight is misplaced, a day is not followed by a later one. -/
theorem Zone.Misplaced.stays (h : zone.Misplaced) :
    ∃ base, 0 < zone.nextDay base ∧ zone.nextDay base ≤ base := by
  cases h with
  | early d _ hpos _ hsame =>
    refine ⟨zone.date (zone.wall (zone.midnight d) + 86400), ?_⟩
    rw [nextDay_eq, hsame]
    exact ⟨hpos, le_rfl⟩
  | repeated t hwall hpos hle =>
    have hnext : zone.nextDay t = zone.midnight (zone.day t + 1) := by
      rw [nextDay_eq, hwall, Zone.midnight]
      congr 1
      ring
    exact ⟨t, hnext ▸ hpos, hnext ▸ hle⟩

theorem not_catchesUp_of_misplaced (h : zone.Misplaced) (sub : UserSubscription) (now : ℤ) :
    ¬ CatchesUp zone dailyPlan sub now := by
  intro hcatches
  obtain ⟨base, hpos, hle⟩ := h.stays
  have hcalc : calcNextResetTime zone dailyPlan base 0 = zone.nextDay base := by
    rw [calcNextResetTime_daily]
    exact if_neg fun h ↦ lt_irrefl _ h.1
  rcases hcatches.later base 0 with hzero | hgt
  · rw [hcalc] at hzero
    omega
  · rw [hcalc] at hgt
    omega

/-- A loop that comes back to a base does not end. -/
theorem advance_stays {plan : SubscriptionPlan} {endTime now base : ℤ}
    (hstays : calcNextResetTime zone plan base endTime = base) (hpos : 0 < base) (hle : base ≤ now)
    (fuel : ℕ) : advance zone plan endTime now fuel base = none := by
  induction fuel with
  | zero => rfl
  | succ fuel ih =>
    rw [advance, hstays]
    exact (if_pos ⟨hpos, hle⟩).trans ih

/-- Clocks four hours behind UTC that go from midnight to one at the end of the first day, and a
midnight that is found an hour before. -/
def springZone : Zone where
  offset t := if t < 100800 then -14400 else -10800
  date l := if l < 86400 then l + 14400 else l + 10800
  date_exact t := by
    split_ifs <;> omega
  date_gap l h := by
    have hbefore := h (l + 14400)
    have hafter := h (l + 10800)
    refine ⟨100800, ?_⟩
    split_ifs at hbefore hafter ⊢ <;> omega

def springSub : UserSubscription where
  id := 1
  userId := 1
  planId := 1
  amountTotal := 100
  amountUsed := 40
  startTime := 140000
  endTime := 10000000
  lastResetTime := 140000
  nextResetTime := 180000

end Result

end AllAiTools.NewApi.Model.SubscriptionZone
