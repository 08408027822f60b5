import Mathlib

namespace AllAiTools.Foundation.CivilCalendar

/-- The day on which a month begins. Days count from 1 January 1970 and months from March of the
year 0, so that a leap day ends its year. -/
def monthStart (month : ℤ) : ℤ :=
  365 * (month / 12) + month / 12 / 4 - month / 12 / 100 + month / 12 / 400 +
    (153 * (month % 12) + 2) / 5 - 719468

/-- The month of a day: the one by the mean length of a month, or one next to it. -/
def monthOf (day : ℤ) : ℤ :=
  let month := 4800 * (day + 719468) / 146097
  if day < monthStart month then month - 1
  else if day < monthStart (month + 1) then month
  else month + 1

theorem monthStart_lt_succ (month : ℤ) : monthStart month < monthStart (month + 1) := by
  unfold monthStart
  omega

/-- A month begins about where it would if all were of the same length. -/
theorem monthStart_mean (month : ℤ) :
    146097 * month - 4800 * 719468 - 4800 * 4 ≤ 4800 * monthStart month ∧
      4800 * monthStart month ≤ 146097 * month - 4800 * 719468 + 4800 * 4 := by
  unfold monthStart
  omega

theorem monthOf_spec (day : ℤ) :
    monthStart (monthOf day) ≤ day ∧ day < monthStart (monthOf day + 1) := by
  have hmean := monthStart_mean (4800 * (day + 719468) / 146097 - 1)
  have hmean' := monthStart_mean (4800 * (day + 719468) / 146097 + 2)
  unfold monthOf
  dsimp only
  split_ifs with hbefore hwithin
  · rw [sub_add_cancel]
    omega
  · exact ⟨not_lt.mp hbefore, hwithin⟩
  · rw [add_assoc, one_add_one_eq_two]
    omega

theorem monthStart_strictMono : StrictMono monthStart := strictMono_int_of_lt_succ monthStart_lt_succ

theorem monthOf_mono {a b : ℤ} (h : a ≤ b) : monthOf a ≤ monthOf b := by
  have ha := (monthOf_spec a).1
  have hb := (monthOf_spec b).2
  have hlt : monthStart (monthOf a) < monthStart (monthOf b + 1) := by omega
  exact Int.lt_add_one_iff.mp (monthStart_strictMono.lt_iff_lt.mp hlt)

theorem monthOf_monthStart (month : ℤ) : monthOf (monthStart month) = month := by
  obtain ⟨hle, hlt⟩ := monthOf_spec (monthStart month)
  have hle' := monthStart_strictMono.le_iff_le.mp hle
  have hlt' := monthStart_strictMono.lt_iff_lt.mp hlt
  omega

/-- 29 February 2024 is the last day of its month. -/
example : monthStart (monthOf 19782 + 1) = 19783 := by decide

end AllAiTools.Foundation.CivilCalendar
