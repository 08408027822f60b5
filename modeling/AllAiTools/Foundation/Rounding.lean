import Mathlib

namespace AllAiTools.Foundation.Rounding

/-- The floating-point numbers, each by the decimal it prints as: the one nearest to a result. -/
structure Floats where
  nearest : ℚ → ℚ

/-- The integer part: rounding towards zero. -/
def truncate (x : ℚ) : ℤ := if 0 ≤ x then ⌊x⌋ else ⌈x⌉

/-- The nearest integer, away from zero at a half. -/
def roundHalfAway (x : ℚ) : ℤ := if 0 ≤ x then ⌊x + 1 / 2⌋ else ⌈x - 1 / 2⌉

/-- The nearest decimal with a number of places. -/
def roundTo (places : ℕ) (x : ℚ) : ℚ := roundHalfAway (x * 10 ^ places) / 10 ^ places

theorem roundHalfAway_eq_zero_iff (x : ℚ) : roundHalfAway x = 0 ↔ |x| < 1 / 2 := by
  unfold roundHalfAway
  by_cases hx : 0 ≤ x
  · rw [if_pos hx, abs_of_nonneg hx, Int.floor_eq_zero_iff, Set.mem_Ico]
    constructor
    · rintro ⟨-, hlt⟩
      linarith
    · intro hlt
      exact ⟨by linarith, by linarith⟩
  · have hneg : x < 0 := not_le.mp hx
    rw [if_neg hx, abs_of_neg hneg, Int.ceil_eq_zero_iff, Set.mem_Ioc]
    constructor
    · rintro ⟨hlt, -⟩
      linarith
    · intro hlt
      exact ⟨by linarith, by linarith⟩

@[simp] theorem roundHalfAway_zero : roundHalfAway 0 = 0 := by
  rw [roundHalfAway_eq_zero_iff]
  norm_num

theorem roundHalfAway_mono : Monotone roundHalfAway := by
  intro x y hxy
  unfold roundHalfAway
  by_cases hx : 0 ≤ x
  · rw [if_pos hx, if_pos (hx.trans hxy)]
    exact Int.floor_le_floor (by linarith)
  · rw [if_neg hx]
    have hceil : ⌈x - 1 / 2⌉ ≤ 0 := Int.ceil_le.mpr (by push_cast; linarith)
    by_cases hy : 0 ≤ y
    · rw [if_pos hy]
      exact hceil.trans (Int.floor_nonneg.mpr (by linarith))
    · rw [if_neg hy]
      exact Int.ceil_le_ceil (by linarith)

theorem roundHalfAway_nonneg {x : ℚ} (hx : 0 ≤ x) : 0 ≤ roundHalfAway x := by
  rw [← roundHalfAway_zero]
  exact roundHalfAway_mono hx

theorem abs_roundHalfAway_sub_le (x : ℚ) : |(roundHalfAway x : ℚ) - x| ≤ 1 / 2 := by
  unfold roundHalfAway
  rw [abs_le]
  split_ifs with hx
  · have hle := Int.floor_le (x + 1 / 2)
    have hlt := Int.lt_floor_add_one (x + 1 / 2)
    exact ⟨by linarith, by linarith⟩
  · have hle := Int.le_ceil (x - 1 / 2)
    have hlt := Int.ceil_lt_add_one (x - 1 / 2)
    exact ⟨by linarith, by linarith⟩

end AllAiTools.Foundation.Rounding

namespace AllAiTools.Foundation.TruncatedProduct

open Rounding

section Truncate

theorem truncate_intCast (n : ℤ) : truncate n = n := by
  unfold truncate
  split_ifs
  · exact Int.floor_intCast n
  · exact Int.ceil_intCast n

theorem abs_truncate_le (x : ℚ) : |(truncate x : ℚ)| ≤ |x| := by
  unfold truncate
  by_cases hx : 0 ≤ x
  · rw [if_pos hx, abs_of_nonneg hx, abs_of_nonneg (by exact_mod_cast Int.floor_nonneg.mpr hx)]
    exact Int.floor_le x
  · have hneg : x ≤ 0 := (not_le.mp hx).le
    have hceil : (⌈x⌉ : ℚ) ≤ 0 := by exact_mod_cast Int.ceil_le.mpr (by exact_mod_cast hneg)
    rw [if_neg hx, abs_of_nonpos hneg, abs_of_nonpos hceil]
    exact neg_le_neg (Int.le_ceil x)

/-- Only an integer keeps its absolute value. -/
theorem truncate_eq_of_abs_le {x : ℚ} (h : |x| ≤ |(truncate x : ℚ)|) : (truncate x : ℚ) = x := by
  unfold truncate at *
  by_cases hx : 0 ≤ x
  · rw [if_pos hx] at *
    rw [abs_of_nonneg hx, abs_of_nonneg (by exact_mod_cast Int.floor_nonneg.mpr hx)] at h
    exact le_antisymm (Int.floor_le x) h
  · have hneg : x ≤ 0 := (not_le.mp hx).le
    have hceil : (⌈x⌉ : ℚ) ≤ 0 := by exact_mod_cast Int.ceil_le.mpr (by exact_mod_cast hneg)
    rw [if_neg hx] at *
    rw [abs_of_nonpos hneg, abs_of_nonpos hceil] at h
    exact le_antisymm (neg_le_neg_iff.mp h) (Int.le_ceil x)

end Truncate

/-- A number multiplied by ratios one after the other, cut to an integer each time. -/
def mulAll (q : ℤ) (rs : List ℚ) : ℤ := rs.foldl (fun (q : ℤ) r ↦ truncate (q * r)) q

@[simp] theorem mulAll_nil (q : ℤ) : mulAll q [] = q := rfl

@[simp] theorem mulAll_cons (q : ℤ) (r : ℚ) (rs : List ℚ) :
    mulAll q (r :: rs) = mulAll (truncate (q * r)) rs := rfl

/-- Nothing is cut off, whichever ratios come first. -/
def Whole (q : ℤ) (rs : List ℚ) : Prop :=
  ∀ l : List ℚ, l.Sublist rs → ∃ n : ℤ, (q : ℚ) * l.prod = n

variable {q : ℤ} {rs rs' : List ℚ}

theorem Whole.perm (h : Whole q rs) (hperm : rs'.Perm rs) : Whole q rs' := by
  intro l hl
  obtain ⟨l', hl', hsub⟩ := hl.subperm.trans hperm.subperm
  obtain ⟨n, hn⟩ := h l' hsub
  exact ⟨n, by rw [← hn, hl'.prod_eq]⟩

theorem Whole.truncate (h : Whole q rs) {r : ℚ} (hr : r ∈ rs) :
    (truncate (q * r) : ℚ) = q * r := by
  obtain ⟨n, hn⟩ := h [r] (List.singleton_sublist.mpr hr)
  rw [List.prod_singleton] at hn
  rw [hn, truncate_intCast]

theorem Whole.tail {r : ℚ} (h : Whole q (r :: rs)) : Whole (Rounding.truncate (q * r)) rs := by
  intro l hl
  obtain ⟨n, hn⟩ := h (r :: l) (hl.cons_cons r)
  rw [h.truncate List.mem_cons_self, mul_assoc, ← List.prod_cons]
  exact ⟨n, hn⟩

theorem mulAll_of_whole (h : Whole q rs) : (mulAll q rs : ℚ) = q * rs.prod := by
  induction rs generalizing q with
  | nil => simp
  | cons r rs ih =>
    rw [mulAll_cons, ih h.tail, h.truncate List.mem_cons_self, List.prod_cons, mul_assoc]

/-- What is whole comes back when it is divided by its ratios, in any order. -/
theorem divAll_of_whole (h : Whole q rs) (hpos : ∀ r ∈ rs, 0 < r) {total : ℤ}
    (htotal : (total : ℚ) = q * rs.prod) : mulAll total (rs.map (·⁻¹)) = q := by
  induction rs generalizing total with
  | nil =>
    rw [List.prod_nil, mul_one, Int.cast_inj] at htotal
    exact htotal
  | cons r rs ih =>
    have hr : r ≠ 0 := (hpos r List.mem_cons_self).ne'
    have hrest : (total : ℚ) * r⁻¹ = q * rs.prod := by
      rw [htotal, List.prod_cons]
      field_simp
    obtain ⟨n, hn⟩ := h rs (List.sublist_cons_self r rs)
    have hcut : (truncate (total * r⁻¹) : ℚ) = q * rs.prod := by
      rw [hrest, hn, truncate_intCast]
    rw [List.map_cons, mulAll_cons]
    refine ih ?_ (fun r hr ↦ hpos r (List.mem_cons_of_mem _ hr)) hcut
    exact fun l hl ↦ h l (hl.cons r)

theorem abs_mulAll_le (hpos : ∀ r ∈ rs, 0 < r) : |(mulAll q rs : ℚ)| ≤ |(q : ℚ)| * rs.prod := by
  induction rs generalizing q with
  | nil => simp
  | cons r rs ih =>
    have hr : 0 < r := hpos r List.mem_cons_self
    have hrs : ∀ r ∈ rs, 0 < r := fun r hr ↦ hpos r (List.mem_cons_of_mem _ hr)
    have hprod : 0 ≤ rs.prod := List.prod_nonneg fun r hr ↦ (hrs r hr).le
    rw [mulAll_cons, List.prod_cons, ← mul_assoc]
    refine (ih hrs).trans (mul_le_mul_of_nonneg_right ?_ hprod)
    calc |(truncate (q * r) : ℚ)| ≤ |(q : ℚ) * r| := abs_truncate_le _
      _ = |(q : ℚ)| * r := by rw [abs_mul, abs_of_pos hr]

/-- A product that keeps its size has lost nothing on the way. -/
theorem prefix_whole (hpos : ∀ r ∈ rs, 0 < r) (h : |(q : ℚ)| * rs.prod ≤ |(mulAll q rs : ℚ)|)
    {l : List ℚ} (hl : l <+: rs) : ∃ n : ℤ, (q : ℚ) * l.prod = n := by
  induction rs generalizing q l with
  | nil =>
    rw [List.prefix_nil.mp hl]
    exact ⟨q, by simp⟩
  | cons r rs ih =>
    have hr : 0 < r := hpos r List.mem_cons_self
    have hrs : ∀ r ∈ rs, 0 < r := fun r hr ↦ hpos r (List.mem_cons_of_mem _ hr)
    have hprod : 0 < rs.prod := List.prod_pos fun r hr ↦ hrs r hr
    have hsize : |(q : ℚ) * r| = |(q : ℚ)| * r := by rw [abs_mul, abs_of_pos hr]
    rw [mulAll_cons, List.prod_cons, ← mul_assoc, ← hsize] at h
    have hkept : (truncate (q * r) : ℚ) = q * r := by
      refine truncate_eq_of_abs_le (le_of_mul_le_mul_right ?_ hprod)
      exact h.trans (abs_mulAll_le hrs)
    cases l with
    | nil => exact ⟨q, by simp⟩
    | cons r' l =>
      obtain ⟨rfl, hrest⟩ := List.cons_prefix_cons.mp hl
      obtain ⟨n, hn⟩ := ih hrs (by rwa [hkept]) hrest
      exact ⟨n, by rw [← hn, hkept, List.prod_cons, mul_assoc]⟩

/-- Dividing by the ratios again brings back only what was never cut. -/
theorem prefix_whole_of_restored (hpos : ∀ r ∈ rs, 0 < r) {ds : List ℚ} (hds : ds.Perm rs)
    (h : mulAll (mulAll q rs) (ds.map (·⁻¹)) = q) {l : List ℚ} (hl : l <+: rs) :
    ∃ n : ℤ, (q : ℚ) * l.prod = n := by
  refine prefix_whole hpos ?_ hl
  have hprod : 0 < rs.prod := List.prod_pos fun r hr ↦ hpos r hr
  have hinv : ∀ r ∈ ds.map (·⁻¹), (0 : ℚ) < r := by
    intro r hr
    obtain ⟨d, hd, rfl⟩ := List.mem_map.mp hr
    exact inv_pos.mpr (hpos d (hds.mem_iff.mp hd))
  have hdiv : (ds.map (·⁻¹)).prod = rs.prod⁻¹ := by
    rw [← hds.prod_eq, List.prod_inv]
  have hle : |(mulAll (mulAll q rs) (ds.map (·⁻¹)) : ℚ)| ≤ _ := abs_mulAll_le hinv
  rw [h, hdiv, ← div_eq_mul_inv, le_div_iff₀ hprod] at hle
  exact hle

theorem mulAll_of_ones (h : ∀ r ∈ rs, r = 1) : mulAll q rs = q := by
  induction rs with
  | nil => rfl
  | cons r rs ih =>
    rw [mulAll_cons, h r List.mem_cons_self, mul_one, truncate_intCast]
    exact ih fun r hr ↦ h r (List.mem_cons_of_mem _ hr)

end AllAiTools.Foundation.TruncatedProduct
