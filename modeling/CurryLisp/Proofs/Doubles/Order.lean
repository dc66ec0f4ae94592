import CurryLisp.Proofs.Doubles

/-!
# The order of doubles

A finite double denotes a rational number (`Binary.value`). Two doubles are compared by exponent first
and significand next, which is the order of the numbers that they denote because both have as many
digits as fit. For the same reason there is room around a double: the next ones are a unit of its last
place away, or half a unit below a power of two.

Statements:

* `Binary.add_unit_le`, `Binary.le_sub_margin`: the gaps above and below a double.
* `Binary.compare_unpacked`: doubles compare as the numbers that they denote.
* `lt_iff_value`, `beq_iff_value`: so do the operations on finite doubles.
-/

namespace CurryLisp.Decimal

open Float.Model Float.Model.UnpackedFloat

namespace Binary

/-- The number. -/
def value (b : Binary) : ℚ := if b.negative then -b.size else b.size

theorem size_nonneg (b : Binary) : 0 ≤ b.size := by
  unfold size
  positivity

theorem size_pos {b : Binary} (hpos : 0 < b.significand) : 0 < b.size := by
  have hpos : (0 : ℚ) < b.significand := by exact_mod_cast hpos
  exact mul_pos hpos (by positivity)

theorem size_eq_zero {b : Binary} (hzero : ¬0 < b.significand) : b.size = 0 := by
  rw [size, Nat.eq_zero_of_not_pos hzero]
  simp

theorem value_of_positive {b : Binary} (hsign : b.negative = false) : b.value = b.size := by
  rw [value, hsign]
  rfl

theorem value_of_negative {b : Binary} (hsign : b.negative = true) : b.value = -b.size := by
  rw [value, hsign]
  rfl

theorem value_eq_zero {b : Binary} (hzero : ¬0 < b.significand) : b.value = 0 := by
  rw [value, size_eq_zero hzero, neg_zero, ite_self]

/-! ## Gaps -/

section Gaps

variable {b c : Binary}

/-- With a larger exponent the significand is measured in the smaller unit. -/
theorem size_eq_mul (h : b.exponent ≤ c.exponent) :
    c.size = ((c.significand * 2 ^ (c.exponent - b.exponent).toNat : ℕ) : ℚ) * 2 ^ b.exponent := by
  have hexponent : c.exponent = ((c.exponent - b.exponent).toNat : ℤ) + b.exponent := by omega
  rw [size]
  conv_lhs => rw [hexponent, zpow_add₀ (by norm_num), zpow_natCast]
  push_cast
  ring

/-- What has a smaller exponent is smaller than a power of two with all its digits, by half a unit. -/
theorem size_le_of_exponent_lt (hc : c.IsCanonical) (h : c.exponent < b.exponent) :
    c.size ≤ (2 ^ 52 - 1 / 2) * 2 ^ b.exponent := by
  have hsignificand : (c.significand : ℚ) + 1 ≤ 2 ^ 53 := by exact_mod_cast hc.significand_lt
  calc c.size = c.significand * 2 ^ c.exponent := rfl
    _ ≤ (2 ^ 53 - 1) * 2 ^ c.exponent := by gcongr; linarith
    _ ≤ (2 ^ 53 - 1) * 2 ^ (b.exponent - 1) := by
      have hpower : (2 : ℚ) ^ c.exponent ≤ 2 ^ (b.exponent - 1) :=
        zpow_le_zpow_right₀ (by norm_num) (by omega)
      exact mul_le_mul_of_nonneg_left hpower (by norm_num)
    _ = (2 ^ 52 - 1 / 2) * 2 ^ b.exponent := by
      rw [zpow_sub₀ (by norm_num)]
      ring

/-- A double with a larger exponent than another one has all its digits. -/
theorem le_significand (hb : b.IsCanonical) (hc : c.IsCanonical) (h : c.exponent < b.exponent) :
    (2 : ℚ) ^ 52 ≤ b.significand := by
  have hleast := hc.le_exponent
  have hnormal : 2 ^ 52 ≤ b.significand := hb.normal.resolve_right (by omega)
  exact_mod_cast hnormal

/-- **Above a double there is none within a unit.** -/
theorem add_unit_le (hb : b.IsCanonical) (hc : c.IsCanonical) (h : b.size < c.size) :
    (b.significand + 1) * 2 ^ b.exponent ≤ c.size := by
  have hunit : (0 : ℚ) < 2 ^ b.exponent := by positivity
  by_cases hexponent : b.exponent ≤ c.exponent
  · rw [size_eq_mul hexponent] at h ⊢
    have hlt := lt_of_mul_lt_mul_right h (le_of_lt hunit)
    have hlt : b.significand + 1 ≤ c.significand * 2 ^ (c.exponent - b.exponent).toNat := by
      exact_mod_cast hlt
    have hle : (b.significand : ℚ) + 1 ≤
        ((c.significand * 2 ^ (c.exponent - b.exponent).toNat : ℕ) : ℚ) := by exact_mod_cast hlt
    gcongr
  · -- The larger double would have the smaller exponent.
    have hle := size_le_of_exponent_lt hc (not_le.1 hexponent)
    have hfull := le_significand hb hc (not_le.1 hexponent)
    have hlt : c.size < b.size := by
      refine lt_of_le_of_lt hle (mul_lt_mul_of_pos_right ?_ hunit)
      linarith
    exact absurd h (not_lt.2 (le_of_lt hlt))

/-- **Below a double there is none within a unit, or half of one if it is a power of two.** -/
theorem le_sub_margin (hb : b.IsCanonical) (hc : c.IsCanonical) (h : c.size < b.size) :
    c.size ≤ (b.significand - 2 * b.lowerMargin) * 2 ^ b.exponent := by
  have hunit : (0 : ℚ) < 2 ^ b.exponent := by positivity
  by_cases hexponent : b.exponent ≤ c.exponent
  · have hmargin := b.lowerMargin_le
    rw [size_eq_mul hexponent] at h ⊢
    have hlt := lt_of_mul_lt_mul_right h (le_of_lt hunit)
    have hlt : c.significand * 2 ^ (c.exponent - b.exponent).toNat + 1 ≤ b.significand := by
      exact_mod_cast hlt
    have hle : ((c.significand * 2 ^ (c.exponent - b.exponent).toNat : ℕ) : ℚ) + 1 ≤
        b.significand := by exact_mod_cast hlt
    refine mul_le_mul_of_nonneg_right ?_ (le_of_lt hunit)
    linarith
  · have hle := size_le_of_exponent_lt hc (not_le.1 hexponent)
    have hfull := le_significand hb hc (not_le.1 hexponent)
    have hleast : b.exponent ≠ -1074 := by
      have := hc.le_exponent
      omega
    refine le_trans hle (mul_le_mul_of_nonneg_right ?_ (le_of_lt hunit))
    by_cases hpower : b.significand = 2 ^ 52
    · have hmargin : b.lowerMargin = 1 / 4 := if_pos ⟨hpower, hleast⟩
      rw [hmargin, hpower]
      norm_num
    · have hfull : 2 ^ 52 < b.significand := by
        have : 2 ^ 52 ≤ b.significand := by exact_mod_cast hfull
        omega
      have hfull : (2 : ℚ) ^ 52 + 1 ≤ b.significand := by exact_mod_cast hfull
      have hmargin := b.lowerMargin_le
      linarith

/-- What is near a double is not below a smaller one. -/
theorem Near.size_le {x : ℚ} (hnear : b.Near x) (hb : b.IsCanonical) (hc : c.IsCanonical)
    (h : c.size ≤ x) : c.size ≤ b.size := by
  by_contra hlt
  have hgap := add_unit_le hb hc (not_le.1 hlt)
  have hunit : (0 : ℚ) < 2 ^ b.exponent := by positivity
  have hbelow : (b.significand + 1 / 2 : ℚ) * 2 ^ b.exponent <
      (b.significand + 1) * 2 ^ b.exponent := mul_lt_mul_of_pos_right (by linarith) hunit
  linarith [hnear.high]

/-- What is near a double is not above a larger one. -/
theorem Near.le_size {x : ℚ} (hnear : b.Near x) (hb : b.IsCanonical) (hc : c.IsCanonical)
    (h : x ≤ c.size) : b.size ≤ c.size := by
  by_contra hlt
  have hgap := le_sub_margin hb hc (not_le.1 hlt)
  have hunit : (0 : ℚ) < 2 ^ b.exponent := by positivity
  have hmargin : 0 < b.lowerMargin := by
    unfold lowerMargin
    split <;> norm_num
  have habove : (b.significand - 2 * b.lowerMargin : ℚ) * 2 ^ b.exponent <
      (b.significand - b.lowerMargin) * 2 ^ b.exponent :=
    mul_lt_mul_of_pos_right (by linarith) hunit
  linarith [hnear.low]

/-! ## Comparison -/

theorem size_lt_of_exponent_lt (hb : b.IsCanonical) (hc : c.IsCanonical)
    (h : b.exponent < c.exponent) : b.size < c.size := by
  have hfull := le_significand hc hb h
  refine lt_of_le_of_lt (size_le_of_exponent_lt hb h) ?_
  exact mul_lt_mul_of_pos_right (by linarith) (by positivity)

/-- The magnitudes compare as exponents do, and as significands where these are equal. -/
theorem compare_parts (hb : b.IsCanonical) (hc : c.IsCanonical) :
    (compare b.exponent c.exponent).then (compare b.significand c.significand) =
      cmp b.size c.size := by
  rcases lt_trichotomy b.exponent c.exponent with h | h | h
  · rw [Int.compare_eq_lt.2 h, (cmp_eq_lt_iff _ _).2 (size_lt_of_exponent_lt hb hc h)]
    rfl
  · have hunit : (0 : ℚ) < 2 ^ c.exponent := by positivity
    rw [Int.compare_eq_eq.2 h, size, size, h]
    rcases lt_trichotomy b.significand c.significand with hlt | heq | hgt
    · have hlt' : (b.significand : ℚ) < c.significand := by exact_mod_cast hlt
      rw [Nat.compare_eq_lt.2 hlt, (cmp_eq_lt_iff _ _).2 (mul_lt_mul_of_pos_right hlt' hunit)]
      rfl
    · rw [Nat.compare_eq_eq.2 heq, heq, cmp_self_eq_eq]
      rfl
    · have hgt' : (c.significand : ℚ) < b.significand := by exact_mod_cast hgt
      rw [Nat.compare_eq_gt.2 hgt, (cmp_eq_gt_iff _ _).2 (mul_lt_mul_of_pos_right hgt' hunit)]
      rfl
  · rw [Int.compare_eq_gt.2 h, (cmp_eq_gt_iff _ _).2 (size_lt_of_exponent_lt hc hb h)]
    rfl

theorem cmp_neg_neg (x y : ℚ) : cmp (-x) (-y) = (cmp x y).swap := by
  rw [cmp_swap]
  rcases lt_trichotomy x y with h | h | h
  · rw [(cmp_eq_gt_iff _ _).2 h, (cmp_eq_gt_iff _ _).2 (neg_lt_neg h)]
  · rw [h, cmp_self_eq_eq, cmp_self_eq_eq]
  · rw [(cmp_eq_lt_iff _ _).2 h, (cmp_eq_lt_iff _ _).2 (neg_lt_neg h)]

/-- **Doubles compare as the numbers that they denote.** -/
theorem compare_unpacked (hb : b.IsCanonical) (hc : c.IsCanonical) :
    b.unpacked.compare c.unpacked = some (cmp b.value c.value) := by
  have hparts := compare_parts hb hc
  unfold unpacked modelSign
  -- Zeros are unpacked to a case of their own, in which the sign does not count.
  by_cases hpos : 0 < b.significand <;> by_cases hpos' : 0 < c.significand
  · have hsize := size_pos hpos
    have hsize' := size_pos hpos'
    rw [dif_pos hpos, dif_pos hpos']
    unfold value
    cases b.negative <;> cases c.negative
    · exact congrArg some hparts
    · refine congrArg some ((cmp_eq_gt_iff _ _).2 ?_).symm
      show -c.size < b.size
      linarith
    · refine congrArg some ((cmp_eq_lt_iff _ _).2 ?_).symm
      show -b.size < c.size
      linarith
    · refine congrArg some ?_
      rw [hparts]
      exact (cmp_neg_neg _ _).symm
  · have hsize := size_pos hpos
    rw [dif_pos hpos, dif_neg hpos', value_eq_zero hpos']
    unfold value
    cases b.negative
    · exact congrArg some ((cmp_eq_gt_iff _ _).2 hsize).symm
    · exact congrArg some ((cmp_eq_lt_iff _ _).2 (neg_lt_zero.2 hsize)).symm
  · have hsize := size_pos hpos'
    rw [dif_neg hpos, dif_pos hpos', value_eq_zero hpos]
    unfold value
    cases c.negative
    · exact congrArg some ((cmp_eq_lt_iff _ _).2 hsize).symm
    · exact congrArg some ((cmp_eq_gt_iff _ _).2 (neg_lt_zero.2 hsize)).symm
  · rw [dif_neg hpos, dif_neg hpos', value_eq_zero hpos, value_eq_zero hpos', cmp_self_eq_eq]
    rfl

end Gaps

end Binary

/-! ## Finite doubles -/

variable {x y : Float}

theorem lt_iff_value (hx : x.isFinite = true) (hy : y.isFinite = true) :
    x < y ↔ (Binary.ofFloat x).value < (Binary.ofFloat y).value := by
  have hcompare := Binary.compare_unpacked (Binary.isCanonical_ofFloat hx)
    (Binary.isCanonical_ofFloat hy)
  rw [← Binary.unpack_eq hx, ← Binary.unpack_eq hy] at hcompare
  have hlt : x < y ↔ (x.toModel.unpack.compare y.toModel.unpack == some .lt) = true := by
    show decide (x.toModel < y.toModel) = true ↔ _
    rw [decide_eq_true_iff]
    rfl
  rw [hlt, hcompare, ← cmp_eq_lt_iff]
  simp

theorem beq_iff_value (hx : x.isFinite = true) (hy : y.isFinite = true) :
    (x == y) = true ↔ (Binary.ofFloat x).value = (Binary.ofFloat y).value := by
  have hcompare := Binary.compare_unpacked (Binary.isCanonical_ofFloat hx)
    (Binary.isCanonical_ofFloat hy)
  rw [← Binary.unpack_eq hx, ← Binary.unpack_eq hy] at hcompare
  have hbeq : (x == y) = (x.toModel.unpack.compare y.toModel.unpack == some .eq) := rfl
  rw [hbeq, hcompare, ← cmp_eq_eq_iff]
  simp

end CurryLisp.Decimal
