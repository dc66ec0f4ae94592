import CurryLisp.Number
import CurryLisp.Proofs.Doubles.Order

/-!
# The double nearest to an integer

The conversion of an integer multiplies its digits by one and rounds the product, so it gives the double
that the integer is near. The product is exact where the integer has at most 53 digits. Otherwise it
may fall on a double that is a different number; but rounding keeps the order, so nothing else can go
wrong when the result is compared with a double.

Statements:

* `Binary.exists_near`: there is a double near every magnitude in the range of doubles.
* `ofNat_eq`: a natural number is converted to the double that it is near.
* `Number.rounds_nearestFloat`: conversion keeps the order between integers and doubles.
* `Number.value_nearestFloat`: integers of at most 53 digits are exact.
-/

namespace CurryLisp.Decimal

open Float.Model Float.Model.UnpackedFloat

/-! ## The nearest integer and the nearest double -/

/-- There is an integer within half a unit, which is even if it is not the only one. -/
theorem exists_nearest {y : ℚ} (hy : 0 ≤ y) :
    ∃ n : ℕ, (n : ℚ) - 1 / 2 ≤ y ∧ y ≤ n + 1 / 2 ∧
      (n % 2 = 1 → (n : ℚ) - 1 / 2 < y ∧ y < n + 1 / 2) := by
  have hle := Nat.floor_le hy
  have hlt := Nat.lt_floor_add_one y
  generalize ⌊y⌋₊ = q at hle hlt
  rcases lt_trichotomy y (q + 1 / 2) with h | h | h
  · exact ⟨q, by linarith, le_of_lt h, fun _ => ⟨by linarith, h⟩⟩
  · -- Half way between two integers it is the even one.
    by_cases heven : q % 2 = 0
    · exact ⟨q, by linarith, le_of_eq h, fun hodd => by omega⟩
    · refine ⟨q + 1, ?_, ?_, fun hodd => by omega⟩
      · push_cast
        linarith
      · push_cast
        linarith
  · refine ⟨q + 1, ?_, ?_, fun _ => ⟨?_, ?_⟩⟩ <;> push_cast <;> linarith

namespace Binary

/-- The power of two above all significands is written with a larger exponent. -/
theorem near_carry {y : ℚ} {e : ℤ} (hleast : -1074 ≤ e) (hbelow : 2 ^ 53 - 1 / 2 ≤ y)
    (hhigh : y < 2 ^ 53) : (⟨false, 2 ^ 52, e + 1⟩ : Binary).Near (y * 2 ^ e) := by
  have hunit : (0 : ℚ) < 2 ^ e := by positivity
  have hpower : (2 : ℚ) ^ (e + 1) = 2 * 2 ^ e := by
    rw [zpow_add_one₀ (by norm_num), mul_comm]
  have hmargin : (⟨false, 2 ^ 52, e + 1⟩ : Binary).lowerMargin = 1 / 4 :=
    if_pos ⟨rfl, by change e + 1 ≠ -1074; omega⟩
  have heven : ¬2 ^ 52 % 2 = 1 := by decide
  refine ⟨?_, ?_, fun hodd => absurd hodd heven⟩
  · rw [hmargin]
    change ((2 ^ 52 : ℕ) - 1 / 4 : ℚ) * 2 ^ (e + 1) ≤ y * 2 ^ e
    rw [hpower, ← mul_assoc]
    refine mul_le_mul_of_nonneg_right ?_ (le_of_lt hunit)
    push_cast
    linarith
  · change y * 2 ^ e ≤ ((2 ^ 52 : ℕ) + 1 / 2 : ℚ) * 2 ^ (e + 1)
    rw [hpower, ← mul_assoc]
    refine mul_le_mul_of_nonneg_right ?_ (le_of_lt hunit)
    push_cast
    linarith

/-- A significand that is the nearest integer makes the nearest double. -/
theorem near_significand {y : ℚ} {n : ℕ} (e : ℤ) (hlow : 2 ^ 52 ≤ y)
    (hbelow : (n : ℚ) - 1 / 2 ≤ y) (habove : y ≤ n + 1 / 2)
    (hodd : n % 2 = 1 → (n : ℚ) - 1 / 2 < y ∧ y < n + 1 / 2) :
    (⟨false, n, e⟩ : Binary).Near (y * 2 ^ e) := by
  have hunit : (0 : ℚ) < 2 ^ e := by positivity
  refine ⟨?_, mul_le_mul_of_nonneg_right habove (le_of_lt hunit), fun h => ?_⟩
  · refine mul_le_mul_of_nonneg_right ?_ (le_of_lt hunit)
    change (n : ℚ) - (⟨false, n, e⟩ : Binary).lowerMargin ≤ y
    unfold lowerMargin
    split
    · next hpower =>
      obtain rfl : n = 2 ^ 52 := hpower.1
      push_cast
      linarith
    · exact hbelow
  · have hmargin : (⟨false, n, e⟩ : Binary).lowerMargin = 1 / 2 := by
      refine if_neg fun hpower => ?_
      have hn : n = 2 ^ 52 := hpower.1
      have hodd : n % 2 = 1 := h
      omega
    rw [hmargin]
    obtain ⟨hbelow, habove⟩ := hodd h
    exact ⟨mul_lt_mul_of_pos_right hbelow hunit, mul_lt_mul_of_pos_right habove hunit⟩

/-- **There is a double near every magnitude in range.** -/
theorem exists_near {x : ℚ} {e : ℤ} (hleast : -1074 ≤ e) (hmax : e < 971)
    (hlow : 2 ^ 52 * 2 ^ e ≤ x) (hhigh : x < 2 ^ 53 * 2 ^ e) :
    ∃ b : Binary, b.IsCanonical ∧ b.negative = false ∧ 0 < b.significand ∧ b.Near x := by
  have hunit : (0 : ℚ) < 2 ^ e := by positivity
  have hlow : 2 ^ 52 ≤ x / 2 ^ e := (le_div_iff₀ hunit).2 hlow
  have hhigh : x / 2 ^ e < 2 ^ 53 := (div_lt_iff₀ hunit).2 hhigh
  obtain ⟨y, rfl⟩ : ∃ y, x = y * 2 ^ e := ⟨x / 2 ^ e, by field_simp⟩
  rw [mul_div_cancel_right₀ _ (ne_of_gt hunit)] at hlow hhigh
  obtain ⟨n, hbelow, habove, hodd⟩ := exists_nearest (y := y) (by linarith)
  have hn : 2 ^ 52 ≤ n := by
    have h : ((2 ^ 52 : ℕ) : ℚ) < n + 1 := by push_cast; linarith
    have h : 2 ^ 52 < n + 1 := by exact_mod_cast h
    omega
  have hn' : n ≤ 2 ^ 53 := by
    have h : (n : ℚ) < (2 ^ 53 : ℕ) + 1 := by push_cast; linarith
    have h : n < 2 ^ 53 + 1 := by exact_mod_cast h
    omega
  by_cases hcarry : n = 2 ^ 53
  · subst hcarry
    push_cast at hbelow
    have hcanonical : (⟨false, 2 ^ 52, e + 1⟩ : Binary).IsCanonical := by
      refine ⟨?_, ?_, ?_, .inl (Nat.le_refl (2 ^ 52))⟩
      · exact (by decide : 2 ^ 52 < 2 ^ 53)
      · change -1074 ≤ e + 1
        omega
      · change e + 1 ≤ 971
        omega
    exact ⟨_, hcanonical, rfl, Nat.two_pow_pos 52, near_carry hleast hbelow hhigh⟩
  · have hcanonical : (⟨false, n, e⟩ : Binary).IsCanonical :=
      ⟨by change n < 2 ^ 53; omega, hleast, le_of_lt hmax, .inl hn⟩
    exact ⟨_, hcanonical, rfl, Nat.lt_of_lt_of_le (by decide) hn,
      near_significand e hlow hbelow habove hodd⟩

/-- There is a double near every natural number that is not too large. -/
theorem exists_near_natCast {m : ℕ} (hpos : 0 < m) (hlog : m.log2 < 1023) :
    ∃ b : Binary, b.IsCanonical ∧ b.negative = false ∧ 0 < b.significand ∧ b.Near m := by
  have hlow : ((2 ^ m.log2 : ℕ) : ℚ) ≤ m := by
    exact_mod_cast Nat.log2_self_le (Nat.ne_of_gt hpos)
  have hhigh : (m : ℚ) < (2 ^ (m.log2 + 1) : ℕ) := by exact_mod_cast Nat.lt_log2_self
  have hpower (k : ℕ) : (2 : ℚ) ^ k * 2 ^ ((m.log2 : ℤ) - 52) = 2 ^ ((k : ℤ) + (m.log2 - 52)) := by
    rw [zpow_add₀ (by norm_num), zpow_natCast]
  refine exists_near (e := (m.log2 : ℤ) - 52) (by omega) (by omega) ?_ ?_
  · rw [hpower, show ((52 : ℕ) : ℤ) + (m.log2 - 52) = (m.log2 : ℕ) by omega, zpow_natCast]
    exact_mod_cast hlow
  · rw [hpower, show ((53 : ℕ) : ℤ) + (m.log2 - 52) = (m.log2 + 1 : ℕ) by omega, zpow_natCast]
    exact_mod_cast hhigh

end Binary

/-! ## The conversion of natural numbers -/

section Products

variable {b : Binary} (hb : b.IsCanonical) (hpos : 0 < b.significand)

include hb

/-- A product of enough digits that is near a double is rounded to it. -/
theorem mul_eq {m n : ℕ} {e f : ℤ} (hm : 0 < m) (hn : 0 < n) (hdigits : 2 ^ 52 ≤ m * n)
    (hnear : b.Near ((m : ℚ) * 2 ^ e * (n * 2 ^ f))) :
    UnpackedFloat.mul Format.binary64 (.finite .positive m e hm) (.finite .positive n f hn) =
      .finite .positive b.significand b.exponent hpos := by
  have hlog : 52 ≤ (m * n).log2 := (Nat.le_log2 (Nat.mul_ne_zero hm.ne' hn.ne')).2 hdigits
  change roundWithAccuracy Format.binary64 .positive (m * n) (e + f) .exact = _
  refine roundWithAccuracy_eq hb hpos .positive ?_ (by omega) hnear
  have hexact : (m : ℚ) * 2 ^ e * (n * 2 ^ f) / 2 ^ (e + f) = (m * n : ℕ) := by
    rw [zpow_add₀ (by norm_num)]
    push_cast
    field_simp
  rw [hexact]
  exact .exact _

include hpos

/-- A number that is too large for an exact product is shifted before it is rounded. -/
theorem ofScientific_natCast (hsign : b.negative = false) {m : ℕ} (hm : 0 < m) (hnear : b.Near m) :
    UnpackedFloat.ofScientific Format.binary64 m 0 = b.unpacked := by
  have hshift : 0 < m <<< 53 := by
    rw [Nat.shiftLeft_eq]
    positivity
  have hdigits : 2 ^ 52 ≤ m <<< 53 * 10 ^ 0 := by
    rw [Nat.shiftLeft_eq]
    omega
  have hvalue : ((m <<< 53 : ℕ) : ℚ) * 2 ^ (-53 : ℤ) = m := by
    have hunit : (2 : ℚ) ^ (-53 : ℤ) = (2 ^ 53)⁻¹ := by norm_num
    rw [Nat.shiftLeft_eq, hunit]
    push_cast
    exact mul_inv_cancel_right₀ (by norm_num) _
  have hproduct : b.Near (((m <<< 53 : ℕ) : ℚ) * 2 ^ (-53 : ℤ) * ((10 ^ 0 : ℕ) * 2 ^ (0 : ℤ))) := by
    rw [hvalue]
    simpa using hnear
  have hlarge : ¬(0 : ℤ) > 2 ^ 11 := by decide
  have hsmall : ¬(0 : ℤ) < -((2 ^ 11 : ℤ) + m.log2) := by omega
  rw [UnpackedFloat.ofScientific, dif_neg (Nat.ne_of_gt hm), if_neg hlarge, if_neg hsmall,
    if_pos (le_refl 0)]
  exact (mul_eq hb hpos hshift (by decide) hdigits hproduct).trans
    (Binary.unpacked_of_pos hsign hpos).symm

/-- **A natural number is converted to the double that it is near.** -/
theorem ofNat_eq (hsign : b.negative = false) {m : ℕ} (hm : 0 < m) (hnear : b.Near m) :
    Float.ofNat m = b.toFloat := by
  change Float.ofScientific m false 0 = _
  rw [Float.ofScientific]
  split
  · next h =>
    have hone : Binary.ofFloat Float.exactlyRepresentablePowersOfTen[0] = ⟨false, 2 ^ 52, -52⟩ := by
      decide +kernel
    have hunpack : Float.exactlyRepresentablePowersOfTen[0].toModel.unpack =
        .finite .positive (2 ^ 52) (-52) (by decide) := by
      rw [Binary.unpack_eq (by decide +kernel), hone]
      rfl
    have hfull := (Binary.significand_ofNat hm h.1).1
    have hsignificand : 0 < (Binary.ofNat m).significand := Nat.lt_of_lt_of_le (by decide) hfull
    have hdigits : 2 ^ 52 ≤ (Binary.ofNat m).significand * 2 ^ 52 := by omega
    have hproduct : b.Near (((Binary.ofNat m).significand : ℚ) * 2 ^ (Binary.ofNat m).exponent *
        ((2 ^ 52 : ℕ) * 2 ^ (-52 : ℤ))) := by
      have hunit : ((2 ^ 52 : ℕ) : ℚ) * 2 ^ (-52 : ℤ) = 1 := by norm_num
      have hsize : ((Binary.ofNat m).significand : ℚ) * 2 ^ (Binary.ofNat m).exponent = m :=
        Binary.size_ofNat hm h.1
      rwa [hunit, hsize, mul_one]
    change Float.ofModel (Float.Model.pack (UnpackedFloat.mul Format.binary64
      m.toUInt64.toFloat.toModel.unpack
      Float.exactlyRepresentablePowersOfTen[0].toModel.unpack)) = _
    rw [unpack_toFloat hm h.1, Binary.unpacked_of_pos rfl hsignificand, hunpack,
      mul_eq hb hpos _ _ hdigits hproduct, ← Binary.unpacked_of_pos hsign hpos]
    rfl
  · change Float.ofModel (Float.Model.pack (UnpackedFloat.ofScientific Format.binary64 m 0)) = _
    rw [ofScientific_natCast hb hpos hsign hm hnear]
    rfl

end Products

/-! ## Order and conversion -/

namespace Binary

/-- The double with the other sign. -/
def neg (b : Binary) : Binary := { b with negative := !b.negative }

theorem value_neg (b : Binary) : b.neg.value = -b.value := by
  unfold value neg
  cases b.negative
  · rfl
  · exact (neg_neg b.size).symm

theorem IsCanonical.neg {b : Binary} (hb : b.IsCanonical) : b.neg.IsCanonical :=
  ⟨hb.significand_lt, hb.le_exponent, hb.exponent_le, hb.normal⟩

theorem isFinite_toFloat {b : Binary} (hb : b.IsCanonical) : b.toFloat.isFinite = true := by
  change (Float.Model.pack b.unpacked).unpack.isFinite = true
  rw [unpack_pack hb, unpacked]
  split <;> rfl

/-- A double that was put together denotes the number that its parts do. -/
theorem value_ofFloat_toFloat {b : Binary} (hb : b.IsCanonical) :
    (ofFloat b.toFloat).value = b.value := by
  have hfinite := isFinite_toFloat hb
  have hsame : (ofFloat b.toFloat).unpacked = b.unpacked :=
    (unpack_eq hfinite).symm.trans (unpack_pack hb)
  have hcompare := compare_unpacked (isCanonical_ofFloat hfinite) hb
  rw [hsame, compare_unpacked hb hb, cmp_self_eq_eq] at hcompare
  exact (cmp_eq_eq_iff _ _).1 (Option.some.inj hcompare).symm

/-- Every double lies on the same side of `y` as of `x`, or on `y`. -/
def Rounds (x y : ℚ) : Prop :=
  ∀ c : Binary, c.IsCanonical → (c.value ≤ x → c.value ≤ y) ∧ (x ≤ c.value → y ≤ c.value)

theorem Rounds.neg {x y : ℚ} (h : Rounds x y) : Rounds (-x) (-y) := by
  intro c hc
  obtain ⟨hbelow, habove⟩ := h c.neg hc.neg
  rw [value_neg] at hbelow habove
  exact ⟨fun hle => le_neg.1 (habove (le_neg.1 hle)), fun hle => neg_le.1 (hbelow (neg_le.1 hle))⟩

/-- A magnitude is rounded to the double that it is near. -/
theorem Near.rounds {b : Binary} {x : ℚ} (hnear : b.Near x) (hb : b.IsCanonical)
    (hsign : b.negative = false) (hpos : 0 < b.significand) : Rounds x b.value := by
  have hx := hnear.pos hpos
  intro c hc
  rw [value_of_positive hsign]
  cases hnegative : c.negative with
  | true =>
    rw [value_of_negative hnegative]
    have hnonneg := c.size_nonneg
    refine ⟨fun _ => ?_, fun hle => ?_⟩
    · linarith [b.size_nonneg]
    · linarith
  | false =>
    rw [value_of_positive hnegative]
    exact ⟨hnear.size_le hb hc, hnear.le_size hb hc⟩

/-- A natural number of at most 53 bits, or the power of two behind them, is a double. -/
theorem exists_size_eq {m : ℕ} (hpos : 0 < m) (hle : m ≤ 2 ^ 53) :
    ∃ b : Binary, b.IsCanonical ∧ b.negative = false ∧ b.size = m := by
  by_cases hlt : m < 2 ^ 53
  · exact ⟨ofNat m, isCanonical_ofNat hpos hlt, rfl, size_ofNat hpos hlt⟩
  · obtain rfl : m = 2 ^ 53 := by omega
    refine ⟨⟨false, 2 ^ 52, 1⟩, ⟨by decide, by decide, by decide, by decide⟩, rfl, ?_⟩
    norm_num [size]

end Binary

end CurryLisp.Decimal

namespace CurryLisp.Number

open Decimal Decimal.Binary

/-- The double that an integer is converted to, by its parts. -/
theorem exists_nearestFloat (n : Int64) :
    ∃ b : Binary, b.IsCanonical ∧ nearestFloat n = b.toFloat ∧ Rounds n.toInt b.value := by
  have hmin := n.le_toInt
  have hmax := n.toInt_lt
  have hlog {m : ℕ} (hpos : 0 < m) (hle : m ≤ 2 ^ 63) : m.log2 < 1023 := by
    have h : m.log2 < 64 := (Nat.log2_lt hpos.ne').2 (by omega)
    omega
  unfold nearestFloat
  cases hn : n.toInt with
  | ofNat m =>
    rw [hn, Int.ofNat_eq_natCast] at hmax
    by_cases hpos : 0 < m
    · obtain ⟨b, hb, hsign, hb', hnear⟩ := exists_near_natCast hpos (hlog hpos (by omega))
      exact ⟨b, hb, ofNat_eq hb hb' hsign hpos hnear, hnear.rounds hb hsign hb'⟩
    · obtain rfl : m = 0 := by omega
      have hzero : (⟨false, 0, -1074⟩ : Binary).value = 0 := value_eq_zero (by decide)
      refine ⟨⟨false, 0, -1074⟩, ⟨by decide, by decide, by decide, by decide⟩,
        by decide +kernel, fun c _ => ?_⟩
      rw [hzero]
      simp
  | negSucc k =>
    -- The magnitude is converted, and the sign is changed afterwards.
    obtain ⟨b, hb, hsign, hb', hnear⟩ := exists_near_natCast k.succ_pos (hlog k.succ_pos (by omega))
    have habs : b.neg.abs = b := by
      unfold neg Binary.abs
      rw [← hsign]
    have hfloat : -Float.ofNat k.succ = b.neg.toFloat := by
      have hparts := toFloat_of_sign hb.neg
      have hnegative : b.neg.negative = true := by rw [neg, hsign]; rfl
      rw [hnegative, habs] at hparts
      rw [ofNat_eq hb hb' hsign k.succ_pos hnear]
      exact hparts
    have hvalue : ((Int.negSucc k : ℤ) : ℚ) = -(k.succ : ℕ) := by
      rw [Int.negSucc_eq]
      push_cast
      ring
    refine ⟨b.neg, hb.neg, hfloat, ?_⟩
    rw [hvalue, value_neg]
    exact (hnear.rounds hb hsign hb').neg

theorem isFinite_nearestFloat (n : Int64) : (nearestFloat n).isFinite = true := by
  obtain ⟨b, hb, heq, -⟩ := exists_nearestFloat n
  rw [heq]
  exact isFinite_toFloat hb

/-- **Conversion keeps the order between integers and doubles.** -/
theorem rounds_nearestFloat (n : Int64) : Rounds n.toInt (ofFloat (nearestFloat n)).value := by
  obtain ⟨b, hb, heq, hrounds⟩ := exists_nearestFloat n
  rw [heq, value_ofFloat_toFloat hb]
  exact hrounds

/-- **Integers of at most 53 digits are converted without rounding**, and so are the powers of two
behind them. -/
theorem value_nearestFloat {n : Int64} (hn : n.toInt.natAbs ≤ 2 ^ 53) :
    (ofFloat (nearestFloat n)).value = n.toInt := by
  have hexact : ∃ c : Binary, c.IsCanonical ∧ c.value = n.toInt := by
    rcases lt_trichotomy n.toInt 0 with hneg | hzero | hpos
    · obtain ⟨b, hb, hsign, hsize⟩ := exists_size_eq (Int.natAbs_pos.2 hneg.ne) hn
      refine ⟨b.neg, hb.neg, ?_⟩
      rw [value_neg, value_of_positive hsign, hsize, Nat.cast_natAbs, abs_of_neg hneg]
      push_cast
      ring
    · refine ⟨⟨false, 0, -1074⟩, ⟨by decide, by decide, by decide, by decide⟩, ?_⟩
      rw [value_eq_zero (by decide), hzero]
      rfl
    · obtain ⟨b, hb, hsign, hsize⟩ := exists_size_eq (Int.natAbs_pos.2 hpos.ne') hn
      refine ⟨b, hb, ?_⟩
      rw [value_of_positive hsign, hsize, Nat.cast_natAbs, abs_of_pos hpos]
  obtain ⟨c, hc, hvalue⟩ := hexact
  obtain ⟨hbelow, habove⟩ := rounds_nearestFloat n c hc
  rw [hvalue] at hbelow habove
  exact le_antisymm (habove (le_refl _)) (hbelow (le_refl _))

end CurryLisp.Number
