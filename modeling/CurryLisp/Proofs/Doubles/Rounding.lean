import CurryLisp.Proofs.Doubles.Parts

/-!
# Rounding to the nearest double

A positive quotient that is closer to one double than to any other is rounded to that double. The
quotients are taken in `ℚ`; the digits that a shift drops are kept by a round bit and a sticky bit,
which say where the quotient lies between two integers.

Statements:

* `Binary.Near`: a magnitude is closer to a double than to any other.
* `roundWithAccuracy_eq`, `div_eq`: rounding and division give the double that is near.
* `ofScientific_eq`: so does a decimal fraction.
-/

namespace CurryLisp.Decimal

open Float.Model Float.Model.UnpackedFloat

/-! ## Where a quotient lies between two integers -/

/-- The integer and the two bits say exactly where `y` lies: on the integer, below the middle, on it,
or above it. -/
def Locates (em : ExtendedMantissa) (y : ℚ) : Prop :=
  if em.roundBit then
    if em.stickyBit then (em.mantissa : ℚ) + 1 / 2 < y ∧ y < em.mantissa + 1
    else y = em.mantissa + 1 / 2
  else
    if em.stickyBit then (em.mantissa : ℚ) < y ∧ y < em.mantissa + 1 / 2
    else y = em.mantissa

namespace Locates

variable {em : ExtendedMantissa} {y : ℚ}

theorem exact (m : ℕ) : Locates (.ofMantissaAndAccuracy m .exact) m := by
  simp [Locates, ExtendedMantissa.ofMantissaAndAccuracy]

theorem le (h : Locates em y) : (em.mantissa : ℚ) ≤ y := by
  unfold Locates at h
  split at h
  · split at h
    · linarith [h.1]
    · linarith
  · split at h
    · exact le_of_lt h.1
    · exact ge_of_eq h

theorem lt_add_one (h : Locates em y) : y < em.mantissa + 1 := by
  unfold Locates at h
  split at h
  · split at h
    · exact h.2
    · linarith
  · split at h
    · linarith [h.2]
    · linarith

/-- The digit that a shift drops becomes the round bit. -/
theorem shiftRightOne (h : Locates em y) : Locates em.shiftRightOne (y / 2) := by
  obtain ⟨m, roundBit, stickyBit⟩ := em
  have hm : ((m % 2 : ℕ) : ℚ) + 2 * ((m / 2 : ℕ) : ℚ) = m := by exact_mod_cast Nat.mod_add_div m 2
  have hparity : m % 2 = 0 ∨ m % 2 = 1 := Nat.mod_two_eq_zero_or_one m
  rcases hparity with hparity | hparity <;> rw [hparity] at hm <;> cases roundBit <;>
    cases stickyBit <;> simp [Locates, ExtendedMantissa.shiftRightOne, hparity] at h ⊢ <;>
    push_cast at hm <;> (try constructor) <;> linarith

theorem shiftRight (h : Locates em y) (n : ℕ) : Locates (em >>> n) (y / 2 ^ n) := by
  change Locates (n.repeat ExtendedMantissa.shiftRightOne em) (y / 2 ^ n)
  induction n with
  | zero => simpa [Nat.repeat] using h
  | succ n ih =>
    rw [Nat.repeat, pow_succ, ← div_div]
    exact ih.shiftRightOne

/-- Rounding gives the nearest integer, and the even one of two. -/
theorem roundedMantissa_eq (h : Locates em y) {n : ℕ} (hlow : (n : ℚ) - 1 / 2 ≤ y)
    (hhigh : y ≤ n + 1 / 2) (hodd : n % 2 = 1 → (n : ℚ) - 1 / 2 < y ∧ y < n + 1 / 2) :
    em.roundedMantissa = n := by
  obtain ⟨m, roundBit, stickyBit⟩ := em
  cases roundBit with
  | false =>
    have hm : (m : ℚ) < n + 1 := by
      have hle := h.le
      dsimp only at hle
      linarith
    have hn : (n : ℚ) < m + 1 := by
      cases stickyBit with
      | false =>
        have hy : y = m := h
        linarith
      | true =>
        have hy : (m : ℚ) < y ∧ y < m + 1 / 2 := h
        linarith [hy.2]
    have hm : m < n + 1 := by exact_mod_cast hm
    have hn : n < m + 1 := by exact_mod_cast hn
    have heq : m = n := by omega
    cases stickyBit with
    | false => exact heq
    | true => exact heq
  | true =>
    have hn : (n : ℚ) < m + 2 := by
      have hlt := h.lt_add_one
      dsimp only at hlt
      linarith
    have hn : n < m + 2 := by exact_mod_cast hn
    cases stickyBit with
    | false =>
      -- A tie: neither neighbour is odd, so it is the even one.
      have hy : y = m + 1 / 2 := h
      have hm : (m : ℚ) ≤ n := by linarith
      have hm : m ≤ n := by exact_mod_cast hm
      have heven : n % 2 = 0 := by
        by_contra hne
        obtain ⟨hlow', hhigh'⟩ := hodd (by omega)
        have hnm : (n : ℚ) < m + 1 := by linarith
        have hmn : (m : ℚ) < n := by linarith
        have hnm : n < m + 1 := by exact_mod_cast hnm
        have hmn : m < n := by exact_mod_cast hmn
        omega
      change m + m % 2 = n
      omega
    | true =>
      have hy : (m : ℚ) + 1 / 2 < y ∧ y < m + 1 := h
      have hm : (m : ℚ) < n := by linarith [hy.1]
      have hm : m < n := by exact_mod_cast hm
      change m + 1 = n
      omega

end Locates

/-! ## Rounding -/

namespace Binary

/-- The magnitude of the number. -/
def size (b : Binary) : ℚ := b.significand * 2 ^ b.exponent

/-- The part of a unit of the significand that a magnitude may lie below the double: the doubles below
a power of two are twice as close. -/
def lowerMargin (b : Binary) : ℚ :=
  if b.significand = 2 ^ 52 ∧ b.exponent ≠ -1074 then 1 / 4 else 1 / 2

/-- The magnitude is closer to this double than to any other, or half way to the next one where this
one is even. -/
structure Near (b : Binary) (x : ℚ) : Prop where
  low : (b.significand - b.lowerMargin) * 2 ^ b.exponent ≤ x
  high : x ≤ (b.significand + 1 / 2) * 2 ^ b.exponent
  odd : b.significand % 2 = 1 → (b.significand - b.lowerMargin) * 2 ^ b.exponent < x ∧
    x < (b.significand + 1 / 2) * 2 ^ b.exponent

theorem lowerMargin_le (b : Binary) : b.lowerMargin ≤ 1 / 2 := by
  unfold lowerMargin
  split <;> norm_num

end Binary

theorem shiftToTargetExponent_eq (m : ℕ) (e : Int) (accuracy : Accuracy) :
    shiftToTargetExponent Format.binary64 m e accuracy =
      (ExtendedMantissa.ofMantissaAndAccuracy m accuracy >>>
          (max (m.log2 + 1 + e - 53) (-1074) - e).toNat,
        e + (max (m.log2 + 1 + e - 53) (-1074) - e).toNat) := rfl

/-- The parts of a double need no shift. -/
theorem Binary.IsCanonical.shiftToTargetExponent {b : Binary} (hb : b.IsCanonical)
    (hpos : 0 < b.significand) :
    shiftToTargetExponent Format.binary64 b.significand b.exponent .exact =
      (⟨b.significand, false, false⟩, b.exponent) := by
  have hlog : b.significand.log2 < 53 :=
    (Nat.log2_lt (Nat.ne_of_gt hpos)).2 hb.significand_lt
  have hle := hb.le_exponent
  have hshift : (max ((b.significand.log2 : Int) + 1 + b.exponent - 53) (-1074) -
      b.exponent).toNat = 0 := by omega
  rw [shiftToTargetExponent_eq, hshift]
  simp [ExtendedMantissa.ofMantissaAndAccuracy, HShiftRight.hShiftRight, Nat.repeat]

/-- A significand that rounding made too long is halved. -/
theorem shiftToTargetExponent_carry {e : Int} (he : -1074 ≤ e) :
    shiftToTargetExponent Format.binary64 (2 ^ 53) e .exact =
      (⟨2 ^ 52, false, false⟩, e + 1) := by
  have hlog : (2 ^ 53 : ℕ).log2 = 53 := Nat.log2_two_pow
  have hshift : (max (((2 ^ 53 : ℕ).log2 : Int) + 1 + e - 53) (-1074) - e).toNat = 1 := by
    rw [hlog]
    omega
  rw [shiftToTargetExponent_eq, hshift]
  rfl

theorem roundWithAccuracy_of_shift {s : Sign} {m : ℕ} {e e' : Int} {accuracy : Accuracy}
    {em : ExtendedMantissa} {b : Binary} (hpos : 0 < b.significand)
    (hfirst : shiftToTargetExponent Format.binary64 m e accuracy = (em, e'))
    (hsecond : shiftToTargetExponent Format.binary64 em.roundedMantissa e' .exact =
      (⟨b.significand, false, false⟩, b.exponent)) :
    roundWithAccuracy Format.binary64 s m e accuracy =
      .finite s b.significand b.exponent hpos := by
  rw [roundWithAccuracy, hfirst]
  dsimp only
  rw [hsecond]
  dsimp only
  rw [dif_neg (Nat.ne_of_gt hpos)]

section Place

variable {b : Binary} {m : ℕ} {e : Int} {accuracy : Accuracy} {x : ℚ}

theorem mantissa_ofMantissaAndAccuracy (m : ℕ) (accuracy : Accuracy) :
    (ExtendedMantissa.ofMantissaAndAccuracy m accuracy).mantissa = m := by
  cases accuracy with
  | exact => rfl
  | inexact order => cases order <;> rfl

theorem lt_of_locates (hx : Locates (.ofMantissaAndAccuracy m accuracy) (x / 2 ^ e)) :
    x < 2 ^ ((m.log2 : Int) + 1 + e) := by
  have hlt := hx.lt_add_one
  rw [mantissa_ofMantissaAndAccuracy, div_lt_iff₀ (by positivity)] at hlt
  have hlog : (m : ℚ) + 1 ≤ 2 ^ (m.log2 + 1) := by exact_mod_cast Nat.lt_log2_self (n := m)
  calc x < ((m : ℚ) + 1) * 2 ^ e := hlt
    _ ≤ 2 ^ (m.log2 + 1) * 2 ^ e := by gcongr
    _ = 2 ^ ((m.log2 : Int) + 1 + e) := by
      rw [zpow_add₀ (by norm_num : (2 : ℚ) ≠ 0)]
      norm_cast

theorem le_of_locates (hx : Locates (.ofMantissaAndAccuracy m accuracy) (x / 2 ^ e))
    (hm : m ≠ 0) : (2 : ℚ) ^ ((m.log2 : Int) + e) ≤ x := by
  have hle := hx.le
  rw [mantissa_ofMantissaAndAccuracy, le_div_iff₀ (by positivity)] at hle
  have hlog : (2 : ℚ) ^ m.log2 ≤ m := by exact_mod_cast Nat.log2_self_le hm
  calc (2 : ℚ) ^ ((m.log2 : Int) + e) = 2 ^ m.log2 * 2 ^ e := by
        rw [zpow_add₀ (by norm_num : (2 : ℚ) ≠ 0)]
        norm_cast
    _ ≤ m * 2 ^ e := by gcongr
    _ ≤ x := hle

/-- A quotient that is near a double is not cut off above the exponent of the double. -/
theorem targetExponent_le_of_near (hb : b.IsCanonical)
    (hx : Locates (.ofMantissaAndAccuracy m accuracy) (x / 2 ^ e)) (hnear : b.Near x)
    (hdigits : e ≤ max ((m.log2 : Int) + 1 + e - 53) (-1074)) :
    max ((m.log2 : Int) + 1 + e - 53) (-1074) ≤ b.exponent := by
  have hleast := hb.le_exponent
  by_cases hm : m = 0
  · subst hm
    rw [Nat.log2_zero] at hdigits ⊢
    omega
  · have hunit : (0 : ℚ) < 2 ^ b.exponent := by positivity
    have hsignificand : (b.significand : ℚ) + 1 ≤ 2 ^ 53 := by exact_mod_cast hb.significand_lt
    have hlt : (2 : ℚ) ^ ((m.log2 : Int) + e) < 2 ^ (53 + b.exponent) := by
      calc (2 : ℚ) ^ ((m.log2 : Int) + e) ≤ x := le_of_locates hx hm
        _ ≤ (b.significand + 1 / 2) * 2 ^ b.exponent := hnear.high
        _ < 2 ^ (53 : ℤ) * 2 ^ b.exponent := by
          refine mul_lt_mul_of_pos_right ?_ hunit
          norm_num at hsignificand ⊢
          linarith
        _ = 2 ^ (53 + b.exponent) := (zpow_add₀ (by norm_num) _ _).symm
    have hlt := (zpow_lt_zpow_iff_right₀ (by norm_num)).1 hlt
    omega

/-- A quotient that is near a double is cut off at the exponent of the double, or one below it if the
double is a power of two and the quotient is smaller. -/
theorem targetExponent_of_near (hb : b.IsCanonical)
    (hx : Locates (.ofMantissaAndAccuracy m accuracy) (x / 2 ^ e)) (hnear : b.Near x)
    (hdigits : e ≤ max ((m.log2 : Int) + 1 + e - 53) (-1074)) :
    max ((m.log2 : Int) + 1 + e - 53) (-1074) = b.exponent ∨
      b.significand = 2 ^ 52 ∧ b.exponent ≠ -1074 ∧ x < 2 ^ (52 : ℤ) * 2 ^ b.exponent ∧
        max ((m.log2 : Int) + 1 + e - 53) (-1074) = b.exponent - 1 := by
  have hunit : (0 : ℚ) < 2 ^ b.exponent := by positivity
  have hpow (n : ℤ) : (2 : ℚ) ^ (n + b.exponent) = 2 ^ n * 2 ^ b.exponent :=
    zpow_add₀ (by norm_num) n b.exponent
  have hle := targetExponent_le_of_near hb hx hnear hdigits
  by_cases heq : max ((m.log2 : Int) + 1 + e - 53) (-1074) = b.exponent
  · exact .inl heq
  · have hexponent : b.exponent ≠ -1074 := by omega
    have hnormal : 2 ^ 52 ≤ b.significand := hb.normal.resolve_right hexponent
    have hxlt : x < 2 ^ (52 : ℤ) * 2 ^ b.exponent := by
      calc x < 2 ^ ((m.log2 : Int) + 1 + e) := lt_of_locates hx
        _ ≤ 2 ^ (52 + b.exponent) := zpow_le_zpow_right₀ (by norm_num) (by omega)
        _ = 2 ^ (52 : ℤ) * 2 ^ b.exponent := hpow 52
    have hsignificand : b.significand = 2 ^ 52 := by
      have hmargin := b.lowerMargin_le
      have hlt := lt_of_mul_lt_mul_right (lt_of_le_of_lt hnear.low hxlt) (le_of_lt hunit)
      rw [zpow_ofNat] at hlt
      have hlt : (b.significand : ℚ) < 2 ^ 52 + 1 := by linarith
      have hlt : b.significand < 2 ^ 52 + 1 := by exact_mod_cast hlt
      omega
    have hmargin : b.lowerMargin = 1 / 4 := if_pos ⟨hsignificand, hexponent⟩
    have hlt : (2 : ℚ) ^ (51 + b.exponent) < 2 ^ ((m.log2 : Int) + 1 + e) := by
      calc (2 : ℚ) ^ (51 + b.exponent) = 2 ^ (51 : ℤ) * 2 ^ b.exponent := hpow 51
        _ < (b.significand - b.lowerMargin) * 2 ^ b.exponent := by
          refine mul_lt_mul_of_pos_right ?_ hunit
          rw [hsignificand, hmargin]
          norm_num
        _ ≤ x := hnear.low
        _ < 2 ^ ((m.log2 : Int) + 1 + e) := lt_of_locates hx
    have hlt := (zpow_lt_zpow_iff_right₀ (by norm_num)).1 hlt
    exact .inr ⟨hsignificand, hexponent, hxlt, by omega⟩

end Place

/-- **A quotient that is near a double is rounded to it**, if the digits that are known suffice. -/
theorem roundWithAccuracy_eq {b : Binary} (hb : b.IsCanonical) (hpos : 0 < b.significand) (s : Sign)
    {m : ℕ} {e : Int} {accuracy : Accuracy} {x : ℚ}
    (hx : Locates (.ofMantissaAndAccuracy m accuracy) (x / 2 ^ e))
    (hdigits : e ≤ max ((m.log2 : Int) + 1 + e - 53) (-1074)) (hnear : b.Near x) :
    roundWithAccuracy Format.binary64 s m e accuracy =
      .finite s b.significand b.exponent hpos := by
  have htarget := targetExponent_of_near hb hx hnear hdigits
  have hfirst := shiftToTargetExponent_eq m e accuracy
  have hshift := hx.shiftRight (max ((m.log2 : Int) + 1 + e - 53) (-1074) - e).toNat
  generalize max ((m.log2 : Int) + 1 + e - 53) (-1074) = target at *
  have hexponent : e + ((target - e).toNat : Int) = target := by omega
  have hquotient : x / 2 ^ e / 2 ^ (target - e).toNat = x / 2 ^ target := by
    rw [div_div, ← zpow_natCast, ← zpow_add₀ (by norm_num), hexponent]
  rw [hexponent] at hfirst
  rw [hquotient] at hshift
  have hunit : (0 : ℚ) < 2 ^ target := by positivity
  refine roundWithAccuracy_of_shift hpos hfirst ?_
  rcases htarget with rfl | ⟨hsignificand, hnormal, hxlt, rfl⟩
  · have hmargin := b.lowerMargin_le
    have hrounded := hshift.roundedMantissa_eq (n := b.significand)
      (by
        rw [le_div_iff₀ hunit]
        exact le_trans (by gcongr) hnear.low)
      (by
        rw [div_le_iff₀ hunit]
        exact hnear.high)
      (fun hodd => by
        rw [lt_div_iff₀ hunit, div_lt_iff₀ hunit]
        exact ⟨lt_of_le_of_lt (by gcongr) (hnear.odd hodd).1, (hnear.odd hodd).2⟩)
    rw [hrounded]
    exact hb.shiftToTargetExponent hpos
  · have hmargin : b.lowerMargin = 1 / 4 := if_pos ⟨hsignificand, hnormal⟩
    have hdouble : (2 : ℚ) ^ b.exponent = 2 * 2 ^ (b.exponent - 1) := by
      rw [← zpow_one_add₀ (by norm_num)]
      congr 1
      omega
    have hlow := hnear.low
    rw [hsignificand, hmargin, hdouble] at hlow
    rw [hdouble, zpow_ofNat] at hxlt
    have hrounded := hshift.roundedMantissa_eq (n := 2 ^ 53)
      (by
        rw [le_div_iff₀ hunit]
        push_cast
        linarith)
      (by
        rw [div_le_iff₀ hunit]
        push_cast
        linarith)
      (fun hodd => absurd hodd (by decide))
    rw [hrounded, shiftToTargetExponent_carry (by have := hb.le_exponent; omega), hsignificand]
    congr 1
    omega

/-! ## Division -/

/-- The quotient and the remainder say where the exact quotient lies. -/
theorem locates_quotient (m : ℕ) {n : ℕ} (hn : 0 < n) :
    Locates (.ofMantissaAndAccuracy (m / n) (accuracyOfFraction (m % n) n)) (m / n) := by
  have hn' : (0 : ℚ) < n := by exact_mod_cast hn
  have hm : (n : ℚ) * (m / n : ℕ) + (m % n : ℕ) = m := by exact_mod_cast Nat.div_add_mod m n
  have hquotient : (m : ℚ) / n = (m / n : ℕ) + ((m % n : ℕ) : ℚ) / n := by
    rw [← hm]
    field_simp
  have hlt : ((m % n : ℕ) : ℚ) < n := by exact_mod_cast Nat.mod_lt m hn
  rw [hquotient]
  generalize m / n = q at *
  generalize m % n = r at *
  unfold accuracyOfFraction
  split
  · next hr =>
    subst hr
    simp [Locates, ExtendedMantissa.ofMantissaAndAccuracy]
  · next hr =>
    have hpos : (0 : ℚ) < r := by exact_mod_cast Nat.pos_of_ne_zero hr
    -- The remainder is below, at or above half of the divisor.
    cases hcompare : compare (2 * r) n with
    | lt =>
      have hhalf : 2 * (r : ℚ) < n := by exact_mod_cast Nat.compare_eq_lt.1 hcompare
      have hfraction : (r : ℚ) / n < 1 / 2 := by
        rw [div_lt_div_iff₀ hn' (by norm_num)]
        linarith
      change (q : ℚ) < q + r / n ∧ q + r / n < (q : ℚ) + 1 / 2
      exact ⟨lt_add_of_pos_right _ (div_pos hpos hn'), by gcongr⟩
    | eq =>
      have hhalf : 2 * (r : ℚ) = n := by exact_mod_cast Nat.compare_eq_eq.1 hcompare
      have hfraction : (r : ℚ) / n = 1 / 2 := by
        rw [div_eq_div_iff (ne_of_gt hn') (by norm_num)]
        linarith
      change (q : ℚ) + r / n = q + 1 / 2
      rw [hfraction]
    | gt =>
      have hhalf : (n : ℚ) < 2 * r := by exact_mod_cast Nat.compare_eq_gt.1 hcompare
      have hfraction : 1 / 2 < (r : ℚ) / n := by
        rw [div_lt_div_iff₀ (by norm_num) hn']
        linarith
      have hfraction' : (r : ℚ) / n < 1 := (div_lt_one hn').2 hlt
      change (q : ℚ) + 1 / 2 < q + r / n ∧ q + r / n < (q : ℚ) + 1
      exact ⟨by gcongr, by gcongr⟩

/-- Division takes as many digits as the significand of the quotient needs. -/
theorem le_log2_quotient {m n : ℕ} (hm : 0 < m) (hn : 0 < n) {k : ℕ}
    (hk : 53 + n.log2 ≤ m.log2 + k) : 52 ≤ ((m <<< k) / n).log2 := by
  have hlow : 2 ^ (m.log2 + k) ≤ m <<< k := by
    rw [Nat.shiftLeft_eq, pow_add]
    exact Nat.mul_le_mul_right _ (Nat.log2_self_le (Nat.ne_of_gt hm))
  have hquotient : 2 ^ 52 ≤ (m <<< k) / n := by
    rw [Nat.le_div_iff_mul_le hn]
    calc 2 ^ 52 * n ≤ 2 ^ 52 * 2 ^ (n.log2 + 1) :=
          Nat.mul_le_mul_left _ (le_of_lt Nat.lt_log2_self)
      _ = 2 ^ (52 + (n.log2 + 1)) := (pow_add ..).symm
      _ ≤ 2 ^ (m.log2 + k) := Nat.pow_le_pow_right (by decide) (by omega)
      _ ≤ m <<< k := hlow
  have hne : (m <<< k) / n ≠ 0 := by omega
  exact (Nat.le_log2 hne).2 hquotient

/-- **A quotient that is near a double is divided to it.** -/
theorem div_eq {b : Binary} (hb : b.IsCanonical) (hpos : 0 < b.significand) {m n : ℕ} {e f : Int}
    (hm : 0 < m) (hn : 0 < n) (hnear : b.Near ((m : ℚ) * 2 ^ e / (n * 2 ^ f))) :
    UnpackedFloat.div Format.binary64 (.finite .positive m e hm) (.finite .positive n f hn) =
      .finite .positive b.significand b.exponent hpos := by
  let target := min (e - f) (max (((m.log2 : Int) + 1 + e) - ((n.log2 : Int) + 1 + f) - 53) (-1074))
  have htarget : target = min (e - f)
    (max (((m.log2 : Int) + 1 + e) - ((n.log2 : Int) + 1 + f) - 53) (-1074)) := rfl
  let k := (e - f - target).toNat
  have hk : (k : Int) = e - f - target := by omega
  have hexact : (m : ℚ) * 2 ^ e / (n * 2 ^ f) / 2 ^ target = ((m <<< k : ℕ) : ℚ) / n := by
    have htwo : (2 : ℚ) ≠ 0 := by norm_num
    have hpow : (2 : ℚ) ^ e = 2 ^ k * 2 ^ f * 2 ^ target := by
      rw [← zpow_natCast, ← zpow_add₀ htwo, ← zpow_add₀ htwo, hk]
      congr 1
      omega
    rw [hpow, Nat.shiftLeft_eq]
    push_cast
    field_simp
  have hdigits : target ≤ max ((((m <<< k) / n).log2 : Int) + 1 + target - 53) (-1074) := by
    by_cases hleast : target ≤ -1074
    · omega
    · have hlog := le_log2_quotient hm hn (k := k) (by omega)
      omega
  change roundWithAccuracy Format.binary64 .positive ((m <<< k) / n) target
    (accuracyOfFraction ((m <<< k) % n) n) = _
  refine roundWithAccuracy_eq hb hpos .positive ?_ hdigits hnear
  rw [hexact]
  exact locates_quotient _ hn

/-! ## Decimal fractions -/

/-- The powers of ten in the table are exact. -/
theorem powersOfTen_exact : ∀ (k : ℕ) (hk : k < Float.exactlyRepresentablePowersOfTen.size),
    let x := Float.exactlyRepresentablePowersOfTen[k]
    x.isFinite = true ∧ (Binary.ofFloat x).negative = false ∧ 0 < (Binary.ofFloat x).significand ∧
      (Binary.ofFloat x).numerator = 10 ^ k * (Binary.ofFloat x).denominator := by
  decide +kernel

/-- A power as a quotient of powers of natural numbers, one of which is one. -/
theorem zpow_eq_div {a : ℚ} (ha : a ≠ 0) (n : ℤ) : a ^ n = a ^ n.toNat / a ^ (-n).toNat := by
  have hn : n = (n.toNat : ℤ) - ((-n).toNat : ℤ) := by omega
  conv_lhs => rw [hn]
  rw [zpow_sub₀ ha, zpow_natCast, zpow_natCast]

namespace Binary

/-- A unit of the significand, as a quotient. -/
theorem two_zpow_exponent (b : Binary) :
    (2 : ℚ) ^ b.exponent = (2 ^ b.exponent.toNat : ℕ) / b.denominator := by
  rw [zpow_eq_div (by norm_num)]
  simp [denominator]

theorem numerator_div_denominator (b : Binary) : (b.numerator : ℚ) / b.denominator = b.size := by
  rw [size, two_zpow_exponent, ← mul_div_assoc, numerator, Nat.pow_eq]
  push_cast
  rfl

/-- A double is near itself. -/
theorem near_size (b : Binary) : b.Near b.size := by
  have hunit : (0 : ℚ) < 2 ^ b.exponent := by positivity
  have hmargin : 0 < b.lowerMargin := by
    unfold lowerMargin
    split <;> norm_num
  have hlow : (b.significand - b.lowerMargin) * 2 ^ b.exponent < b.size :=
    mul_lt_mul_of_pos_right (by linarith) hunit
  have hhigh : b.size < (b.significand + 1 / 2) * 2 ^ b.exponent :=
    mul_lt_mul_of_pos_right (by linarith) hunit
  exact ⟨le_of_lt hlow, le_of_lt hhigh, fun _ => ⟨hlow, hhigh⟩⟩

/-- Only positive magnitudes are near a double other than zero. -/
theorem Near.pos {b : Binary} {x : ℚ} (h : b.Near x) (hpos : 0 < b.significand) : 0 < x := by
  have hone : (1 : ℚ) ≤ b.significand := by exact_mod_cast hpos
  have hmargin := b.lowerMargin_le
  refine lt_of_lt_of_le (mul_pos ?_ (by positivity)) h.low
  linarith

end Binary

/-- What the arithmetic sees of a double that is a positive number. -/
def Holds (x : Float) (y : ℚ) : Prop :=
  ∃ m e h, x.toModel.unpack = .finite .positive m e h ∧ (m : ℚ) * 2 ^ e = y

theorem Binary.holds_of_unpack {b : Binary} {x : Float} (h : x.toModel.unpack = b.unpacked)
    (hsign : b.negative = false) (hpos : 0 < b.significand) : Holds x b.size :=
  ⟨b.significand, b.exponent, hpos, h.trans (Binary.unpacked_of_pos hsign hpos), rfl⟩

theorem holds_powerOfTen {k : ℕ} (hk : k < Float.exactlyRepresentablePowersOfTen.size) :
    Holds Float.exactlyRepresentablePowersOfTen[k] (10 ^ k) := by
  obtain ⟨hfinite, hsign, hpos, hnumerator⟩ := powersOfTen_exact k hk
  have hholds := Binary.holds_of_unpack (Binary.unpack_eq hfinite) hsign hpos
  have hdenominator : ((Binary.ofFloat Float.exactlyRepresentablePowersOfTen[k]).denominator : ℚ)
      ≠ 0 := by
    exact_mod_cast Nat.ne_of_gt (Binary.denominator_pos _)
  rw [← Binary.numerator_div_denominator, hnumerator] at hholds
  push_cast at hholds
  rwa [mul_div_cancel_right₀ _ hdenominator] at hholds

namespace Binary

/-- A natural number of at most 53 bits. -/
def ofNat (m : ℕ) : Binary := ⟨false, m <<< (52 - m.log2), (m.log2 : Int) - 52⟩

variable {m : ℕ} (hpos : 0 < m) (hlt : m < 2 ^ 53)

include hpos hlt

theorem significand_ofNat : 2 ^ 52 ≤ (ofNat m).significand ∧ (ofNat m).significand < 2 ^ 53 := by
  have hlog : m.log2 < 53 := (Nat.log2_lt (Nat.ne_of_gt hpos)).2 hlt
  have hsplit : 2 ^ 52 = 2 ^ m.log2 * 2 ^ (52 - m.log2) := by
    rw [← pow_add]
    congr 1
    omega
  rw [ofNat, Nat.shiftLeft_eq]
  constructor
  · rw [hsplit]
    exact Nat.mul_le_mul_right _ (Nat.log2_self_le (Nat.ne_of_gt hpos))
  · rw [Nat.pow_succ', hsplit, ← mul_assoc, ← Nat.pow_succ']
    exact Nat.mul_lt_mul_of_pos_right Nat.lt_log2_self (by positivity)

theorem isCanonical_ofNat : (ofNat m).IsCanonical := by
  have hlog : m.log2 < 53 := (Nat.log2_lt (Nat.ne_of_gt hpos)).2 hlt
  obtain ⟨hnormal, hshort⟩ := significand_ofNat hpos hlt
  have hleast : -1074 ≤ (m.log2 : Int) - 52 := by omega
  have hmax : (m.log2 : Int) - 52 ≤ 971 := by omega
  exact ⟨hshort, hleast, hmax, .inl hnormal⟩

theorem size_ofNat : (ofNat m).size = m := by
  have hlog : m.log2 < 53 := (Nat.log2_lt (Nat.ne_of_gt hpos)).2 hlt
  have htwo : (2 : ℚ) ≠ 0 := by norm_num
  have hexponent : (m.log2 : Int) - 52 = -((52 - m.log2 : ℕ) : Int) := by omega
  rw [size, ofNat, Nat.shiftLeft_eq, hexponent, zpow_neg, zpow_natCast]
  push_cast
  exact mul_inv_cancel_right₀ (pow_ne_zero _ htwo) _

/-- A natural number of at most 53 bits is converted without rounding. -/
theorem ofUInt64_eq : UnpackedFloat.ofUInt64 Format.binary64 m.toUInt64 = (ofNat m).unpacked := by
  have hlog : m.log2 < 53 := (Nat.log2_lt (Nat.ne_of_gt hpos)).2 hlt
  have hnat : m.toUInt64.toNat = m := UInt64.toNat_ofNat_of_lt' (Nat.lt_trans hlt (by decide))
  have hcompare : compare (m : Int) 0 = .gt := Int.compare_eq_gt.2 (by omega)
  have hshift : (0 - max ((m.log2 : Int) + 1 + 0 - 53) (-1074)).toNat = 52 - m.log2 := by omega
  have hexponent : (0 : Int) - ((52 - m.log2 : ℕ) : Int) = (ofNat m).exponent := by
    change _ = (m.log2 : Int) - 52
    omega
  obtain ⟨hnormal, hshort⟩ := significand_ofNat hpos hlt
  have hlog' : (ofNat m).significand.log2 = 52 := (Nat.log2_eq_iff (by omega)).2 ⟨hnormal, hshort⟩
  change UnpackedFloat.normalize Format.binary64 (m.toUInt64.toNat : Int) 0 .positive = _
  rw [hnat, UnpackedFloat.normalize, hcompare]
  change roundWithAccuracy Format.binary64 .positive
    (m <<< (0 - max ((m.log2 : Int) + 1 + 0 - 53) (-1074)).toNat)
    (0 - (0 - max ((m.log2 : Int) + 1 + 0 - 53) (-1074)).toNat) .exact = _
  rw [hshift, hexponent, unpacked_of_pos rfl (by omega)]
  refine roundWithAccuracy_eq (isCanonical_ofNat hpos hlt) (by omega) .positive ?_ ?_
    (near_size _)
  · rw [size, mul_div_cancel_right₀ _ (by positivity)]
    exact Locates.exact _
  · change (ofNat m).exponent ≤
      max (((ofNat m).significand.log2 : Int) + 1 + (ofNat m).exponent - 53) (-1074)
    omega

end Binary

theorem unpack_toFloat {m : ℕ} (hpos : 0 < m) (hlt : m < 2 ^ 53) :
    m.toUInt64.toFloat.toModel.unpack = (Binary.ofNat m).unpacked := by
  change (Float.Model.pack (UnpackedFloat.ofUInt64 Format.binary64 m.toUInt64)).unpack = _
  rw [Binary.ofUInt64_eq hpos hlt, Binary.unpack_pack (Binary.isCanonical_ofNat hpos hlt)]

/-- A natural number of at most 53 bits is a double. -/
theorem holds_toFloat {m : ℕ} (hpos : 0 < m) (hlt : m < 2 ^ 53) :
    Holds m.toUInt64.toFloat m := by
  have hsignificand : 0 < (Binary.ofNat m).significand :=
    Nat.lt_of_lt_of_le (by decide) (Binary.significand_ofNat hpos hlt).1
  have hholds := Binary.holds_of_unpack (unpack_toFloat hpos hlt) rfl hsignificand
  rwa [Binary.size_ofNat hpos hlt] at hholds

/-- The quotient of two doubles is the double that is near. -/
theorem div_eq_toFloat {b : Binary} (hb : b.IsCanonical) (hpos : 0 < b.significand)
    (hsign : b.negative = false) {x y : Float} {v w : ℚ} (hx : Holds x v) (hy : Holds y w)
    (hnear : b.Near (v / w)) : x / y = b.toFloat := by
  obtain ⟨m, e, hm, hunpack, rfl⟩ := hx
  obtain ⟨n, f, hn, hunpack', rfl⟩ := hy
  change Float.ofModel (Float.Model.pack
    (UnpackedFloat.div Format.binary64 x.toModel.unpack y.toModel.unpack)) = _
  rw [hunpack, hunpack', div_eq hb hpos hm hn hnear, ← Binary.unpacked_of_pos hsign hpos]
  rfl

namespace Binary.Near

variable {b : Binary} {x : ℚ}

/-- What is near a positive double is no smaller than half of the least one. -/
theorem two_pow_le (h : b.Near x) (hb : b.IsCanonical) (hpos : 0 < b.significand) :
    (2 : ℚ) ^ (-1075 : ℤ) ≤ x := by
  have hone : (1 : ℚ) ≤ b.significand := by exact_mod_cast hpos
  have hmargin := b.lowerMargin_le
  calc (2 : ℚ) ^ (-1075 : ℤ) = 1 / 2 * 2 ^ (-1074 : ℤ) := by
        rw [show (-1075 : ℤ) = -1 + -1074 from rfl, zpow_add₀ (by norm_num)]
        norm_num
    _ ≤ (b.significand - b.lowerMargin) * 2 ^ b.exponent := by
      refine mul_le_mul (by linarith) ?_ (by positivity) (by linarith)
      exact zpow_le_zpow_right₀ (by norm_num) hb.le_exponent
    _ ≤ x := h.low

/-- What is near a double is less than the power of two behind the largest one. -/
theorem lt_two_pow (h : b.Near x) (hb : b.IsCanonical) : x < (2 : ℚ) ^ (1024 : ℤ) := by
  have hsignificand : (b.significand : ℚ) + 1 ≤ 2 ^ 53 := by exact_mod_cast hb.significand_lt
  calc x ≤ (b.significand + 1 / 2) * 2 ^ b.exponent := h.high
    _ < 2 ^ 53 * 2 ^ b.exponent := by
      refine mul_lt_mul_of_pos_right ?_ (by positivity)
      linarith
    _ = 2 ^ ((53 : ℕ) + b.exponent) := by
      rw [zpow_add₀ (by norm_num), zpow_natCast]
    _ ≤ 2 ^ (1024 : ℤ) := by
      refine zpow_le_zpow_right₀ (by norm_num) ?_
      have := hb.exponent_le
      omega

end Binary.Near

/-- A decimal fraction that is near a double does not have too many digits to be read. -/
theorem places_le {b : Binary} (hb : b.IsCanonical) (hpos : 0 < b.significand) {m k : ℕ}
    (hnear : b.Near ((m : ℚ) / 10 ^ k)) : k ≤ 2 ^ 11 + m.log2 := by
  by_contra h
  have hm : (m : ℚ) < 2 ^ (m.log2 + 1) := by exact_mod_cast Nat.lt_log2_self
  have hten : (2 : ℚ) ^ (m.log2 + 1 + 1075) ≤ 10 ^ k := by
    calc (2 : ℚ) ^ (m.log2 + 1 + 1075) ≤ 2 ^ k := pow_le_pow_right₀ (by norm_num) (by omega)
      _ ≤ 10 ^ k := by gcongr; norm_num
  have hlow := hnear.two_pow_le hb hpos
  rw [le_div_iff₀ (by positivity)] at hlow
  have hsplit : (2 : ℚ) ^ (m.log2 + 1) = 2 ^ (-1075 : ℤ) * 2 ^ (m.log2 + 1 + 1075) := by
    have hexponent : (-1075 : ℤ) + (m.log2 + 1 + 1075 : ℕ) = (m.log2 + 1 : ℕ) := by omega
    rw [← zpow_natCast, ← zpow_natCast, ← zpow_add₀ (by norm_num), hexponent]
  have hle : (2 : ℚ) ^ (m.log2 + 1) ≤ m := by
    calc (2 : ℚ) ^ (m.log2 + 1) = 2 ^ (-1075 : ℤ) * 2 ^ (m.log2 + 1 + 1075) := hsplit
      _ ≤ 2 ^ (-1075 : ℤ) * 10 ^ k := mul_le_mul_of_nonneg_left hten (by positivity)
      _ ≤ m := hlow
  exact absurd hm (not_lt.2 hle)

/-- **A decimal fraction that is near a double is read as the double.** -/
theorem ofScientific_eq {b : Binary} (hb : b.IsCanonical) (hpos : 0 < b.significand)
    (hsign : b.negative = false) {m k : ℕ} (hk : 0 < k) (hnear : b.Near ((m : ℚ) / 10 ^ k)) :
    Float.ofScientific m true k = b.toFloat := by
  have hm : 0 < m := by
    by_contra h
    have hx := hnear.pos hpos
    rw [Nat.eq_zero_of_not_pos h] at hx
    simp at hx
  rw [Float.ofScientific]
  split
  · next h =>
    have htable : k < Float.exactlyRepresentablePowersOfTen.size := by
      change k < 23
      omega
    -- The digits and the power of ten are doubles without an error, so only the division rounds.
    exact div_eq_toFloat hb hpos hsign (holds_toFloat hm h.1) (holds_powerOfTen htable) hnear
  · have hplaces := places_le hb hpos hnear
    have hexponent : Int.negOfNat k = -(k : Int) := by
      rw [Int.negOfNat_eq]
      rfl
    have hmodel : UnpackedFloat.ofScientific Format.binary64 m (-(k : Int)) = b.unpacked := by
      have hten : 0 < 10 ^ k := by positivity
      have hnear' : b.Near ((m : ℚ) * 2 ^ (0 : Int) / ((10 ^ k : ℕ) * 2 ^ (0 : Int))) := by
        simpa using hnear
      have hlarge : ¬ -(k : Int) > 2 ^ 11 := by omega
      have hsmall : ¬ -(k : Int) < -((2 ^ 11 : Int) + m.log2) := by omega
      have hnegative : ¬ 0 ≤ -(k : Int) := by omega
      rw [UnpackedFloat.ofScientific, dif_neg (Nat.ne_of_gt hm), if_neg hlarge, if_neg hsmall,
        if_neg hnegative]
      simp only [neg_neg, Int.toNat_natCast]
      rw [div_eq hb hpos hm hten hnear', Binary.unpacked_of_pos hsign hpos]
    simp only [if_true, hexponent, Float.Model.ofScientific, hmodel]
    rfl

end CurryLisp.Decimal
