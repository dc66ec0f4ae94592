import CurryLisp.Decimal.Shortest
import CurryLisp.Proofs.Doubles.Rounding

/-!
# The fewest digits lie near the double

The digits that are written for a double lie in the interval around it, so they are closer to it than
to any other double. The search finds digits: a grid of seventeen digits is finer than the interval.

Statements:

* `Digits.near_of_contains`: what lies in the interval around a double is near it.
* `Digits.exists_onGrid`: a grid that is fine enough has a point in the interval.
* `Digits.near_shortest`: the fewest digits are near the double.
-/

namespace CurryLisp.Decimal

/-- The magnitude of the digits. -/
def Digits.size (d : Digits) : ℚ := d.value * 10 ^ d.exponent

namespace Digits

variable {b : Binary}

/-! ## The interval around a double -/

theorem around_low (hpos : 0 < b.significand) :
    ((Interval.around b).low : ℚ) =
      (b.significand - b.lowerMargin) * (4 * (2 ^ b.exponent.toNat : ℕ)) := by
  have hunit : 0 < 2 ^ b.exponent.toNat := by positivity
  have hmul : 2 ^ b.exponent.toNat ≤ b.significand * 2 ^ b.exponent.toNat :=
    Nat.le_mul_of_pos_left _ hpos
  simp only [Interval.around, Binary.numerator, Nat.pow_eq, Binary.lowerMargin]
  generalize 2 ^ b.exponent.toNat = unit at *
  by_cases h : b.significand = 2 ^ 52 ∧ b.exponent ≠ -1074
  · have hcondition : (decide (b.significand = 2 ^ 52) && b.exponent != -1074) = true := by
      simp [h]
    rw [if_pos hcondition, if_pos h, Nat.cast_sub (by omega)]
    push_cast
    ring
  · have hcondition : ¬ (decide (b.significand = 2 ^ 52) && b.exponent != -1074) = true := by
      simpa using h
    rw [if_neg hcondition, if_neg h, Nat.cast_sub (by omega)]
    push_cast
    ring

theorem around_high (b : Binary) :
    ((Interval.around b).high : ℚ) = (b.significand + 1 / 2) * (4 * (2 ^ b.exponent.toNat : ℕ)) := by
  simp only [Interval.around, Binary.numerator, Nat.pow_eq]
  push_cast
  ring

/-- **What lies in the interval around a double is near it.** -/
theorem near_of_contains (hpos : 0 < b.significand) {num scale : ℕ} (hscale : 0 < scale)
    (h : (Interval.around b).contains num scale = true) :
    b.Near ((num : ℚ) / (scale * (4 * b.denominator))) := by
  have hscale' : (0 : ℚ) < scale := by exact_mod_cast hscale
  have hdenominator : (0 : ℚ) < b.denominator := by exact_mod_cast b.denominator_pos
  have hend (v : ℚ) : v * 2 ^ b.exponent =
      v * (4 * (2 ^ b.exponent.toNat : ℕ)) * scale / (scale * (4 * b.denominator)) := by
    rw [b.two_zpow_exponent]
    field_simp
  -- The ends belong to the interval exactly if the significand is even, as a tie is rounded to even.
  have hlow := around_low hpos
  have hhigh := around_high b
  have hclosed : (Interval.around b).closed = decide (b.significand % 2 = 0) := rfl
  unfold Interval.contains at h
  split at h
  · next heven =>
    rw [hclosed, decide_eq_true_eq] at heven
    simp only [Bool.and_eq_true, decide_eq_true_eq] at h
    obtain ⟨hbelow, habove⟩ := h
    have hbelow : ((Interval.around b).low : ℚ) * scale ≤ num := by exact_mod_cast hbelow
    have habove : (num : ℚ) ≤ (Interval.around b).high * scale := by exact_mod_cast habove
    rw [hlow] at hbelow
    rw [hhigh] at habove
    refine ⟨?_, ?_, fun hodd => by omega⟩
    · rw [hend]
      gcongr
    · rw [hend]
      gcongr
  · simp only [Bool.and_eq_true, decide_eq_true_eq] at h
    obtain ⟨hbelow, habove⟩ := h
    have hbelow : ((Interval.around b).low : ℚ) * scale < num := by exact_mod_cast hbelow
    have habove : (num : ℚ) < (Interval.around b).high * scale := by exact_mod_cast habove
    rw [hlow] at hbelow
    rw [hhigh] at habove
    have hbelow' : (b.significand - b.lowerMargin) * 2 ^ b.exponent <
        (num : ℚ) / (scale * (4 * b.denominator)) := by
      rw [hend]
      gcongr
    have habove' : (num : ℚ) / (scale * (4 * b.denominator)) <
        (b.significand + 1 / 2) * 2 ^ b.exponent := by
      rw [hend]
      gcongr
    exact ⟨le_of_lt hbelow', le_of_lt habove', fun _ => ⟨hbelow', habove'⟩⟩

/-! ## Grids -/

/-- A multiple of a power of ten, as the quotient that is compared with the interval. -/
theorem grid_quotient (b : Binary) (value : ℕ) (exponent : ℤ) :
    ((value * ((Interval.around b).den * Nat.pow 10 exponent.toNat) : ℕ) : ℚ) /
        ((Nat.pow 10 (-exponent).toNat : ℕ) * (4 * b.denominator)) = value * 10 ^ exponent := by
  have hdenominator : (b.denominator : ℚ) ≠ 0 := by exact_mod_cast Nat.ne_of_gt b.denominator_pos
  rw [zpow_eq_div (by norm_num)]
  simp only [Interval.around, Nat.pow_eq]
  push_cast
  field_simp

/-- A point of a grid that is found is near the double. -/
theorem near_of_onGrid (hpos : 0 < b.significand) {exponent : ℤ} {d : Digits}
    (h : onGrid (Interval.around b) exponent = some d) : b.Near d.size := by
  have hscale : 0 < Nat.pow 10 (-exponent).toNat := Nat.pow_pos (by decide)
  have hpoint (value : ℕ) (hvalue : (Interval.around b).contains
      (value * ((Interval.around b).den * Nat.pow 10 exponent.toNat))
      (Nat.pow 10 (-exponent).toNat) = true) : b.Near (size ⟨value, exponent⟩) := by
    have hnear := near_of_contains hpos hscale hvalue
    rwa [grid_quotient] at hnear
  unfold onGrid at h
  dsimp only at h
  split at h
  · next hup =>
    cases h
    rw [Bool.and_eq_true] at hup
    exact hpoint _ hup.1
  · split at h
    · next hdown =>
      cases h
      exact hpoint _ hdown
    · cases h

/-- The interval is at least three quarters of a unit wide, and a double has less than `2 ^ 53`
units. -/
theorem mid_lt_width (hb : b.IsCanonical) (hpos : 0 < b.significand) :
    (Interval.around b).mid + 10 ^ 16 * (Interval.around b).low <
      10 ^ 16 * (Interval.around b).high := by
  have hlow := around_low hpos
  have hhigh := around_high b
  have hmid : ((Interval.around b).mid : ℚ) = b.significand * (4 * (2 ^ b.exponent.toNat : ℕ)) := by
    simp only [Interval.around, Binary.numerator, Nat.pow_eq]
    push_cast
    ring
  have hunit : (0 : ℚ) < 4 * (2 ^ b.exponent.toNat : ℕ) := by positivity
  have hwidth : (b.significand : ℚ) + 10 ^ 16 * (b.significand - b.lowerMargin) <
      10 ^ 16 * (b.significand + 1 / 2) := by
    have hlt : (b.significand : ℚ) < 2 ^ 53 := by exact_mod_cast hb.significand_lt
    unfold Binary.lowerMargin
    split
    · next h =>
      rw [h.1]
      norm_num
    · linarith
  have hscaled := mul_lt_mul_of_pos_right hwidth hunit
  have hgoal : ((Interval.around b).mid : ℚ) + 10 ^ 16 * (Interval.around b).low <
      10 ^ 16 * (Interval.around b).high := by
    rw [hmid, hlow, hhigh]
    linarith
  exact_mod_cast hgoal

theorem contains_of_lt {i : Interval} {num scale : ℕ} (hlow : i.low * scale < num)
    (hhigh : num < i.high * scale) : i.contains num scale = true := by
  unfold Interval.contains
  split
  · simp [le_of_lt hlow, le_of_lt hhigh]
  · simp [hlow, hhigh]

/-- Of the two points of a fine grid next to the middle, one lies in the interval. -/
theorem contains_below_or_above (hb : b.IsCanonical) (hpos : 0 < b.significand) {gap scale : ℕ}
    (hgap : 0 < gap) (hscale : 0 < scale)
    (hfine : 10 ^ 16 * gap ≤ (Interval.around b).mid * scale) :
    (Interval.around b).contains ((Interval.around b).mid * scale / gap * gap) scale = true ∨
      (Interval.around b).contains (((Interval.around b).mid * scale / gap + 1) * gap) scale =
        true := by
  have hwidth := mid_lt_width hb hpos
  have hlow : (Interval.around b).low ≤ (Interval.around b).mid := Nat.sub_le _ _
  have hhigh : (Interval.around b).mid < (Interval.around b).high :=
    Nat.lt_add_of_pos_right (Nat.mul_pos (by decide) (Nat.pow_pos (by decide)))
  generalize Interval.around b = i at *
  have hbelow : i.mid * scale / gap * gap ≤ i.mid * scale := Nat.div_mul_le_self _ _
  have habove : i.mid * scale < (i.mid * scale / gap + 1) * gap := by
    rw [Nat.mul_comm _ gap]
    exact Nat.lt_mul_div_succ _ hgap
  have hlow' : i.low * scale ≤ i.mid * scale := Nat.mul_le_mul_right _ hlow
  have hhigh' : i.mid * scale < i.high * scale := Nat.mul_lt_mul_of_pos_right hhigh hscale
  have hwidth' := Nat.mul_lt_mul_of_pos_right hwidth hscale
  rw [Nat.succ_mul] at habove ⊢
  by_cases hin : i.low * scale < i.mid * scale / gap * gap
  · exact .inl (contains_of_lt hin (by omega))
  · refine .inr (contains_of_lt (by omega) ?_)
    -- Otherwise the interval would be no wider than the gap between the two points.
    by_contra hout
    rw [Nat.add_mul, Nat.mul_assoc, Nat.mul_assoc] at hwidth'
    omega

/-- **A grid whose points lie close enough has a point in the interval.** -/
theorem exists_onGrid (hb : b.IsCanonical) (hpos : 0 < b.significand) {exponent : ℤ}
    (hfine : (10 : ℚ) ^ 16 * 10 ^ exponent ≤ b.size) :
    ∃ d, onGrid (Interval.around b) exponent = some d := by
  have hscale : 0 < Nat.pow 10 (-exponent).toNat := Nat.pow_pos (by decide)
  have hgap : 0 < (Interval.around b).den * Nat.pow 10 exponent.toNat :=
    Nat.mul_pos (Nat.mul_pos (by decide) b.denominator_pos) (Nat.pow_pos (by decide))
  have hfine' : 10 ^ 16 * ((Interval.around b).den * Nat.pow 10 exponent.toNat) ≤
      (Interval.around b).mid * Nat.pow 10 (-exponent).toNat := by
    have hgrid := grid_quotient b 1 exponent
    rw [Nat.one_mul, Nat.cast_one, one_mul] at hgrid
    have hscale' : (0 : ℚ) < (Nat.pow 10 (-exponent).toNat : ℕ) := by exact_mod_cast hscale
    have hdenominator : (0 : ℚ) < b.denominator := by exact_mod_cast b.denominator_pos
    have hmid : (((Interval.around b).mid * Nat.pow 10 (-exponent).toNat : ℕ) : ℚ) /
        ((Nat.pow 10 (-exponent).toNat : ℕ) * (4 * b.denominator)) = b.size := by
      rw [← b.numerator_div_denominator]
      simp only [Interval.around]
      push_cast
      field_simp
    rw [← hgrid, ← hmid, ← mul_div_assoc,
      div_le_div_iff_of_pos_right (by positivity)] at hfine
    exact_mod_cast hfine
  -- The search tries the two points next to the middle, one of which lies in the interval.
  have hpoints := contains_below_or_above hb hpos hgap hscale hfine'
  unfold onGrid
  dsimp only
  split
  · exact ⟨_, rfl⟩
  · next hup =>
    split
    · exact ⟨_, rfl⟩
    · next hdown =>
      rcases hpoints with hpoint | hpoint
      · exact absurd hpoint hdown
      · rw [Bool.not_eq_true] at hdown
        simp only [hpoint, hdown] at hup
        exact absurd rfl hup

/-! ## The size of a quotient -/

/-- The digits of a number, counted by powers of ten. -/
theorem count_le_iff {n k : ℕ} (hk : 0 < k) : count n ≤ k ↔ n < 10 ^ k :=
  Nat.length_toDigits_le_iff (by decide) hk

theorem count_pos (n : ℕ) : 0 < count n := Nat.length_toDigits_pos

theorem lt_ten_pow_count (n : ℕ) : n < 10 ^ count n := (count_le_iff (count_pos n)).1 (le_refl _)

theorem ten_pow_count_le {n : ℕ} (hn : 0 < n) : 10 ^ (count n - 1) ≤ n := by
  by_cases h : count n = 1
  · rw [h]
    exact hn
  · have hpos := count_pos n
    by_contra hlt
    have hle := (count_le_iff (n := n) (k := count n - 1) (by omega)).2 (Nat.not_le.1 hlt)
    omega

/-- The exponent found for a quotient is not too large. -/
theorem ten_zpow_magnitude_le {num den : ℕ} (hnum : 0 < num) (hden : 0 < den) :
    (10 : ℚ) ^ magnitude num den ≤ num / den := by
  have hnum' : (0 : ℚ) < num := by exact_mod_cast hnum
  have hden' : (0 : ℚ) < den := by exact_mod_cast hden
  unfold magnitude
  split
  · next hle =>
    have hquotient := ten_pow_count_le (Nat.div_pos hle hden)
    have hexponent : (count (num / den) : ℤ) - 1 = (count (num / den) - 1 : ℕ) := by
      have := count_pos (num / den)
      omega
    rw [hexponent, zpow_natCast]
    calc (10 : ℚ) ^ (count (num / den) - 1) ≤ (num / den : ℕ) := by exact_mod_cast hquotient
      _ ≤ num / den := Nat.cast_div_le
  · dsimp only
    split
    · next heq =>
      have hexponent : 1 - (count (den / num) : ℤ) = -(count (den / num) - 1 : ℕ) := by
        have := count_pos (den / num)
        omega
      have heq : (num : ℚ) * 10 ^ (count (den / num) - 1) = den := by exact_mod_cast heq
      rw [hexponent, zpow_neg, zpow_natCast, ← heq]
      field_simp
      rfl
    · have hlt : den < num * 10 ^ count (den / num) := by
        rw [Nat.mul_comm]
        exact (Nat.div_lt_iff_lt_mul hnum).1 (lt_ten_pow_count _)
      have hlt : (den : ℚ) < num * 10 ^ count (den / num) := by exact_mod_cast hlt
      rw [zpow_neg, zpow_natCast, inv_le_comm₀ (by positivity) (by positivity), inv_div,
        div_le_iff₀ hnum', mul_comm]
      exact le_of_lt hlt

/-! ## The search -/

theorem size_stripZeros (n : ℕ) (d : Digits) : (stripZeros n d).size = d.size := by
  induction n generalizing d with
  | zero => rfl
  | succ n ih =>
    rw [stripZeros]
    split
    · next h =>
      simp only [Bool.and_eq_true, decide_eq_true_eq] at h
      have hvalue : d.value = d.value / 10 * 10 := by omega
      have hvalue : (d.value : ℚ) = (d.value / 10 : ℕ) * 10 := by exact_mod_cast hvalue
      rw [ih, size, size, hvalue, zpow_add_one₀ (by norm_num)]
      ring
    · rfl

/-- **The fewest digits are near the double.** -/
theorem near_shortest (hb : b.IsCanonical) (hpos : 0 < b.significand) :
    b.Near (shortest b).size := by
  have hmid : 0 < (Interval.around b).mid :=
    Nat.mul_pos (by decide) (Nat.mul_pos hpos (Nat.pow_pos (by decide)))
  have hden : 0 < (Interval.around b).den := Nat.mul_pos (by decide) b.denominator_pos
  have hmagnitude := ten_zpow_magnitude_le hmid hden
  have hsize : ((Interval.around b).mid : ℚ) / (Interval.around b).den = b.size := by
    rw [← b.numerator_div_denominator]
    simp only [Interval.around]
    push_cast
    exact mul_div_mul_left _ _ (by norm_num)
  rw [hsize] at hmagnitude
  -- Seventeen digits make a grid that is fine enough.
  have hfine : (10 : ℚ) ^ 16 *
      10 ^ (magnitude (Interval.around b).mid (Interval.around b).den - (16 : ℕ)) ≤ b.size := by
    rw [zpow_sub₀ (by norm_num), zpow_natCast, mul_div_cancel₀ _ (by norm_num)]
    exact hmagnitude
  obtain ⟨d₁₆, hd₁₆⟩ := exists_onGrid hb hpos hfine
  unfold shortest
  dsimp only
  split
  · next d hd =>
    obtain ⟨n, -, hn⟩ := List.exists_of_findSome?_eq_some hd
    rw [size_stripZeros]
    exact near_of_onGrid hpos hn
  · next hnone =>
    have hcontra := List.findSome?_eq_none_iff.1 hnone 16 (by simp)
    rw [hd₁₆] at hcontra
    cases hcontra

end Digits

end CurryLisp.Decimal
