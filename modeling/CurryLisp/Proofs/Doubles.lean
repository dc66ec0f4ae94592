import CurryLisp.Proofs.Doubles.Shortest
import CurryLisp.Proofs.Lexical

/-!
# Finite doubles are read back

The text of a finite double is read as the same double: an integer is written in full, and anything
else with digits that are closer to it than to any other double. Reading takes the double that is
nearest to the digits.

Statements:

* `ofPlaces_eq`: digits around a point are read as the double that they are near.
* `readBack_eq`: the text of a finite double is read as the double, with the sign of a zero.
-/

namespace CurryLisp.Decimal

/-! ## Digits -/

theorem digitValue_lt {c : Char} (hc : c.isDigit = true) : digitValue c < 10 := by
  rw [digitValue, if_pos hc]
  simp only [Char.isDigit, Bool.and_eq_true, decide_eq_true_eq] at hc
  have hle : c.toNat ≤ 57 := hc.2
  have hzero : '0'.toNat = 48 := rfl
  omega

theorem ofDigits_cons (c : Char) {cs : List Char}
    (hcs : ∀ d ∈ cs, d.isDigit = true) :
    ofDigits 10 (c :: cs) = digitValue c * 10 ^ cs.length + ofDigits 10 cs := by
  have hfirst : ofDigits 10 [c] = digitValue c := Nat.zero_add _
  rw [← List.singleton_append, ofDigits_append hcs, hfirst, Nat.ofDigitChars_eq_ofDigitChars_zero,
    Nat.mul_comm, ofDigits, foldl_digits hcs]

theorem ofDigits_lt {cs : List Char} (hcs : ∀ c ∈ cs, c.isDigit = true) :
    ofDigits 10 cs < 10 ^ cs.length := by
  induction cs with
  | nil => exact Nat.one_pos
  | cons c cs ih =>
    have hc := hcs c (List.mem_cons_self ..)
    have hcs' : ∀ d ∈ cs, d.isDigit = true := fun d hd => hcs d (List.mem_cons_of_mem _ hd)
    have hlt := digitValue_lt hc
    have hrest := ih hcs'
    rw [ofDigits_cons c hcs', List.length_cons, Nat.pow_succ']
    calc digitValue c * 10 ^ cs.length + ofDigits 10 cs
        < digitValue c * 10 ^ cs.length + 10 ^ cs.length := by omega
      _ = (digitValue c + 1) * 10 ^ cs.length := by ring
      _ ≤ 10 * 10 ^ cs.length := Nat.mul_le_mul_right _ hlt

/-- Zeros in front do not count. -/
theorem ofDigits_dropWhile {cs : List Char} (hcs : ∀ c ∈ cs, c.isDigit = true) :
    ofDigits 10 (cs.dropWhile (· = '0')) = ofDigits 10 cs := by
  induction cs with
  | nil => rfl
  | cons c cs ih =>
    have hcs' : ∀ d ∈ cs, d.isDigit = true := fun d hd => hcs d (List.mem_cons_of_mem _ hd)
    rw [List.dropWhile_cons]
    split
    · next hc =>
      rw [decide_eq_true_eq] at hc
      subst hc
      have hzero : digitValue '0' = 0 := rfl
      rw [ih hcs', ofDigits_cons _ hcs', hzero, Nat.zero_mul, Nat.zero_add]
    · rfl

/-- Without zeros in front the number of digits says how large the number is. -/
theorem ten_pow_le_ofDigits {c : Char} {cs : List Char} (hcs : ∀ d ∈ c :: cs, d.isDigit = true)
    (hc : c ≠ '0') : 10 ^ cs.length ≤ ofDigits 10 (c :: cs) := by
  have hdigit := hcs c (List.mem_cons_self ..)
  have hpos : 0 < digitValue c := by
    have hne : c.toNat ≠ 48 := fun h => hc (Char.toNat_inj.1 h)
    have hle : 48 ≤ c.toNat := by
      simp only [Char.isDigit, Bool.and_eq_true, decide_eq_true_eq] at hdigit
      exact hdigit.1
    rw [digitValue, if_pos hdigit]
    change 0 < c.toNat - 48
    omega
  rw [ofDigits_cons c fun d hd => hcs d (List.mem_cons_of_mem _ hd)]
  exact Nat.le_add_right_of_le (Nat.le_mul_of_pos_left _ hpos)

/-! ## Reading -/

theorem two_pow_le_ten_pow {n k : ℕ} (h : n ≤ 3 * k) : (2 : ℚ) ^ n ≤ 10 ^ k := by
  calc (2 : ℚ) ^ n ≤ 2 ^ (3 * k) := pow_le_pow_right₀ (by norm_num) h
    _ = (2 ^ 3) ^ k := pow_mul 2 3 k
    _ ≤ 10 ^ k := pow_le_pow_left₀ (by norm_num) (by norm_num) k

section Range

variable {b : Binary} {m digits places : ℕ} (hb : b.IsCanonical)
  (hnear : b.Near ((m : ℚ) / 10 ^ places))

include hb hnear

/-- Digits that are near a double other than zero do not make too small a number. -/
theorem not_small_of_near (hpos : 0 < b.significand) (hhigh : m < 10 ^ digits) :
    ¬ -(places : Int) + digits < -400 := by
  intro h
  obtain ⟨k, hk, hplaces⟩ : ∃ k, 401 ≤ k ∧ places = digits + k :=
    ⟨places - digits, by omega, by omega⟩
  have hhigh : (m : ℚ) < 10 ^ digits := by exact_mod_cast hhigh
  have hbelow := hnear.two_pow_le hb hpos
  have hinv : (2 : ℚ) ^ (-1075 : ℤ) * 2 ^ 1075 = 1 := by
    rw [← zpow_natCast, ← zpow_add₀ (by norm_num)]
    norm_num
  have hone : (1 : ℚ) ≤ 2 ^ (-1075 : ℤ) * 10 ^ k := by
    rw [← hinv]
    exact mul_le_mul_of_nonneg_left (two_pow_le_ten_pow (by omega)) (by positivity)
  have hle : (10 : ℚ) ^ digits ≤ m := by
    calc (10 : ℚ) ^ digits ≤ 10 ^ digits * (2 ^ (-1075 : ℤ) * 10 ^ k) :=
          le_mul_of_one_le_right (by positivity) hone
      _ = 2 ^ (-1075 : ℤ) * 10 ^ places := by
        rw [hplaces, pow_add]
        ring
      _ ≤ m := (le_div_iff₀ (by positivity)).1 hbelow
  exact absurd hhigh (not_lt.2 hle)

/-- Digits that are near a double do not make too large a number. -/
theorem not_large_of_near (hlow : 10 ^ digits ≤ 10 * m) : ¬ 400 < -(places : Int) + digits := by
  intro h
  obtain ⟨k, hk, hdigits⟩ : ∃ k, 400 ≤ k ∧ digits = places + k + 1 :=
    ⟨digits - places - 1, by omega, by omega⟩
  have hlow : (10 : ℚ) ^ digits ≤ 10 * m := by exact_mod_cast hlow
  have hle : (10 : ℚ) ^ k ≤ m / 10 ^ places := by
    rw [hdigits, pow_succ, pow_add] at hlow
    rw [le_div_iff₀ (by positivity)]
    linarith
  have hlt : (10 : ℚ) ^ k < 2 ^ 1024 := by
    have habove := hnear.lt_two_pow hb
    rw [zpow_ofNat] at habove
    exact lt_of_le_of_lt hle habove
  exact absurd hlt (not_lt.2 (two_pow_le_ten_pow (by omega)))

/-- **A decimal fraction that is near a double is read as the double**, since it is neither too large
nor too small to be looked at. -/
theorem nearestDouble_eq (hpos : 0 < b.significand) (hsign : b.negative = false)
    (hplaces : 0 < places) (hlow : 10 ^ digits ≤ 10 * m) (hhigh : m < 10 ^ digits) :
    nearestDouble m digits (-(places : Int)) = b.toFloat := by
  have hm : m ≠ 0 := by
    have hx := hnear.pos hpos
    rintro rfl
    simp at hx
  have hnegative : -(places : Int) < 0 := by omega
  have hcondition : ¬ (decide (m = 0) || decide (-(places : Int) + digits < -400)) = true := by
    simp [hm, not_small_of_near hb hnear hpos hhigh]
  rw [nearestDouble, if_neg hcondition, if_neg (not_large_of_near hb hnear hlow),
    decide_eq_true hnegative, Int.natAbs_neg, Int.natAbs_natCast]
  exact ofScientific_eq hb hpos hsign hplaces hnear

end Range

/-- No digits but zeros are read as zero. -/
theorem ofPlaces_of_zero {whole places : List Char} (hwhole : AreDigits whole)
    (hplaces : AreDigits places) (h : ofDigits 10 (whole ++ places) = 0) :
    ofPlaces whole places = 0.0 := by
  have hdigits : ∀ c ∈ whole ++ places, c.isDigit = true := fun c hc =>
    (List.mem_append.1 hc).elim (hwhole.isDigit c) (hplaces.isDigit c)
  rw [ofPlaces]
  simp only [ofDigits_dropWhile hdigits, h]
  rfl

/-- **Digits around a point are read as the double that they are near.** -/
theorem ofPlaces_eq {b : Binary} (hb : b.IsCanonical) (hpos : 0 < b.significand)
    (hsign : b.negative = false) {whole places : List Char} (hwhole : AreDigits whole)
    (hplaces : AreDigits places)
    (hnear : b.Near ((ofDigits 10 (whole ++ places) : ℚ) / 10 ^ places.length)) :
    ofPlaces whole places = b.toFloat := by
  have hdigits : ∀ c ∈ whole ++ places, c.isDigit = true := fun c hc =>
    (List.mem_append.1 hc).elim (hwhole.isDigit c) (hplaces.isDigit c)
  have hlength : 0 < places.length := List.length_pos_iff.2 hplaces.ne_nil
  have hstripped : ∀ c ∈ (whole ++ places).dropWhile (· = '0'), c.isDigit = true :=
    fun c hc => hdigits c ((List.dropWhile_suffix _).subset hc)
  rw [← ofDigits_dropWhile hdigits] at hnear
  refine nearestDouble_eq hb hnear hpos hsign hlength ?_ (ofDigits_lt hstripped)
  cases hcs : (whole ++ places).dropWhile (· = '0') with
  | nil =>
    have hx := hnear.pos hpos
    rw [hcs] at hx
    simp [ofDigits] at hx
  | cons c cs =>
    have hc : c ≠ '0' := by
      have hhead := List.head?_dropWhile_not (fun c => decide (c = '0')) (whole ++ places)
      simpa [hcs] using hhead
    rw [List.length_cons, Nat.pow_succ']
    exact Nat.mul_le_mul_left _ (ten_pow_le_ofDigits (hcs ▸ hstripped) hc)

/-! ## Writing and reading -/

/-- The double without its sign. -/
def Binary.abs (b : Binary) : Binary := { b with negative := false }

theorem Binary.IsCanonical.abs {b : Binary} (hb : b.IsCanonical) : b.abs.IsCanonical :=
  ⟨hb.significand_lt, hb.le_exponent, hb.exponent_le, hb.normal⟩

theorem Binary.Near.abs {b : Binary} {x : ℚ} (h : b.Near x) : b.abs.Near x :=
  ⟨h.low, h.high, h.odd⟩

theorem Binary.unpacked_abs_neg {b : Binary} (hsign : b.negative = true) :
    b.abs.unpacked.neg = b.unpacked := by
  by_cases hpos : 0 < b.significand
  · have habs : b.abs.unpacked = .finite .positive b.significand b.exponent hpos :=
      @unpacked_of_pos b.abs rfl hpos
    rw [habs, unpacked, dif_pos hpos, modelSign, hsign]
    rfl
  · have habs : b.abs.unpacked = .zero .positive := dif_neg hpos
    rw [habs, unpacked, dif_neg hpos, modelSign, hsign]
    rfl

theorem Binary.toFloat_of_sign {b : Binary} (hb : b.IsCanonical) :
    (if b.negative then -b.abs.toFloat else b.abs.toFloat) = b.toFloat := by
  split
  · next hsign =>
    change Float.ofModel (Float.Model.pack (Float.Model.pack b.abs.unpacked).unpack.neg) = _
    rw [unpack_pack hb.abs, unpacked_abs_neg hsign]
    rfl
  · next hsign =>
    have habs : b.abs = b := by
      rw [Bool.not_eq_true] at hsign
      rw [abs, ← hsign]
    rw [habs]

/-- An integer in full is read as the double that it is. -/
theorem ofPlaces_integral {b : Binary} (hb : b.IsCanonical) (hintegral : b.isIntegral = true) :
    ofPlaces (Nat.toDigits 10 b.wholePart) ['0'] = b.abs.toFloat := by
  have hzeros : ['0'] = (zeros 1).toList := by decide
  have hvalue : ofDigits 10 (Nat.toDigits 10 b.wholePart ++ ['0']) = 10 ^ 1 * b.wholePart := by
    rw [hzeros, ofDigits_append_zeros, ofDigits_toDigits]
  by_cases hpos : 0 < b.significand
  · have hdenominator : (b.denominator : ℚ) ≠ 0 := by
      exact_mod_cast Nat.ne_of_gt b.denominator_pos
    have hwhole : (b.wholePart : ℚ) * b.denominator = b.numerator := by
      exact_mod_cast Binary.wholePart_mul_denominator hintegral
    have hsize : ((ofDigits 10 (Nat.toDigits 10 b.wholePart ++ ['0']) : ℕ) : ℚ) /
        10 ^ (['0'] : List Char).length = b.size := by
      rw [hvalue, ← b.numerator_div_denominator, ← hwhole, mul_div_cancel_right₀ _ hdenominator]
      push_cast
      exact mul_div_cancel_left₀ _ (by norm_num)
    refine ofPlaces_eq hb.abs hpos rfl (AreDigits.toDigits _) AreDigits.zero ?_
    rw [hsize]
    exact b.near_size.abs
  · have hzero : b.abs.toFloat = 0.0 := by
      have habs : b.abs.unpacked = .zero .positive := dif_neg hpos
      rw [Binary.toFloat, habs]
      decide +kernel
    have hwhole : b.wholePart = 0 := by
      rw [Binary.wholePart, Binary.numerator, Nat.eq_zero_of_not_pos hpos, Nat.zero_mul,
        Nat.zero_div]
    rw [hwhole, Nat.mul_zero] at hvalue
    rw [hzero, hwhole]
    exact ofPlaces_of_zero (AreDigits.toDigits _) AreDigits.zero hvalue

/-- The fewest digits are read as the double that they are written for. -/
theorem ofPlaces_shortest {b : Binary} (hb : b.IsCanonical) (hpos : 0 < b.significand)
    {whole places : List Char} (hwhole : AreDigits whole) (hplaces : AreDigits places)
    (hvalue : ofDigits 10 (whole ++ places) * 10 ^ (-(Digits.shortest b).exponent).toNat =
      (Digits.shortest b).value * 10 ^ ((Digits.shortest b).exponent.toNat + places.length)) :
    ofPlaces whole places = b.abs.toFloat := by
  have hnear := Digits.near_shortest hb hpos
  generalize Digits.shortest b = d at hvalue hnear
  have hvalue : (ofDigits 10 (whole ++ places) : ℚ) * 10 ^ (-d.exponent).toNat =
      d.value * 10 ^ (d.exponent.toNat + places.length) := by exact_mod_cast hvalue
  have hsize : ((ofDigits 10 (whole ++ places) : ℕ) : ℚ) / 10 ^ places.length = d.size := by
    rw [Digits.size, zpow_eq_div (by norm_num), ← mul_div_assoc,
      div_eq_div_iff (by positivity) (by positivity), hvalue, pow_add]
    ring
  refine ofPlaces_eq hb.abs hpos rfl hwhole hplaces ?_
  rw [hsize]
  exact hnear.abs

/-- The text of a finite double is its sign and digits that are read as the double without it. -/
theorem exists_places {x : Float} (hx : x.isFinite = true) :
    ∃ whole places, (written x).toList = minus (Binary.ofFloat x).negative ++
        (whole ++ '.' :: places) ∧
      AreDigits whole ∧ AreDigits places ∧
      ofPlaces whole places = (Binary.ofFloat x).abs.toFloat := by
  have hb := Binary.isCanonical_ofFloat hx
  have hsign : (sign (Binary.ofFloat x)).toList = minus (Binary.ofFloat x).negative := by
    unfold sign minus
    split <;> rfl
  unfold written
  rw [if_pos hx]
  dsimp only
  generalize Binary.ofFloat x = b at hb hsign
  rw [String.toList_append, hsign]
  split
  · next hintegral =>
    exact ⟨Nat.toDigits 10 b.wholePart, ['0'], by simp, AreDigits.toDigits _, AreDigits.zero,
      ofPlaces_integral hb hintegral⟩
  · next hfraction =>
    -- Zero is integral, so a double that is not has digits to be written.
    have hpos : 0 < b.significand := by
      by_contra h
      rw [Binary.isIntegral, Binary.numerator, Nat.eq_zero_of_not_pos h, Nat.zero_mul,
        Nat.zero_mod] at hfraction
      exact hfraction rfl
    obtain ⟨whole, places, heq, hwhole, hplaces, hvalue⟩ := positional_eq (Digits.shortest b)
    exact ⟨whole, places, by rw [heq], hwhole, hplaces,
      ofPlaces_shortest hb hpos hwhole hplaces hvalue⟩

/-- **The text of a finite double is read as the double.** -/
theorem readBack_eq {x : Float} (hx : x.isFinite = true) : readBack x = x := by
  obtain ⟨whole, places, heq, hwhole, hplaces, hvalue⟩ := exists_places hx
  have hnumber := Token.takeNumber_decimal hwhole hplaces (Binary.ofFloat x).negative
  rw [← heq, hvalue, Binary.toFloat_of_sign (Binary.isCanonical_ofFloat hx),
    Binary.toFloat_ofFloat hx] at hnumber
  rw [readBack, hnumber]

/-- A finite double is equal to itself. -/
theorem beq_self_of_isFinite {x : Float} (hx : x.isFinite = true) : (x == x) = true := by
  rw [Float.beq_self_iff]
  rintro rfl
  exact absurd hx (by decide +kernel)

end CurryLisp.Decimal
