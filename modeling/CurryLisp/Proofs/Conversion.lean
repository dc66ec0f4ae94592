import CurryLisp.Proofs.Comparison

/-!
# Conversion of numbers

A float is converted to the integer that remains without its fraction, and a number to the character
of which it is the code. A conversion fails where there is no such integer or character.

Floats are refused from `integerLimit` on, in both directions. That limit is a float below the end of
the range of integers, `2 ^ 63 - 1024`, and not behind it; so three floats are refused that are
integers in range (`Number.Refused`): the limit, its negation, and `-2 ^ 63`. There are no others,
because the next float above the limit is `2 ^ 63`.

Statements:

* `Decimal.truncate_eq`: what is computed from the parts of a float is its integral part.
* `Number.truncate?_eq_some_iff`: which floats are converted, and to what.
* `Session.conversion`: conversion to integers, except for the three floats, and to characters.
-/

namespace CurryLisp

open Decimal Decimal.Binary

namespace Decimal

/-! ## Integral parts -/

/-- A number without its fraction. -/
def towardZero (q : ℚ) : ℤ := if 0 ≤ q then ⌊q⌋ else ⌈q⌉

theorem towardZero_of_nonneg {q : ℚ} (hq : 0 ≤ q) : towardZero q = ⌊q⌋ := if_pos hq

theorem towardZero_neg {q : ℚ} (hq : 0 ≤ q) : towardZero (-q) = -⌊q⌋ := by
  rcases hq.eq_or_lt with rfl | hpos
  · rw [neg_zero, towardZero_of_nonneg (le_refl 0), Int.floor_zero, neg_zero]
  · rw [towardZero, if_neg (by linarith), Int.ceil_neg]

theorem towardZero_intCast (z : ℤ) : towardZero (z : ℚ) = z := by
  rw [towardZero, Int.floor_intCast, Int.ceil_intCast, ite_self]

theorem floor_size (b : Binary) : ⌊b.size⌋ = b.wholePart := by
  rw [← numerator_div_denominator, Rat.floor_natCast_div_natCast, wholePart, Int.natCast_ediv]

/-- The integer that is found from the parts of a float. -/
theorem truncate_eq (b : Binary) : b.truncate = towardZero b.value := by
  unfold truncate value
  cases b.negative
  · exact (floor_size b).symm.trans (towardZero_of_nonneg b.size_nonneg).symm
  · show -(b.wholePart : ℤ) = towardZero (-b.size)
    rw [towardZero_neg b.size_nonneg, floor_size]

/-- The integral part of a number has the integral part of its magnitude. -/
theorem natAbs_towardZero_value (b : Binary) : (towardZero b.value).natAbs = b.wholePart := by
  rw [← truncate_eq, truncate]
  split <;> simp

end Decimal

namespace Number

/-! ## The limit -/

/-- The limit by its parts: the largest float below `2 ^ 63`. -/
def limitParts : Binary := ⟨false, 2 ^ 53 - 1, 10⟩

/-- The end of the range of integers as a float. -/
def endParts : Binary := ⟨false, 2 ^ 52, 11⟩

theorem isCanonical_limitParts : limitParts.IsCanonical := by
  constructor <;> decide

theorem isCanonical_endParts : endParts.IsCanonical := by
  constructor <;> decide

theorem size_limitParts : limitParts.size = 2 ^ 63 - 1024 := by
  norm_num [limitParts, size]

theorem size_endParts : endParts.size = 2 ^ 63 := by
  norm_num [endParts, size]

theorem isFinite_integerLimit : integerLimit.isFinite = true := by decide +kernel

theorem ofFloat_integerLimit : ofFloat integerLimit = limitParts := by decide +kernel

/-- The floats that are integers of 64 bits, and are refused as too large. -/
def Refused (x : Float) : Prop :=
  x.isFinite = true ∧ ((ofFloat x).value = 2 ^ 63 - 1024 ∨ (ofFloat x).value = -(2 ^ 63 - 1024) ∨
    (ofFloat x).value = -2 ^ 63)

section Limit

variable {x : Float} (hx : x.isFinite = true)

include hx

theorem abs_lt_integerLimit_iff : x.abs < integerLimit ↔ (ofFloat x).size < 2 ^ 63 - 1024 := by
  have hb := isCanonical_ofFloat hx
  have habs : x.abs = (ofFloat x).abs.toFloat := by
    change Float.ofModel (Float.Model.pack x.toModel.unpack.abs) = _
    have hparts : (ofFloat x).unpacked.abs = (ofFloat x).abs.unpacked := by
      unfold unpacked Binary.abs
      split <;> rfl
    rw [unpack_eq hx, hparts]
    rfl
  have hvalue : (ofFloat x.abs).value = (ofFloat x).size := by
    rw [habs, value_ofFloat_toFloat hb.abs]
    exact if_neg Bool.false_ne_true
  have hfinite : x.abs.isFinite = true := by
    rw [habs]
    exact isFinite_toFloat hb.abs
  have hlimit : (ofFloat integerLimit).value = 2 ^ 63 - 1024 := by
    rw [ofFloat_integerLimit, ← size_limitParts]
    rfl
  rw [lt_iff_value hfinite isFinite_integerLimit, hvalue, hlimit]

/-- A float that is not below the limit is the limit, the end of the range, or behind it. -/
theorem size_of_not_lt (h : ¬(ofFloat x).size < 2 ^ 63 - 1024) :
    (ofFloat x).size = 2 ^ 63 - 1024 ∨ (ofFloat x).size = 2 ^ 63 ∨
      2 ^ 63 + 2048 ≤ (ofFloat x).size := by
  have hb := isCanonical_ofFloat hx
  rcases (not_lt.1 h).eq_or_lt with heq | hgt
  · exact .inl heq.symm
  · rw [← size_limitParts] at hgt
    have hend := add_unit_le isCanonical_limitParts hb hgt
    have hnext : ((limitParts.significand : ℚ) + 1) * 2 ^ limitParts.exponent = 2 ^ 63 := by
      norm_num [limitParts]
    rw [hnext] at hend
    rcases hend.eq_or_lt with heq | hgt
    · exact .inr (.inl heq.symm)
    · rw [← size_endParts] at hgt
      have hbehind := add_unit_le isCanonical_endParts hb hgt
      have hnext : ((endParts.significand : ℚ) + 1) * 2 ^ endParts.exponent = 2 ^ 63 + 2048 := by
        norm_num [endParts]
      rw [hnext] at hbehind
      exact .inr (.inr hbehind)

theorem truncate?_eq : truncate? x =
    if (ofFloat x).size < 2 ^ 63 - 1024 then int64? (towardZero (ofFloat x).value) else none := by
  rw [truncate?, hx, truncate_eq]
  simp only [Bool.true_and, decide_eq_true_eq, abs_lt_integerLimit_iff hx]

/-- A float from the limit on has a large integral part. -/
theorem le_natAbs_of_truncate? (h : truncate? x = none) :
    2 ^ 63 - 1024 ≤ (towardZero (ofFloat x).value).natAbs := by
  by_cases hlt : (ofFloat x).size < 2 ^ 63 - 1024
  · -- Below the limit the integral part is in range.
    have hwhole : ((ofFloat x).wholePart : ℤ) ≤ 2 ^ 63 - 1025 := by
      rw [← floor_size]
      have hfloor : ⌊(ofFloat x).size⌋ < 2 ^ 63 - 1024 := Int.floor_lt.2 (by push_cast; linarith)
      omega
    have hmagnitude := natAbs_towardZero_value (ofFloat x)
    obtain ⟨n, hn⟩ := exists_int64? (z := towardZero (ofFloat x).value) (by omega) (by omega)
    rw [truncate?_eq hx, if_pos hlt, hn] at h
    cases h
  · rw [natAbs_towardZero_value]
    have hfloor : (2 ^ 63 - 1024 : ℤ) ≤ ⌊(ofFloat x).size⌋ :=
      Int.le_floor.2 (by push_cast; linarith)
    rw [floor_size] at hfloor
    omega

/-- The three floats are in range, and nothing is found for them. -/
theorem truncate?_of_refused (h : Refused x) :
    truncate? x = none ∧ ∃ n : Int64, n.toInt = towardZero (ofFloat x).value := by
  have hlarge : ∀ {b : Binary}, b.value = 2 ^ 63 - 1024 ∨ b.value = -(2 ^ 63 - 1024) ∨
      b.value = -2 ^ 63 → ¬b.size < 2 ^ 63 - 1024 := by
    intro b hb hlt
    have hsize : b.value = b.size ∨ b.value = -b.size := by
      cases hsign : b.negative with
      | false => exact .inl (value_of_positive hsign)
      | true => exact .inr (value_of_negative hsign)
    rcases hb with hb | hb | hb <;> rcases hsize with hsize | hsize <;> rw [hsize] at hb <;>
      linarith [b.size_nonneg]
  refine ⟨by rw [truncate?_eq hx, if_neg (hlarge h.2)], ?_⟩
  rcases h.2 with hvalue | hvalue | hvalue
  · refine ⟨9223372036854774784, ?_⟩
    rw [hvalue, show (2 ^ 63 - 1024 : ℚ) = ((9223372036854774784 : ℤ) : ℚ) by norm_num,
      towardZero_intCast]
    decide
  · refine ⟨-9223372036854774784, ?_⟩
    rw [hvalue, show (-(2 ^ 63 - 1024) : ℚ) = ((-9223372036854774784 : ℤ) : ℚ) by norm_num,
      towardZero_intCast]
    decide
  · refine ⟨Int64.minValue, ?_⟩
    rw [hvalue, show (-2 ^ 63 : ℚ) = ((-9223372036854775808 : ℤ) : ℚ) by norm_num,
      towardZero_intCast]
    decide

/-- **Every other float is converted if its integral part is in range.** -/
theorem truncate?_eq_some_iff (h : ¬Refused x) (n : Int64) :
    truncate? x = some n ↔ n.toInt = towardZero (ofFloat x).value := by
  rw [truncate?_eq hx]
  split
  · exact int64?_eq_some_iff
  · next hlarge =>
    refine ⟨nofun, fun hn => ?_⟩
    have hmin := n.le_toInt
    have hmax := n.toInt_lt
    have hbound : ∀ {z : ℤ}, (z : ℚ) ≤ (ofFloat x).size → z ≤ (ofFloat x).wholePart := by
      intro z hz
      rw [← floor_size]
      exact Int.le_floor.2 hz
    -- The sign decides which of the three possible magnitudes are in range.
    exfalso
    cases hsign : (ofFloat x).negative with
    | false =>
      have hvalue := value_of_positive hsign
      rw [hvalue, towardZero_of_nonneg (ofFloat x).size_nonneg, floor_size] at hn
      have hend : (2 ^ 63 : ℚ) ≤ (ofFloat x).size := by
        rcases size_of_not_lt hx hlarge with heq | heq | hle
        · exact absurd ⟨hx, .inl (hvalue.trans heq)⟩ h
        · exact heq.ge
        · linarith
      have := hbound (z := 2 ^ 63) (by push_cast; linarith)
      omega
    | true =>
      have hvalue := value_of_negative hsign
      rw [hvalue, towardZero_neg (ofFloat x).size_nonneg, floor_size] at hn
      have hbehind : (2 ^ 63 + 2048 : ℚ) ≤ (ofFloat x).size := by
        rcases size_of_not_lt hx hlarge with heq | heq | hle
        · exact absurd ⟨hx, .inr (.inl (by rw [hvalue, heq]))⟩ h
        · exact absurd ⟨hx, .inr (.inr (by rw [hvalue, heq]))⟩ h
        · exact hle
      have := hbound (z := 2 ^ 63 + 2048) (by push_cast; linarith)
      omega

end Limit

/-! ## Characters -/

theorem char_injective : Function.Injective Value.char := by
  intro a b h
  cases h
  rfl

/-- A character is found by its code, if there is one. -/
theorem charOfCode?_eq_some_iff {z : ℤ} {c : Char} :
    charOfCode? z = some c ↔ (c.toNat : ℤ) = z := by
  unfold charOfCode?
  constructor
  · intro h
    split at h
    · next hvalid =>
      obtain rfl := Option.some.inj h
      rw [Char.toNat_ofNat, if_pos hvalid.2]
      omega
    · cases h
  · rintro rfl
    have hvalid : c.toNat.isValidChar := c.valid
    rw [if_pos ⟨by omega, by simpa using hvalid⟩, Int.toNat_natCast, Char.ofNat_toNat]

theorem toNat_lt (c : Char) : c.toNat < 0x110000 := by
  have hvalid : c.toNat.isValidChar := c.valid
  rcases hvalid with h | h
  · omega
  · exact h.2

theorem toInt_ofNat_toNat (c : Char) : (Int64.ofNat c.toNat).toInt = c.toNat :=
  Int64.toInt_ofNat_of_lt (Nat.lt_trans (toNat_lt c) (by decide))

/-- The character that a number is the code of. -/
theorem answers_toCharacter (s : Store) {y : Number} (hy : y.IsFinite) :
    Answers .char (fun c : Char => (c.toNat : ℤ) = towardZero y.exact)
      (toCharacter s [y.toValue]) := by
  have hcode : ∀ n : Int64, Answers .char (fun c : Char => (c.toNat : ℤ) = n.toInt)
      (charOfInteger s (.integer n)) := by
    intro n
    refine .ofOption char_injective (charOfCode? n.toInt)
      (fun c => charOfCode?_eq_some_iff) (fun c hc => ?_) fun hnone => ?_
    · rw [charOfInteger, hc]
    · rw [charOfInteger, hnone]
      exact ⟨_, rfl⟩
  cases y with
  | integer n =>
    rw [show exact (integer n) = ((n.toInt : ℤ) : ℚ) from rfl, towardZero_intCast]
    exact hcode n
  | float x =>
    have hrun : toCharacter s [toValue (float x)] =
        toInteger s [.float x] >>= charOfInteger s := rfl
    rw [hrun, toInteger]
    cases htruncate : truncate? x with
    | some n =>
      by_cases hrefused : Refused x
      · rw [(truncate?_of_refused hy hrefused).1] at htruncate
        cases htruncate
      · rw [show exact (float x) = (ofFloat x).value from rfl,
          ← (truncate?_eq_some_iff hy hrefused n).1 htruncate]
        exact hcode n
    | none =>
      -- What is refused is far above the codes of characters, so nothing is lost here.
      refine .failed _ fun c hc => ?_
      have hlarge := le_natAbs_of_truncate? hy htruncate
      have hsmall := toNat_lt c
      change (c.toNat : ℤ) = towardZero (ofFloat x).value at hc
      omega

/-- The integer that remains of a float without its fraction, unless the float is one of the three. -/
theorem answers_toInteger_iff (s : Store) (x : Float) :
    Answers .integer (fun n : Int64 => x.isFinite = true ∧ n.toInt = towardZero (ofFloat x).value)
      (toInteger s [.float x]) ↔ ¬Refused x := by
  constructor
  · intro hanswers hrefused
    obtain ⟨hnone, n, hn⟩ := truncate?_of_refused hrefused.1 hrefused
    have hok := (hanswers.ok_iff n).2 ⟨hrefused.1, hn⟩
    rw [toInteger, hnone] at hok
    cases hok
  · intro hsharp
    refine .ofOption Value.integer_injective (truncate? x) (fun n => ?_) (fun n hn => ?_)
      fun hnone => ?_
    · by_cases hx : x.isFinite = true
      · rw [truncate?_eq_some_iff hx hsharp, and_iff_right hx]
      · rw [truncate?, Bool.eq_false_iff.2 hx]
        exact ⟨fun h => (by cases h), fun h => absurd h.1 Bool.false_ne_true⟩
    · rw [toInteger, hn]
    · rw [toInteger, hnone]
      exact ⟨_, rfl⟩

end Number

namespace Session

/-- **Conversions succeed where the result exists.** A float is converted to the integer that remains
without its fraction, and refused if that does not fit, unless the float is one of three (then it is
refused, though the integer fits). A number is converted to the character of which its integral part is
the code, and refused if there is none. A character is found again by its code. -/
theorem conversion (m : Machine) :
    (∀ x : Float, ∃ outcome, apply (Builtin.named "int") [.float x] m = (outcome, m) ∧
      (Answers .integer (fun n : Int64 =>
          x.isFinite = true ∧ n.toInt = towardZero (ofFloat x).value) outcome ↔
        ¬Number.Refused x)) ∧
    (∀ y : Number, y.IsFinite → ∃ outcome,
      apply (Builtin.named "char") [y.toValue] m = (outcome, m) ∧
      Answers .char (fun c : Char => (c.toNat : ℤ) = towardZero y.exact) outcome) ∧
    ∀ c : Char, ∃ code, apply (Builtin.named "int") [.char c] m = (.ok code, m) ∧
      apply (Builtin.named "char") [code] m = (.ok (.char c), m) := by
  have hint : Builtin.find? "int" =
      some (Builtin.function "int" 1 false [.primitive] .toInteger) := by decide
  have hchar : Builtin.find? "char" =
      some (Builtin.function "char" 1 false [.primitive] .toCharacter) := by decide
  refine ⟨fun x => ⟨_, ?_, Number.answers_toInteger_iff m.store x⟩, fun y hy => ⟨_, ?_,
    Number.answers_toCharacter m.store hy⟩, fun c => ⟨.integer (Int64.ofNat c.toNat), ?_, ?_⟩⟩
  · exact apply_question hint rfl (List.cons_ne_nil _ _) rfl rfl
  · exact apply_question hchar rfl (List.cons_ne_nil _ _) rfl (by cases y <;> rfl)
  · exact apply_question hint rfl (List.cons_ne_nil _ _) rfl rfl
  · rw [apply_question hchar rfl (List.cons_ne_nil _ _) rfl rfl]
    have hanswers := Number.answers_toCharacter m.store (y := .integer (Int64.ofNat c.toNat)) trivial
    have hok := (hanswers.ok_iff c).2 ?_
    · exact congrArg (·, m) hok
    · show (c.toNat : ℤ) = towardZero (((Int64.ofNat c.toNat).toInt : ℤ) : ℚ)
      rw [towardZero_intCast, Number.toInt_ofNat_toNat]

/-- The character of the code `97.5`. -/
theorem conversion_letter :
    Number.IsFinite (.float 97.5) ∧
    (apply (Builtin.named "char") [.float 97.5] (.start .initial {} {})).1 = .ok (.char 'a') := by
  have hfinite : Number.IsFinite (.float 97.5) := by
    show (97.5 : Float).isFinite = true
    decide +kernel
  have htruncate : (ofFloat 97.5).truncate = 97 := by decide +kernel
  obtain ⟨outcome, hrun, hanswers⟩ := (conversion (.start .initial {} {})).2.1 (.float 97.5) hfinite
  refine ⟨hfinite, (congrArg Prod.fst hrun).trans ((hanswers.ok_iff 'a').2 ?_)⟩
  show (97 : ℤ) = towardZero (ofFloat 97.5).value
  rw [← truncate_eq, htruncate]

/-- The float `-2 ^ 63` is the least integer of 64 bits, and it is refused. -/
theorem not_conversion_least :
    (-9223372036854775808.0 : Float).isFinite = true ∧
    (ofFloat (-9223372036854775808.0)).value = Int64.minValue.toInt ∧
    ∃ text, (apply (Builtin.named "int") [.float (-9223372036854775808.0)]
      (.start .initial {} {})).1 = .error (.failure text) := by
  have hfinite : (-9223372036854775808.0 : Float).isFinite = true := by decide +kernel
  have hparts : ofFloat (-9223372036854775808.0) = ⟨true, 2 ^ 52, 11⟩ := by decide +kernel
  have hvalue : (ofFloat (-9223372036854775808.0)).value = -2 ^ 63 := by
    rw [hparts]
    norm_num [value, size]
  have hnone := (Number.truncate?_of_refused hfinite ⟨hfinite, .inr (.inr hvalue)⟩).1
  have hint : Builtin.find? "int" =
      some (Builtin.function "int" 1 false [.primitive] .toInteger) := by decide
  obtain ⟨text, htext⟩ : ∃ text, Number.toInteger {} [.float (-9223372036854775808.0)] =
      .error (.failure text) := by
    rw [Number.toInteger, hnone]
    exact ⟨_, rfl⟩
  refine ⟨hfinite, ?_, text, ?_⟩
  · rw [hvalue, Int64.toInt_minValue]
    norm_num
  · rw [apply_question hint rfl (List.cons_ne_nil _ _) rfl rfl]
    exact htext

end Session

end CurryLisp
