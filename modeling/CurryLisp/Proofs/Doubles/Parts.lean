import CurryLisp.Decimal.Binary
import Mathlib

/-!
# The parts of a double

A finite double is the sign, the significand and the exponent that `Binary.ofFloat` finds, and such
parts make a double. The arithmetic on doubles takes them apart in the same way.

Statements:

* `Binary.IsCanonical`: the parts that doubles have.
* `Binary.unpack_eq`, `Binary.toFloat_ofFloat`: a finite double has the parts that the arithmetic sees,
  and is put together again from them.
* `Binary.unpack_pack`: the parts of a double that was put together are those it was made of.
-/

namespace CurryLisp.Decimal.Binary

open Float.Model Float.Model.UnpackedFloat

/-! ## Numbers of the arithmetic -/

/-- The sign in the form the arithmetic uses. -/
def modelSign (b : Binary) : Sign := if b.negative then .negative else .positive

/-- The number in the form the arithmetic uses. -/
def unpacked (b : Binary) : UnpackedFloat :=
  if h : 0 < b.significand then .finite b.modelSign b.significand b.exponent h
  else .zero b.modelSign

/-- The double with these parts. -/
def toFloat (b : Binary) : Float := .ofModel (.pack b.unpacked)

theorem unpacked_of_pos {b : Binary} (hsign : b.negative = false) (hpos : 0 < b.significand) :
    b.unpacked = .finite .positive b.significand b.exponent hpos := by
  rw [unpacked, dif_pos hpos, modelSign, hsign]
  rfl

/-! ## Scale and fraction -/

/-- The parts of a finite double: the significand has 53 bits, or fewer at the least exponent. -/
structure IsCanonical (b : Binary) : Prop where
  significand_lt : b.significand < 2 ^ 53
  le_exponent : -1074 ≤ b.exponent
  exponent_le : b.exponent ≤ 971
  normal : 2 ^ 52 ≤ b.significand ∨ b.exponent = -1074

/-- The parts of the double with this sign, scale and fraction. -/
def ofFields (negative : Bool) (scale fraction : Nat) : Binary :=
  { negative
    significand := if scale = 0 then fraction else 2 ^ 52 + fraction
    exponent := if scale = 0 then -1074 else Int.ofNat scale - 1075 }

theorem isCanonical_ofFields (negative : Bool) {scale fraction : Nat} (hscale : scale < 2047)
    (hfraction : fraction < 2 ^ 52) : (ofFields negative scale fraction).IsCanonical := by
  by_cases h : scale = 0
  · simp only [ofFields, if_pos h]
    have hmax : (-1074 : Int) ≤ 971 := by decide
    exact ⟨Nat.lt_trans hfraction (by decide), le_refl (-1074), hmax, .inr rfl⟩
  · constructor <;> simp only [ofFields, if_neg h, Int.ofNat_eq_natCast] <;> omega

theorem IsCanonical.exists_fields {b : Binary} (hb : b.IsCanonical) :
    ∃ scale fraction, scale < 2047 ∧ fraction < 2 ^ 52 ∧
      b = ofFields b.negative scale fraction := by
  obtain ⟨negative, significand, exponent⟩ := b
  obtain ⟨hlt, hle, hmax, hnormal⟩ := hb
  dsimp only at hlt hle hmax hnormal
  by_cases h : significand < 2 ^ 52
  · have hleast : exponent = -1074 := hnormal.resolve_left (by omega)
    refine ⟨0, significand, by decide, h, ?_⟩
    simp [ofFields, hleast]
  · have hscale : (exponent + 1075).toNat ≠ 0 := by omega
    have hexponent : exponent = Int.ofNat (exponent + 1075).toNat - 1075 := by
      rw [Int.ofNat_eq_natCast]
      omega
    have hsignificand : significand = 2 ^ 52 + (significand - 2 ^ 52) := by omega
    refine ⟨(exponent + 1075).toNat, significand - 2 ^ 52, by omega, by omega, ?_⟩
    rw [ofFields, if_neg hscale, if_neg hscale, ← hexponent, ← hsignificand]

/-- **The bits of a finite double are unpacked to its parts.** -/
theorem unpack_eq_ofFields {v : BitVec Format.binary64.numBits} {negative : Bool}
    (hsign : Sign.ofBitVec (unpackSign v) = if negative then .negative else .positive)
    (hfinite : unpackExponent v ≠ -1#_) :
    UnpackedFloat.unpack Format.binary64 v =
      (ofFields negative (unpackExponent v).toNat (unpackMantissa v).toNat).unpacked := by
  rw [UnpackedFloat.unpack]
  simp only [if_neg hfinite, hsign]
  split
  · next hscale =>
    have hscale : (unpackExponent v).toNat = 0 := congrArg BitVec.toNat hscale
    split
    · next hzero =>
      have hzero : ¬ 0 < (unpackMantissa v).toNat := by simp [hzero]
      simp only [unpacked, ofFields, if_pos hscale, dif_neg hzero, modelSign]
    · next hzero =>
      have hpos : 0 < (unpackMantissa v).toNat := by
        rw [Nat.pos_iff_ne_zero]
        exact fun h => hzero (BitVec.eq_of_toNat_eq h)
      simp only [unpacked, ofFields, if_pos hscale, dif_pos hpos, modelSign]
      congr 1
      rw [hscale]
      rfl
  · next hscale =>
    have hscale : (unpackExponent v).toNat ≠ 0 := fun h => hscale (BitVec.eq_of_toNat_eq h)
    have hpos : 0 < 2 ^ 52 + (unpackMantissa v).toNat := by positivity
    have hmantissa : (1#1 ++ unpackMantissa v).toNat = 2 ^ 52 + (unpackMantissa v).toNat := by
      rw [BitVec.toNat_append, ← Nat.shiftLeft_add_eq_or_of_lt (unpackMantissa v).isLt]
      rfl
    simp only [unpacked, ofFields, if_neg hscale, dif_pos hpos, modelSign]
    congr 1

/-! ## Taking doubles apart and putting them together -/

/-- The bits of a double in the form the arithmetic uses. -/
def bits (x : Float) : BitVec Format.binary64.numBits := x.toBits.toBitVec

theorem ofFloat_eq (x : Float) :
    ofFloat x = ofFields (unpackSign (bits x) = 1#1) (unpackExponent (bits x)).toNat
      (unpackMantissa (bits x)).toNat := by
  have hsign : unpackSign (bits x) = 1#1 ↔ x.toBits.toNat / 2 ^ 63 % 2 = 1 := by
    rw [← BitVec.toNat_inj, unpackSign_def, BitVec.extractLsb'_toNat, Nat.shiftRight_eq_div_pow]
    rfl
  have hscale : (unpackExponent (bits x)).toNat = x.toBits.toNat / 2 ^ 52 % 2 ^ 11 := by
    rw [unpackExponent_def, BitVec.extractLsb'_toNat, Nat.shiftRight_eq_div_pow]
    rfl
  have hfraction : (unpackMantissa (bits x)).toNat = x.toBits.toNat % 2 ^ 52 := by
    rw [unpackMantissa_def, BitVec.extractLsb'_toNat, Nat.shiftRight_zero]
    rfl
  simp only [hsign, hscale, hfraction]
  rfl

/-- The largest scale belongs to the doubles that are not finite. -/
theorem unpackExponent_ne {x : Float} (hx : x.isFinite = true) :
    unpackExponent (bits x) ≠ -1#_ := by
  intro h
  have hinfinite : (UnpackedFloat.unpack Format.binary64 (bits x)).isFinite = false := by
    rw [UnpackedFloat.unpack]
    simp only [h, if_true]
    split <;> rfl
  exact Bool.false_ne_true (hinfinite.symm.trans hx)

theorem isCanonical_ofFloat {x : Float} (hx : x.isFinite = true) : (ofFloat x).IsCanonical := by
  rw [ofFloat_eq]
  refine isCanonical_ofFields _ ?_ (BitVec.isLt _)
  have hne := mt BitVec.toNat_inj.1 (unpackExponent_ne hx)
  have hlt := (unpackExponent (bits x)).isLt
  change _ ≠ 2047 at hne
  change _ < 2048 at hlt
  omega

/-- **The arithmetic sees the parts of a finite double.** -/
theorem unpack_eq {x : Float} (hx : x.isFinite = true) :
    x.toModel.unpack = (ofFloat x).unpacked := by
  have hsign : Sign.ofBitVec (unpackSign (bits x)) =
      if decide (unpackSign (bits x) = 1#1) then .negative else .positive := by
    rcases BitVec.eq_zero_or_eq_one (unpackSign (bits x)) with h | h <;> rw [h] <;> rfl
  rw [ofFloat_eq, ← unpack_eq_ofFields hsign (unpackExponent_ne hx)]
  rfl

/-- **A finite double is put together again from its parts.** -/
theorem toFloat_ofFloat {x : Float} (hx : x.isFinite = true) : (ofFloat x).toFloat = x := by
  have hbits := pack_unpack_of_valid x.toModel.valid (by decide)
  rw [toFloat, ← unpack_eq hx]
  exact Float.toBits_inj.1 (congrArg UInt64.ofBitVec hbits)

/-- **The parts of a double that was put together are those it was made of.** -/
theorem unpack_pack {b : Binary} (hb : b.IsCanonical) :
    (Float.Model.pack b.unpacked).unpack = b.unpacked := by
  obtain ⟨scale, fraction, hscale, hfraction, hfields⟩ := hb.exists_fields
  let v := packComponents Format.binary64 b.modelSign (BitVec.ofNat 11 scale)
    (BitVec.ofNat 52 fraction)
  have hexponent : (BitVec.ofNat 11 scale).toNat = scale := Nat.mod_eq_of_lt (by omega)
  have hmantissa : (BitVec.ofNat 52 fraction).toNat = fraction := Nat.mod_eq_of_lt hfraction
  have hfinite : unpackExponent v ≠ -1#_ := by
    rw [unpackExponent_packComponents, Ne, ← BitVec.toNat_inj, hexponent]
    exact Nat.ne_of_lt hscale
  have hsign : Sign.ofBitVec (unpackSign v) = if b.negative then .negative else .positive := by
    rw [unpackSign_packComponents, Sign.ofBitVec_toBitVec]
    rfl
  have hunpack : UnpackedFloat.unpack Format.binary64 v = b.unpacked := by
    rw [unpack_eq_ofFields hsign hfinite, unpackExponent_packComponents,
      unpackMantissa_packComponents, hexponent, hmantissa, ← hfields]
  have hvalid : Format.binary64.Valid v := ⟨fun h => absurd h hfinite⟩
  change UnpackedFloat.unpack _ (UnpackedFloat.pack _ b.unpacked) = _
  rw [← hunpack, pack_unpack_of_valid hvalid (by decide)]

end CurryLisp.Decimal.Binary
