/-!
# Finite doubles as binary fractions

A finite double is `± significand · 2 ^ exponent`. `Binary.ofFloat` takes it apart; the questions
whether it is an integer and which integer remains when its fraction is cut off are then answered
with natural numbers.
-/

namespace CurryLisp.Decimal

/-- The number `± significand · 2 ^ exponent`. -/
structure Binary where
  negative : Bool
  significand : Nat
  exponent : Int
  deriving DecidableEq, Repr

namespace Binary

/-- The parts of a finite double. -/
def ofFloat (x : Float) : Binary :=
  let bits := x.toBits.toNat
  let fraction := bits % Nat.pow 2 52
  let scale := bits / Nat.pow 2 52 % Nat.pow 2 11
  { negative := bits / Nat.pow 2 63 % 2 = 1
    significand := if scale = 0 then fraction else Nat.pow 2 52 + fraction
    exponent := if scale = 0 then -1074 else Int.ofNat scale - 1075 }

/-- The magnitude as a quotient of natural numbers. -/
def numerator (b : Binary) : Nat := b.significand * Nat.pow 2 b.exponent.toNat

/-- The divisor that belongs to `numerator`, a power of two. -/
def denominator (b : Binary) : Nat := Nat.pow 2 (-b.exponent).toNat

theorem denominator_pos (b : Binary) : 0 < b.denominator := Nat.two_pow_pos _

/-- Whether the number has no fraction. -/
def isIntegral (b : Binary) : Bool := b.numerator % b.denominator = 0

/-- The magnitude without its fraction. -/
def wholePart (b : Binary) : Nat := b.numerator / b.denominator

/-- The number without its fraction, that is rounded toward zero. -/
def truncate (b : Binary) : Int := if b.negative then -(b.wholePart : Int) else b.wholePart

/-- Nothing is cut off an integer. -/
theorem wholePart_mul_denominator {b : Binary} (h : b.isIntegral = true) :
    b.wholePart * b.denominator = b.numerator := by
  simp only [isIntegral, decide_eq_true_eq] at h
  exact Nat.div_mul_cancel (Nat.dvd_of_mod_eq_zero h)

end Binary

end CurryLisp.Decimal
