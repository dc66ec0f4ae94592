import CurryLisp.Decimal.Binary

/-!
# The fewest digits that read back

`Digits.shortest` gives a double the decimal with the fewest digits among those that lie closer to it
than to any other double, and of these the nearest; a tie goes away from zero. All comparisons are
made between natural numbers: both ends of the interval and the candidates are multiplied by one
common power of ten.

If any point of a decimal grid lies in the interval around the double, then so does one of the two
grid points next to it, so each digit count is decided by two candidates.
-/

namespace CurryLisp.Decimal

/-- The magnitude `value · 10 ^ exponent`. -/
structure Digits where
  value : Nat
  exponent : Int
  deriving DecidableEq, Repr

namespace Digits

/-! ## The size of a quotient -/

/-- Number of decimal digits of `n`. -/
def count (n : Nat) : Nat := (Nat.toDigits 10 n).length

/-- The exponent `e` with `10 ^ e ≤ num / den < 10 ^ (e + 1)`, for positive `num` and `den`. -/
def magnitude (num den : Nat) : Int :=
  if den ≤ num then (count (num / den) : Int) - 1
  else
    let digits := count (den / num)
    if num * Nat.pow 10 (digits - 1) = den then 1 - (digits : Int) else -(digits : Int)

/-! ## The search -/

/-- The doubles next to a magnitude are the ends of an interval around it, here given as quotients
with the divisor `4 * den`: the ends lie half way to the neighbours and belong to the interval if the
significand is even. -/
structure Interval where
  low : Nat
  mid : Nat
  high : Nat
  den : Nat
  closed : Bool

/-- The magnitudes that are closer to `b` than to any other double. -/
def Interval.around (b : Binary) : Interval :=
  let unit := Nat.pow 2 b.exponent.toNat
  let below := if b.significand = Nat.pow 2 52 && b.exponent != -1074 then unit else 2 * unit
  { low := 4 * b.numerator - below
    mid := 4 * b.numerator
    high := 4 * b.numerator + 2 * unit
    den := 4 * b.denominator
    closed := b.significand % 2 = 0 }

/-- Whether the quotient `num / scale` over the divisor of the interval lies in it. -/
def Interval.contains (i : Interval) (num scale : Nat) : Bool :=
  if i.closed then i.low * scale ≤ num && num ≤ i.high * scale
  else i.low * scale < num && num < i.high * scale

/-- The multiple of `10 ^ exponent` that is nearest to the middle of the interval, if one of the two
multiples next to it lies in the interval. -/
def onGrid (i : Interval) (exponent : Int) : Option Digits :=
  let scale := Nat.pow 10 (-exponent).toNat
  let unit := i.den * Nat.pow 10 exponent.toNat
  let floor := i.mid * scale / unit
  let below := floor * unit
  let above := (floor + 1) * unit
  let down := i.contains below scale
  let up := i.contains above scale
  if up && (!down || above - i.mid * scale ≤ i.mid * scale - below) then some ⟨floor + 1, exponent⟩
  else if down then some ⟨floor, exponent⟩
  else none

/-- `value` without the zeros at its end, for at most `n` of them. -/
def stripZeros : Nat → Digits → Digits
  | 0, d => d
  | n + 1, d =>
    if d.value % 10 = 0 && d.value != 0 then stripZeros n ⟨d.value / 10, d.exponent + 1⟩ else d

/-- The fewest digits that read back as the magnitude of `b`, which is not zero. Seventeen digits
tell any two doubles apart, so the search ends there. -/
def shortest (b : Binary) : Digits :=
  let i := Interval.around b
  let top := magnitude i.mid i.den
  match (List.range 17).findSome? fun (n : Nat) => onGrid i (top - n) with
  | some d => stripZeros 17 d
  | none => ⟨0, 0⟩

end Digits

end CurryLisp.Decimal
