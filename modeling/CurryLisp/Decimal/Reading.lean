/-!
# Reading numbers

The value of a digit string in any base, a decimal with an exponent as the nearest double, and the
integers of 64 bits.
-/

namespace CurryLisp.Decimal

/-! ## Digit strings -/

/-- The value of a digit, letters of either case included. -/
def digitValue (c : Char) : Nat :=
  if c.isDigit then c.toNat - '0'.toNat
  else if 'a' ≤ c && c ≤ 'z' then c.toNat - 'a'.toNat + 10
  else c.toNat - 'A'.toNat + 10

/-- The number that the digits spell in `base`. -/
def ofDigits (base : Nat) (digits : List Char) : Nat :=
  digits.foldl (fun n c => n * base + digitValue c) 0

/-- A digit of base 16. -/
def isHexDigit (c : Char) : Bool :=
  c.isDigit || ('a' ≤ c && c ≤ 'f') || ('A' ≤ c && c ≤ 'F')

/-! ## Integers of 64 bits -/

/-- The 64-bit integer of this value, if there is one. -/
def int64? (n : Int) : Option Int64 :=
  if Int64.minValue.toInt ≤ n ∧ n ≤ Int64.maxValue.toInt then some (Int64.ofInt n) else none

/-- An integer in range is kept as it is. -/
theorem toInt_of_int64? {n : Int} {i : Int64} (h : int64? n = some i) : i.toInt = n := by
  unfold int64? at h
  split at h
  · next hr =>
    cases h
    exact Int64.toInt_ofInt_of_le hr.1
      (Int.lt_of_le_of_lt hr.2 (by rw [Int64.toInt_maxValue]; decide))
  · cases h

/-! ## Doubles -/

/-- The double nearest to `mantissa · 10 ^ exponent`, where `mantissa` has `digits` digits: beyond
`10 ^ 400` it is infinite and below `10 ^ -400` it is zero. -/
def nearestDouble (mantissa digits : Nat) (exponent : Int) : Float :=
  if mantissa = 0 || exponent + digits < -400 then 0.0
  else if 400 < exponent + digits then 1.0 / 0.0
  else Float.ofScientific mantissa (exponent < 0) exponent.natAbs

end CurryLisp.Decimal
