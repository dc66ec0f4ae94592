import CurryLisp.Decimal.Shortest

/-!
# How a double is written

Two spellings share the digits. `written` is positional throughout: an integer is written in full with
`.0` behind it, anything else with the fewest digits that read back. `shown`, for inspection, uses the
fewest digits always and an exponent where the magnitude is at least `10 ^ 16` or below `10 ^ -4`.
-/

namespace CurryLisp.Decimal

/-- `n` zeros. -/
def zeros (n : Nat) : String := String.ofList (List.replicate n '0')

/-- The digits of `d` with a point between whole part and fraction; an integer gets `.0`. -/
def positional (d : Digits) : String :=
  let digits := Nat.toDigits 10 d.value
  if 0 ≤ d.exponent then String.ofList digits ++ zeros d.exponent.toNat ++ ".0"
  else
    let places := (-d.exponent).toNat
    if places < digits.length then
      String.ofList (digits.take (digits.length - places)) ++ "." ++
        String.ofList (digits.drop (digits.length - places))
    else "0." ++ zeros (places - digits.length) ++ String.ofList digits

/-- One digit, the other digits behind a point, and the exponent of ten. -/
def scientific (d : Digits) : String :=
  let digits := Nat.toDigits 10 d.value
  let exponent := d.exponent + (digits.length : Int) - 1
  let fraction := digits.drop 1
  String.ofList (digits.take 1) ++
    (if fraction.isEmpty then "" else "." ++ String.ofList fraction) ++ "e" ++ toString exponent

/-- The text of a double that is not finite. -/
def nonFinite (x : Float) : String :=
  if x.isNaN then "NaN" else if x < 0 then "-inf" else "inf"

/-- The sign that is written before the magnitude; zero has one too. -/
def sign (b : Binary) : String := if b.negative then "-" else ""

/-- A double as the language writes it. -/
def written (x : Float) : String :=
  if x.isFinite then
    let b := Binary.ofFloat x
    sign b ++ if b.isIntegral then toString b.wholePart ++ ".0" else positional (Digits.shortest b)
  else nonFinite x

/-- A double as it is shown for inspection. -/
def shown (x : Float) : String :=
  if x.isFinite then
    let b := Binary.ofFloat x
    sign b ++
      if b.significand = 0 then "0.0"
      else if 1e16 ≤ x.abs || x.abs < 1e-4 then scientific (Digits.shortest b)
      else positional (Digits.shortest b)
  else nonFinite x

end CurryLisp.Decimal
