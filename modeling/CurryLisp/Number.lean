import CurryLisp.Decimal.Binary
import CurryLisp.Decimal.Reading
import CurryLisp.Error
import CurryLisp.Operation
import CurryLisp.Value.Equality
import CurryLisp.Value.Spelling

/-!
# Numbers

Integers have 64 bits; an operation on two of them gives the exact result or fails. Where a float takes
part, integers become the nearest float and the operation is that of floats. Comparison and conversion
also take characters, as their codes.
-/

namespace CurryLisp

/-- A number as an operand. -/
inductive Number where
  | integer (n : Int64)
  | float (x : Float)

namespace Number

/-- The float nearest to an integer. -/
def nearestFloat (n : Int64) : Float := Float.ofInt n.toInt

/-- A number as a float. -/
def toFloat : Number → Float
  | integer n => nearestFloat n
  | float x => x

/-- The number that a value is. -/
def ofValue? : Value → Option Number
  | .integer n => some (integer n)
  | .float x => some (float x)
  | _ => none

/-- The number that a value is, or the code of a character. -/
def ofPrimitive? : Value → Option Number
  | .char c => some (integer (Int64.ofNat c.toNat))
  | v => ofValue? v

/-- Two numeric operands of the function `name`. -/
def operands (s : Store) (name : String) (number? : Value → Option Number) :
    List Value → Except Error (Number × Number)
  | [x, y] =>
    match number? x, number? y with
    | some a, some b => .ok (a, b)
    | _, _ => .error (.failure
        (name ++ ": expected numbers, got " ++ x.write s ++ " and " ++ y.write s))
  | args => .error (.arity name 2 args.length)

/-! ## Arithmetic -/

/-- An operation on two numbers, given for exact integers and for floats. -/
def combine (s : Store) (name : String) (exact : Int → Int → Int)
    (floats : Float → Float → Float) (args : List Value) : Except Error Value := do
  match ← operands s name ofValue? args with
  | (.integer a, .integer b) =>
    match Decimal.int64? (exact a.toInt b.toInt) with
    | some n => return .integer n
    | none => throw (.failure ("integer overflow in " ++ name))
  | (a, b) => return .float (floats a.toFloat b.toFloat)

/-- The sum of two numbers. -/
def add (s : Store) : List Value → Except Error Value := combine s "+" (· + ·) (· + ·)

/-- The difference of two numbers. -/
def subtract (s : Store) : List Value → Except Error Value := combine s "-" (· - ·) (· - ·)

/-- The product of two numbers. -/
def multiply (s : Store) : List Value → Except Error Value := combine s "*" (· * ·) (· * ·)

/-- The quotient of two numbers; that of integers is rounded toward zero. -/
def divide (s : Store) (args : List Value) : Except Error Value :=
  match args with
  | [.integer _, .integer 0] => .error (.failure "division by zero")
  | _ => combine s "/" Int.tdiv (· / ·) args

/-- The remainder of two integers that is not negative. It is refused where the quotient is out of
range. -/
def modulo : List Value → Except Error Value
  | [.integer _, .integer 0] => .error (.failure "division by zero")
  | [.integer a, .integer b] =>
    match Decimal.int64? (a.toInt.tdiv b.toInt), Decimal.int64? (a.toInt.emod b.toInt) with
    | some _, some n => .ok (.integer n)
    | _, _ => .error (.failure "integer overflow in mod")
  | _ => .error (.failure "mod: expected two integers")

/-! ## Comparison -/

/-- Whether two numbers compare in this way. -/
def compare (s : Store) (name : String) (integers : Int64 → Int64 → Bool)
    (floats : Float → Float → Bool) (args : List Value) : Except Error Value := do
  match ← operands s name ofPrimitive? args with
  | (.integer a, .integer b) => return .ofBool (integers a b)
  | (a, b) => return .ofBool (floats a.toFloat b.toFloat)

/-- Whether the first number is smaller. -/
def less (s : Store) : List Value → Except Error Value :=
  compare s "<" (fun a b => decide (a < b)) (fun a b => decide (a < b))

/-- Whether the first number is greater. -/
def greater (s : Store) : List Value → Except Error Value :=
  compare s ">" (fun a b => decide (b < a)) (fun a b => decide (b < a))

/-- Whether two values are equal: numbers by value, anything else by content. -/
def equal (s : Store) : List Value → Except Error Value
  | [x, y] =>
    match ofValue? x, ofValue? y with
    | some (.integer a), some (.integer b) => .ok (.ofBool (a == b))
    | some a, some b => .ok (.ofBool (a.toFloat == b.toFloat))
    | _, _ => .ok (.ofBool (x.equal s y))
  | args => .error (.arity "=" 2 args.length)

/-! ## Conversion -/

/-- Floats of this magnitude are not converted to integers. -/
def integerLimit : Float := 9.223372036854775e18

/-- A float without its fraction. -/
def truncate? (x : Float) : Option Int64 :=
  if x.isFinite && x.abs < integerLimit then Decimal.int64? (Decimal.Binary.ofFloat x).truncate
  else none

/-- A number or character as an integer. -/
def toInteger (s : Store) : List Value → Except Error Value
  | [] => .error (.arity "int" 1 0)
  | .integer n :: _ => .ok (.integer n)
  | .char c :: _ => .ok (.integer (Int64.ofNat c.toNat))
  | v :: _ =>
    match v with
    | .float x =>
      match truncate? x with
      | some n => .ok (.integer n)
      | none => .error (.failure ("int: cannot convert " ++ v.write s))
    | _ => .error (.failure ("int: cannot convert " ++ v.write s))

/-- A number or character as a float. -/
def toReal : List Value → Except Error Value
  | v :: _ =>
    match ofPrimitive? v with
    | some n => .ok (.float n.toFloat)
    | none => .error (.failure "float: expected a primitive value")
  | [] => .error (.failure "float: expected a primitive value")

/-- The character of a code. -/
def charOfCode? (n : Int) : Option Char :=
  if 0 ≤ n ∧ n.toNat.isValidChar then some (Char.ofNat n.toNat) else none

/-- The character whose code is an integer. -/
def charOfInteger (s : Store) : Value → Except Error Value
  | .integer n =>
    match charOfCode? n.toInt with
    | some c => .ok (.char c)
    | none => .error (.failure ("char: " ++ toString n.toInt ++ " is not a character code"))
  | v => .error (.failure ("char: cannot convert " ++ v.write s))

/-- A number or character as a character. -/
def toCharacter (s : Store) : List Value → Except Error Value
  | [] => .error (.arity "char" 1 0)
  | .char c :: _ => .ok (.char c)
  | .float x :: rest => toInteger s (.float x :: rest) >>= charOfInteger s
  | v :: _ => charOfInteger s v

/-! ## Functions of one real number -/

/-- A function of one real number. -/
def apply : MathFunction → Float → Float
  | .abs => Float.abs
  | .sqrt => Float.sqrt
  | .sin => Float.sin
  | .cos => Float.cos
  | .tan => Float.tan
  | .asin => Float.asin
  | .acos => Float.acos
  | .atan => Float.atan
  | .exp => Float.exp
  | .log => Float.log
  | .floor => Float.floor
  | .ceil => Float.ceil

/-- The name of a function of one real number. -/
def functionName : MathFunction → String
  | .abs => "abs"
  | .sqrt => "sqrt"
  | .sin => "sin"
  | .cos => "cos"
  | .tan => "tan"
  | .asin => "asin"
  | .acos => "acos"
  | .atan => "atan"
  | .exp => "exp"
  | .log => "log"
  | .floor => "floor"
  | .ceil => "ceil"

/-- A function of one number. The absolute value of an integer is an integer. -/
def applyFunction (f : MathFunction) : List Value → Except Error Value
  | [.integer n] =>
    if f = .abs then
      match Decimal.int64? n.toInt.natAbs with
      | some magnitude => .ok (.integer magnitude)
      | none => .error (.failure "integer overflow in abs")
    else .ok (.float (apply f (nearestFloat n)))
  | [.float x] => .ok (.float (apply f x))
  | _ => .error (.failure (functionName f ++ ": expected a number"))

end Number

end CurryLisp
