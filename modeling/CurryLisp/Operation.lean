import CurryLisp.Level
import CurryLisp.TypeTag

/-!
# Native functions

An `Operation` names what a native function does; a `NativeFunction` is an operation with the name,
arity, argument types and evaluation level under which a program calls it. Two native functions are
equal if their names are.
-/

namespace CurryLisp

/-- The functions of one real argument. -/
inductive MathFunction where
  | abs
  | sqrt
  | sin
  | cos
  | tan
  | asin
  | acos
  | atan
  | exp
  | log
  | floor
  | ceil
  deriving DecidableEq, Repr

/-- What a native function does. -/
inductive Operation where
  -- forms that take their operands as written
  | lambda
  | define
  | undefine
  | bindLocal
  | choose
  | both
  | either
  | quote
  | defineStruct
  | deriveStruct
  | instantiate
  | setOption
  -- lists
  | cons
  | car
  | cdr
  | list
  | isNil
  | length
  -- numbers and comparison
  | add
  | subtract
  | multiply
  | divide
  | modulo
  | equal
  | less
  | greater
  | negate
  -- conversion and types
  | toInteger
  | toFloat
  | toCharacter
  | typeOf
  | isType
  -- arrays
  | vector
  | elementAt
  | setElement
  | append
  | joinText
  -- evaluation
  | evaluate
  | apply
  | last
  | copy
  -- output and errors
  | print
  | printLine
  | fail
  -- packages
  /-- A function of one real number. -/
  | math (f : MathFunction)
  /-- The function of the host at this place. -/
  | host (slot : Nat)
  deriving DecidableEq, Repr

/-- An operation as a program calls it. -/
structure NativeFunction where
  name : String
  /-- Arguments that a call needs; with fewer it is curried. -/
  arity : Nat
  /-- Whether more arguments are accepted. -/
  variadic : Bool := false
  /-- Types of the leading arguments; the others are not checked. -/
  types : List TypeTag := []
  /-- The level at which operands are reduced. -/
  level : Level := .full
  /-- Whether a call may run while the body of a curried function is reduced. -/
  isPure : Bool := true
  operation : Operation
  deriving DecidableEq, Repr

namespace NativeFunction

/-- Whether operands are taken as written rather than fully reduced. -/
def isSpecialForm (f : NativeFunction) : Bool := f.level.rank < Level.full.rank

/-- A native function as it is shown for inspection. -/
def debug (f : NativeFunction) : String :=
  "NativeFunction(" ++ f.name ++ ", arity=" ++ toString f.arity ++
    (if f.variadic then "+" else "") ++ ", level=" ++ f.level.name ++ ")"

end NativeFunction

end CurryLisp
