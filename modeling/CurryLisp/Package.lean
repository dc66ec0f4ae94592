import CurryLisp.Machine

/-!
# Packages

A package is a set of types, functions and constants that are installed together in the innermost
environment. What they replace is lost, so a package can take the place of a builtin function.
-/

namespace CurryLisp

/-- Types, functions and constants that are installed together. -/
structure Package where
  name : String
  types : List TypeTag := []
  functions : List NativeFunction := []
  symbols : List (String × Value) := []

namespace Package

/-- Installs a package. -/
def install (p : Package) (env : Environment) : Environment :=
  let env := p.types.foldl Environment.putType env
  let env := p.functions.foldl (fun env f => env.put f.name (.native f)) env
  env.putAll p.symbols

/-- A function of one number. -/
def mathFunction (name : String) (f : MathFunction) : NativeFunction :=
  { name, arity := 1, types := [BaseType.number.tag], operation := .math f }

/-- The functions of one real number, and the constants `pi` and `e`. -/
def math : Package where
  name := "math"
  functions :=
    [ mathFunction "abs" .abs, mathFunction "sqrt" .sqrt, mathFunction "sin" .sin,
      mathFunction "cos" .cos, mathFunction "tan" .tan, mathFunction "asin" .asin,
      mathFunction "acos" .acos, mathFunction "atan" .atan, mathFunction "exp" .exp,
      mathFunction "log" .log, mathFunction "floor" .floor, mathFunction "ceil" .ceil ]
  symbols := [("pi", .float 3.141592653589793), ("e", .float 2.718281828459045)]

end Package

end CurryLisp
