import CurryLisp.ParseError

/-!
# Errors

Every way in which reading or evaluating code can fail, and how it is told (`Error.message`). Values
appear in errors as they were written when the error arose.
-/

namespace CurryLisp

/-- Why reading or evaluating code failed. -/
inductive Error where
  /-- The text could not be read. -/
  | parse (e : ParseError)
  /-- A symbol had no value. -/
  | unboundSymbol (name : String)
  /-- A name was no registered type. -/
  | unboundType (name : String)
  /-- A function received too many arguments, or too few and could not be curried. -/
  | arity (function : String) (expected got : Nat)
  /-- The argument at `position`, counted from zero, did not have its declared type. -/
  | typeMismatch (function : String) (position : Nat) (expected actual : List String)
  /-- The head of an application was no function. -/
  | notCallable (written : String)
  /-- A form received operands of the wrong shape. -/
  | malformedForm (form detail : String)
  /-- A chain of pairs did not end in `nil`. -/
  | malformedList (written : String)
  /-- Evaluation was nested more deeply than the limit. -/
  | depthExceeded (limit : Nat)
  /-- A function failed with this text. -/
  | failure (text : String)
  deriving DecidableEq, Repr

/-- An error in words. -/
def Error.message : Error → String
  | parse e => e.message
  | unboundSymbol name => "UnboundSymbolError: " ++ name
  | unboundType name => "UnboundTypeError: " ++ name
  | arity function expected got =>
    "ArityError: " ++ function ++ " expected " ++ toString expected ++ " arguments, got " ++
      toString got
  | typeMismatch function position expected actual =>
    "TypeMismatchError: " ++ function ++ " expected (" ++ " ".intercalate expected ++ "), got (" ++
      " ".intercalate actual ++ ") at position " ++ toString position
  | notCallable written => "NotCallableError: " ++ written ++ " is not a function"
  | malformedForm form detail => "MalformedFormError: " ++ form ++ ": " ++ detail
  | malformedList written => "MalformedListError: " ++ written ++ " is not a proper list"
  | depthExceeded limit =>
    "DepthExceededError: evaluation nested deeper than " ++ toString limit ++ " steps"
  | failure text => "EvaluationError: " ++ text

/-- Two computations in turn succeed only if both do. -/
theorem exists_of_bind_eq_ok {α β : Type} {x : Except Error α} {f : α → Except Error β} {b : β}
    (h : x >>= f = .ok b) : ∃ a, x = .ok a ∧ f a = .ok b := by
  cases x with
  | error e => cases h
  | ok a => exact ⟨a, rfl, h⟩

end CurryLisp
