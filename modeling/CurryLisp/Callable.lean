import CurryLisp.Struct.Fields

/-!
# Callables

What can stand in the head of an application: a native function, a closure, or a struct, which takes
the name of a field and, to write it, a value. `Callable.checkArguments` compares arguments with the
declared types.
-/

namespace CurryLisp

/-- A value that can be applied. -/
inductive Callable where
  | native (f : NativeFunction)
  | closure (c : Closure)
  | struct (address : Address)

/-- The callable that a value is. -/
def Value.callable? (s : Store) : Value → Option Callable
  | .native f => some (.native f)
  | .closure a => some (.closure (s.closure a))
  | .struct a => some (.struct a)
  | _ => none

namespace Callable

/-- The name under which errors are told. -/
def name (s : Store) : Callable → String
  | native f => f.name
  | closure _ => "lambda"
  | struct a => (s.struct a).name

/-- Arguments that a call needs. -/
def arity : Callable → Nat
  | native f => f.arity
  | closure c => c.params.length
  | struct _ => 1

/-- Whether more arguments are accepted. -/
def variadic : Callable → Bool
  | native f => f.variadic
  | closure _ => false
  | struct _ => true

/-- The level at which operands are reduced. -/
def level : Callable → Level
  | native f => f.level
  | closure _ => .full
  | struct _ => .asWritten

/-- Whether a call may run while the body of a curried function is reduced. The body of a closure may
read names that are bound only when the curried function is called. -/
def isPure : Callable → Bool
  | native f => f.isPure
  | closure _ | struct _ => false

/-- The types of the leading arguments. -/
def types : Callable → List TypeTag
  | native f => f.types
  | closure c => c.params.map fun _ => BaseType.any.tag
  | struct _ => [BaseType.symbol.tag, BaseType.any.tag]

/-- Refuses the first argument, among those that a call needs, that does not have its type. -/
def checkArguments (s : Store) (f : Callable) (args : List Value) : Except Error Unit :=
  match ((f.types.zip args).take f.arity).findIdx? fun slot => !slot.2.hasType s slot.1 with
  | none => .ok ()
  | some position => .error (.typeMismatch (f.name s) position (f.types.map (·.name))
      (args.map fun arg => (arg.typeTag s).name))

end Callable

end CurryLisp
