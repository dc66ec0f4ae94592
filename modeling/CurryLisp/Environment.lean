import CurryLisp.Builtin
import CurryLisp.Table
import CurryLisp.Value

/-!
# Environments

An `Environment` binds names to values, types and struct templates, each in a namespace of its own. It
is itself a value: what a closure keeps is the environment as it was when the closure was made, so that
later definitions do not reach it.
-/

namespace CurryLisp

/-- Bindings of names. -/
structure Environment where
  bindings : Table Value := {}
  types : Table TypeTag := {}
  /-- Addresses of struct templates. -/
  structs : Table Address := {}

namespace Environment

/-- Binds `name` to `value`. -/
def put (env : Environment) (name : String) (value : Value) : Environment :=
  { env with bindings := env.bindings.insert name value }

/-- Binds each name in turn. -/
def putAll (env : Environment) (entries : List (String × Value)) : Environment :=
  { env with bindings := env.bindings.insertAll entries }

/-- Removes the value bound to `name`. -/
def remove (env : Environment) (name : String) : Environment :=
  { env with bindings := env.bindings.erase name }

/-- Registers a type under its own name. -/
def putType (env : Environment) (tag : TypeTag) : Environment :=
  { env with types := env.types.insert tag.name tag }

/-- Registers a struct template. -/
def putStruct (env : Environment) (name : String) (template : Address) : Environment :=
  { env with structs := env.structs.insert name template }

/-- The base types and the builtin functions. -/
def initial : Environment :=
  Builtin.all.foldl (fun env f => env.put f.name (.native f))
    (BaseType.all.foldl (fun env b => env.putType b.tag) {})

end Environment

end CurryLisp
