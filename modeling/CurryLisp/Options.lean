import CurryLisp.Error

/-!
# Options

Settings of one machine. The scoping mode and the depth limit decide what a program means; the other
options only decide which events are noted while it runs.
-/

namespace CurryLisp

/-- Where the free names of a function are looked up. -/
inductive Scoping where
  /-- In the environment in which the function was made. -/
  | lexical
  /-- In the environment of the caller. -/
  | dynamic
  deriving DecidableEq, Repr

/-- Settings of a machine. -/
structure Options where
  scoping : Scoping := .lexical
  /-- Note every step and its outcome. -/
  trace : Bool := false
  /-- Note the kind of every node visited. -/
  printAst : Bool := false
  /-- Note the active environment after every step. -/
  showEnv : Bool := false
  /-- List native functions in environments. -/
  showBuiltins : Bool := false
  /-- Show types in environments. -/
  showTypes : Bool := false
  /-- Steps that may be nested. -/
  maxDepth : Nat := 20000
  deriving DecidableEq, Repr

namespace Options

/-- The names under which a program can set an option. -/
def names : List String :=
  ["dynamic", "trace", "print-ast", "show-env", "show-builtins", "show-types"]

/-- Sets the option of this name. -/
def set (o : Options) (name : String) (enabled : Bool) : Except Error Options :=
  if name = "dynamic" then .ok { o with scoping := if enabled then .dynamic else .lexical }
  else if name = "trace" then .ok { o with trace := enabled }
  else if name = "print-ast" then .ok { o with printAst := enabled }
  else if name = "show-env" then .ok { o with showEnv := enabled }
  else if name = "show-builtins" then .ok { o with showBuiltins := enabled }
  else if name = "show-types" then .ok { o with showTypes := enabled }
  else .error (.malformedForm "set-option"
    ("unknown option " ++ name ++ ", expected one of " ++ ", ".intercalate names))

/-- Whether steps are noted at all. -/
def observes (o : Options) : Bool := o.trace || o.printAst || o.showEnv

end Options

end CurryLisp
