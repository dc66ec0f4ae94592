import CurryLisp.Datum.Reader
import CurryLisp.Evaluation
import CurryLisp.Package

/-!
# Sessions

What can be done with a machine from outside: evaluate expressions or source text, apply a value,
start afresh, install a package. `Session.evaluate` leaves the machine ready for the next expression
also if the evaluation fails.
-/

namespace CurryLisp

/-! ## Loading source data -/

namespace Datum

/-- A datum as a value: its strings and pairs become objects of their own. -/
def load : Datum → Store → Value × Store
  | .nil, s => (.nil, s)
  | .truth, s => (.truth, s)
  | .integer n, s => (.integer n, s)
  | .float x, s => (.float x, s)
  | .char c, s => (.char c, s)
  | .string text, s => s.newText text
  | .symbol name, s => (.symbol name, s)
  | .type name, s => (.type (.reference name), s)
  | .quoted inner, s =>
    let (inner, s) := inner.load s
    (.quoted inner, s)
  | .pair car cdr, s =>
    let (car, s) := car.load s
    let (cdr, s) := cdr.load s
    s.cons car cdr

end Datum

namespace Machine

/-- A machine in its initial state, on these environment, options and objects. -/
def start (global : Environment) (options : Options) (store : Store) : Machine :=
  { global, options, store }

end Machine

namespace Session

/-- Evaluates an expression completely. If that fails, the frames, the scoping mode, the level and the
nesting are what they were. -/
def evaluate (e : Value) : Eval Value := fun m =>
  let (result, after) := Eval.withLevel .full (Evaluation.visit e) m
  match result with
  | .ok value => (.ok value, after)
  | .error err =>
    (.error err, { after with
      events := .abandoned err :: after.events
      frames := after.frames.drop (after.frames.length - m.frames.length)
      options := { after.options with scoping := m.options.scoping }
      level := .full
      indent := 0
      depth := 0 })

/-- Evaluates expressions in turn; a failure does not stop the others. -/
def evaluateAll : List Value → StateM Machine (List (Except Error Value))
  | [] => return []
  | e :: es => do
    let result ← (evaluate e).run
    return result :: (← evaluateAll es)

/-- The value of a datum. -/
def load (d : Datum) : Eval Value := Eval.make d.load

/-- Evaluates data in turn, up to the first failure; the value is that of the last, or `last` if there
is none. -/
def evaluateData (last : Value) : List Datum → Eval Value
  | [] => return last
  | d :: ds => do
    let value ← evaluate (← load d)
    evaluateData value ds

/-- The data of a source text. -/
def readAll (text : String) : Eval (List Datum) :=
  match Datum.readAll text with
  | .ok data => return data
  | .error e => throw (.parse e)

/-- Evaluates every expression of a source text, all of which is read first. -/
def evaluateText (text : String) : Eval Value := do evaluateData .nil (← readAll text)

/-- Applies a value to arguments that are evaluated already. -/
def apply (f : Value) (args : List Value) : Eval Value := do
  Application.apply (Evaluation.visitWithin (Evaluation.room (← get))) f args

/-- Runs the operation of a builtin function on arguments as they are. -/
def perform (op : Operation) (args : List Value) : Eval Value := do
  Application.perform (Evaluation.visitWithin (Evaluation.room (← get))) op args

/-- Starts afresh in the initial environment. Options, objects and the number of placeholders are
kept. -/
def reset : Eval Unit := do
  Eval.note (.reset (← get).frames.length)
  modify fun m =>
    { m with global := .initial, frames := [], level := .full, indent := 0, depth := 0 }

/-- Installs a package in the innermost environment. -/
def install (p : Package) : Eval Unit := Eval.updateActive p.install

end Session

end CurryLisp
