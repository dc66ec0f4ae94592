import CurryLisp.Event
import CurryLisp.Options
import CurryLisp.Store

/-!
# The machine

A `Machine` is everything that evaluation can change: the environments, the level and nesting of the
current step, the options, the shared objects, what was printed and what was noted. `Eval` is a
computation on a machine that may fail; a failure keeps the changes made before it.

Names are looked up in the active environment, which is the innermost frame, and then in the global
one. Level, frames and nesting change only inside brackets (`withLevel`, `withScope`), which put back
what they changed however the bracketed computation ends.
-/

namespace CurryLisp

/-- The state of evaluation. -/
structure Machine where
  /-- The outermost environment. -/
  global : Environment
  /-- The environments of the calls and local bindings in progress, innermost first. -/
  frames : List Environment := []
  /-- The level of the current step. -/
  level : Level := .full
  options : Options := {}
  /-- Nesting of the step that is being noted. -/
  indent : Nat := 0
  /-- Number of steps in progress. -/
  depth : Nat := 0
  /-- Number of placeholder names made so far. -/
  placeholders : Nat := 0
  store : Store := {}
  /-- What was printed. -/
  printed : String := ""
  /-- What was noted, newest first. -/
  events : List Event := []

namespace Machine

/-- The innermost environment. -/
def active (m : Machine) : Environment :=
  match m.frames with
  | [] => m.global
  | frame :: _ => frame

/-- Changes the innermost environment. -/
def updateActive (f : Environment → Environment) (m : Machine) : Machine :=
  match m.frames with
  | [] => { m with global := f m.global }
  | frame :: frames => { m with frames := f frame :: frames }

/-- The value of a name. -/
def lookup? (m : Machine) (name : String) : Option Value :=
  m.active.bindings.get? name <|> m.global.bindings.get? name

/-- The type of a name. -/
def lookupType? (m : Machine) (name : String) : Option TypeTag :=
  m.active.types.get? name <|> m.global.types.get? name

/-- The struct template of a name. -/
def lookupStruct? (m : Machine) (name : String) : Option Address :=
  m.active.structs.get? name <|> m.global.structs.get? name

/-- Number of environments above the global one. -/
def scopeDepth (m : Machine) : Nat := m.frames.length

/-- The shared objects, and the machine without them. While they change they have one owner, so that
a change need not copy them. -/
@[noinline]
def takeStore (m : Machine) : Store × Machine := (m.store, { m with store := {} })

/-- The machine at a level. -/
def atLevel (level : Level) (m : Machine) : Machine := { m with level }

end Machine

/-- A computation on a machine that may fail. -/
abbrev Eval := ExceptT Error (StateM Machine)

namespace Eval

variable {α : Type}

/-! ## Parts of the machine -/

/-- The shared objects as they are now. -/
def store : Eval Store := do return (← get).store

/-- A computation on the shared objects. -/
def onStore (f : Store → Except Error (α × Store)) : Eval α := fun m =>
  match f m.store with
  | .ok (a, store) => (.ok a, { m with store })
  | .error e => (.error e, m)

/-- Makes an object. -/
def make (f : Store → α × Store) : Eval α := fun m =>
  let (store, m) := m.takeStore
  let (a, store) := f store
  (.ok a, { m with store })

/-- A question about the shared objects. -/
def ask (f : Store → Except Error α) : Eval α := fun m => (f m.store, m)

/-- Changes the innermost environment. -/
def updateActive (f : Environment → Environment) : Eval Unit := modify (·.updateActive f)

/-- Prints a text. -/
def write (text : String) : Eval Unit := modify fun m => { m with printed := m.printed ++ text }

/-- Notes an event. -/
def note (e : Event) : Eval Unit := modify fun m => { m with events := e :: m.events }

/-- A name that no source text can spell, and that was not made before. -/
def placeholder : Eval String := do
  modify fun m => { m with placeholders := m.placeholders + 1 }
  return "%" ++ toString (← get).placeholders

/-! ## Brackets -/

/-- Runs `x` between `enter` and `leave`, whether `x` fails or not. -/
def bracket (enter leave : Machine → Machine) (x : Eval α) : Eval α := fun m =>
  let (result, m) := x (enter m)
  (result, leave m)

/-- Runs `x` at a level. -/
def withLevel (level : Level) (x : Eval α) : Eval α := do
  bracket (Machine.atLevel level) (Machine.atLevel (← get).level) x

/-- Runs `x` with an environment of its own in front. -/
def withScope (frame : Environment) : Eval α → Eval α :=
  bracket (fun m => { m with frames := frame :: m.frames })
    (fun m => { m with frames := m.frames.tail })

/-! ## What a computation does to a machine -/

/-- Making an object changes the shared objects only. -/
theorem make_apply (f : Store → α × Store) (m : Machine) :
    make f m = (.ok (f m.store).1, { m with store := (f m.store).2 }) := rfl

/-- What is bracketed decides the result. -/
theorem bracket_apply (enter leave : Machine → Machine) (x : Eval α) (m : Machine) :
    bracket enter leave x m = ((x (enter m)).1, leave (x (enter m)).2) := rfl

end Eval

end CurryLisp
