import CurryLisp.Error
import CurryLisp.Level

/-!
# Events

What a machine notes while it runs. The events of steps carry the nesting of the step, by which their
text is indented; the others tell of a change in the machine.
-/

namespace CurryLisp

/-- A note of a machine. -/
inductive Event where
  /-- A step looks at a node of this kind. -/
  | node (indent : Nat) (kind : String)
  /-- A step begins with this expression. -/
  | enter (indent : Nat) (written : String) (level : Level)
  /-- A step ends with this value. -/
  | leave (indent : Nat) (written : String)
  /-- A step ends with this error. -/
  | raise (indent : Nat) (e : Error)
  /-- The active environment at the end of a step. -/
  | environment (indent : Nat) (rendered : String)
  /-- The machine starts afresh. -/
  | reset (frames : Nat)
  /-- A top-level expression has failed. -/
  | abandoned (e : Error)
  /-- A struct template has been registered. -/
  | structRegistered (name tag : String)
  /-- A closure has received some of its arguments. -/
  | closureCurried (supplied remaining : Nat)
  /-- A native function has received some of its arguments. -/
  | nativeCurried (name : String) (missing : Nat)
  /-- A program has set an option. -/
  | optionChanged (name : String) (enabled : Bool)
  deriving DecidableEq, Repr

namespace Event

/-- The part of a machine that notes an event. -/
inductive Source where
  | trace
  | ast
  | env
  | evaluator
  | builtins
  deriving DecidableEq, Repr

/-- The part that notes this event. -/
def source : Event → Source
  | enter .. | leave .. | raise .. => .trace
  | node .. => .ast
  | environment .. => .env
  | reset _ | abandoned _ | structRegistered .. | closureCurried .. | nativeCurried .. => .evaluator
  | optionChanged .. => .builtins

/-- Whether an event belongs to a step, rather than telling of a change in the machine. -/
def isStep (e : Event) : Bool :=
  match e.source with
  | .trace | .ast | .env => true
  | .evaluator | .builtins => false

/-- The white space in front of a note at this nesting. -/
def indentation (indent : Nat) : String := String.ofList (List.replicate (2 * indent) ' ')

/-- An event in words. -/
def text : Event → String
  | node indent kind => indentation indent ++ kind
  | enter indent written level => indentation indent ++ written ++ " [" ++ level.name ++ "]"
  | leave indent written => indentation indent ++ "=> " ++ written
  | raise indent e => indentation indent ++ "!! " ++ e.message
  | environment indent rendered => indentation indent ++ rendered
  | reset frames => "resetting evaluator frames=" ++ toString frames
  | abandoned e => "evaluation failed, restoring top-level state error=" ++ e.message
  | structRegistered name tag => "registering struct name=" ++ name ++ " tag=" ++ tag
  | closureCurried supplied remaining =>
    "curried closure supplied=" ++ toString supplied ++ " remaining=" ++ toString remaining
  | nativeCurried name missing =>
    "curried native function native=" ++ name ++ " missing=" ++ toString missing
  | optionChanged name enabled =>
    "option changed option=" ++ name ++ " enabled=" ++ (if enabled then "true" else "false")

end Event

end CurryLisp
