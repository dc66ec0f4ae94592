import CurryLisp.Level

/-!
# Functions of the host

A package can bring functions that the program around the interpreter implements. Such a function is
not known here: a `HostFunction` is any function from what it is shown of a call (`HostView`) to what
it has done for it (`HostRequest`). What holds only of some of them is stated by a predicate on host
functions, such as `HostFunction.IgnoresFrames`.
-/

namespace CurryLisp

/-- What a function of the host is shown of a call. -/
structure HostView where
  /-- The arguments as source text. -/
  args : List String
  /-- Number of environments above the global one. -/
  scopeDepth : Nat
  level : Level
  /-- The innermost environment, as it is shown for inspection. -/
  environment : String

/-- What a function of the host answers, put together from atoms and from what it was given. -/
inductive HostAnswer where
  | nil
  | integer (n : Int64)
  | text (text : String)
  /-- The level of the call, as a symbol. -/
  | level
  /-- The argument at this position, counted from zero. -/
  | argument (position : Nat)
  /-- The value that the package holds at this place. -/
  | constant (slot : Nat)
  | pair (car cdr : HostAnswer)

/-- What a function of the host has done for it. -/
inductive HostRequest where
  | answer (a : HostAnswer)
  /-- To fail with this text. -/
  | fail (text : String)
  /-- To bind the first argument, a symbol, to the second in the innermost environment. -/
  | bind
  /-- To apply the first argument to the others. -/
  | apply

/-- A function of the host. -/
structure HostFunction where
  request : HostView → HostRequest

instance : Inhabited HostFunction := ⟨⟨fun _ => .answer .nil⟩⟩

/-- Whether an answer shows the level of the call. -/
def HostAnswer.showsLevel : HostAnswer → Bool
  | level => true
  | pair car cdr => car.showsLevel || cdr.showsLevel
  | _ => false

/-- Whether what is asked for depends on more than the arguments and the objects. -/
def HostRequest.isContextual : HostRequest → Bool
  | answer a => a.showsLevel
  | fail _ => false
  | bind | apply => true

namespace HostFunction

/-- The function asks for the same however many environments there are. -/
def IgnoresFrames (f : HostFunction) : Prop :=
  ∀ (view : HostView) (scopeDepth : Nat), f.request { view with scopeDepth } = f.request view

/-- The function looks at its arguments only, and asks for nothing that depends on more. -/
structure IgnoresNames (f : HostFunction) : Prop where
  alike : ∀ view view' : HostView, view'.args = view.args → f.request view' = f.request view
  context : ∀ view, (f.request view).isContextual = false

end HostFunction

end CurryLisp
