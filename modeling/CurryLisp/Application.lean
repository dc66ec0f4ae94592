import CurryLisp.Builtin.Arrays
import CurryLisp.Builtin.Lists
import CurryLisp.Callable
import CurryLisp.Number
import CurryLisp.SpecialForm

/-!
# Application

`apply` applies a value to arguments. With fewer arguments than it needs, a closure or a native
function that is no special form is curried: it becomes a closure that waits for the others. Currying
a closure reduces its body ahead of time, with the missing parameters standing for themselves.

`apply` and the operations that apply their own arguments call each other; every such call has
arguments that are smaller (`Value.totalSize`), so they end. Subexpressions are evaluated by the
parameter `visit`.
-/

namespace CurryLisp

open SpecialForm (Visit)

namespace Operation

/-- The texts of arguments for program output. -/
def printed (s : Store) (args : List Value) : List String := args.map fun v => v.print s

/-- Runs an operation that applies nothing. The operations that can apply their arguments have no
meaning of their own here and answer `nil`. -/
def run (visit : Visit) (op : Operation) (args : List Value) : Eval Value :=
  match op with
  | .lambda => SpecialForm.lambda args
  | .define => SpecialForm.define visit args
  | .undefine => SpecialForm.undefine args
  | .bindLocal => SpecialForm.bindLocal visit args
  | .choose => SpecialForm.choose visit args
  | .both => SpecialForm.both visit .truth args
  | .either => SpecialForm.either visit args
  | .quote => SpecialForm.quote args
  | .defineStruct => SpecialForm.defineStruct visit args
  | .deriveStruct => SpecialForm.deriveStruct visit args
  | .instantiate => SpecialForm.instantiate visit args
  | .setOption => SpecialForm.setOption visit args
  | .cons => Eval.onStore fun s => Builtin.cons s args
  | .car => return Builtin.car args
  | .cdr => return Builtin.cdr args
  | .list => Eval.make fun s => s.list args
  | .isNil => return Builtin.isNil args
  | .length => Eval.ask fun s => Builtin.length s args
  | .add => Eval.ask fun s => Number.add s args
  | .subtract => Eval.ask fun s => Number.subtract s args
  | .multiply => Eval.ask fun s => Number.multiply s args
  | .divide => Eval.ask fun s => Number.divide s args
  | .modulo => Eval.ask fun _ => Number.modulo args
  | .equal => Eval.ask fun s => Number.equal s args
  | .less => Eval.ask fun s => Number.less s args
  | .greater => Eval.ask fun s => Number.greater s args
  | .negate => Eval.ask fun _ => Builtin.negate args
  | .toInteger => Eval.ask fun s => Number.toInteger s args
  | .toFloat => Eval.ask fun _ => Number.toReal args
  | .toCharacter => Eval.ask fun s => Number.toCharacter s args
  | .typeOf => Eval.ask fun s => Builtin.typeOf s args
  | .isType => Eval.ask fun s => Builtin.isType s args
  | .vector => Eval.make (Store.newVector args.toArray)
  | .elementAt => Eval.ask fun s => Builtin.elementAt s args
  | .setElement => Eval.onStore fun s => Builtin.setElement s args
  | .append => Eval.onStore fun s => Builtin.append s args
  | .joinText => Eval.onStore fun s => Builtin.joinText s args
  | .evaluate =>
    match args with
    | [e] => SpecialForm.fully visit e
    | _ => throw (.arity "eval" 1 args.length)
  | .last => return Builtin.last args
  | .copy => Eval.onStore fun s => Builtin.copy s args
  | .print => do
    Eval.write (String.join (printed (← Eval.store) args))
    return .nil
  | .printLine => do
    Eval.write (String.join (printed (← Eval.store) args) ++ "\n")
    return .nil
  | .fail => do throw (.failure (" ".intercalate (printed (← Eval.store) args)))
  | .math f => Eval.ask fun _ => Number.applyFunction f args
  | .apply | .host _ => return .nil

end Operation

namespace Application

/-! ## Closures -/

/-- The environment that the frame of a call starts from: where the closure was made, or where it is
called. -/
def baseEnvironment (c : Closure) : Eval Environment := do
  let m ← get
  match m.options.scoping with
  | .lexical => return c.env
  | .dynamic => return m.active

/-- Calls a closure with all its arguments. -/
def callClosure (visit : Visit) (c : Closure) (args : List Value) : Eval Value := do
  let base ← baseEnvironment c
  let frame := (base.putAll c.bound).putAll (c.params.zip args)
  Eval.withScope frame (Eval.withLevel .full (SpecialForm.sequence visit c.body))

/-- Evaluates each of several expressions. -/
def visitAll (visit : Visit) (es : List Value) : Eval (List Value) := es.mapM visit

/-- Supplies a closure with its first arguments: they are bound from now on, and the body is reduced
ahead of time with the other parameters standing for themselves. -/
def curryClosure (visit : Visit) (c : Closure) (args : List Value) : Eval Value := do
  let supplied := c.params.take args.length
  let remaining := c.params.drop args.length
  let bound := c.bound ++ supplied.zip args
  let base ← baseEnvironment c
  let frame := (base.putAll bound).putAll (remaining.map fun name => (name, .symbol name))
  let body ← Eval.withScope frame (Eval.withLevel .ahead (visitAll visit c.body))
  Eval.note (.closureCurried supplied.length remaining.length)
  Eval.make (Store.newClosure { params := remaining, body, env := c.env, bound })

/-! ## Native functions -/

/-- The operands under which supplied arguments stand in a call, and what is bound for them. An
argument that would be evaluated again is bound to a placeholder. -/
def callOperands : List Value → Eval (List Value × List (String × Value))
  | [] => return ([], [])
  | arg :: args => do
    if arg.isResidual then
      let name ← Eval.placeholder
      let (operands, bound) ← callOperands args
      return (.symbol name :: operands, (name, arg) :: bound)
    else
      let (operands, bound) ← callOperands args
      return (arg :: operands, bound)

/-- `n` new placeholders. -/
def placeholders : Nat → Eval (List String)
  | 0 => return []
  | n + 1 => do
    let name ← Eval.placeholder
    return name :: (← placeholders n)

/-- Supplies a native function with its first arguments: a closure over placeholders for the others,
whose body is the whole call. -/
def curryNative (f : NativeFunction) (args : List Value) : Eval Value := do
  let missing := f.arity - args.length
  let (operands, bound) ← callOperands args
  let params ← placeholders missing
  let call ← Eval.make fun s => s.list (.native f :: operands ++ params.map .symbol)
  Eval.note (.nativeCurried f.name missing)
  Eval.make (Store.newClosure { params, body := [call], bound })

/-! ## Structs -/

/-- The field that an operand names: a symbol, quoted or not. -/
def fieldName (operand : Value) : Eval String := do
  match operand with
  | .symbol name | .quoted (.symbol name) => return name
  | .quoted v | v =>
    throw (.malformedForm "struct field" (v.write (← Eval.store) ++ " is not a field name"))

/-- Reads a field of a struct, or writes it. -/
def callStruct (a : Address) (args : List Value) : Eval Value := do
  match args with
  | [field] =>
    let name ← fieldName field
    Eval.ask fun s => (s.struct a).read name
  | [field, value] =>
    let name ← fieldName field
    Eval.onStore fun s => s.setField a name value
  | _ => throw (.arity ((← Eval.store).struct a).name 2 args.length)

/-! ## Functions of the host -/

/-- What a function of the host is shown of a call. -/
def hostView (m : Machine) (args : List Value) : HostView where
  args := args.map fun v => v.write m.store
  scopeDepth := m.scopeDepth
  level := m.level
  environment := m.active.render m.store false false

/-- Puts the answer of a function of the host together. -/
def hostAnswer (args : List Value) : HostAnswer → Eval Value
  | .nil => return .nil
  | .integer n => return .integer n
  | .text text => Eval.make (Store.newText text)
  | .level => return .symbol (← get).level.name
  | .argument position => return args.getD position .nil
  | .constant slot => return (← Eval.store).constant slot
  | .pair car cdr => do
    let car ← hostAnswer args car
    let cdr ← hostAnswer args cdr
    Eval.make fun s => s.cons car cdr

/-- Binds the first argument, a symbol, to the second. -/
def hostBind (args : List Value) : Eval Value := do
  match args with
  | [.symbol name, value] => Eval.updateActive (·.put name value)
  | _ => pure ()
  return .nil

/-- Calls a function of the host, where `applied` is the application of its first argument to the
others. -/
def callHost (slot : Nat) (args : List Value) (applied : Eval Value) : Eval Value := do
  let m ← get
  match (m.store.host slot).request (hostView m args) with
  | .answer a => hostAnswer args a
  | .fail text => throw (.failure text)
  | .bind => hostBind args
  | .apply => applied

/-! ## Currying and calls -/

/-- Supplies a callable with fewer arguments than it needs. -/
def curry (visit : Visit) (f : Callable) (args : List Value) : Eval Value := do
  match f with
  | .closure c => curryClosure visit c args
  | .native g =>
    if g.isSpecialForm then throw (.arity g.name g.arity args.length) else curryNative g args
  | .struct _ => throw (.arity (f.name (← Eval.store)) f.arity args.length)

/-- The refusal of a value in the head of an application. -/
def notCallable {α : Type} (v : Value) : Eval α := do
  throw (.notCallable (v.write (← Eval.store)))

mutual

/-- Applies a value to arguments. Without any argument a function that needs some is answered
itself. -/
def apply (visit : Visit) (head : Value) (args : List Value) : Eval Value := do
  match head.callable? (← Eval.store) with
  | none => notCallable head
  | some f =>
    if args.isEmpty && 0 < f.arity then return head
    else if args.length < f.arity then curry visit f args
    else if f.arity < args.length && !f.variadic then
      throw (.arity (f.name (← Eval.store)) f.arity args.length)
    else
      Eval.ask fun s => f.checkArguments s args
      match f with
      | .native g => perform visit g.operation args
      | .closure c => callClosure visit c args
      | .struct a => callStruct a args
termination_by (Value.totalSize args, 1)

/-- Runs an operation. -/
def perform (visit : Visit) (op : Operation) (args : List Value) : Eval Value :=
  match op, args with
  | .apply, [f, list] =>
    match _h : list.toList? with
    | some items => apply visit f items
    | none => do throw (.malformedList (list.write (← Eval.store)))
  | .apply, args => throw (.arity "apply" 2 args.length)
  | .host slot, [] => callHost slot [] (notCallable .nil)
  | .host slot, f :: rest => callHost slot (f :: rest) (apply visit f rest)
  | op, args => op.run visit args
termination_by (Value.totalSize args, 0)
decreasing_by
  · have := Value.totalSize_toList?_lt _h
    apply Prod.Lex.left
    simp only [Value.totalSize_cons, Value.totalSize_nil]
    omega
  · have := Value.size_pos f
    apply Prod.Lex.left
    simp only [Value.totalSize_cons]
    omega

end

/-! ## Operations that apply their arguments -/

/-- A function is applied to the items of a list. -/
theorem perform_list {f list : Value} {items : List Value} (h : list.toList? = some items)
    (visit : Visit) : perform visit .apply [f, list] = apply visit f items := by
  rw [perform]
  split
  · next found hfound => rw [Option.some.inj (h.symm.trans hfound)]
  · next hnone => cases h.symm.trans hnone

/-- It is not applied to anything else. -/
theorem perform_improper {f list : Value} (h : list.toList? = none) (visit : Visit) :
    perform visit .apply [f, list] =
      Eval.store >>= fun s => MonadExcept.throw (.malformedList (list.write s)) := by
  rw [perform]
  split
  · next hsome => cases h.symm.trans hsome
  · rfl

/-- An operation that cannot apply its arguments runs. -/
theorem perform_run {visit : Visit} (op : Operation) {args : List Value} (h : op ≠ .apply)
    (h' : ∀ slot, op ≠ .host slot) : perform visit op args = op.run visit args := by
  apply perform.eq_5 <;> intros <;> simp_all

/-- Induction along the applications that an application leads to: `P` is about applications, `Q` about
operations that are performed. -/
theorem applies_induction {P : Value → List Value → Prop} {Q : Operation → List Value → Prop}
    (called : ∀ head args, (∀ f : NativeFunction, Q f.operation args) → P head args)
    (list : ∀ f list items, list.toList? = some items → P f items → Q .apply [f, list])
    (improper : ∀ f list, list.toList? = none → Q .apply [f, list])
    (arity : ∀ args, (∀ f list, args = [f, list] → False) → Q .apply args)
    (nobody : ∀ slot, Q (.host slot) [])
    (first : ∀ slot f rest, P f rest → Q (.host slot) (f :: rest))
    (run : ∀ op args, op ≠ .apply → (∀ slot, op ≠ .host slot) → Q op args) :
    (∀ head args, P head args) ∧ ∀ op args, Q op args := by
  refine apply.mutual_induct P Q (fun head args ih => called head args fun f => ih (.native f) f)
    list improper arity nobody first fun op args _ happly hnobody hfirst => run op args happly ?_
  rintro slot rfl
  cases args with
  | nil => exact hnobody slot rfl rfl
  | cons f rest => exact hfirst slot f rest rfl rfl

end Application

end CurryLisp
