import CurryLisp.Application

/-!
# Evaluation

A step (`step`) looks at the node of an expression and evaluates its parts by further steps, which are
nested in it. The number of nested steps is limited by an option; `visitWithin` recurses on the number
that may still be nested, so evaluation always ends.

Operands are reduced at the weaker of the level of the application and that of the function. Below the
full level an application is reduced only if the function is pure and no operand still stands for
code; otherwise it is put together again.
-/

namespace CurryLisp.Evaluation

open SpecialForm (Visit)

/-! ## One step -/

/-- The registered type that a reference names. -/
def resolveType (tag : TypeTag) : Eval Value := do
  let m ← get
  match m.lookupType? tag.name with
  | some registered => return .type registered
  | none => if m.level = .ahead then return .type tag else throw (.unboundType tag.name)

/-- The value of a symbol. Ahead of time an unknown name stays, and so does one whose value would be
taken for code. -/
def visitSymbol (name : String) : Eval Value := do
  let m ← get
  if m.level = .asWritten then return .symbol name
  else
    match m.lookup? name with
    | some value =>
      if m.level = .ahead && value.isResidual then return .symbol name
      else
        match value with
        | .type tag => resolveType tag
        | _ => return value
    | none => if m.level = .ahead then return .symbol name else throw (.unboundSymbol name)

/-- The value of a quote. Below the full level the quote stays for a later evaluation. -/
def visitQuoted (visit : Visit) (e inner : Value) : Eval Value := do
  if (← get).level = .full then Eval.withLevel .asWritten (visit inner) else return e

/-- An application that is put together again. -/
def rebuild (head : Value) (args : List Value) : Eval Value :=
  Eval.make fun s => s.list (head :: args)

/-- The operands of a struct: the field as written and the new value evaluated. -/
def structOperands (visit : Visit) : List Value → Eval (List Value)
  | field :: value :: rest => do
    let value ← SpecialForm.fully visit value
    return field :: value :: rest
  | args => return args

/-- An application of a callable to operands that are not evaluated yet. -/
def visitApplication (visit : Visit) (head : Value) (f : Callable) (operands : List Value) :
    Eval Value := do
  let ambient := (← get).level
  if ambient = .ahead && f.level.rank < Level.full.rank then rebuild head operands
  else
    let args ← Eval.withLevel (f.level.min ambient) (Application.visitAll visit operands)
    if ambient = .ahead && (!f.isPure || args.any Value.isResidual) then rebuild head args
    else
      let args ← match f with
        | .struct _ => structOperands visit args
        | _ => pure args
      Application.apply visit head args

/-- A pair is an application, except at the lowest level and where its head is `nil`. -/
def visitPair (visit : Visit) (e car cdr : Value) : Eval Value := do
  if (← get).level = .asWritten || car.isNil then return e
  else
    match cdr.toList? with
    | none => throw (.malformedList (cdr.write (← Eval.store)))
    | some operands =>
      let head ← visit car
      match head.callable? (← Eval.store) with
      | some f => visitApplication visit head f operands
      | none =>
        if (← get).level = .ahead then
          let args ← Application.visitAll visit operands
          rebuild head args
        else Application.notCallable head

/-- Evaluates a node by means of its parts. -/
def step (visit : Visit) (e : Value) : Eval Value := do
  match e with
  | .pair _ car cdr => visitPair visit e car cdr
  | .quoted inner => visitQuoted visit e inner
  | .symbol name => visitSymbol name
  | .type tag => if (← get).level = .asWritten then return e else resolveType tag
  | _ => return e

/-! ## Notes on a step -/

/-- Notes the beginning of a step. -/
def noteEntry (e : Value) : Eval Unit := do
  let m ← get
  if m.options.printAst then Eval.note (.node m.indent e.kind)
  if m.options.trace then Eval.note (.enter m.indent (e.write m.store) m.level)

/-- Notes the end of a step. -/
def noteExit (result : Except Error Value) : Eval Unit := do
  let m ← get
  if m.options.trace then
    match result with
    | .ok value => Eval.note (.leave m.indent (value.write m.store))
    | .error e => Eval.note (.raise m.indent e)
  if m.options.showEnv then
    Eval.note (.environment m.indent
      (m.active.render m.store m.options.showBuiltins m.options.showTypes))

/-- Notes beginning and end of a step, if the options ask for notes at its beginning. -/
def observed (e : Value) (x : Eval Value) : Eval Value := do
  if (← get).options.observes then
    noteEntry e
    let result ← liftM (Eval.bracket (fun m => { m with indent := m.indent + 1 })
      (fun m => { m with indent := m.indent - 1 }) x).run
    noteExit result
    MonadExcept.ofExcept result
  else x

/-! ## Nested steps -/

/-- The same value, computed on a stack of its own, so that the nesting of steps is limited by the
options alone. -/
def onFreshStack {α : Type} (f : Unit → α) : α := (Task.spawn f .dedicated).get

@[simp]
theorem onFreshStack_eq {α : Type} (f : Unit → α) : onFreshStack f = f () := rfl

/-- Nested steps that share a stack. -/
def stepsPerStack : Nat := 256

/-- Runs a step inside another one, `room` steps above the limit. -/
def nested {α : Type} (room : Nat) (x : Eval α) : Eval α :=
  Eval.bracket (fun m => { m with depth := m.depth + 1 }) (fun m => { m with depth := m.depth - 1 })
    (if room % stepsPerStack = stepsPerStack - 1 then fun m => onFreshStack fun _ => x m else x)

/-- The stack that a step runs on makes no difference to its outcome. -/
theorem nested_eq {α : Type} (room : Nat) (x : Eval α) :
    nested room x =
      Eval.bracket (fun m => { m with depth := m.depth + 1 })
        (fun m => { m with depth := m.depth - 1 }) x := by
  unfold nested
  split <;> rfl

/-- Evaluates an expression, where `room` steps may still be nested. -/
def visitWithin : Nat → Visit
  | 0, _ => do throw (.depthExceeded (← get).options.maxDepth)
  | room + 1, e => nested room (observed e (step (visitWithin room) e))

/-- Steps that may still be nested. -/
def room (m : Machine) : Nat := m.options.maxDepth - m.depth

/-- Evaluates an expression at the current level. -/
def visit (e : Value) : Eval Value := do visitWithin (room (← get)) e

end CurryLisp.Evaluation
