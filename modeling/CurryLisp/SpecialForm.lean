import CurryLisp.Struct.Registry

/-!
# Special forms

A special form receives its operands as written and decides itself what to evaluate. The parameter
`visit` of each form is the evaluation of a subexpression at the current level; `fully visit`
evaluates one completely.

Operands of the wrong shape are refused before anything behind them is evaluated, so of two faults the
one that is met first in the text is told.
-/

namespace CurryLisp.SpecialForm

/-- The evaluation of a subexpression. -/
abbrev Visit := Value → Eval Value

/-- Evaluates an expression completely. -/
def fully (visit : Visit) (e : Value) : Eval Value := Eval.withLevel .full (visit e)

/-- Evaluates expressions in turn; the value is that of the last. -/
def sequence (visit : Visit) : List Value → Eval Value
  | [] => return .nil
  | [e] => visit e
  | e :: es => do
    let _ ← visit e
    sequence visit es

/-- The name that an operand of a form must be. -/
def operandName (form : String) (operand : Value) : Eval String := do
  match operand with
  | .symbol name => return name
  | _ => throw (.malformedForm form ("expected a symbol, got " ++ operand.write (← Eval.store)))

/-! ## Functions and bindings -/

/-- The names in a parameter list, which must be symbols that differ from each other and from those in
`before`. -/
def paramNames (refusal : Error) (before : List String) : List Value → Except Error (List String)
  | [] => .ok before.reverse
  | .symbol name :: rest =>
    if before.contains name then
      .error (.malformedForm "\\" ("parameter " ++ name ++ " appears more than once"))
    else paramNames refusal (name :: before) rest
  | _ :: _ => .error refusal

/-- `(\ (params…) body…)`: a function that keeps the innermost environment. -/
def lambda (args : List Value) : Eval Value := do
  let params := args.headD .nil
  let refusal := Error.malformedForm "\\"
    ("expected a list of parameter symbols, got " ++ params.write (← Eval.store))
  match params.toList? with
  | none => throw refusal
  | some items =>
    let names ← MonadExcept.ofExcept (paramNames refusal [] items)
    let env := (← get).active
    Eval.make (Store.newClosure { params := names, body := args.drop 1, env })

/-- `(define name expr)`: binds a name in the innermost environment. -/
def define (visit : Visit) : List Value → Eval Value
  | [name, e] => do
    let name ← operandName "define" name
    let value ← fully visit e
    Eval.updateActive (·.put name value)
    return value
  | args => throw (.arity "define" 2 args.length)

/-- `(undefine name…)`: removes bindings from the innermost environment. -/
def undefine : List Value → Eval Value
  | [] => return .nil
  | operand :: rest => do
    let name ← operandName "undefine" operand
    Eval.updateActive (·.remove name)
    undefine rest

/-- The values of the bindings of a `let`; each is evaluated outside of the others. -/
def bindings (visit : Visit) : List Value → Eval (List (String × Value))
  | [] => return []
  | entry :: rest => do
    match entry.toList? with
    | some [.symbol name, e] =>
      let value ← fully visit e
      return (name, value) :: (← bindings visit rest)
    | _ => throw (.malformedForm "let"
        ("binding " ++ entry.write (← Eval.store) ++ " should be (name expr)"))

/-- `(let ((name expr)…) body…)`: evaluates the body in an environment of its own. -/
def bindLocal (visit : Visit) (args : List Value) : Eval Value := do
  let entries := args.headD .nil
  match entries.toList? with
  | none => throw (.malformedForm "let"
      ("expected a list of bindings, got " ++ entries.write (← Eval.store)))
  | some entries =>
    let bound ← bindings visit entries
    let frame := (← get).active.putAll bound
    Eval.withScope frame (sequence visit (args.drop 1))

/-! ## Choices -/

/-- `(if cond then else)`. -/
def choose (visit : Visit) : List Value → Eval Value
  | [condition, yes, no] => do
    if (← fully visit condition).isTruthy then fully visit yes else fully visit no
  | args => throw (.arity "if" 3 args.length)

/-- `(and expr…)`: the first false value, or the last value; `value` is that of the expression
before. -/
def both (visit : Visit) (value : Value) : List Value → Eval Value
  | [] => return value
  | e :: es => do
    let value ← fully visit e
    if value.isTruthy then both visit value es else return value

/-- `(or expr…)`: the first true value, or `nil`. -/
def either (visit : Visit) : List Value → Eval Value
  | [] => return .nil
  | e :: es => do
    let value ← fully visit e
    if value.isTruthy then return value else either visit es

/-- `(quote expr)`. -/
def quote : List Value → Eval Value
  | [e] => return e
  | args => throw (.arity "quote" 1 args.length)

/-! ## Structs -/

/-- The parts of a field entry: its name, the reference to its type and its default expression. -/
def fieldParts? (entry : Value) : Option (String × Option TypeTag × Option Value) :=
  match entry.toList? with
  | some [.symbol name] => some (name, none, none)
  | some [.symbol name, .type tag] => some (name, some tag, none)
  | some [.symbol name, .type tag, default] => some (name, some tag, some default)
  | some [.symbol name, default] => some (name, none, some default)
  | _ => none

/-- The name and the default are items of the entry. -/
theorem mem_of_fieldParts? {entry : Value} {name : String} {tag : Option TypeTag}
    {default : Option Value} (h : fieldParts? entry = some (name, tag, default)) :
    ∃ items, entry.toList? = some items ∧ .symbol name ∈ items ∧ ∀ e, default = some e → e ∈ items := by
  unfold fieldParts? at h
  split at h
  · next hlist =>
    cases h
    exact ⟨_, hlist, by simp, fun _ he => by cases he⟩
  · next hlist =>
    cases h
    exact ⟨_, hlist, by simp, fun _ he => by cases he⟩
  · next hlist =>
    cases h
    exact ⟨_, hlist, by simp, fun _ he => by cases he; simp⟩
  · next hlist =>
    cases h
    exact ⟨_, hlist, by simp, fun _ he => by cases he; simp⟩
  · cases h

/-- The registered type that a field names; without one any value is accepted. -/
def fieldType : Option TypeTag → Eval TypeTag
  | none => return BaseType.any.tag
  | some tag => do
    match (← get).lookupType? tag.name with
    | some registered => return registered
    | none => throw (.unboundType tag.name)

/-- The declarations that field entries make. -/
def fieldSpecs (visit : Visit) (form : String) : List Value → Eval (List FieldSpec)
  | [] => return []
  | entry :: rest => do
    match fieldParts? entry with
    | none => throw (.malformedForm form
        ("field " ++ entry.write (← Eval.store) ++ " should be (name [:type] [default])"))
    | some (name, tag, default) =>
      let tag ← fieldType tag
      let default ← match default with
        | some e => fully visit e
        | none => pure .nil
      return { name, tag, default } :: (← fieldSpecs visit form rest)

/-- The declarations in the operand of a form. -/
def fieldList (visit : Visit) (form : String) (fields : Value) : Eval (List FieldSpec) := do
  match fields.toList? with
  | some entries => fieldSpecs visit form entries
  | none => throw (.malformedForm form
      ("expected a list of fields, got " ++ fields.write (← Eval.store)))

/-- `(defstruct name (field…))`. -/
def defineStruct (visit : Visit) : List Value → Eval Value
  | [name, fields] => do
    let name ← operandName "defstruct" name
    let specs ← fieldList visit "defstruct" fields
    Struct.defineTemplate name specs
  | args => throw (.arity "defstruct" 2 args.length)

/-- `(substruct name parent (field…))`. -/
def deriveStruct (visit : Visit) : List Value → Eval Value
  | [name, parent, fields] => do
    let name ← operandName "substruct" name
    let parent ← operandName "substruct" parent
    let specs ← fieldList visit "substruct" fields
    Struct.deriveTemplate name parent specs
  | args => throw (.arity "substruct" 3 args.length)

/-- The values that initializers give to fields. -/
def initializers (visit : Visit) : List Value → Eval (List (String × Value))
  | [] => return []
  | init :: rest => do
    match init.toList? with
    | some [.symbol field, e] =>
      let value ← fully visit e
      return (field, value) :: (← initializers visit rest)
    | _ => throw (.malformedForm "new"
        ("initializer " ++ init.write (← Eval.store) ++ " should be (field value)"))

/-- `(new name (field value)…)`. -/
def instantiate (visit : Visit) (args : List Value) : Eval Value := do
  let name ← operandName "new" (args.headD .nil)
  let inits ← initializers visit (args.drop 1)
  Struct.instantiate name inits

/-! ## Options -/

/-- `(set-option name value)`. -/
def setOption (visit : Visit) : List Value → Eval Value
  | [name, e] => do
    let name ← operandName "set-option" name
    let enabled := (← fully visit e).isTruthy
    let options ← MonadExcept.ofExcept ((← get).options.set name enabled)
    modify fun m => { m with options }
    Eval.note (.optionChanged name enabled)
    return .ofBool enabled
  | args => throw (.arity "set-option" 2 args.length)

end CurryLisp.SpecialForm
