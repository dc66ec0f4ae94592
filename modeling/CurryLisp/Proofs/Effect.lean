import CurryLisp.Proofs.Growth
import CurryLisp.Session

/-!
# What evaluation may do to a machine

A property of computations is *closed* if the primitive computations have it and if it is kept by
everything a step is put together with; it is *pervasive* if it is kept by the notes on a step and by
nesting, too. Then every application and every evaluation has it (`Closed.apply`,
`Pervasive.visitWithin`). There is one rule for each computation, and it is the same whatever the
property is.

A relation between the machine before and the machine after a computation is a *policy* if it is
reflexive and transitive, allows every primitive change, and holds around a bracket whenever it holds
inside. A policy holds along every evaluation and every application, whether they fail or not: that it
holds along a computation is a pervasive property. A step does less than a policy allows: beside what
its parts do it neither nests nor notes any step. A `Discipline` allows what a step does by itself; that
it holds along a computation is a closed property.
-/

namespace CurryLisp

open SpecialForm (Visit)

/-! ## Equations of computations -/

namespace Eval

variable {α β : Type}

theorem bind_apply (x : Eval α) (f : α → Eval β) (m : Machine) :
    (x >>= f) m = match x m with
      | (.ok a, m') => f a m'
      | (.error e, m') => (.error e, m') := by
  rcases h : x m with ⟨_ | _, _⟩ <;>
    simp [bind, ExceptT.bind, StateT.bind, ExceptT.mk, h] <;> rfl

/-- Where a sequence succeeds, its first part does, and then the second. -/
theorem bind_eq_ok {x : Eval α} {f : α → Eval β} {b : β} {m m' : Machine}
    (h : (x >>= f) m = (.ok b, m')) : ∃ a m₁, x m = (.ok a, m₁) ∧ f a m₁ = (.ok b, m') := by
  rw [bind_apply] at h
  rcases hx : x m with ⟨e | a, m₁⟩
  · rw [hx] at h
    cases h
  · rw [hx] at h
    exact ⟨a, m₁, rfl, h⟩

theorem ofExcept_apply (r : Except Error α) (m : Machine) :
    (MonadExcept.ofExcept r : Eval α) m = (r, m) := by
  cases r <;> rfl

end Eval

/-! ## Closed properties -/

/-- The machine after another number of placeholders. -/
def Machine.counting (placeholders : Nat) (m : Machine) : Machine := { m with placeholders }

/-- The primitive computations have the property `Q`, and so has what is put together from computations
that have it. What is read of the machine to go on with is not the number of placeholders. -/
structure Closed (Q : {α : Type} → Eval α → Prop) : Prop where
  pure : ∀ {α : Type} (a : α), Q (Pure.pure a : Eval α)
  throw : ∀ {α : Type} (e : Error), Q (MonadExcept.throw e : Eval α)
  bind : ∀ {α β : Type} {x : Eval α} {f : α → Eval β}, Q x → (∀ a, Q (f a)) → Q (x >>= f)
  get : ∀ {β : Type} {f : Machine → Eval β}, (∀ n m, f (m.counting n) = f m) → (∀ m, Q (f m)) →
    Q (MonadState.get >>= f)
  ask : ∀ {α : Type} (f : Store → Except Error α), Q (Eval.ask f)
  make : ∀ {α : Type} {f : Store → α × Store}, (∀ s : Store, s.Grows (f s).2) → Q (Eval.make f)
  onStore : ∀ {α : Type} {f : Store → Except Error (α × Store)},
    (∀ (s : Store) a s', f s = .ok (a, s') → s.Grows s') → Q (Eval.onStore f)
  updateActive : ∀ f : Environment → Environment, Q (Eval.updateActive f)
  /-- An option is set and that is noted, if there is one of this name. -/
  changeOption : ∀ {α : Type} (name : String) (enabled : Bool) (a : α), Q (do
    let options ← MonadExcept.ofExcept ((← MonadState.get).options.set name enabled)
    modify fun m => { m with options }
    Eval.note (.optionChanged name enabled)
    Pure.pure a : Eval α)
  write : ∀ text : String, Q (Eval.write text)
  note : ∀ {e : Event}, e.isStep = false → Q (Eval.note e)
  placeholder : Q Eval.placeholder
  withLevel : ∀ {α : Type} (level : Level) {x : Eval α}, Q x → Q (Eval.withLevel level x)
  withScope : ∀ {α : Type} (frame : Environment) {x : Eval α}, Q x → Q (Eval.withScope frame x)

/-- A closed property that the notes on steps and the nesting of steps keep. -/
structure Pervasive (Q : {α : Type} → Eval α → Prop) : Prop extends Closed Q where
  /-- Any note, that of a step included. -/
  report : ∀ e : Event, Q (Eval.note e)
  indented : ∀ {x : Eval Value}, Q x →
    Q (liftM (Eval.bracket (fun m => { m with indent := m.indent + 1 })
      (fun m => { m with indent := m.indent - 1 }) x).run : Eval (Except Error Value))
  nested : ∀ {α : Type} (room : Nat) {x : Eval α}, Q x → Q (Evaluation.nested room x)

namespace Closed

variable {Q : {α : Type} → Eval α → Prop} (hQ : Closed Q)
include hQ

theorem store : Q Eval.store :=
  hQ.get (f := fun m => Pure.pure m.store) (fun _ _ => rfl) fun _ => hQ.pure _

theorem ofExcept {α : Type} (r : Except Error α) : Q (MonadExcept.ofExcept r : Eval α) := by
  cases r with
  | error e => exact throw hQ e
  | ok a => exact pure hQ a

/-! ### Special forms -/

section SpecialForms

variable {visit : Visit} (hv : ∀ e, Q (visit e))
include hv

theorem fully (e : Value) : Q (SpecialForm.fully visit e) := withLevel hQ .full (hv e)

theorem sequence (es : List Value) : Q (SpecialForm.sequence visit es) := by
  induction es with
  | nil => exact pure hQ _
  | cons e rest ih =>
    cases rest with
    | nil => exact hv e
    | cons e' rest => exact bind hQ (hv e) fun _ => ih

omit hv in
theorem operandName (form : String) (operand : Value) :
    Q (SpecialForm.operandName form operand) := by
  unfold SpecialForm.operandName
  split
  · exact pure hQ _
  · exact bind hQ (store hQ) fun _ => throw hQ _

omit hv in
theorem lambda (args : List Value) : Q (SpecialForm.lambda args) := by
  refine bind hQ (store hQ) fun s => ?_
  split
  · exact throw hQ _
  · refine bind hQ (ofExcept hQ _) fun names => get hQ (fun _ _ => rfl) fun m => ?_
    exact make hQ fun s => Store.Grows.newClosure _ s

theorem define (args : List Value) : Q (SpecialForm.define visit args) := by
  unfold SpecialForm.define
  split
  · refine bind hQ (operandName hQ _ _) fun name => bind hQ (fully hQ hv _) fun value => ?_
    exact bind hQ (updateActive hQ _) fun _ => pure hQ _
  · exact throw hQ _

omit hv in
theorem undefine (args : List Value) : Q (SpecialForm.undefine args) := by
  induction args with
  | nil => exact pure hQ _
  | cons operand rest ih =>
    refine bind hQ (operandName hQ _ _) fun name => ?_
    exact bind hQ (updateActive hQ _) fun _ => ih

theorem bindings (entries : List Value) : Q (SpecialForm.bindings visit entries) := by
  induction entries with
  | nil => exact pure hQ _
  | cons entry rest ih =>
    unfold SpecialForm.bindings
    split
    · refine bind hQ (fully hQ hv _) fun value => ?_
      exact bind hQ ih fun _ => pure hQ _
    · exact bind hQ (store hQ) fun _ => throw hQ _

theorem bindLocal (args : List Value) : Q (SpecialForm.bindLocal visit args) := by
  simp only [SpecialForm.bindLocal]
  split
  · exact bind hQ (store hQ) fun _ => throw hQ _
  · refine bind hQ (bindings hQ hv _) fun bound => get hQ (fun _ _ => rfl) fun m => ?_
    exact withScope hQ _ (sequence hQ hv _)

theorem choose (args : List Value) : Q (SpecialForm.choose visit args) := by
  unfold SpecialForm.choose
  split
  · refine bind hQ (fully hQ hv _) fun condition => ?_
    split
    · exact fully hQ hv _
    · exact fully hQ hv _
  · exact throw hQ _

theorem both (value : Value) (args : List Value) : Q (SpecialForm.both visit value args) := by
  induction args generalizing value with
  | nil => exact pure hQ _
  | cons e es ih =>
    refine bind hQ (fully hQ hv e) fun value => ?_
    split
    · exact ih value
    · exact pure hQ _

theorem either (args : List Value) : Q (SpecialForm.either visit args) := by
  induction args with
  | nil => exact pure hQ _
  | cons e es ih =>
    refine bind hQ (fully hQ hv e) fun value => ?_
    split
    · exact pure hQ _
    · exact ih

omit hv in
theorem quote (args : List Value) : Q (SpecialForm.quote args) := by
  unfold SpecialForm.quote
  split
  · exact pure hQ _
  · exact throw hQ _

omit hv in
theorem fieldType (tag : Option TypeTag) : Q (SpecialForm.fieldType tag) := by
  unfold SpecialForm.fieldType
  split
  · exact pure hQ _
  · refine get hQ (fun _ _ => rfl) fun m => ?_
    split
    · exact pure hQ _
    · exact throw hQ _

theorem fieldSpecs (form : String) (entries : List Value) :
    Q (SpecialForm.fieldSpecs visit form entries) := by
  induction entries with
  | nil => exact pure hQ _
  | cons entry rest ih =>
    unfold SpecialForm.fieldSpecs
    split
    · exact bind hQ (store hQ) fun _ => throw hQ _
    · refine bind hQ (fieldType hQ _) fun tag => ?_
      dsimp only
      split
      · exact bind hQ (fully hQ hv _) fun _ => bind hQ ih fun _ => pure hQ _
      · exact bind hQ (pure hQ _) fun _ => bind hQ ih fun _ => pure hQ _

theorem fieldList (form : String) (fields : Value) :
    Q (SpecialForm.fieldList visit form fields) := by
  unfold SpecialForm.fieldList
  split
  · exact fieldSpecs hQ hv form _
  · exact bind hQ (store hQ) fun _ => throw hQ _

omit hv in
theorem register (struct : Struct) : Q (Struct.register struct) := by
  refine bind hQ (note hQ rfl) fun _ => ?_
  refine bind hQ (make hQ fun s => Store.Grows.newStruct struct s) fun template => ?_
  exact bind hQ (updateActive hQ _) fun _ => pure hQ _

omit hv in
theorem template (name : String) : Q (Struct.template name) := by
  refine get hQ (fun _ _ => rfl) fun m => ?_
  split
  · exact pure hQ _
  · exact throw hQ _

omit hv in
theorem defineTemplate (name : String) (specs : List FieldSpec) :
    Q (Struct.defineTemplate name specs) :=
  bind hQ (ask hQ _) fun struct => register hQ struct

omit hv in
theorem deriveTemplate (name parent : String) (specs : List FieldSpec) :
    Q (Struct.deriveTemplate name parent specs) := by
  refine bind hQ (template hQ parent) fun a => bind hQ ?_ fun struct => register hQ struct
  exact onStore hQ fun s struct s' h => Store.Grows.derive h

omit hv in
theorem instantiateStruct (name : String) (inits : List (String × Value)) :
    Q (Struct.instantiate name inits) := by
  refine bind hQ (template hQ name) fun a => onStore hQ fun s v s' h => ?_
  obtain ⟨made, hset, h⟩ := exists_of_bind_eq_ok h
  cases h
  exact (Store.Grows.copyStruct s _).trans (Store.Grows.setFields hset)

theorem defineStruct (args : List Value) : Q (SpecialForm.defineStruct visit args) := by
  unfold SpecialForm.defineStruct
  split
  · refine bind hQ (operandName hQ _ _) fun name => ?_
    exact bind hQ (fieldList hQ hv _ _) fun specs => defineTemplate hQ name specs
  · exact throw hQ _

theorem deriveStruct (args : List Value) : Q (SpecialForm.deriveStruct visit args) := by
  unfold SpecialForm.deriveStruct
  split
  · refine bind hQ (operandName hQ _ _) fun name => bind hQ (operandName hQ _ _) fun parent => ?_
    exact bind hQ (fieldList hQ hv _ _) fun specs => deriveTemplate hQ name parent specs
  · exact throw hQ _

theorem initializers (inits : List Value) : Q (SpecialForm.initializers visit inits) := by
  induction inits with
  | nil => exact pure hQ _
  | cons init rest ih =>
    unfold SpecialForm.initializers
    split
    · refine bind hQ (fully hQ hv _) fun value => ?_
      exact bind hQ ih fun _ => pure hQ _
    · exact bind hQ (store hQ) fun _ => throw hQ _

theorem instantiate (args : List Value) : Q (SpecialForm.instantiate visit args) := by
  refine bind hQ (operandName hQ _ _) fun name => ?_
  exact bind hQ (initializers hQ hv _) fun inits => instantiateStruct hQ name inits

theorem setOption (args : List Value) : Q (SpecialForm.setOption visit args) := by
  unfold SpecialForm.setOption
  split
  · refine bind hQ (operandName hQ _ _) fun name => bind hQ (fully hQ hv _) fun value => ?_
    exact changeOption hQ _ _ _
  · exact throw hQ _

/-! ### Operations and applications -/

theorem run (op : Operation) (args : List Value) : Q (op.run visit args) := by
  cases op with
  | lambda => exact lambda hQ args
  | define => exact define hQ hv args
  | undefine => exact undefine hQ args
  | bindLocal => exact bindLocal hQ hv args
  | choose => exact choose hQ hv args
  | both => exact both hQ hv .truth args
  | either => exact either hQ hv args
  | quote => exact quote hQ args
  | defineStruct => exact defineStruct hQ hv args
  | deriveStruct => exact deriveStruct hQ hv args
  | instantiate => exact instantiate hQ hv args
  | setOption => exact setOption hQ hv args
  | cons => exact onStore hQ fun s v s' h => Store.Grows.consArgs h
  | list => exact make hQ fun s => Store.Grows.list args s
  | vector => exact make hQ fun s => Store.Grows.newVector _ s
  | setElement => exact onStore hQ fun s v s' h => Store.Grows.setElement h
  | append => exact onStore hQ fun s v s' h => Store.Grows.append h
  | joinText => exact onStore hQ fun s v s' h => Store.Grows.joinText h
  | copy => exact onStore hQ fun s v s' h => Store.Grows.copy h
  | evaluate =>
    rw [Operation.run.eq_def]
    dsimp only
    split
    · exact fully hQ hv _
    · exact throw hQ _
  | print =>
    exact bind hQ (store hQ) fun s => bind hQ (write hQ _) fun _ => pure hQ _
  | printLine =>
    exact bind hQ (store hQ) fun s => bind hQ (write hQ _) fun _ => pure hQ _
  | fail => exact bind hQ (store hQ) fun s => throw hQ _
  | car | cdr | isNil | last | apply | host => exact pure hQ _
  | _ =>
    rw [Operation.run]
    exact ask hQ _

theorem visitAll (es : List Value) : Q (Application.visitAll visit es) := by
  unfold Application.visitAll
  induction es with
  | nil => exact pure hQ _
  | cons e es ih =>
    rw [List.mapM_cons]
    refine bind hQ (hv e) fun value => ?_
    exact bind hQ ih fun _ => pure hQ _

omit hv in
theorem baseEnvironment (c : Closure) : Q (Application.baseEnvironment c) := by
  refine get hQ (fun _ _ => rfl) fun m => ?_
  split
  · exact pure hQ _
  · exact pure hQ _

theorem callClosure (c : Closure) (args : List Value) :
    Q (Application.callClosure visit c args) := by
  refine bind hQ (baseEnvironment hQ c) fun base => ?_
  exact withScope hQ _ (withLevel hQ _ (sequence hQ hv _))

theorem curryClosure (c : Closure) (args : List Value) :
    Q (Application.curryClosure visit c args) := by
  refine bind hQ (baseEnvironment hQ c) fun base => ?_
  refine bind hQ (withScope hQ _ (withLevel hQ _ (visitAll hQ hv _))) fun body => ?_
  refine bind hQ (note hQ rfl) fun _ => ?_
  exact make hQ fun s => Store.Grows.newClosure _ s

omit hv in
theorem callOperands (args : List Value) : Q (Application.callOperands args) := by
  induction args with
  | nil => exact pure hQ _
  | cons arg args ih =>
    unfold Application.callOperands
    split
    · refine bind hQ (placeholder hQ) fun name => ?_
      exact bind hQ ih fun _ => pure hQ _
    · exact bind hQ ih fun _ => pure hQ _

omit hv in
theorem placeholders (n : Nat) : Q (Application.placeholders n) := by
  induction n with
  | zero => exact pure hQ _
  | succ n ih =>
    refine bind hQ (placeholder hQ) fun name => ?_
    exact bind hQ ih fun _ => pure hQ _

omit hv in
theorem curryNative (f : NativeFunction) (args : List Value) :
    Q (Application.curryNative f args) := by
  refine bind hQ (callOperands hQ args) fun made => ?_
  refine bind hQ (placeholders hQ _) fun params => ?_
  refine bind hQ (make hQ fun s => Store.Grows.list _ s) fun call => ?_
  refine bind hQ (note hQ rfl) fun _ => ?_
  exact make hQ fun s => Store.Grows.newClosure _ s

omit hv in
theorem fieldName (operand : Value) : Q (Application.fieldName operand) := by
  unfold Application.fieldName
  split
  · exact pure hQ _
  · exact pure hQ _
  · exact bind hQ (store hQ) fun _ => throw hQ _
  · exact bind hQ (store hQ) fun _ => throw hQ _

omit hv in
theorem callStruct (a : Address) (args : List Value) : Q (Application.callStruct a args) := by
  unfold Application.callStruct
  split
  · exact bind hQ (fieldName hQ _) fun name => ask hQ _
  · exact bind hQ (fieldName hQ _) fun name =>
      onStore hQ fun s v s' h => Store.Grows.setField h
  · exact bind hQ (store hQ) fun _ => throw hQ _

theorem curry (f : Callable) (args : List Value) : Q (Application.curry visit f args) := by
  unfold Application.curry
  split
  · exact curryClosure hQ hv _ args
  · split
    · exact throw hQ _
    · exact curryNative hQ _ args
  · exact bind hQ (store hQ) fun _ => throw hQ _

omit hv in
theorem notCallable (v : Value) : Q (Application.notCallable v : Eval α) :=
  bind hQ (store hQ) fun _ => throw hQ _

omit hv in
theorem hostAnswer (args : List Value) (a : HostAnswer) :
    Q (Application.hostAnswer args a) := by
  induction a with
  | text text => exact make hQ fun s => Store.Grows.newText text s
  | level => exact get hQ (fun _ _ => rfl) fun _ => pure hQ _
  | constant slot => exact bind hQ (store hQ) fun _ => pure hQ _
  | pair car cdr ihCar ihCdr =>
    exact bind hQ ihCar fun car => bind hQ ihCdr fun cdr =>
      make hQ fun s => Store.Grows.cons s car cdr
  | _ => exact pure hQ _

omit hv in
theorem hostBind (args : List Value) : Q (Application.hostBind args) := by
  unfold Application.hostBind
  split
  · exact bind hQ (updateActive hQ _) fun _ => pure hQ _
  · exact pure hQ _

omit hv in
/-- Whatever a function of the host asks for. -/
theorem callHost (slot : Nat) (args : List Value) {applied : Eval Value} (h : Q applied) :
    Q (Application.callHost slot args applied) := by
  refine get hQ (fun _ _ => rfl) fun m => ?_
  split
  · exact hostAnswer hQ args _
  · exact throw hQ _
  · exact hostBind hQ args
  · exact h

/-- **A policy holds along every application**, and along every operation that is performed. -/
theorem applies : (∀ head args, Q (Application.apply visit head args)) ∧
    ∀ op args, Q (Application.perform visit op args) := by
  refine Application.applies_induction ?called ?list ?improper ?arity ?nobody ?first ?run
  case called =>
    intro head args ih
    rw [Application.apply]
    refine bind hQ (store hQ) fun s => ?_
    split
    · exact notCallable hQ _
    · next f _ =>
      split
      · exact pure hQ _
      · split
        · exact curry hQ hv f args
        · split
          · exact bind hQ (store hQ) fun _ => throw hQ _
          · refine bind hQ (ask hQ _) fun _ => ?_
            cases f with
            | native g => exact ih g
            | closure c => exact callClosure hQ hv c args
            | struct a => exact callStruct hQ a args
  case list =>
    intro f list items hitems ih
    rwa [Application.perform_list hitems]
  case improper =>
    intro f list hlist
    rw [Application.perform_improper hlist]
    exact bind hQ (store hQ) fun _ => throw hQ _
  case arity =>
    intro args hargs
    rw [Application.perform.eq_2 visit args hargs]
    exact throw hQ _
  case nobody =>
    intro slot
    rw [Application.perform]
    exact callHost hQ slot [] (notCallable hQ _)
  case first =>
    intro slot f rest ih
    rw [Application.perform]
    exact callHost hQ slot (f :: rest) ih
  case run =>
    intro op args happly hhost
    rw [Application.perform_run op happly hhost]
    exact run hQ hv op args

theorem apply (head : Value) (args : List Value) :
    Q (Application.apply visit head args) := (applies hQ hv).1 head args

theorem perform (op : Operation) (args : List Value) :
    Q (Application.perform visit op args) := (applies hQ hv).2 op args

/-! ### Steps -/

omit hv in
theorem resolveType (tag : TypeTag) : Q (Evaluation.resolveType tag) := by
  refine get hQ (fun _ _ => rfl) fun m => ?_
  split
  · exact pure hQ _
  · split
    · exact pure hQ _
    · exact throw hQ _

omit hv in
theorem visitSymbol (name : String) : Q (Evaluation.visitSymbol name) := by
  refine get hQ (fun _ _ => rfl) fun m => ?_
  split
  · exact pure hQ _
  · split
    · split
      · exact pure hQ _
      · split
        · exact resolveType hQ _
        · exact pure hQ _
    · split
      · exact pure hQ _
      · exact throw hQ _

theorem visitQuoted (e inner : Value) : Q (Evaluation.visitQuoted visit e inner) := by
  refine get hQ (fun _ _ => rfl) fun m => ?_
  split
  · exact withLevel hQ _ (hv inner)
  · exact pure hQ _

omit hv in
theorem rebuild (head : Value) (args : List Value) : Q (Evaluation.rebuild head args) :=
  make hQ fun s => Store.Grows.list _ s

theorem structOperands (args : List Value) : Q (Evaluation.structOperands visit args) := by
  unfold Evaluation.structOperands
  split
  · exact bind hQ (fully hQ hv _) fun _ => pure hQ _
  · exact pure hQ _

theorem visitApplication (head : Value) (f : Callable) (operands : List Value) :
    Q (Evaluation.visitApplication visit head f operands) := by
  refine get hQ (fun _ _ => rfl) fun m => ?_
  dsimp only
  split
  · exact rebuild hQ _ _
  · refine bind hQ (withLevel hQ _ (visitAll hQ hv operands)) fun args => ?_
    split
    · exact rebuild hQ _ _
    · split
      · exact bind hQ (structOperands hQ hv args) fun args => apply hQ hv head args
      · exact bind hQ (pure hQ _) fun args => apply hQ hv head args

theorem visitPair (e car cdr : Value) : Q (Evaluation.visitPair visit e car cdr) := by
  refine get hQ (fun _ _ => rfl) fun m => ?_
  split
  · exact pure hQ _
  · split
    · exact bind hQ (store hQ) fun _ => throw hQ _
    · next operands _ =>
      refine bind hQ (hv car) fun head => bind hQ (store hQ) fun s => ?_
      split
      · exact visitApplication hQ hv head _ operands
      · refine get hQ (fun _ _ => rfl) fun m => ?_
        split
        · exact bind hQ (visitAll hQ hv operands) fun args => rebuild hQ head args
        · exact notCallable hQ head

theorem step (e : Value) : Q (Evaluation.step visit e) := by
  unfold Evaluation.step
  split
  · exact visitPair hQ hv _ _ _
  · exact visitQuoted hQ hv _ _
  · exact visitSymbol hQ _
  · refine get hQ (fun _ _ => rfl) fun m => ?_
    split
    · exact pure hQ _
    · exact resolveType hQ _
  · exact pure hQ _

end SpecialForms

end Closed

/-! ## Pervasive properties -/

namespace Pervasive

variable {Q : {α : Type} → Eval α → Prop} (hQ : Pervasive Q)
include hQ

/-- A note that is made under a condition. -/
theorem noteIf (c : Prop) [Decidable c] (e : Event) :
    Q (if c then Eval.note e else Pure.pure () : Eval Unit) := by
  split
  · exact hQ.report e
  · exact hQ.pure _

theorem noteEntry (e : Value) : Q (Evaluation.noteEntry e) := by
  refine hQ.get (fun _ _ => rfl) fun m => ?_
  dsimp only
  split
  · exact hQ.bind (hQ.report _) fun _ => hQ.noteIf _ _
  · exact hQ.noteIf _ _

theorem noteExit (result : Except Error Value) : Q (Evaluation.noteExit result) := by
  refine hQ.get (fun _ _ => rfl) fun m => ?_
  dsimp only
  split
  · split
    · exact hQ.bind (hQ.report _) fun _ => hQ.noteIf _ _
    · exact hQ.bind (hQ.report _) fun _ => hQ.noteIf _ _
  · exact hQ.noteIf _ _

theorem observed (e : Value) {x : Eval Value} (hx : Q x) : Q (Evaluation.observed e x) := by
  refine hQ.get (fun _ _ => rfl) fun m => ?_
  split
  · refine hQ.bind (hQ.noteEntry e) fun _ => hQ.bind (hQ.indented hx) fun result => ?_
    exact hQ.bind (hQ.noteExit result) fun _ => hQ.ofExcept result
  · exact hx

/-- **Every evaluation has a pervasive property.** -/
theorem visitWithin (room : Nat) (e : Value) : Q (Evaluation.visitWithin room e) := by
  induction room generalizing e with
  | zero => exact hQ.get (fun _ _ => rfl) fun m => hQ.throw _
  | succ room ih => exact hQ.nested room (hQ.observed e (hQ.step ih e))

theorem visit (e : Value) : Q (Evaluation.visit e) :=
  hQ.get (fun _ _ => rfl) fun m => hQ.visitWithin (Evaluation.room m) e

end Pervasive

/-! ## Two properties at once -/

section Both

variable {Q R : {α : Type} → Eval α → Prop}

/-- Two closed properties together are closed. -/
theorem Closed.and (hQ : Closed Q) (hR : Closed R) : Closed (fun x => Q x ∧ R x) where
  pure a := ⟨hQ.pure a, hR.pure a⟩
  throw e := ⟨hQ.throw e, hR.throw e⟩
  bind hx hf := ⟨hQ.bind hx.1 fun a => (hf a).1, hR.bind hx.2 fun a => (hf a).2⟩
  get hsame hf := ⟨hQ.get hsame fun m => (hf m).1, hR.get hsame fun m => (hf m).2⟩
  ask f := ⟨hQ.ask f, hR.ask f⟩
  make hf := ⟨hQ.make hf, hR.make hf⟩
  onStore hf := ⟨hQ.onStore hf, hR.onStore hf⟩
  updateActive f := ⟨hQ.updateActive f, hR.updateActive f⟩
  changeOption name enabled a := ⟨hQ.changeOption name enabled a, hR.changeOption name enabled a⟩
  write text := ⟨hQ.write text, hR.write text⟩
  note he := ⟨hQ.note he, hR.note he⟩
  placeholder := ⟨hQ.placeholder, hR.placeholder⟩
  withLevel level _ hx := ⟨hQ.withLevel level hx.1, hR.withLevel level hx.2⟩
  withScope frame _ hx := ⟨hQ.withScope frame hx.1, hR.withScope frame hx.2⟩

/-- Two pervasive properties together are pervasive. -/
theorem Pervasive.and (hQ : Pervasive Q) (hR : Pervasive R) : Pervasive (fun x => Q x ∧ R x) where
  toClosed := hQ.toClosed.and hR.toClosed
  report e := ⟨hQ.report e, hR.report e⟩
  indented hx := ⟨hQ.indented hx.1, hR.indented hx.2⟩
  nested room _ hx := ⟨hQ.nested room hx.1, hR.nested room hx.2⟩

end Both

/-! ## Policies -/

/-- A relation that allows every primitive change of a machine. -/
structure Policy (R : Machine → Machine → Prop) : Prop where
  refl : ∀ m, R m m
  trans : ∀ {m₁ m₂ m₃}, R m₁ m₂ → R m₂ m₃ → R m₁ m₃
  grow : ∀ {m : Machine} {s : Store}, m.store.Grows s → R m { m with store := s }
  define : ∀ (m : Machine) (f : Environment → Environment), R m (m.updateActive f)
  options : ∀ (m : Machine) (options : Options), R m { m with options }
  report : ∀ (m : Machine) (printed : String) (events : List Event) (placeholders : Nat),
    R m { m with printed, events, placeholders }
  level : ∀ {m m' : Machine} {level : Level}, R (m.atLevel level) m' → R m (m'.atLevel m.level)
  scope : ∀ {m m' : Machine} {frame : Environment},
    R { m with frames := frame :: m.frames } m' → R m { m' with frames := m'.frames.tail }
  nested : ∀ {m m' : Machine},
    R { m with depth := m.depth + 1 } m' → R m { m' with depth := m'.depth - 1 }
  noted : ∀ {m m' : Machine},
    R { m with indent := m.indent + 1 } m' → R m { m' with indent := m'.indent - 1 }

/-- A relation that allows what a step does to a machine beside the evaluation of its parts. -/
structure Discipline (R : Machine → Machine → Prop) : Prop where
  refl : ∀ m, R m m
  trans : ∀ {m₁ m₂ m₃}, R m₁ m₂ → R m₂ m₃ → R m₁ m₃
  grow : ∀ {m : Machine} {s : Store}, m.store.Grows s → R m { m with store := s }
  define : ∀ (m : Machine) (f : Environment → Environment), R m (m.updateActive f)
  setOption : ∀ {m : Machine} {name : String} {enabled : Bool} {options : Options},
    m.options.set name enabled = .ok options →
    R m { m with options, events := .optionChanged name enabled :: m.events }
  note : ∀ (m : Machine) (e : Event), e.isStep = false → R m { m with events := e :: m.events }
  print : ∀ (m : Machine) (printed : String), R m { m with printed }
  count : ∀ (m : Machine) (placeholders : Nat), R m { m with placeholders }
  level : ∀ {m m' : Machine} {level : Level}, R (m.atLevel level) m' → R m (m'.atLevel m.level)
  scope : ∀ {m m' : Machine} {frame : Environment},
    R { m with frames := frame :: m.frames } m' → R m { m' with frames := m'.frames.tail }

theorem Policy.discipline {R : Machine → Machine → Prop} (hR : Policy R) : Discipline R where
  refl := hR.refl
  trans := hR.trans
  grow := hR.grow
  define := hR.define
  setOption {m _ _ options} _ := hR.trans (hR.options m options) (hR.report { m with options } _ _ _)
  note m _ _ := hR.report m _ _ _
  print m _ := hR.report m _ _ _
  count m _ := hR.report m _ _ _
  level := hR.level
  scope := hR.scope

/-- A policy is used as the discipline that it is. -/
instance {R : Machine → Machine → Prop} : CoeOut (Policy R) (Discipline R) := ⟨Policy.discipline⟩

/-- `R` relates the machine before `x` to the machine after it, whether `x` fails or not. -/
def Along {α : Type} (R : Machine → Machine → Prop) (x : Eval α) : Prop := ∀ m, R m (x m).2

namespace Along

variable {α β : Type} {R : Machine → Machine → Prop}

/-! ## Primitive computations -/

section Primitives

variable (hR : Discipline R)
include hR

theorem pure (a : α) : Along R (Pure.pure a) := fun m => hR.refl m

theorem throw (e : Error) : Along R (throw e : Eval α) := fun m => hR.refl m

theorem get : Along R (get : Eval Machine) := fun m => hR.refl m

theorem store : Along R Eval.store := fun m => hR.refl m

theorem bind {x : Eval α} {f : α → Eval β} (hx : Along R x) (hf : ∀ a, Along R (f a)) :
    Along R (x >>= f) := by
  intro m
  have hm := hx m
  rw [Eval.bind_apply]
  rcases hx : x m with ⟨e | a, m'⟩
  · rwa [hx] at hm
  · rw [hx] at hm
    exact hR.trans hm (hf a m')

theorem ask (f : Store → Except Error α) : Along R (Eval.ask f) := fun m => hR.refl m

theorem make {f : Store → α × Store} (hf : ∀ s : Store, s.Grows (f s).2) : Along R (Eval.make f) :=
  fun m => hR.grow (hf m.store)

theorem onStore {f : Store → Except Error (α × Store)}
    (hf : ∀ (s : Store) a s', f s = .ok (a, s') → s.Grows s') : Along R (Eval.onStore f) := by
  intro m
  unfold Eval.onStore
  cases h : f m.store with
  | ok made => exact hR.grow (hf _ _ _ h)
  | error e => exact hR.refl m

theorem updateActive (f : Environment → Environment) : Along R (Eval.updateActive f) :=
  fun m => hR.define m f

/-- An option is set and that is noted, if there is one of this name. -/
theorem changeOption (name : String) (enabled : Bool) (a : α) : Along R (do
    let options ← MonadExcept.ofExcept ((← MonadState.get).options.set name enabled)
    modify fun m => { m with options }
    Eval.note (.optionChanged name enabled)
    Pure.pure a : Eval α) := by
  intro m
  cases hset : m.options.set name enabled with
  | error err =>
    rw [Eval.bind_apply]
    show R m ((MonadExcept.ofExcept (m.options.set name enabled) >>= _ : Eval α) m).2
    rw [hset]
    exact hR.refl m
  | ok options =>
    rw [Eval.bind_apply]
    show R m ((MonadExcept.ofExcept (m.options.set name enabled) >>= _ : Eval α) m).2
    rw [hset]
    exact hR.setOption hset

theorem write (text : String) : Along R (Eval.write text) := fun m => hR.print m _

theorem note {e : Event} (he : e.isStep = false) : Along R (Eval.note e) := fun m => hR.note m e he

theorem placeholder : Along R Eval.placeholder := fun m => hR.count m _

theorem withLevel (level : Level) {x : Eval α} (hx : Along R x) :
    Along R (Eval.withLevel level x) := fun m => hR.level (hx (m.atLevel level))

theorem withScope (frame : Environment) {x : Eval α} (hx : Along R x) :
    Along R (Eval.withScope frame x) := fun m => hR.scope (hx { m with frames := frame :: m.frames })

end Primitives

end Along

/-- That a discipline holds along a computation is a closed property. -/
theorem Discipline.closed {R : Machine → Machine → Prop} (hR : Discipline R) : Closed (Along R) where
  pure := Along.pure hR
  throw := Along.throw hR
  bind := Along.bind hR
  get _ hf := Along.bind hR (Along.get hR) hf
  ask := Along.ask hR
  make := Along.make hR
  onStore := Along.onStore hR
  updateActive := Along.updateActive hR
  changeOption := Along.changeOption hR
  write := Along.write hR
  note := Along.note hR
  placeholder := Along.placeholder hR
  withLevel := Along.withLevel hR
  withScope := Along.withScope hR

/-- That a policy holds along a computation is a pervasive property. -/
theorem Policy.pervasive {R : Machine → Machine → Prop} (hR : Policy R) : Pervasive (Along R) where
  toClosed := hR.discipline.closed
  report _ m := hR.report m _ _ _
  indented hx m := hR.noted (hx { m with indent := m.indent + 1 })
  nested room x hx m := by
    rw [Evaluation.nested_eq, Eval.bracket_apply]
    exact hR.nested (hx _)

/-! ## Growing objects -/

/-- Objects are never removed, whatever a machine does. -/
theorem Store.Grows.policy : Policy fun m m' => m.store.Grows m'.store where
  refl := fun m => refl m.store
  trans := trans
  grow := fun h => h
  define := fun m f => by
    unfold Machine.updateActive
    split
    · exact refl m.store
    · exact refl m.store
  options := fun m _ => refl m.store
  report := fun m _ _ _ => refl m.store
  level := fun h => h
  scope := fun h => h
  nested := fun h => h
  noted := fun h => h

/-- **Evaluation keeps every object, and every closure, constant and shape of a struct as it was.** -/
theorem Evaluation.visit_grows (e : Value) (m : Machine) :
    m.store.Grows (Evaluation.visit e m).2.store :=
  Store.Grows.policy.pervasive.visit e m

end CurryLisp
