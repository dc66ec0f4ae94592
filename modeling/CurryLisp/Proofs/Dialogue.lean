import CurryLisp.Proofs.Surroundings
import Mathlib.Tactic.Choose
import Mathlib.Tactic.SplitIfs

/-!
# Steps as dialogues

A step asks for the values of other expressions, one after the other, and ends when it needs no more.
What it asks for, and in which machine, depends on the answers so far and on nothing else: neither the
nesting nor the limit on it is looked at. A `Dialogue` is a step seen that way, as the tree of its
questions; every path through it is finite. `Dialogue.run` answers the questions by an evaluation.

Statements:

* `Converses.step`: whatever the evaluation of its parts is, a step runs through one dialogue, fixed by
  the expression and the machine alone,
* `Converses.apply`: so does an application, together with the applications it is continued by,
* `Converses.observed`: what is noted of a step is part of its dialogue.
-/

namespace CurryLisp

open SpecialForm (Visit)

namespace Machine

/-- The machine with this many steps in progress and this limit on them. -/
def bounded (depth limit : Nat) (m : Machine) : Machine :=
  { m with depth, options := { m.options with maxDepth := limit } }

/-- The machine without nesting and limit. -/
abbrev unbounded (m : Machine) : Machine := m.bounded 0 0

@[simp]
theorem depth_bounded (depth limit : Nat) (m : Machine) : (m.bounded depth limit).depth = depth := rfl

@[simp]
theorem maxDepth_bounded (depth limit : Nat) (m : Machine) :
    (m.bounded depth limit).options.maxDepth = limit := rfl

theorem bounded_self (m : Machine) : m.bounded m.depth m.options.maxDepth = m := rfl

theorem bounded_updateActive (depth limit : Nat) (m : Machine) (f : Environment → Environment) :
    (m.bounded depth limit).updateActive f = (m.updateActive f).bounded depth limit := by
  obtain ⟨_, frames, _, _, _, _, _, _, _, _⟩ := m
  cases frames <;> rfl

end Machine

/-! ## Dialogues -/

/-- What a computation asks for until it ends. -/
inductive Dialogue (α : Type) where
  /-- It ends, and leaves this machine. -/
  | ends (result : Except Error α) (m : Machine)
  /-- It asks for the value of an expression in this machine. An error ends it; `restore` is what
  remains to be done to the machine then. -/
  | asks (e : Value) (m : Machine) (restore : Error → Machine → Machine)
      (next : Value → Machine → Dialogue α)

namespace Dialogue

variable {α β : Type}

/-- Answers what is asked for by `visit`, at this nesting and below this limit. The machines of the
dialogue are taken without their own. -/
def run (visit : Visit) : Dialogue α → Nat → Nat → Except Error α × Machine
  | ends result m, depth, limit => (result, m.bounded depth limit)
  | asks e m restore next, depth, limit =>
    match visit e (m.bounded depth limit) with
    | (.ok v, m') => (next v m'.unbounded).run visit m'.depth m'.options.maxDepth
    | (.error err, m') =>
      (.error err, (restore err m'.unbounded).bounded m'.depth m'.options.maxDepth)

/-- A dialogue that goes on with another one. -/
def bind (f : α → Machine → Dialogue β) : Dialogue α → Dialogue β
  | ends (.ok a) m => f a m.unbounded
  | ends (.error err) m => ends (.error err) m
  | asks e m restore next => asks e m restore fun v m' => (next v m').bind f

/-- A dialogue with something left to be done to the machine, whether it fails or not. -/
def after (leave : Except Error α → Machine → Machine) : Dialogue α → Dialogue α
  | ends result m => ends result (leave result m)
  | asks e m restore next =>
    asks e m (fun err m' => leave (.error err) (restore err m')) fun v m' => (next v m').after leave

variable (visit : Visit)

theorem run_bind (f : α → Machine → Dialogue β) (d : Dialogue α) (depth limit : Nat) :
    (d.bind f).run visit depth limit = match d.run visit depth limit with
      | (.ok a, m) => (f a m.unbounded).run visit m.depth m.options.maxDepth
      | (.error err, m) => (.error err, m) := by
  induction d generalizing depth limit with
  | ends result m => cases result <;> rfl
  | asks e m restore next ih =>
    simp only [bind, run]
    rcases visit e (m.bounded depth limit) with ⟨err | v, m'⟩
    · rfl
    · exact ih v m'.unbounded m'.depth m'.options.maxDepth

theorem run_after {leave : Except Error α → Machine → Machine}
    (hleave : ∀ r m depth limit, leave r (m.bounded depth limit) = (leave r m).bounded depth limit)
    (d : Dialogue α) (depth limit : Nat) :
    (d.after leave).run visit depth limit =
      ((d.run visit depth limit).1, leave (d.run visit depth limit).1 (d.run visit depth limit).2) := by
  induction d generalizing depth limit with
  | ends result m => exact Prod.ext rfl (hleave result m depth limit).symm
  | asks e m restore next ih =>
    simp only [after, run]
    rcases visit e (m.bounded depth limit) with ⟨err | v, m'⟩
    · exact Prod.ext rfl (hleave _ _ _ _).symm
    · exact ih v m'.unbounded m'.depth m'.options.maxDepth

end Dialogue

/-! ## Computations that do not look at the nesting -/

/-- `x` does the same at every nesting and below every limit, and changes neither. -/
def Oblivious {α : Type} (x : Eval α) : Prop :=
  ∀ depth limit, Relates (fun m m' => m' = m.bounded depth limit) (fun _ => True) x

namespace Oblivious

variable {α β : Type}

theorem apply {x : Eval α} (hx : Oblivious x) (m : Machine) (depth limit : Nat) :
    x (m.bounded depth limit) = ((x m).1, (x m).2.bounded depth limit) := by
  obtain ⟨hresult, hafter, -⟩ := hx depth limit m _ rfl
  exact Prod.ext hresult hafter

theorem of_apply {x : Eval α}
    (hx : ∀ m depth limit, x (m.bounded depth limit) = ((x m).1, (x m).2.bounded depth limit)) :
    Oblivious x := by
  rintro depth limit m _ rfl
  rw [hx]
  exact ⟨rfl, rfl, fun _ _ => trivial⟩

/-! ### Primitive computations -/

theorem pure (a : α) : Oblivious (Pure.pure a) := fun _ _ => Relates.pure trivial

theorem throw (e : Error) : Oblivious (throw e : Eval α) := fun _ _ => Relates.throw e

theorem bind {x : Eval α} {f : α → Eval β} (hx : Oblivious x) (hf : ∀ a, Oblivious (f a)) :
    Oblivious (x >>= f) := fun depth limit => (hx depth limit).bind fun a _ => hf a depth limit

/-- What is read of the machine must not tell its nesting or its limit. -/
theorem get {f : Machine → Eval β} (hread : ∀ m depth limit, f (m.bounded depth limit) = f m)
    (hf : ∀ m, Oblivious (f m)) : Oblivious (get >>= f) := by
  refine fun depth limit => Relates.get ?_
  rintro m _ rfl
  exact ⟨hread m depth limit, hf m depth limit⟩

theorem store {f : Store → Eval β} (hf : ∀ s, Oblivious (f s)) : Oblivious (Eval.store >>= f) :=
  get (fun _ _ _ => rfl) fun m => hf m.store

theorem ofExcept (r : Except Error α) : Oblivious (MonadExcept.ofExcept r : Eval α) := by
  cases r with
  | ok a => exact pure a
  | error e => exact throw e

theorem ask (f : Store → Except Error α) : Oblivious (Eval.ask f) := of_apply fun _ _ _ => rfl

theorem make (f : Store → α × Store) : Oblivious (Eval.make f) := of_apply fun _ _ _ => rfl

theorem onStore (f : Store → Except Error (α × Store)) : Oblivious (Eval.onStore f) := by
  refine of_apply fun m depth limit => ?_
  have hstore : (m.bounded depth limit).store = m.store := rfl
  unfold Eval.onStore
  rw [hstore]
  cases f m.store <;> rfl

theorem updateActive (f : Environment → Environment) : Oblivious (Eval.updateActive f) :=
  of_apply fun m depth limit => Prod.ext rfl (m.bounded_updateActive depth limit f)

theorem write (text : String) : Oblivious (Eval.write text) := of_apply fun _ _ _ => rfl

theorem note (e : Event) : Oblivious (Eval.note e) := of_apply fun _ _ _ => rfl

theorem placeholder : Oblivious Eval.placeholder := of_apply fun _ _ _ => rfl

/-! ### Forms that evaluate nothing -/

theorem operandName (form : String) (operand : Value) :
    Oblivious (SpecialForm.operandName form operand) := by
  unfold SpecialForm.operandName
  split
  · exact pure _
  · exact store fun _ => throw _

theorem lambda (args : List Value) : Oblivious (SpecialForm.lambda args) := by
  refine store fun s => ?_
  split
  · exact throw _
  · exact bind (ofExcept _) fun names => get (fun _ _ _ => rfl) fun m => make _

theorem undefine (args : List Value) : Oblivious (SpecialForm.undefine args) := by
  induction args with
  | nil => exact pure _
  | cons operand rest ih =>
    exact bind (operandName _ _) fun name => bind (updateActive _) fun _ => ih

theorem quote (args : List Value) : Oblivious (SpecialForm.quote args) := by
  unfold SpecialForm.quote
  split
  · exact pure _
  · exact throw _

theorem fieldType (tag : Option TypeTag) : Oblivious (SpecialForm.fieldType tag) := by
  unfold SpecialForm.fieldType
  split
  · exact pure _
  · refine get (fun _ _ _ => rfl) fun m => ?_
    split
    · exact pure _
    · exact throw _

theorem register (struct : Struct) : Oblivious (Struct.register struct) :=
  bind (note _) fun _ => bind (make _) fun _ => bind (updateActive _) fun _ => pure _

theorem template (name : String) : Oblivious (Struct.template name) := by
  refine get (fun _ _ _ => rfl) fun m => ?_
  split
  · exact pure _
  · exact throw _

theorem defineTemplate (name : String) (specs : List FieldSpec) :
    Oblivious (Struct.defineTemplate name specs) := bind (ask _) fun struct => register struct

theorem deriveTemplate (name parent : String) (specs : List FieldSpec) :
    Oblivious (Struct.deriveTemplate name parent specs) :=
  bind (template parent) fun _ => bind (onStore _) fun struct => register struct

theorem instantiateStruct (name : String) (inits : List (String × Value)) :
    Oblivious (Struct.instantiate name inits) := bind (template name) fun _ => onStore _

/-- A limit takes no part in setting an option. -/
theorem set_limited (o : Options) (name : String) (enabled : Bool) (limit : Nat) :
    { o with maxDepth := limit }.set name enabled =
      (o.set name enabled).map fun p => { p with maxDepth := limit } := by
  unfold Options.set
  split_ifs <;> rfl

/-- Whether an option can be set does not depend on the limit, which stays what it is. -/
theorem changeOption (name : String) (enabled : Bool) {x : Eval β} (hx : Oblivious x) :
    Oblivious (do
      let options ← MonadExcept.ofExcept ((← MonadState.get).options.set name enabled)
      modify fun m => { m with options }
      x) := by
  refine of_apply fun m depth limit => ?_
  rw [Eval.bind_apply, Eval.bind_apply, Eval.get_apply, Eval.get_apply]
  dsimp only
  rw [Eval.bind_apply, Eval.bind_apply, Eval.ofExcept_apply, Eval.ofExcept_apply]
  have hset := set_limited m.options name enabled limit
  cases hm : m.options.set name enabled with
  | error e =>
    rw [hm] at hset
    simp only [Machine.bounded, hset, Except.map]
  | ok options =>
    rw [hm] at hset
    simp only [Machine.bounded, hset, Except.map]
    exact hx.apply { m with options } depth limit

/-! ### Applications that evaluate nothing -/

theorem baseEnvironment (c : Closure) : Oblivious (Application.baseEnvironment c) := by
  refine get (fun _ _ _ => rfl) fun m => ?_
  split
  · exact pure _
  · exact pure _

theorem callOperands (args : List Value) : Oblivious (Application.callOperands args) := by
  induction args with
  | nil => exact pure _
  | cons arg args ih =>
    unfold Application.callOperands
    split
    · exact bind placeholder fun name => bind ih fun _ => pure _
    · exact bind ih fun _ => pure _

theorem placeholders (n : Nat) : Oblivious (Application.placeholders n) := by
  induction n with
  | zero => exact pure _
  | succ n ih => exact bind placeholder fun name => bind ih fun _ => pure _

theorem curryNative (f : NativeFunction) (args : List Value) :
    Oblivious (Application.curryNative f args) := by
  refine bind (callOperands args) fun made => bind (placeholders _) fun params => ?_
  exact bind (make _) fun call => bind (note _) fun _ => make _

theorem fieldName (operand : Value) : Oblivious (Application.fieldName operand) := by
  unfold Application.fieldName
  split
  · exact pure _
  · exact pure _
  · exact store fun _ => throw _
  · exact store fun _ => throw _

theorem callStruct (a : Address) (args : List Value) : Oblivious (Application.callStruct a args) := by
  unfold Application.callStruct
  split
  · exact bind (fieldName _) fun name => ask _
  · exact bind (fieldName _) fun name => onStore _
  · exact store fun _ => throw _

theorem hostAnswer (args : List Value) (a : HostAnswer) :
    Oblivious (Application.hostAnswer args a) := by
  induction a with
  | text text => exact make _
  | level => exact get (fun _ _ _ => rfl) fun _ => pure _
  | constant slot => exact store fun _ => pure _
  | pair car cdr ihCar ihCdr => exact bind ihCar fun _ => bind ihCdr fun _ => make _
  | _ => exact pure _

theorem hostBind (args : List Value) : Oblivious (Application.hostBind args) := by
  unfold Application.hostBind
  split
  · exact bind (updateActive _) fun _ => pure _
  · exact pure _

theorem notCallable (v : Value) : Oblivious (Application.notCallable v : Eval α) :=
  store fun _ => throw _

/-! ### Steps that have no parts, and notes -/

theorem resolveType (tag : TypeTag) : Oblivious (Evaluation.resolveType tag) := by
  refine get (fun _ _ _ => rfl) fun m => ?_
  split
  · exact pure _
  · split
    · exact pure _
    · exact throw _

theorem visitSymbol (name : String) : Oblivious (Evaluation.visitSymbol name) := by
  refine get (fun _ _ _ => rfl) fun m => ?_
  split
  · exact pure _
  · split
    · split
      · exact pure _
      · split
        · exact resolveType _
        · exact pure _
    · split
      · exact pure _
      · exact throw _

theorem rebuild (head : Value) (args : List Value) : Oblivious (Evaluation.rebuild head args) :=
  make _

/-- A note that is made under a condition. -/
theorem noteIf (c : Prop) [Decidable c] (e : Event) :
    Oblivious (if c then Eval.note e else Pure.pure () : Eval Unit) := by
  split
  · exact note e
  · exact pure _

theorem noteEntry (e : Value) : Oblivious (Evaluation.noteEntry e) := by
  refine get (fun _ _ _ => rfl) fun m => ?_
  dsimp only
  split
  · exact bind (note _) fun _ => noteIf _ _
  · exact noteIf _ _

theorem noteExit (result : Except Error Value) : Oblivious (Evaluation.noteExit result) := by
  refine get (fun _ _ _ => rfl) fun m => ?_
  dsimp only
  split
  · split
    · exact bind (note _) fun _ => noteIf _ _
    · exact bind (note _) fun _ => noteIf _ _
  · exact noteIf _ _

end Oblivious

/-! ## Computations that ask for values -/

/-- From every machine on, `x` runs through one dialogue, whatever answers it, at every nesting and
below every limit. -/
def Converses {α : Type} (x : Visit → Eval α) : Prop :=
  ∀ m : Machine, ∃ d : Dialogue α, ∀ visit depth limit,
    x visit (m.bounded depth limit) = d.run visit depth limit

namespace Converses

variable {α β : Type}

/-- What looks at no part asks for nothing. -/
theorem of_oblivious {x : Eval α} (hx : Oblivious x) : Converses fun _ => x :=
  fun m => ⟨.ends (x m).1 (x m).2, fun _ => hx.apply m⟩

theorem pure (a : α) : Converses fun _ => (Pure.pure a : Eval α) := of_oblivious (.pure a)

theorem throw (e : Error) : Converses fun _ => (throw e : Eval α) := of_oblivious (.throw e)

/-- A part that is asked for. -/
theorem visit (e : Value) : Converses fun visit => visit e := by
  refine fun m => ⟨.asks e m (fun _ m' => m') fun v m' => .ends (.ok v) m', fun visit depth limit => ?_⟩
  simp only [Dialogue.run]
  rcases visit e (m.bounded depth limit) with ⟨err | v, m'⟩ <;> rfl

theorem bind {x : Visit → Eval α} {f : α → Visit → Eval β} (hx : Converses x)
    (hf : ∀ a, Converses (f a)) : Converses fun visit => x visit >>= fun a => f a visit := by
  choose next hnext using hf
  intro m
  obtain ⟨d, hd⟩ := hx m
  refine ⟨d.bind next, fun visit depth limit => ?_⟩
  dsimp only
  rw [Eval.bind_apply, hd, Dialogue.run_bind]
  rcases d.run visit depth limit with ⟨err | a, m'⟩
  · rfl
  · exact hnext a m'.unbounded visit m'.depth m'.options.maxDepth

/-- What is read of the machine must not tell its nesting or its limit. -/
theorem get {f : Machine → Visit → Eval β}
    (hread : ∀ visit m depth limit, f (m.bounded depth limit) visit = f m visit)
    (hf : ∀ m, Converses (f m)) : Converses fun visit => get >>= fun m => f m visit := by
  intro m
  obtain ⟨d, hd⟩ := hf m m
  refine ⟨d, fun visit depth limit => ?_⟩
  rw [← hd visit depth limit]
  dsimp only
  rw [Eval.bind_apply, Eval.get_apply]
  exact congrFun (hread visit m depth limit) _

theorem store {f : Store → Visit → Eval β} (hf : ∀ s, Converses (f s)) :
    Converses fun visit => Eval.store >>= fun s => f s visit := get (fun _ _ _ _ => rfl) fun m => hf m.store

theorem ite (c : Prop) [Decidable c] {x y : Visit → Eval α} (hx : Converses x) (hy : Converses y) :
    Converses fun visit => if c then x visit else y visit := by
  by_cases h : c
  · simpa only [if_pos h] using hx
  · simpa only [if_neg h] using hy

theorem bracket {enter leave : Machine → Machine} {x : Visit → Eval α} (hx : Converses x)
    (henter : ∀ m depth limit, enter (m.bounded depth limit) = (enter m).bounded depth limit)
    (hleave : ∀ m depth limit, leave (m.bounded depth limit) = (leave m).bounded depth limit) :
    Converses fun visit => Eval.bracket enter leave (x visit) := by
  intro m
  obtain ⟨d, hd⟩ := hx (enter m)
  refine ⟨d.after fun _ => leave, fun visit depth limit => ?_⟩
  dsimp only
  rw [Eval.bracket_apply, henter, hd, Dialogue.run_after visit fun _ => hleave]

theorem withLevel (level : Level) {x : Visit → Eval α} (hx : Converses x) :
    Converses fun visit => Eval.withLevel level (x visit) :=
  get (fun _ _ _ _ => rfl) fun _ => bracket hx (fun _ _ _ => rfl) fun _ _ _ => rfl

theorem withScope (frame : Environment) {x : Visit → Eval α} (hx : Converses x) :
    Converses fun visit => Eval.withScope frame (x visit) :=
  bracket hx (fun _ _ _ => rfl) fun _ _ _ => rfl

/-! ### Special forms -/

theorem fully (e : Value) : Converses fun visit => SpecialForm.fully visit e :=
  withLevel .full (visit e)

theorem sequence (es : List Value) : Converses fun visit => SpecialForm.sequence visit es := by
  induction es with
  | nil => exact pure _
  | cons e rest ih =>
    cases rest with
    | nil => exact visit e
    | cons e' rest => exact bind (visit e) fun _ => ih

theorem define (args : List Value) : Converses fun visit => SpecialForm.define visit args := by
  rcases args with _ | ⟨name, _ | ⟨e, _ | _⟩⟩
  · exact throw _
  · exact throw _
  · refine bind (of_oblivious (.operandName _ _)) fun name => bind (fully e) fun value => ?_
    exact of_oblivious (.bind (.updateActive _) fun _ => .pure _)
  · exact throw _

/-- What is refused with a look at the objects. -/
theorem refuse (e : Store → Error) :
    Converses fun _ => (Eval.store >>= fun s => MonadExcept.throw (e s) : Eval α) :=
  of_oblivious (.store fun _ => .throw _)

theorem bindings (entries : List Value) :
    Converses fun visit => SpecialForm.bindings visit entries := by
  induction entries with
  | nil => exact pure _
  | cons entry rest ih =>
    simp only [SpecialForm.bindings]
    generalize entry.toList? = parts
    rcases parts with _ | _ | ⟨name, _ | ⟨e, _ | _⟩⟩
    · exact refuse _
    · exact refuse _
    · cases name <;> exact refuse _
    · cases name with
      | symbol name => exact bind (fully e) fun value => bind ih fun _ => pure _
      | _ => exact refuse _
    · cases name <;> exact refuse _

theorem bindLocal (args : List Value) : Converses fun visit => SpecialForm.bindLocal visit args := by
  simp only [SpecialForm.bindLocal]
  generalize (args.headD .nil).toList? = parts
  cases parts with
  | none => exact refuse _
  | some entries =>
    exact bind (bindings entries) fun bound => get (fun _ _ _ _ => rfl) fun m => withScope _ (sequence _)

theorem choose (args : List Value) : Converses fun visit => SpecialForm.choose visit args := by
  rcases args with _ | ⟨condition, _ | ⟨yes, _ | ⟨no, _ | _⟩⟩⟩
  · exact throw _
  · exact throw _
  · exact throw _
  · exact bind (fully condition) fun value => ite _ (fully yes) (fully no)
  · exact throw _

theorem both (value : Value) (args : List Value) :
    Converses fun visit => SpecialForm.both visit value args := by
  induction args generalizing value with
  | nil => exact pure _
  | cons e es ih => exact bind (fully e) fun value => ite _ (ih value) (pure _)

theorem either (args : List Value) : Converses fun visit => SpecialForm.either visit args := by
  induction args with
  | nil => exact pure _
  | cons e es ih => exact bind (fully e) fun value => ite _ (pure _) ih

theorem fieldSpecs (form : String) (entries : List Value) :
    Converses fun visit => SpecialForm.fieldSpecs visit form entries := by
  induction entries with
  | nil => exact pure _
  | cons entry rest ih =>
    simp only [SpecialForm.fieldSpecs]
    generalize SpecialForm.fieldParts? entry = parts
    rcases parts with _ | ⟨name, tag, default⟩
    · exact refuse _
    · refine bind (of_oblivious (.fieldType tag)) fun tag => ?_
      cases default with
      | none => exact bind (pure _) fun _ => bind ih fun _ => pure _
      | some e => exact bind (fully e) fun _ => bind ih fun _ => pure _

theorem fieldList (form : String) (fields : Value) :
    Converses fun visit => SpecialForm.fieldList visit form fields := by
  unfold SpecialForm.fieldList
  generalize fields.toList? = entries
  cases entries with
  | none => exact refuse _
  | some entries => exact fieldSpecs form entries

theorem defineStruct (args : List Value) :
    Converses fun visit => SpecialForm.defineStruct visit args := by
  rcases args with _ | ⟨name, _ | ⟨fields, _ | _⟩⟩
  · exact throw _
  · exact throw _
  · refine bind (of_oblivious (.operandName _ _)) fun name => bind (fieldList _ fields) fun specs => ?_
    exact of_oblivious (.defineTemplate name specs)
  · exact throw _

theorem deriveStruct (args : List Value) :
    Converses fun visit => SpecialForm.deriveStruct visit args := by
  rcases args with _ | ⟨name, _ | ⟨parent, _ | ⟨fields, _ | _⟩⟩⟩
  · exact throw _
  · exact throw _
  · exact throw _
  · refine bind (of_oblivious (.operandName _ _)) fun name => ?_
    refine bind (of_oblivious (.operandName _ _)) fun parent => bind (fieldList _ fields) fun specs => ?_
    exact of_oblivious (.deriveTemplate name parent specs)
  · exact throw _

theorem initializers (inits : List Value) :
    Converses fun visit => SpecialForm.initializers visit inits := by
  induction inits with
  | nil => exact pure _
  | cons init rest ih =>
    simp only [SpecialForm.initializers]
    generalize init.toList? = parts
    rcases parts with _ | _ | ⟨field, _ | ⟨e, _ | _⟩⟩
    · exact refuse _
    · exact refuse _
    · cases field <;> exact refuse _
    · cases field with
      | symbol field => exact bind (fully e) fun value => bind ih fun _ => pure _
      | _ => exact refuse _
    · cases field <;> exact refuse _

theorem instantiate (args : List Value) :
    Converses fun visit => SpecialForm.instantiate visit args := by
  refine bind (of_oblivious (.operandName _ _)) fun name => bind (initializers _) fun inits => ?_
  exact of_oblivious (.instantiateStruct name inits)

theorem setOption (args : List Value) : Converses fun visit => SpecialForm.setOption visit args := by
  rcases args with _ | ⟨name, _ | ⟨e, _ | _⟩⟩
  · exact throw _
  · exact throw _
  · refine bind (of_oblivious (.operandName _ _)) fun name => bind (fully e) fun value => ?_
    exact of_oblivious (.changeOption name value.isTruthy (.bind (.note _) fun _ => .pure _))
  · exact throw _

/-! ### Operations and applications -/

theorem run (op : Operation) (args : List Value) : Converses fun visit => op.run visit args := by
  cases op with
  | lambda => exact of_oblivious (.lambda args)
  | define => exact define args
  | undefine => exact of_oblivious (.undefine args)
  | bindLocal => exact bindLocal args
  | choose => exact choose args
  | both => exact both .truth args
  | either => exact either args
  | quote => exact of_oblivious (.quote args)
  | defineStruct => exact defineStruct args
  | deriveStruct => exact deriveStruct args
  | instantiate => exact instantiate args
  | setOption => exact setOption args
  | list | vector => exact of_oblivious (.make _)
  | cons | setElement | append | joinText | copy =>
    simp only [Operation.run]
    exact of_oblivious (.onStore _)
  | evaluate =>
    rcases args with _ | ⟨e, _ | _⟩
    · exact throw _
    · exact fully e
    · exact throw _
  | print | printLine => exact store fun s => of_oblivious (.bind (.write _) fun _ => .pure _)
  | fail => exact refuse _
  | car | cdr | isNil | last | apply | host => exact pure _
  | _ =>
    simp only [Operation.run]
    exact of_oblivious (.ask _)

theorem visitAll (es : List Value) : Converses fun visit => Application.visitAll visit es := by
  unfold Application.visitAll
  induction es with
  | nil => exact pure _
  | cons e es ih =>
    simp only [List.mapM_cons]
    exact bind (visit e) fun value => bind ih fun _ => pure _

theorem callClosure (c : Closure) (args : List Value) :
    Converses fun visit => Application.callClosure visit c args :=
  bind (of_oblivious (.baseEnvironment c)) fun _ => withScope _ (withLevel _ (sequence _))

theorem curryClosure (c : Closure) (args : List Value) :
    Converses fun visit => Application.curryClosure visit c args := by
  refine bind (of_oblivious (.baseEnvironment c)) fun base => ?_
  refine bind (withScope _ (withLevel _ (visitAll _))) fun body => ?_
  exact of_oblivious (.bind (.note _) fun _ => .make _)

theorem curry (f : Callable) (args : List Value) :
    Converses fun visit => Application.curry visit f args := by
  cases f with
  | native g => exact ite _ (throw _) (of_oblivious (.curryNative g args))
  | closure c => exact curryClosure c args
  | struct a => exact refuse _

/-- What a function of the host asks for depends on no limit. -/
theorem callHost (slot : Nat) (args : List Value) {applied : Visit → Eval Value}
    (h : Converses applied) :
    Converses fun visit => Application.callHost slot args (applied visit) := by
  refine get (fun _ _ _ _ => rfl) fun m => ?_
  generalize (m.store.host slot).request (Application.hostView m args) = request
  cases request with
  | answer a => exact of_oblivious (.hostAnswer args a)
  | fail text => exact throw _
  | bind => exact of_oblivious (.hostBind args)
  | apply => exact h

/-- **An application runs through a dialogue**, the applications that it is continued by included. -/
theorem apply (head : Value) (args : List Value) :
    Converses fun visit => Application.apply visit head args := by
  refine (Application.applies_induction
    (P := fun head args => Converses fun visit => Application.apply visit head args)
    (Q := fun op args => Converses fun visit => Application.perform visit op args)
    ?called ?list ?improper ?arity ?nobody ?first ?run).1 head args
  case called =>
    intro head args ih
    simp only [Application.apply.eq_1]
    refine store fun s => ?_
    generalize head.callable? s = f
    cases f with
    | none => exact of_oblivious (.notCallable head)
    | some f =>
      refine ite _ (pure _) (ite _ (curry f args) (ite _ (refuse _) ?_))
      refine bind (of_oblivious (.ask _)) fun _ => ?_
      cases f with
      | native g => exact ih g
      | closure c => exact callClosure c args
      | struct a => exact of_oblivious (.callStruct a args)
  case list =>
    intro f list items hitems ih
    simpa only [Application.perform_list hitems] using ih
  case improper =>
    intro f list hlist
    simp only [Application.perform_improper hlist]
    exact refuse _
  case arity =>
    intro args hargs
    simp only [Application.perform.eq_2 _ args hargs]
    exact throw _
  case nobody =>
    intro slot
    simp only [Application.perform.eq_3]
    exact callHost slot [] (of_oblivious (.notCallable _))
  case first =>
    intro slot f rest ih
    simp only [Application.perform.eq_4]
    exact callHost slot (f :: rest) ih
  case run =>
    intro op args happly hhost
    simp only [Application.perform_run op happly hhost]
    exact run op args

/-! ### Steps -/

theorem visitQuoted (e inner : Value) :
    Converses fun visit => Evaluation.visitQuoted visit e inner :=
  get (fun _ _ _ _ => rfl) fun _ => ite _ (withLevel _ (visit inner)) (pure _)

theorem structOperands (args : List Value) :
    Converses fun visit => Evaluation.structOperands visit args := by
  rcases args with _ | ⟨field, _ | ⟨value, rest⟩⟩
  · exact pure _
  · exact pure _
  · exact bind (fully value) fun _ => pure _

theorem visitApplication (head : Value) (f : Callable) (operands : List Value) :
    Converses fun visit => Evaluation.visitApplication visit head f operands := by
  refine get (fun _ _ _ _ => rfl) fun m => ite _ (of_oblivious (.rebuild _ _)) ?_
  refine bind (withLevel _ (visitAll operands)) fun args => ite _ (of_oblivious (.rebuild _ _)) ?_
  cases f with
  | struct a => exact bind (structOperands args) fun args => apply head args
  | _ => exact apply head args

theorem visitPair (e car cdr : Value) :
    Converses fun visit => Evaluation.visitPair visit e car cdr := by
  refine get (fun _ _ _ _ => rfl) fun m => ite _ (pure _) ?_
  generalize cdr.toList? = operands
  cases operands with
  | none => exact refuse _
  | some operands =>
    refine bind (visit car) fun head => store fun s => ?_
    generalize head.callable? s = f
    cases f with
    | some f => exact visitApplication head f operands
    | none =>
      refine get (fun _ _ _ _ => rfl) fun m => ite _ ?_ (of_oblivious (.notCallable head))
      exact bind (visitAll operands) fun args => of_oblivious (.rebuild head args)

/-- **A step runs through a dialogue.** -/
theorem step (e : Value) : Converses fun visit => Evaluation.step visit e := by
  cases e with
  | pair a car cdr => exact visitPair _ car cdr
  | quoted inner => exact visitQuoted _ inner
  | symbol name => exact of_oblivious (.visitSymbol name)
  | type tag => exact get (fun _ _ _ _ => rfl) fun m => ite _ (pure _) (of_oblivious (.resolveType tag))
  | _ => exact pure _

/-- Notes on how `x` ends are left to be made when it has ended, whether it failed or not. -/
theorem exit {x : Visit → Eval Value} (hx : Converses x) :
    Converses fun visit => (do
      let result ← (liftM (x visit).run : Eval (Except Error Value))
      Evaluation.noteExit result
      MonadExcept.ofExcept result : Eval Value) := by
  intro m
  obtain ⟨d, hd⟩ := hx m
  refine ⟨d.after fun result m => (Evaluation.noteExit result m).2, fun visit depth limit => ?_⟩
  have hnote : ∀ result m depth limit, (Evaluation.noteExit result (m.bounded depth limit)).2 =
      (Evaluation.noteExit result m).2.bounded depth limit :=
    fun result m depth limit => congrArg Prod.snd ((Oblivious.noteExit result).apply m depth limit)
  have hcaught : (liftM (x visit).run : Eval (Except Error Value)) (m.bounded depth limit) =
      (.ok (x visit (m.bounded depth limit)).1, (x visit (m.bounded depth limit)).2) := rfl
  dsimp only
  rw [Eval.bind_apply, hcaught, hd, Dialogue.run_after visit hnote]
  dsimp only
  rw [Eval.bind_apply, Evaluation.noteExit_apply]
  exact Eval.ofExcept_apply _ _

/-- **So does a step with the notes on it.** -/
theorem observed (e : Value) {x : Visit → Eval Value} (hx : Converses x) :
    Converses fun visit => Evaluation.observed e (x visit) := by
  refine get (fun _ _ _ _ => rfl) fun m => ite _ (bind (of_oblivious (.noteEntry e)) fun _ => ?_) hx
  exact exit (bracket hx (fun _ _ _ => rfl) fun _ _ _ => rfl)

end Converses

end CurryLisp
