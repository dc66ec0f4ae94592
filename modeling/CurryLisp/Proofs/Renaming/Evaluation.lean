import CurryLisp.Proofs.Notes
import CurryLisp.Proofs.Renaming.Builtins

/-!
# Evaluation does not see numbers

`Follows σ ρ x y`: on renamed machines `y` ends as `x` does. Its result is that of `x` under `ρ`, or
the same error, and the machines are renamed again. Only a computation `x` that runs out of depth says
nothing about `y`.

There is one rule for each computation. They are put together in `Follows.apply` and
`Follows.visitWithin`: an application or an evaluation follows another one of the renamed expression,
even if more steps may be nested in the second one.
-/

namespace CurryLisp

open SpecialForm (Visit)

/-- Whether evaluation stopped because of its depth. -/
def Error.isOverrun : Error → Bool
  | depthExceeded _ => true
  | _ => false

/-- How a run ended under a renaming. -/
def Ended (σ : Renaming) {α β : Type} (ρ : α → β) (end₁ : Except Error α × Machine)
    (end₂ : Except Error β × Machine) : Prop :=
  (∃ e, end₁.1 = .error e ∧ e.isOverrun = true) ∨
    end₂.1 = end₁.1.map ρ ∧ end₁.2.Renamed σ end₂.2

/-- A run ended as itself. -/
theorem Ended.refl (end₁ : Except Error Value × Machine) :
    Ended .same (Value.rename .same) end₁ end₁ := by
  refine .inr ⟨?_, .refl end₁.2⟩
  rw [Value.rename_same_eq]
  rcases end₁.1 with e | v <;> rfl

theorem Ended.trans {σ τ : Renaming} {end₁ end₂ end₃ : Except Error Value × Machine}
    (h : Ended σ (Value.rename σ) end₁ end₂) (h' : Ended τ (Value.rename τ) end₂ end₃) :
    Ended (σ.andThen τ) (Value.rename (σ.andThen τ)) end₁ end₃ := by
  rcases h with hover | ⟨hresult, hm⟩
  · exact .inl hover
  · rcases h' with ⟨e, he, hover⟩ | ⟨hresult', hm'⟩
    · rw [hresult] at he
      rcases hend : end₁.1 with e' | v
      · rw [hend] at he
        cases he
        exact .inl ⟨_, hend, hover⟩
      · rw [hend] at he
        cases he
    · refine .inr ⟨?_, hm.trans hm'⟩
      rw [hresult', hresult]
      rcases end₁.1 with e | v
      · rfl
      · exact congrArg Except.ok v.rename_rename

/-- Runs that ended alike go on alike. -/
theorem Ended.bind {σ : Renaming} {α α' β β' : Type} {ρ : α → β} {ρ' : α' → β'} {x : Eval α}
    {y : Eval β} {f : α → Eval α'} {g : β → Eval β'} {m m' : Machine} (hx : Ended σ ρ (x m) (y m'))
    (hf : ∀ a m₁ m₁', x m = (.ok a, m₁) → m₁.Renamed σ m₁' →
      Ended σ ρ' (f a m₁) (g (ρ a) m₁')) :
    Ended σ ρ' ((x >>= f) m) ((y >>= g) m') := by
  rw [Eval.bind_apply, Eval.bind_apply]
  rcases hxm : x m with ⟨e | a, m₁⟩
  · rw [hxm] at hx
    rcases hx with ⟨e', he', hover⟩ | ⟨hresult, hm⟩
    · cases he'
      exact .inl ⟨e, rfl, hover⟩
    · rcases hym : y m' with ⟨r, m₁'⟩
      rw [hym] at hresult hm
      cases hresult
      exact .inr ⟨rfl, hm⟩
  · rw [hxm] at hx
    rcases hx with ⟨e', he', hover⟩ | ⟨hresult, hm⟩
    · cases he'
    · rcases hym : y m' with ⟨r, m₁'⟩
      rw [hym] at hresult hm
      cases hresult
      exact hf a m₁ m₁' hxm hm

/-- What is noted of machines does not matter. -/
theorem Machine.Noted.renamed {σ : Renaming} {m m₁ m' m₁' : Machine} (h : m.Noted m₁)
    (h' : m'.Noted m₁') (hm : m.Renamed σ m') : m₁.Renamed σ m₁' := by
  obtain ⟨_, _, _, rfl⟩ := h
  obtain ⟨_, _, _, rfl⟩ := h'
  exact { hm with }

/-- Evaluations end alike if their steps do. -/
theorem Ended.visitWithin {σ : Renaming} {room room' : Nat} {e e' : Value} {m m' : Machine}
    (h : Ended σ (Value.rename σ)
      (Evaluation.step (Evaluation.visitWithin room) e (Evaluation.inside e m))
      (Evaluation.step (Evaluation.visitWithin room') e' (Evaluation.inside e' m'))) :
    Ended σ (Value.rename σ) (Evaluation.visitWithin (room + 1) e m)
      (Evaluation.visitWithin (room' + 1) e' m') := by
  obtain ⟨m₁, hvisit, hnoted⟩ := Evaluation.visitWithin_succ room e m
  obtain ⟨m₁', hvisit', hnoted'⟩ := Evaluation.visitWithin_succ room' e' m'
  rw [hvisit, hvisit']
  rcases h with hover | ⟨hresult, hm⟩
  · exact .inl hover
  · exact .inr ⟨hresult, hnoted.renamed hnoted' hm⟩

/-- On renamed machines `y` ends as `x` does. -/
def Follows (σ : Renaming) {α β : Type} (ρ : α → β) (x : Eval α) (y : Eval β) : Prop :=
  ∀ m m', m.Renamed σ m' → Ended σ ρ (x m) (y m')

namespace Follows

variable {σ : Renaming} {α α' β β' : Type} {ρ : α → β}

/-! ## Primitive computations -/

theorem pure (a : α) : Follows σ ρ (Pure.pure a) (Pure.pure (ρ a)) := fun _ _ h => .inr ⟨rfl, h⟩

theorem throw (e : Error) : Follows σ ρ (throw e) (throw e) := fun _ _ h => .inr ⟨rfl, h⟩

theorem bind {ρ' : α' → β'} {x : Eval α} {y : Eval β} {f : α → Eval α'} {g : β → Eval β'}
    (hx : Follows σ ρ x y) (hf : ∀ a, Follows σ ρ' (f a) (g (ρ a))) :
    Follows σ ρ' (x >>= f) (y >>= g) :=
  fun m m' h => (hx m m' h).bind fun a m₁ m₁' _ h₁ => hf a m₁ m₁' h₁

/-- What is read of renamed machines is related. -/
theorem get {f : Machine → Eval α} {g : Machine → Eval β}
    (hf : ∀ m m', m.Renamed σ m' → Follows σ ρ (f m) (g m')) :
    Follows σ ρ (get >>= f) (get >>= g) := fun m m' h => hf m m' h m m' h

theorem store {f : Store → Eval α} {g : Store → Eval β}
    (hf : ∀ s s', s.Renamed σ s' → Follows σ ρ (f s) (g s')) :
    Follows σ ρ (Eval.store >>= f) (Eval.store >>= g) := fun m m' h => hf _ _ h.store m m' h

theorem ofExcept (r : Except Error α) :
    Follows σ id (MonadExcept.ofExcept r) (MonadExcept.ofExcept r) := by
  cases r with
  | error e => exact throw e
  | ok a => exact pure a

theorem ask {f : Store → Except Error α} {g : Store → Except Error β}
    (hf : ∀ s s', s.Renamed σ s' → g s' = (f s).map ρ) : Follows σ ρ (Eval.ask f) (Eval.ask g) :=
  fun _ _ h => .inr ⟨hf _ _ h.store, h⟩

theorem make {f : Store → α × Store} {g : Store → β × Store}
    (hf : ∀ s s', s.Renamed σ s' → (g s').1 = ρ (f s).1 ∧ (f s).2.Renamed σ (g s').2) :
    Follows σ ρ (Eval.make f) (Eval.make g) := by
  intro m m' h
  obtain ⟨hresult, hs⟩ := hf _ _ h.store
  rw [Eval.make_apply, Eval.make_apply]
  exact .inr ⟨congrArg Except.ok hresult, { h with store := hs }⟩

theorem onStore {f : Store → Except Error (α × Store)} {g : Store → Except Error (β × Store)}
    (hf : ∀ s s', s.Renamed σ s' → Store.Renamed.Made σ ρ (f s) (g s')) :
    Follows σ ρ (Eval.onStore f) (Eval.onStore g) := by
  intro m m' h
  have hmade := hf _ _ h.store
  unfold Eval.onStore
  cases hfirst : f m.store with
  | error e =>
    rw [hfirst] at hmade
    rw [show g m'.store = .error e from hmade]
    exact .inr ⟨rfl, h⟩
  | ok made =>
    rw [hfirst] at hmade
    obtain ⟨t', ht', hs⟩ := hmade
    rw [ht']
    exact .inr ⟨rfl, { h with store := hs }⟩

theorem updateActive {f g : Environment → Environment}
    (hf : ∀ env, g (env.rename σ) = (f env).rename σ) :
    Follows σ id (Eval.updateActive f) (Eval.updateActive g) :=
  fun _ _ h => .inr ⟨rfl, h.updateActive hf⟩

theorem setOptions {o o' : Options} (ho : o'.scoping = o.scoping) :
    Follows σ id (modify fun m => { m with options := o } : Eval Unit)
      (modify fun m => { m with options := o' }) :=
  fun _ _ h => .inr ⟨rfl, { h with scoping := ho }⟩

theorem write (text : String) : Follows σ id (Eval.write text) (Eval.write text) :=
  fun _ _ h => .inr ⟨rfl, { h with printed := congrArg (· ++ text) h.printed }⟩

theorem note (e e' : Event) : Follows σ id (Eval.note e) (Eval.note e') :=
  fun _ _ h => .inr ⟨rfl, { h with }⟩

theorem placeholder : Follows σ id Eval.placeholder Eval.placeholder := by
  intro m m' h
  have hcount : m'.placeholders + 1 = m.placeholders + 1 := congrArg (· + 1) h.placeholders
  exact .inr ⟨congrArg (fun n => Except.ok ("%" ++ toString n)) hcount,
    { h with placeholders := hcount }⟩

theorem withLevel (level : Level) {x : Eval α} {y : Eval β} (hx : Follows σ ρ x y) :
    Follows σ ρ (Eval.withLevel level x) (Eval.withLevel level y) := by
  intro m m' h
  rcases hx (m.atLevel level) (m'.atLevel level) { h with level := rfl } with hover | ⟨hresult, hm⟩
  · exact .inl hover
  · exact .inr ⟨hresult, { hm with level := h.level }⟩

theorem withScope {frame frame' : Environment} (hframe : frame' = frame.rename σ) {x : Eval α}
    {y : Eval β} (hx : Follows σ ρ x y) :
    Follows σ ρ (Eval.withScope frame x) (Eval.withScope frame' y) := by
  intro m m' h
  have hframes : frame' :: m'.frames = (frame :: m.frames).map (Environment.rename σ) := by
    rw [List.map_cons, hframe, h.frames]
  rcases hx { m with frames := frame :: m.frames } { m' with frames := frame' :: m'.frames }
    { h with frames := hframes } with hover | ⟨hresult, hm⟩
  · exact .inl hover
  · exact .inr ⟨hresult, { hm with frames := by simp [Eval.withScope, Eval.bracket_apply, hm.frames] }⟩

/-! ## Special forms -/

section SpecialForms

variable {visit visit' : Visit}
  (hv : ∀ e, Follows σ (Value.rename σ) (visit e) (visit' (e.rename σ)))
include hv

theorem fully (e : Value) :
    Follows σ (Value.rename σ) (SpecialForm.fully visit e)
      (SpecialForm.fully visit' (e.rename σ)) := withLevel .full (hv e)

theorem sequence (es : List Value) :
    Follows σ (Value.rename σ) (SpecialForm.sequence visit es)
      (SpecialForm.sequence visit' (es.map (Value.rename σ))) := by
  induction es with
  | nil => exact pure _
  | cons e rest ih =>
    cases rest with
    | nil => exact hv e
    | cons e' rest => exact bind (hv e) fun _ => ih

omit hv in
theorem operandName (form : String) (operand : Value) :
    Follows σ id (SpecialForm.operandName form operand)
      (SpecialForm.operandName form (operand.rename σ)) := by
  cases operand with
  | symbol name => exact pure _
  | _ =>
    refine store fun s s' h => ?_
    rw [h.write]
    exact throw _

omit hv in
theorem paramNames_rename (refusal : Error) (before : List String) (items : List Value) :
    SpecialForm.paramNames refusal before (items.map (Value.rename σ)) =
      SpecialForm.paramNames refusal before items := by
  induction items generalizing before with
  | nil => rfl
  | cons item rest ih =>
    cases item with
    | symbol name =>
      simp only [List.map_cons, Value.rename, SpecialForm.paramNames, ih]
    | _ => rfl

omit hv in
theorem headD_rename (args : List Value) :
    (args.map (Value.rename σ)).headD .nil = (args.headD .nil).rename σ := by
  cases args <;> rfl

omit hv in
theorem lambda (args : List Value) :
    Follows σ (Value.rename σ) (SpecialForm.lambda args)
      (SpecialForm.lambda (args.map (Value.rename σ))) := by
  refine store fun s s' h => ?_
  rw [headD_rename, h.write, Value.toList?_rename]
  cases (args.headD .nil).toList? with
  | none => exact throw _
  | some items =>
    rw [Option.map_some]
    dsimp only
    rw [paramNames_rename]
    refine bind (ofExcept _) fun names => get fun m m' hm => make fun t t' ht => ?_
    have hmade := ht.newClosure { params := names, body := args.drop 1, env := m.active }
    rw [hm.active, ← List.map_drop]
    exact hmade

theorem define (args : List Value) :
    Follows σ (Value.rename σ) (SpecialForm.define visit args)
      (SpecialForm.define visit' (args.map (Value.rename σ))) := by
  rcases args with _ | ⟨name, _ | ⟨e, _ | ⟨x, rest⟩⟩⟩
  · exact throw _
  · exact throw _
  · refine bind (operandName "define" name) fun name => bind (fully hv e) fun value => ?_
    exact bind (updateActive fun env => Environment.put_rename σ env name value) fun _ => pure _
  · simp only [List.map_cons, SpecialForm.define, List.length_cons, List.length_map]
    exact throw _

omit hv in
theorem undefine (args : List Value) :
    Follows σ (Value.rename σ) (SpecialForm.undefine args)
      (SpecialForm.undefine (args.map (Value.rename σ))) := by
  induction args with
  | nil => exact pure _
  | cons operand rest ih =>
    refine bind (operandName "undefine" operand) fun name => ?_
    exact bind (updateActive fun env => Environment.remove_rename σ env name) fun _ => ih

theorem bindings (entries : List Value) :
    Follows σ (Bound.rename σ) (SpecialForm.bindings visit entries)
      (SpecialForm.bindings visit' (entries.map (Value.rename σ))) := by
  induction entries with
  | nil => exact pure _
  | cons entry rest ih =>
    have hrefused : Follows σ (Bound.rename σ)
        (Eval.store >>= fun s => MonadExcept.throw (.malformedForm "let"
          ("binding " ++ entry.write s ++ " should be (name expr)")))
        (Eval.store >>= fun s => MonadExcept.throw (.malformedForm "let"
          ("binding " ++ (entry.rename σ).write s ++ " should be (name expr)"))) := by
      refine store fun s s' h => ?_
      rw [h.write]
      exact throw _
    rw [List.map_cons]
    unfold SpecialForm.bindings
    rw [Value.toList?_rename]
    rcases entry.toList? with _ | _ | ⟨x, _ | ⟨e, _ | ⟨y, more⟩⟩⟩
    · exact hrefused
    · exact hrefused
    · cases x <;> exact hrefused
    · cases x with
      | symbol name => exact bind (fully hv e) fun value => bind ih fun bound => pure _
      | _ => exact hrefused
    · cases x <;> exact hrefused

theorem bindLocal (args : List Value) :
    Follows σ (Value.rename σ) (SpecialForm.bindLocal visit args)
      (SpecialForm.bindLocal visit' (args.map (Value.rename σ))) := by
  simp only [SpecialForm.bindLocal]
  rw [headD_rename, Value.toList?_rename]
  cases (args.headD .nil).toList? with
  | none =>
    refine store fun s s' h => ?_
    rw [h.write]
    exact throw _
  | some entries =>
    refine bind (bindings hv entries) fun bound => get fun m m' h => ?_
    rw [← List.map_drop]
    refine withScope ?_ (sequence hv _)
    rw [h.active, Environment.putAll_rename]

theorem choose (args : List Value) :
    Follows σ (Value.rename σ) (SpecialForm.choose visit args)
      (SpecialForm.choose visit' (args.map (Value.rename σ))) := by
  rcases args with _ | ⟨condition, _ | ⟨yes, _ | ⟨no, _ | ⟨x, rest⟩⟩⟩⟩
  · exact throw _
  · exact throw _
  · exact throw _
  · refine bind (fully hv condition) fun value => ?_
    rw [Value.isTruthy_rename]
    split
    · exact fully hv yes
    · exact fully hv no
  · simp only [List.map_cons, SpecialForm.choose, List.length_cons, List.length_map]
    exact throw _

theorem both (value : Value) (args : List Value) :
    Follows σ (Value.rename σ) (SpecialForm.both visit value args)
      (SpecialForm.both visit' (value.rename σ) (args.map (Value.rename σ))) := by
  induction args generalizing value with
  | nil => exact pure _
  | cons e es ih =>
    refine bind (fully hv e) fun value => ?_
    rw [Value.isTruthy_rename]
    split
    · exact ih value
    · exact pure _

theorem either (args : List Value) :
    Follows σ (Value.rename σ) (SpecialForm.either visit args)
      (SpecialForm.either visit' (args.map (Value.rename σ))) := by
  induction args with
  | nil => exact pure _
  | cons e es ih =>
    refine bind (fully hv e) fun value => ?_
    rw [Value.isTruthy_rename]
    split
    · exact pure _
    · exact ih

omit hv in
theorem quote (args : List Value) :
    Follows σ (Value.rename σ) (SpecialForm.quote args)
      (SpecialForm.quote (args.map (Value.rename σ))) := by
  rcases args with _ | ⟨e, _ | ⟨x, rest⟩⟩
  · exact throw _
  · exact pure _
  · simp only [List.map_cons, SpecialForm.quote, List.length_cons, List.length_map]
    exact throw _

omit hv in
theorem fieldParts?_rename (entry : Value) :
    SpecialForm.fieldParts? (entry.rename σ) =
      (SpecialForm.fieldParts? entry).map fun parts =>
        (parts.1, parts.2.1, parts.2.2.map (Value.rename σ)) := by
  unfold SpecialForm.fieldParts?
  rw [Value.toList?_rename]
  rcases entry.toList? with _ | _ | ⟨x, _ | ⟨y, _ | ⟨z, _ | ⟨w, more⟩⟩⟩⟩
  · rfl
  · rfl
  · cases x <;> rfl
  · cases x with
    | symbol name => cases y <;> rfl
    | _ => rfl
  · cases x with
    | symbol name => cases y <;> rfl
    | _ => rfl
  · cases x with
    | symbol name => cases y <;> rfl
    | _ => rfl

omit hv in
theorem fieldType (tag : Option TypeTag) :
    Follows σ id (SpecialForm.fieldType tag) (SpecialForm.fieldType tag) := by
  cases tag with
  | none => exact pure _
  | some tag =>
    refine get fun m m' h => ?_
    rw [h.lookupType?]
    cases m.lookupType? tag.name with
    | none => exact throw _
    | some registered => exact pure _

theorem fieldSpecs (form : String) (entries : List Value) :
    Follows σ (List.map (FieldSpec.rename σ)) (SpecialForm.fieldSpecs visit form entries)
      (SpecialForm.fieldSpecs visit' form (entries.map (Value.rename σ))) := by
  induction entries with
  | nil => exact pure _
  | cons entry rest ih =>
    rw [List.map_cons]
    unfold SpecialForm.fieldSpecs
    rw [fieldParts?_rename]
    rcases SpecialForm.fieldParts? entry with _ | ⟨name, tag, _ | e⟩
    · refine store fun s s' h => ?_
      rw [h.write]
      exact throw _
    · refine bind (fieldType tag) fun tag => ?_
      refine bind (ρ := Value.rename σ) (pure Value.nil) fun value => ?_
      exact bind ih fun specs => pure _
    · refine bind (fieldType tag) fun tag => bind (fully hv e) fun value => ?_
      exact bind ih fun specs => pure _

theorem fieldList (form : String) (fields : Value) :
    Follows σ (List.map (FieldSpec.rename σ)) (SpecialForm.fieldList visit form fields)
      (SpecialForm.fieldList visit' form (fields.rename σ)) := by
  unfold SpecialForm.fieldList
  rw [Value.toList?_rename]
  cases fields.toList? with
  | none =>
    refine store fun s s' h => ?_
    rw [h.write]
    exact throw _
  | some entries => exact fieldSpecs hv form entries

omit hv in
theorem register (struct : Struct) :
    Follows σ (Value.rename σ) (Struct.register struct) (Struct.register (struct.rename σ)) := by
  refine bind (note _ _) fun _ => ?_
  refine bind (ρ := id) (make fun s s' h => h.newStruct struct) fun template => ?_
  exact bind (updateActive fun env => rfl) fun _ => pure _

omit hv in
theorem template (name : String) : Follows σ id (Struct.template name) (Struct.template name) := by
  refine get fun m m' h => ?_
  rw [h.lookupStruct?]
  cases m.lookupStruct? name with
  | none => exact throw _
  | some a => exact pure _

omit hv in
theorem defineTemplate (name : String) (specs : List FieldSpec) :
    Follows σ (Value.rename σ) (Struct.defineTemplate name specs)
      (Struct.defineTemplate name (specs.map (FieldSpec.rename σ))) :=
  bind (ask fun _ _ h => Struct.define_rename h name specs) register

omit hv in
theorem deriveTemplate (name parent : String) (specs : List FieldSpec) :
    Follows σ (Value.rename σ) (Struct.deriveTemplate name parent specs)
      (Struct.deriveTemplate name parent (specs.map (FieldSpec.rename σ))) := by
  refine bind (template parent) fun a => bind (onStore fun s s' h => ?_) register
  rw [id, h.struct]
  exact h.derive name (s.struct a) specs

omit hv in
theorem instantiateStruct (name : String) (inits : List (String × Value)) :
    Follows σ (Value.rename σ) (Struct.instantiate name inits)
      (Struct.instantiate name (Bound.rename σ inits)) := by
  refine bind (template name) fun a => onStore fun s s' h => ?_
  obtain ⟨hmade, hs⟩ := h.copyStruct (s.struct a)
  obtain ⟨hfails, hmakes⟩ := hs.setFields (s.copyStruct (s.struct a)).1 inits
  rw [← hmade] at hfails hmakes
  rw [id, h.struct]
  rcases hcopy' : s'.copyStruct ((s.struct a).rename σ) with ⟨b', t'⟩
  rcases hcopy : s.copyStruct (s.struct a) with ⟨b, t⟩
  rw [hcopy, hcopy'] at hmade hfails hmakes
  obtain rfl : b' = b := hmade
  dsimp only at hfails hmakes ⊢
  cases hset : t.setFields b' inits with
  | error e =>
    rw [hfails e hset]
    rfl
  | ok made =>
    obtain ⟨made', hmade', hrenamed⟩ := hmakes made hset
    rw [hmade']
    exact ⟨made', rfl, hrenamed⟩

theorem defineStruct (args : List Value) :
    Follows σ (Value.rename σ) (SpecialForm.defineStruct visit args)
      (SpecialForm.defineStruct visit' (args.map (Value.rename σ))) := by
  rcases args with _ | ⟨name, _ | ⟨fields, _ | ⟨x, rest⟩⟩⟩
  · exact throw _
  · exact throw _
  · refine bind (operandName "defstruct" name) fun name => ?_
    exact bind (fieldList hv "defstruct" fields) fun specs => defineTemplate name specs
  · simp only [List.map_cons, SpecialForm.defineStruct, List.length_cons, List.length_map]
    exact throw _

theorem deriveStruct (args : List Value) :
    Follows σ (Value.rename σ) (SpecialForm.deriveStruct visit args)
      (SpecialForm.deriveStruct visit' (args.map (Value.rename σ))) := by
  rcases args with _ | ⟨name, _ | ⟨parent, _ | ⟨fields, _ | ⟨x, rest⟩⟩⟩⟩
  · exact throw _
  · exact throw _
  · exact throw _
  · refine bind (operandName "substruct" name) fun name => ?_
    refine bind (operandName "substruct" parent) fun parent => ?_
    exact bind (fieldList hv "substruct" fields) fun specs => deriveTemplate name parent specs
  · simp only [List.map_cons, SpecialForm.deriveStruct, List.length_cons, List.length_map]
    exact throw _

theorem initializers (inits : List Value) :
    Follows σ (Bound.rename σ) (SpecialForm.initializers visit inits)
      (SpecialForm.initializers visit' (inits.map (Value.rename σ))) := by
  induction inits with
  | nil => exact pure _
  | cons init rest ih =>
    have hrefused : Follows σ (Bound.rename σ)
        (Eval.store >>= fun s => MonadExcept.throw (.malformedForm "new"
          ("initializer " ++ init.write s ++ " should be (field value)")))
        (Eval.store >>= fun s => MonadExcept.throw (.malformedForm "new"
          ("initializer " ++ (init.rename σ).write s ++ " should be (field value)"))) := by
      refine store fun s s' h => ?_
      rw [h.write]
      exact throw _
    rw [List.map_cons]
    unfold SpecialForm.initializers
    rw [Value.toList?_rename]
    rcases init.toList? with _ | _ | ⟨x, _ | ⟨e, _ | ⟨y, more⟩⟩⟩
    · exact hrefused
    · exact hrefused
    · cases x <;> exact hrefused
    · cases x with
      | symbol field => exact bind (fully hv e) fun value => bind ih fun rest => pure _
      | _ => exact hrefused
    · cases x <;> exact hrefused

theorem instantiate (args : List Value) :
    Follows σ (Value.rename σ) (SpecialForm.instantiate visit args)
      (SpecialForm.instantiate visit' (args.map (Value.rename σ))) := by
  unfold SpecialForm.instantiate
  rw [headD_rename, ← List.map_drop]
  refine bind (operandName "new" _) fun name => ?_
  exact bind (initializers hv _) fun inits => instantiateStruct name inits

omit hv in
/-- An option is known or unknown whatever the other options are. -/
theorem set {o o' : Options} (ho : o'.scoping = o.scoping) (name : String) (enabled : Bool)
    {f : Options → Eval α} {g : Options → Eval β}
    (hf : ∀ p p', p'.scoping = p.scoping → Follows σ ρ (f p) (g p')) :
    Follows σ ρ (MonadExcept.ofExcept (o.set name enabled) >>= f)
      (MonadExcept.ofExcept (o'.set name enabled) >>= g) := by
  have hset : (∃ e, o.set name enabled = .error e ∧ o'.set name enabled = .error e) ∨
      ∃ p p', o.set name enabled = .ok p ∧ o'.set name enabled = .ok p' ∧
        p'.scoping = p.scoping := by
    unfold Options.set
    repeat' split
    all_goals first
      | exact .inr ⟨_, _, rfl, rfl, ho⟩
      | exact .inr ⟨_, _, rfl, rfl, rfl⟩
      | exact .inl ⟨_, rfl, rfl⟩
  intro m m' h
  rw [Eval.bind_apply, Eval.bind_apply, Eval.ofExcept_apply, Eval.ofExcept_apply]
  rcases hset with ⟨e, he, he'⟩ | ⟨p, p', hp, hp', hscoping⟩
  · rw [he, he']
    exact .inr ⟨rfl, h⟩
  · rw [hp, hp']
    exact hf p p' hscoping m m' h

theorem setOption (args : List Value) :
    Follows σ (Value.rename σ) (SpecialForm.setOption visit args)
      (SpecialForm.setOption visit' (args.map (Value.rename σ))) := by
  rcases args with _ | ⟨name, _ | ⟨e, _ | ⟨x, rest⟩⟩⟩
  · exact throw _
  · exact throw _
  · refine bind (operandName "set-option" name) fun name => bind (fully hv e) fun value => ?_
    refine get fun m m' h => ?_
    rw [Value.isTruthy_rename]
    refine set h.scoping name value.isTruthy fun o o' ho => ?_
    refine bind (setOptions ho) fun _ => bind (note _ _) fun _ => ?_
    have hanswer := pure (σ := σ) (ρ := Value.rename σ) (Value.ofBool value.isTruthy)
    rwa [Value.rename_ofBool] at hanswer
  · simp only [List.map_cons, SpecialForm.setOption, List.length_cons, List.length_map]
    exact throw _

/-! ## Operations -/

omit hv in
theorem printed_rename {s s' : Store} (h : s.Renamed σ s') (args : List Value) :
    Operation.printed s' (args.map (Value.rename σ)) = Operation.printed s args := by
  simp only [Operation.printed, List.map_map, Function.comp_def, h.print]

/-- An operation that applies nothing. -/
theorem run (op : Operation) (args : List Value) :
    Follows σ (Value.rename σ) (op.run visit args)
      (op.run visit' (args.map (Value.rename σ))) := by
  cases op with
  | lambda => exact lambda args
  | define => exact define hv args
  | undefine => exact undefine args
  | bindLocal => exact bindLocal hv args
  | choose => exact choose hv args
  | both => exact both hv .truth args
  | either => exact either hv args
  | quote => exact quote args
  | defineStruct => exact defineStruct hv args
  | deriveStruct => exact deriveStruct hv args
  | instantiate => exact instantiate hv args
  | setOption => exact setOption hv args
  | cons => exact onStore fun s s' h => Builtin.cons_made h args
  | car =>
    simp only [Operation.run, Builtin.car_rename]
    exact pure _
  | cdr =>
    simp only [Operation.run, Builtin.cdr_rename]
    exact pure _
  | list => exact make fun s s' h => h.chain args .nil
  | isNil =>
    simp only [Operation.run, Builtin.isNil_rename]
    exact pure _
  | length => exact ask fun s s' h => Builtin.length_rename h args
  | add => exact ask fun s s' h => Number.combine_rename h _ _ _ args
  | subtract => exact ask fun s s' h => Number.combine_rename h _ _ _ args
  | multiply => exact ask fun s s' h => Number.combine_rename h _ _ _ args
  | divide => exact ask fun s s' h => Number.divide_rename h args
  | modulo => exact ask fun _ _ _ => Number.modulo_rename args
  | equal => exact ask fun s s' h => Number.equal_rename h args
  | less => exact ask fun s s' h => Number.compare_rename h _ _ _ args
  | greater => exact ask fun s s' h => Number.compare_rename h _ _ _ args
  | negate => exact ask fun _ _ _ => Builtin.negate_rename args
  | toInteger => exact ask fun s s' h => Number.toInteger_rename h args
  | toFloat => exact ask fun _ _ _ => Number.toReal_rename args
  | toCharacter => exact ask fun s s' h => Number.toCharacter_rename h args
  | typeOf => exact ask fun s s' h => Builtin.typeOf_rename h args
  | isType => exact ask fun s s' h => Builtin.isType_rename h args
  | vector =>
    refine make fun s s' h => ?_
    have hmade := h.newVector args.toArray
    rwa [List.map_toArray] at hmade
  | elementAt => exact ask fun s s' h => Builtin.elementAt_rename h args
  | setElement => exact onStore fun s s' h => Builtin.setElement_made h args
  | append => exact onStore fun s s' h => Builtin.append_made h args
  | joinText => exact onStore fun s s' h => Builtin.joinText_made h args
  | evaluate =>
    rcases args with _ | ⟨e, _ | ⟨x, rest⟩⟩
    · exact throw _
    · exact fully hv e
    · simp only [List.map_cons, Operation.run, List.length_cons, List.length_map]
      exact throw _
  | last =>
    simp only [Operation.run, Builtin.last_rename]
    exact pure _
  | copy => exact onStore fun s s' h => Builtin.copy_made h args
  | print =>
    refine store fun s s' h => ?_
    rw [printed_rename h]
    exact bind (write _) fun _ => pure _
  | printLine =>
    refine store fun s s' h => ?_
    rw [printed_rename h]
    exact bind (write _) fun _ => pure _
  | fail =>
    refine store fun s s' h => ?_
    rw [printed_rename h]
    exact throw _
  | math f => exact ask fun _ _ _ => Number.applyFunction_rename f args
  | apply | host => exact pure _

/-! ## Closures and native functions -/

theorem visitAll (es : List Value) :
    Follows σ (List.map (Value.rename σ)) (Application.visitAll visit es)
      (Application.visitAll visit' (es.map (Value.rename σ))) := by
  unfold Application.visitAll
  induction es with
  | nil => exact pure _
  | cons e es ih =>
    rw [List.map_cons, List.mapM_cons, List.mapM_cons]
    exact bind (hv e) fun value => bind ih fun values => pure _

omit hv in
theorem baseEnvironment (c : Closure) :
    Follows σ (Environment.rename σ) (Application.baseEnvironment c)
      (Application.baseEnvironment (c.rename σ)) := by
  refine get fun m m' h => ?_
  rw [h.scoping, h.active]
  cases m.options.scoping with
  | lexical => exact pure _
  | dynamic => exact pure _

omit hv in
theorem frame_rename (base : Environment) (bound : List (String × Value)) (params : List String)
    (args : List Value) :
    ((base.rename σ).putAll (Bound.rename σ bound)).putAll
        (params.zip (args.map (Value.rename σ))) =
      ((base.putAll bound).putAll (params.zip args)).rename σ := by
  rw [Environment.putAll_rename, List.zip_map_right]
  exact Environment.putAll_rename σ _ _

theorem callClosure (c : Closure) (args : List Value) :
    Follows σ (Value.rename σ) (Application.callClosure visit c args)
      (Application.callClosure visit' (c.rename σ) (args.map (Value.rename σ))) := by
  refine bind (baseEnvironment c) fun base => ?_
  exact withScope (frame_rename base c.bound c.params args) (withLevel .full (sequence hv c.body))

omit hv in
theorem selfBound_rename (names : List String) :
    Bound.rename σ (names.map fun name => (name, Value.symbol name)) =
      names.map fun name => (name, Value.symbol name) := by
  simp [Bound.rename, Value.rename]

omit hv in
theorem bound_rename (bound : List (String × Value)) (names : List String) (args : List Value) :
    Bound.rename σ bound ++ names.zip (args.map (Value.rename σ)) =
      Bound.rename σ (bound ++ names.zip args) := by
  rw [List.zip_map_right, Bound.rename, Bound.rename, List.map_append]

theorem curryClosure (c : Closure) (args : List Value) :
    Follows σ (Value.rename σ) (Application.curryClosure visit c args)
      (Application.curryClosure visit' (c.rename σ) (args.map (Value.rename σ))) := by
  simp only [Application.curryClosure, Closure.rename, List.length_map, bound_rename]
  refine bind (baseEnvironment c) fun base => ?_
  refine bind (withScope ?_ (withLevel .ahead (visitAll hv c.body))) fun body => ?_
  · have hself := Environment.putAll_rename σ
      (base.putAll (c.bound ++ (c.params.take args.length).zip args))
      ((c.params.drop args.length).map fun name => (name, .symbol name))
    rw [selfBound_rename] at hself
    rw [Environment.putAll_rename]
    exact hself
  · refine bind (note _ _) fun _ => make fun s s' h => ?_
    exact h.newClosure { params := c.params.drop args.length, body, env := c.env, bound := _ }

omit hv in
theorem callOperands (args : List Value) :
    Follows σ (Prod.map (List.map (Value.rename σ)) (Bound.rename σ)) (Application.callOperands args)
      (Application.callOperands (args.map (Value.rename σ))) := by
  induction args with
  | nil => exact pure _
  | cons arg args ih =>
    rw [List.map_cons]
    unfold Application.callOperands
    rw [Value.isResidual_rename]
    split
    · exact bind placeholder fun name => bind ih fun made => pure _
    · exact bind ih fun made => pure _

omit hv in
theorem placeholders (n : Nat) :
    Follows σ id (Application.placeholders n) (Application.placeholders n) := by
  induction n with
  | zero => exact pure _
  | succ n ih => exact bind placeholder fun name => bind ih fun names => pure _

omit hv in
theorem curryNative (f : NativeFunction) (args : List Value) :
    Follows σ (Value.rename σ) (Application.curryNative f args)
      (Application.curryNative f (args.map (Value.rename σ))) := by
  unfold Application.curryNative
  rw [List.length_map]
  refine bind (callOperands args) fun ⟨operands, bound⟩ => bind (placeholders _) fun params => ?_
  refine bind (ρ := Value.rename σ) (make fun s s' h => ?_) fun call => ?_
  · have hcall := h.chain (.native f :: operands ++ params.map .symbol) .nil
    have hparams : (params.map Value.symbol).map (Value.rename σ) = params.map .symbol := by
      simp [Value.rename]
    rw [List.map_append, hparams] at hcall
    exact hcall
  · refine bind (note _ _) fun _ => make fun s s' h => ?_
    exact h.newClosure { params, body := [call], bound }

/-! ## Structs -/

omit hv in
theorem fieldName (operand : Value) :
    Follows σ id (Application.fieldName operand) (Application.fieldName (operand.rename σ)) := by
  have hrefused : ∀ v : Value, Follows σ id
      (Eval.store >>= fun s => MonadExcept.throw (.malformedForm "struct field"
        (v.write s ++ " is not a field name")) : Eval String)
      (Eval.store >>= fun s => MonadExcept.throw (.malformedForm "struct field"
        ((v.rename σ).write s ++ " is not a field name"))) := by
    intro v
    refine store fun s s' h => ?_
    rw [h.write]
    exact throw _
  cases operand with
  | symbol name => exact pure _
  | quoted inner =>
    cases inner with
    | symbol name => exact pure _
    | _ => exact hrefused _
  | _ => exact hrefused _

omit hv in
theorem callStruct (a : Address) (args : List Value) :
    Follows σ (Value.rename σ) (Application.callStruct a args)
      (Application.callStruct a (args.map (Value.rename σ))) := by
  have hrefused : ∀ n, Follows σ (Value.rename σ)
      (Eval.store >>= fun s => MonadExcept.throw (.arity (s.struct a).name 2 n))
      (Eval.store >>= fun s => MonadExcept.throw (.arity (s.struct a).name 2 n)) := by
    intro n
    refine store fun s s' h => ?_
    rw [h.struct]
    exact throw _
  rcases args with _ | ⟨field, _ | ⟨value, _ | ⟨x, rest⟩⟩⟩
  · exact hrefused 0
  · refine bind (fieldName field) fun name => ask fun s s' h => ?_
    rw [h.struct]
    exact Struct.read_rename _ name
  · exact bind (fieldName field) fun name => onStore fun s s' h => h.setField a name value
  · simp only [List.map_cons, Application.callStruct, List.length_cons, List.length_map]
    exact hrefused _

/-! ## Applications -/

theorem curry (f : Callable) (args : List Value) :
    Follows σ (Value.rename σ) (Application.curry visit f args)
      (Application.curry visit' (f.rename σ) (args.map (Value.rename σ))) := by
  cases f with
  | closure c => exact curryClosure hv c args
  | native g =>
    simp only [Application.curry, Callable.rename, List.length_map]
    split
    · exact throw _
    · exact curryNative g args
  | struct a =>
    simp only [Application.curry, Callable.rename, List.length_map]
    refine store fun s s' h => ?_
    rw [show Callable.name s' (.struct a) = Callable.name s (.struct a) from
      Callable.name_rename h (.struct a)]
    exact throw _

omit hv in
theorem notCallable (v : Value) :
    Follows σ ρ (Application.notCallable v) (Application.notCallable (v.rename σ)) := by
  refine store fun s s' h => ?_
  rw [h.write]
  exact throw _

/-! ## Functions of the host -/

omit hv in
/-- A function of the host is shown the same. -/
theorem hostView_rename {m m' : Machine} (h : m.Renamed σ m') (args : List Value) :
    Application.hostView m' (args.map (Value.rename σ)) = Application.hostView m args := by
  simp only [Application.hostView, List.map_map, Function.comp_def, h.store.write, h.scopeDepth,
    h.level, h.active, h.store.render]

omit hv in
theorem getD_rename (args : List Value) (position : Nat) :
    (args.map (Value.rename σ)).getD position .nil = (args.getD position .nil).rename σ := by
  simp only [List.getD_eq_getElem?_getD, List.getElem?_map]
  cases args[position]? <;> rfl

omit hv in
theorem hostAnswer (args : List Value) (a : HostAnswer) :
    Follows σ (Value.rename σ) (Application.hostAnswer args a)
      (Application.hostAnswer (args.map (Value.rename σ)) a) := by
  induction a with
  | text text => exact make fun s s' h => h.newText text
  | level =>
    refine get fun m m' h => ?_
    rw [h.level]
    exact pure _
  | argument position =>
    simp only [Application.hostAnswer, getD_rename]
    exact pure _
  | constant slot =>
    refine store fun s s' h => ?_
    rw [h.constant]
    exact pure _
  | pair car cdr ihCar ihCdr =>
    exact bind ihCar fun car => bind ihCdr fun cdr => make fun s s' h => h.chain [car] cdr
  | _ => exact pure _

omit hv in
theorem hostBind (args : List Value) :
    Follows σ (Value.rename σ) (Application.hostBind args)
      (Application.hostBind (args.map (Value.rename σ))) := by
  have hnothing : Follows σ (Value.rename σ) (Pure.pure () >>= fun _ => Pure.pure Value.nil)
      (Pure.pure () >>= fun _ => Pure.pure Value.nil) :=
    bind (ρ := id) (pure ()) fun _ => pure Value.nil
  rcases args with _ | ⟨x, _ | ⟨v, _ | ⟨y, rest⟩⟩⟩
  · exact hnothing
  · cases x <;> exact hnothing
  · cases x with
    | symbol name =>
      exact bind (updateActive fun env => Environment.put_rename σ env name v)
        fun _ => pure Value.nil
    | _ => exact hnothing
  · cases x <;> exact hnothing

omit hv in
theorem callHost (slot : Nat) (args : List Value) {applied applied' : Eval Value}
    (h : Follows σ (Value.rename σ) applied applied') :
    Follows σ (Value.rename σ) (Application.callHost slot args applied)
      (Application.callHost slot (args.map (Value.rename σ)) applied') := by
  refine get fun m m' hm => ?_
  rw [hostView_rename hm, hm.store.host]
  split
  · exact hostAnswer args _
  · exact throw _
  · exact hostBind args
  · exact h

/-- **An application follows the renamed application.** -/
theorem apply (head : Value) (args : List Value) :
    Follows σ (Value.rename σ) (Application.apply visit head args)
      (Application.apply visit' (head.rename σ) (args.map (Value.rename σ))) := by
  refine (Application.applies_induction
    (P := fun head args => Follows σ (Value.rename σ) (Application.apply visit head args)
      (Application.apply visit' (head.rename σ) (args.map (Value.rename σ))))
    (Q := fun op args => Follows σ (Value.rename σ) (Application.perform visit op args)
      (Application.perform visit' op (args.map (Value.rename σ))))
    ?called ?list ?improper ?arity ?nobody ?first ?run).1 head args
  case called =>
    intro head args ih
    rw [Application.apply, Application.apply]
    refine store fun s s' h => ?_
    rw [h.callable?]
    cases head.callable? s with
    | none => exact notCallable head
    | some f =>
      dsimp only [Option.map_some]
      rw [List.isEmpty_map, List.length_map, Callable.arity_rename, Callable.variadic_rename]
      split
      · exact pure _
      · split
        · exact curry hv f args
        · split
          · refine store fun s s' h => ?_
            rw [Callable.name_rename h]
            exact throw _
          · refine bind (ρ := id) (ask fun s s' h => ?_) fun _ => ?_
            · rw [Callable.checkArguments_rename h]
              cases f.checkArguments s args <;> rfl
            · cases f with
              | native g => exact ih g
              | closure c => exact callClosure hv c args
              | struct a => exact callStruct a args
  case list =>
    intro f list items hitems ih
    have hrenamed : (list.rename σ).toList? = some (items.map (Value.rename σ)) := by
      rw [Value.toList?_rename, hitems]
      rfl
    rw [List.map_cons, List.map_cons, List.map_nil, Application.perform_list hitems,
      Application.perform_list hrenamed]
    exact ih
  case improper =>
    intro f list hlist
    have hrenamed : (list.rename σ).toList? = none := by
      rw [Value.toList?_rename, hlist]
      rfl
    rw [List.map_cons, List.map_cons, List.map_nil, Application.perform_improper hlist,
      Application.perform_improper hrenamed]
    refine store fun s s' h => ?_
    rw [h.write]
    exact throw _
  case arity =>
    intro args hargs
    rw [Application.perform.eq_2 visit args hargs, Application.perform.eq_2 visit' _ ?_,
      List.length_map]
    · exact throw _
    · intro f list hmap
      rcases args with _ | ⟨x, _ | ⟨y, _ | ⟨z, rest⟩⟩⟩
      · cases hmap
      · cases hmap
      · exact hargs x y rfl
      · cases hmap
  case nobody =>
    intro slot
    rw [List.map_nil, Application.perform, Application.perform]
    exact callHost slot [] (notCallable .nil)
  case first =>
    intro slot f rest ih
    rw [List.map_cons, Application.perform, Application.perform]
    exact callHost slot (f :: rest) ih
  case run =>
    intro op args happly hhost
    rw [Application.perform_run op happly hhost, Application.perform_run op happly hhost]
    exact run hv op args

/-! ## Steps -/

omit hv in
theorem resolveType (tag : TypeTag) :
    Follows σ (Value.rename σ) (Evaluation.resolveType tag) (Evaluation.resolveType tag) := by
  refine get fun m m' h => ?_
  rw [h.lookupType?, h.level]
  cases m.lookupType? tag.name with
  | some registered => exact pure _
  | none =>
    dsimp only
    split
    · exact pure _
    · exact throw _

omit hv in
theorem visitSymbol (name : String) :
    Follows σ (Value.rename σ) (Evaluation.visitSymbol name) (Evaluation.visitSymbol name) := by
  refine get fun m m' h => ?_
  rw [h.level, h.lookup?]
  split
  · exact pure _
  · cases m.lookup? name with
    | none =>
      dsimp only [Option.map_none]
      split
      · exact pure _
      · exact throw _
    | some value =>
      dsimp only [Option.map_some]
      rw [Value.isResidual_rename]
      split
      · exact pure _
      · cases value with
        | type tag => exact resolveType tag
        | _ => exact pure _

theorem visitQuoted (e inner : Value) :
    Follows σ (Value.rename σ) (Evaluation.visitQuoted visit e inner)
      (Evaluation.visitQuoted visit' (e.rename σ) (inner.rename σ)) := by
  refine get fun m m' h => ?_
  rw [h.level]
  split
  · exact withLevel .asWritten (hv inner)
  · exact pure _

omit hv in
theorem rebuild (head : Value) (args : List Value) :
    Follows σ (Value.rename σ) (Evaluation.rebuild head args)
      (Evaluation.rebuild (head.rename σ) (args.map (Value.rename σ))) :=
  make fun _ _ h => h.chain (head :: args) .nil

theorem structOperands (args : List Value) :
    Follows σ (List.map (Value.rename σ)) (Evaluation.structOperands visit args)
      (Evaluation.structOperands visit' (args.map (Value.rename σ))) := by
  rcases args with _ | ⟨field, _ | ⟨value, rest⟩⟩
  · exact pure _
  · exact pure _
  · exact bind (fully hv value) fun value => pure _

theorem visitApplication (head : Value) (f : Callable) (operands : List Value) :
    Follows σ (Value.rename σ) (Evaluation.visitApplication visit head f operands)
      (Evaluation.visitApplication visit' (head.rename σ) (f.rename σ)
        (operands.map (Value.rename σ))) := by
  refine get fun m m' h => ?_
  dsimp only
  rw [h.level, Callable.level_rename, Callable.isPure_rename]
  split
  · exact rebuild head operands
  · refine bind (withLevel _ (visitAll hv operands)) fun args => ?_
    have hresidual : (args.map (Value.rename σ)).any Value.isResidual =
        args.any Value.isResidual := by
      simp [List.any_map, Function.comp_def]
    rw [hresidual]
    split
    · exact rebuild head args
    · cases f with
      | struct a => exact bind (structOperands hv args) fun args => apply hv head args
      | _ => exact bind (pure args) fun args => apply hv head args

theorem visitPair (e car cdr : Value) :
    Follows σ (Value.rename σ) (Evaluation.visitPair visit e car cdr)
      (Evaluation.visitPair visit' (e.rename σ) (car.rename σ) (cdr.rename σ)) := by
  refine get fun m m' h => ?_
  rw [h.level, Value.isNil_rename, Value.toList?_rename]
  split
  · exact pure _
  · cases cdr.toList? with
    | none =>
      refine store fun s s' h => ?_
      rw [h.write]
      exact throw _
    | some operands =>
      dsimp only [Option.map_some]
      refine bind (hv car) fun head => store fun s s' h => ?_
      rw [h.callable?]
      cases head.callable? s with
      | some f => exact visitApplication hv head f operands
      | none =>
        dsimp only [Option.map_none]
        refine get fun m m' h => ?_
        rw [h.level]
        split
        · exact bind (visitAll hv operands) fun args => rebuild head args
        · exact notCallable head

theorem step (e : Value) :
    Follows σ (Value.rename σ) (Evaluation.step visit e)
      (Evaluation.step visit' (e.rename σ)) := by
  cases e with
  | pair stamp car cdr => exact visitPair hv _ car cdr
  | quoted inner => exact visitQuoted hv _ inner
  | symbol name => exact visitSymbol name
  | type tag =>
    refine get fun m m' h => ?_
    rw [h.level]
    split
    · exact pure _
    · exact resolveType tag
  | _ => exact pure _

end SpecialForms

/-! ## Nested steps -/

/-- **An evaluation follows that of the renamed expression**, which may nest more steps. -/
theorem visitWithin {room room' : Nat} (hroom : room ≤ room') (e : Value) :
    Follows σ (Value.rename σ) (Evaluation.visitWithin room e)
      (Evaluation.visitWithin room' (e.rename σ)) := by
  induction room generalizing room' e with
  | zero => exact fun m m' h => .inl ⟨_, rfl, rfl⟩
  | succ room ih =>
    obtain ⟨room', rfl⟩ : ∃ k, room' = k + 1 := ⟨room' - 1, by omega⟩
    intro m m' h
    have hstep := step (fun e => ih (Nat.le_of_succ_le_succ hroom) e) e
    exact .visitWithin (hstep _ _ ((Evaluation.inside_noted e m).renamed
      (Evaluation.inside_noted _ m') h))

end Follows

end CurryLisp
