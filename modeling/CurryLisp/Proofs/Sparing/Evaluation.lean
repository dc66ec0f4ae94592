import CurryLisp.Proofs.Calculations
import CurryLisp.Proofs.Effect
import CurryLisp.Proofs.Sparing

/-!
# Evaluation spares structs that nothing refers to

If nothing on a machine refers to some structs, apart from the templates that are registered, then an
evaluation is a list of changes of objects that writes to none of them, nothing refers to them
afterwards, and what is answered does not either (`Sparing`). A template stays the template of its
name, unless a struct of that name is registered, which is noted (`Machine.Turns`).

There is one rule for each computation. They are put together in `Sparing.apply` and
`Sparing.visitWithin`.
-/

namespace CurryLisp

open SpecialForm (Visit)

/-! ## Machines -/

/-- A struct of this name has been registered between `m` and `m'`. -/
def Machine.Registered (m m' : Machine) (name : String) : Prop :=
  ∃ new tag, m'.events = new ++ m.events ∧ Event.structRegistered name tag ∈ new

/-- The templates of a name in all environments, innermost first. -/
def Machine.templates (m : Machine) (name : String) : List (Option Address) :=
  (m.frames ++ [m.global]).map fun env => env.structs.get? name

/-- Objects change from `m` to `m'`, but none of the structs `P` is written to. Templates change where
structs are registered. -/
structure Machine.Turns (P : Address → Prop) (m m' : Machine) : Prop where
  store : m.store.Turns P m'.store
  frames : m'.frames.length = m.frames.length
  events : m.events <:+ m'.events
  templates : ∀ name, m.Registered m' name ∨ m'.templates name = m.templates name

/-- Nothing on the machine refers to a struct of `P`, apart from these structs and the templates that
are registered. -/
structure Machine.Spares (P : Address → Prop) (m : Machine) : Prop where
  store : m.store.Spares P
  global : m.global.Avoids P
  frames : ∀ frame ∈ m.frames, frame.Avoids P

namespace Machine

variable {P : Address → Prop} {m m₁ m₂ : Machine} {name : String}

theorem Registered.trans_left (h : m.Registered m₁ name) (h' : m₁.events <:+ m₂.events) :
    m.Registered m₂ name := by
  obtain ⟨new, tag, hevents, hmem⟩ := h
  obtain ⟨later, hlater⟩ := h'
  refine ⟨later ++ new, tag, ?_, List.mem_append_right _ hmem⟩
  rw [← hlater, hevents, List.append_assoc]

theorem Registered.trans_right (h : m.events <:+ m₁.events) (h' : m₁.Registered m₂ name) :
    m.Registered m₂ name := by
  obtain ⟨new, tag, hevents, hmem⟩ := h'
  obtain ⟨earlier, hearlier⟩ := h
  refine ⟨new ++ earlier, tag, ?_, List.mem_append_left _ hmem⟩
  rw [hevents, ← hearlier, List.append_assoc]

/-- The template of a name is that of the innermost environment, or else the outermost one. -/
theorem lookupStruct?_eq (m : Machine) (name : String) :
    m.lookupStruct? name =
      ((m.templates name).head?.join <|> (m.templates name).getLast?.join) := by
  unfold lookupStruct? active templates
  rw [List.map_append, List.map_cons, List.map_nil, List.getLast?_concat]
  cases m.frames <;> rfl

namespace Turns

theorem refl (m : Machine) : Turns P m m := ⟨.refl _, rfl, List.suffix_rfl, fun _ => .inr rfl⟩

theorem trans (h : Turns P m m₁) (h' : Turns P m₁ m₂) : Turns P m m₂ where
  store := h.store.trans h'.store
  frames := h'.frames.trans h.frames
  events := h.events.trans h'.events
  templates := fun name => by
    rcases h.templates name with hleft | hsame
    · exact .inl (hleft.trans_left h'.events)
    · rcases h'.templates name with hright | hsame'
      · exact .inl (hright.trans_right h.events)
      · exact .inr (hsame'.trans hsame)

theorem ofStore {s : Store} (h : m.store.Turns P s) : Turns P m { m with store := s } :=
  { refl (P := P) m with store := h }

/-- Bindings of values are no templates. -/
theorem updateActive {f : Environment → Environment} (hf : ∀ env, (f env).structs = env.structs) :
    Turns P m (m.updateActive f) := by
  unfold Machine.updateActive
  split
  · next hframes =>
    refine { refl (P := P) m with templates := fun name => .inr ?_ }
    simp [Machine.templates, hframes, hf]
  · next frame frames hframes =>
    refine { refl (P := P) m with frames := by simp [hframes], templates := fun name => .inr ?_ }
    simp [Machine.templates, hframes, hf]

theorem note (e : Event) : Turns P m { m with events := e :: m.events } :=
  { refl (P := P) m with events := List.suffix_cons .., templates := fun _ => .inr rfl }

/-- Only the templates of the name that is registered change, which is noted. -/
theorem register (struct : Struct) : Turns P m (m.register struct m.store) := by
  refine ⟨?_, ?_, ?_, fun name => ?_⟩
  · rw [m.store_register]
    exact .single (.newStruct struct) trivial
  · unfold Machine.register Machine.updateActive
    cases m.frames <;> rfl
  · rw [m.events_register]
    exact List.suffix_cons ..
  · by_cases hname : name = struct.name
    · subst hname
      exact .inl ⟨[_], struct.tag.name, m.events_register .., List.mem_singleton.2 rfl⟩
    · refine .inr ?_
      have hothers : ∀ env : Environment,
          ((env.putType struct.tag).putStruct struct.name m.store.structs.size).structs.get? name =
            env.structs.get? name := fun env => Table.get?_insert_of_ne _ _ hname
      unfold Machine.register Machine.updateActive Machine.templates
      cases m.frames <;> simp [hothers]

/-- A scope leaves the templates behind it to those around it. -/
theorem inScope {frame : Environment} (h : Turns P { m with frames := frame :: m.frames } m₁) :
    Turns P m { m₁ with frames := m₁.frames.tail } := by
  obtain ⟨innermost, frames, hframes⟩ := List.exists_cons_of_length_eq_add_one h.frames
  refine ⟨h.store, ?_, h.events, fun name => (h.templates name).imp_right fun hsame => ?_⟩
  · have hlength := h.frames
    rw [hframes] at hlength ⊢
    exact Nat.succ.inj hlength
  · have htail := congrArg List.tail hsame
    simpa [Machine.templates, hframes] using htail

end Turns

/-- **The template of a name stays**, unless a struct of this name is registered. -/
theorem Turns.lookupStruct? (h : m.Turns P m₁) (hname : ¬m.Registered m₁ name) :
    m₁.lookupStruct? name = m.lookupStruct? name := by
  rw [lookupStruct?_eq, lookupStruct?_eq, (h.templates name).resolve_left hname]

namespace Spares

variable (hm : m.Spares P)
include hm

theorem active : m.active.Avoids P := by
  unfold Machine.active
  split
  · exact hm.global
  · next frame frames hframes =>
    exact hm.frames frame (by rw [hframes]; exact List.mem_cons_self ..)

theorem lookup? {v : Value} (h : m.lookup? name = some v) : v.Avoids P := by
  unfold Machine.lookup? at h
  cases hactive : m.active.bindings.get? name with
  | some found =>
    rw [hactive] at h
    cases h
    exact hm.active.get? hactive
  | none =>
    rw [hactive] at h
    exact hm.global.get? h

theorem updateActive {f : Environment → Environment} (hf : ∀ env : Environment, env.Avoids P →
    (f env).Avoids P) : (m.updateActive f).Spares P := by
  unfold Machine.updateActive
  split
  · exact { hm with global := hf _ hm.global }
  · next frame frames hframes =>
    refine { hm with frames := fun found h => ?_ }
    have hbefore : ∀ e ∈ frame :: frames, e.Avoids P := hframes ▸ hm.frames
    rcases List.mem_cons.1 h with rfl | h
    · exact hf _ (hbefore frame (List.mem_cons_self ..))
    · exact hbefore found (List.mem_cons_of_mem _ h)

theorem inScope {frame : Environment} (hframe : frame.Avoids P) :
    { m with frames := frame :: m.frames : Machine }.Spares P := by
  refine { hm with frames := fun found h => ?_ }
  rcases List.mem_cons.1 h with rfl | h
  · exact hframe
  · exact hm.frames found h

theorem outOfScope : { m with frames := m.frames.tail : Machine }.Spares P :=
  { hm with frames := fun found h => hm.frames found (List.mem_of_mem_tail h) }

end Spares

end Machine

/-- What is called refers to none of `P`. -/
def Callable.Avoids (P : Address → Prop) : Callable → Prop
  | closure c => c.Avoids P
  | struct a => ¬P a
  | native _ => True

/-! ## Computations -/

/-- A computation turns a machine that spares the structs `P` into another one, and `Q` holds of what it
answers. -/
def Sparing {α : Type} (P : Address → Prop) (Q : α → Prop) (x : Eval α) : Prop :=
  ∀ m : Machine, m.Spares P →
    m.Turns P (x m).2 ∧ (x m).2.Spares P ∧ ∀ a, (x m).1 = .ok a → Q a

/-- Of an answer that refers to nothing, nothing is said. -/
abbrev Sparing.Any {α : Type} (_ : α) : Prop := True

namespace Sparing

variable {α β : Type} {P : Address → Prop} {Q : α → Prop} {R : β → Prop}

/-! ### Primitive computations -/

theorem pure {a : α} (ha : Q a) : Sparing P Q (Pure.pure a) :=
  fun m hm => ⟨.refl m, hm, fun _ h => by cases h; exact ha⟩

theorem throw (e : Error) : Sparing P Q (throw e) :=
  fun m hm => ⟨.refl m, hm, fun _ h => by cases h⟩

theorem bind {x : Eval α} {f : α → Eval β} (hx : Sparing P Q x)
    (hf : ∀ a, Q a → Sparing P R (f a)) : Sparing P R (x >>= f) := by
  intro m hm
  obtain ⟨hturns, hspares, hanswer⟩ := hx m hm
  rw [Eval.bind_apply]
  rcases h : x m with ⟨e | a, m₁⟩
  · rw [h] at hturns hspares
    exact ⟨hturns, hspares, fun _ h => by cases h⟩
  · rw [h] at hturns hspares hanswer
    obtain ⟨hturns', hspares', hanswer'⟩ := hf a (hanswer a rfl) m₁ hspares
    exact ⟨hturns.trans hturns', hspares', hanswer'⟩

theorem get {f : Machine → Eval β} (hf : ∀ m, m.Spares P → Sparing P R (f m)) :
    Sparing P R (get >>= f) := fun m hm => hf m hm m hm

theorem store {f : Store → Eval β} (hf : ∀ s : Store, s.Spares P → Sparing P R (f s)) :
    Sparing P R (Eval.store >>= f) := fun m hm => hf m.store hm.store m hm

theorem refuse {f : Store → Error} :
    Sparing P Q (Eval.store >>= fun s => MonadExcept.throw (f s)) := store fun _ _ => throw _

theorem ofExcept {r : Except Error α} (hr : ∀ a, r = .ok a → Q a) :
    Sparing P Q (MonadExcept.ofExcept r) := by
  cases r with
  | error e => exact throw e
  | ok a => exact pure (hr a rfl)

theorem ask {f : Store → Except Error α} (hf : ∀ s a, s.Spares P → f s = .ok a → Q a) :
    Sparing P Q (Eval.ask f) := fun m hm => ⟨.refl m, hm, fun a h => hf m.store a hm.store h⟩

theorem make {f : Store → α × Store} (hf : ∀ s : Store, s.Spares P →
    s.Turns P (f s).2 ∧ (f s).2.Spares P ∧ Q (f s).1) : Sparing P Q (Eval.make f) := by
  intro m hm
  obtain ⟨hturns, hspares, hanswer⟩ := hf m.store hm.store
  rw [Eval.make_apply]
  exact ⟨.ofStore hturns, { hm with store := hspares }, fun _ h => by cases h; exact hanswer⟩

theorem onStore {f : Store → Except Error (α × Store)} (hf : ∀ (s : Store) a s', s.Spares P →
    f s = .ok (a, s') → s.Turns P s' ∧ s'.Spares P ∧ Q a) : Sparing P Q (Eval.onStore f) := by
  intro m hm
  unfold Eval.onStore
  cases h : f m.store with
  | error e => exact ⟨.refl m, hm, fun _ h => by cases h⟩
  | ok made =>
    obtain ⟨hturns, hspares, hanswer⟩ := hf m.store made.1 made.2 hm.store h
    exact ⟨.ofStore hturns, { hm with store := hspares }, fun _ h => by cases h; exact hanswer⟩

theorem list {items : List Value} (hitems : Value.AllAvoid P items) :
    Sparing P (Value.Avoids P) (Eval.make fun s => s.list items) :=
  make fun s hs => ⟨.chain items .nil s, hs.chain hitems trivial⟩

theorem closure {c : Closure} (hc : c.Avoids P) :
    Sparing P (Value.Avoids P) (Eval.make (Store.newClosure c)) :=
  make fun _ hs => ⟨.single (.newClosure c) trivial, hs.newClosure hc, trivial⟩

theorem updateActive {f : Environment → Environment} (hstructs : ∀ env, (f env).structs = env.structs)
    (hf : ∀ env : Environment, env.Avoids P → (f env).Avoids P) :
    Sparing P Any (Eval.updateActive f) :=
  fun _ hm => ⟨.updateActive hstructs, hm.updateActive hf, fun _ _ => trivial⟩

theorem put (name : String) {value : Value} (hvalue : value.Avoids P) :
    Sparing P Any (Eval.updateActive (·.put name value)) :=
  updateActive (fun _ => rfl) fun _ henv => henv.put name hvalue

theorem remove (name : String) : Sparing P Any (Eval.updateActive (·.remove name)) :=
  updateActive (fun _ => rfl) fun _ henv => henv.remove name

theorem putType (tag : TypeTag) : Sparing P Any (Eval.updateActive (·.putType tag)) :=
  updateActive (fun _ => rfl) fun _ henv => henv

theorem setOptions (options : Options) :
    Sparing P Any (modify fun m => { m with options } : Eval Unit) :=
  fun m hm => ⟨{ Machine.Turns.refl m with }, { hm with }, fun _ _ => trivial⟩

theorem write (text : String) : Sparing P Any (Eval.write text) :=
  fun m hm => ⟨{ Machine.Turns.refl m with }, { hm with }, fun _ _ => trivial⟩

theorem note (e : Event) : Sparing P Any (Eval.note e) :=
  fun _ hm => ⟨.note e, { hm with }, fun _ _ => trivial⟩

theorem placeholder : Sparing P Any Eval.placeholder :=
  fun m hm => ⟨{ Machine.Turns.refl m with }, { hm with }, fun _ _ => trivial⟩

theorem withLevel (level : Level) {x : Eval α} (hx : Sparing P Q x) :
    Sparing P Q (Eval.withLevel level x) := by
  intro m hm
  obtain ⟨hturns, hspares, hanswer⟩ := hx (m.atLevel level) { hm with }
  exact ⟨{ hturns with }, { hspares with }, hanswer⟩

theorem withScope {frame : Environment} (hframe : frame.Avoids P) {x : Eval α}
    (hx : Sparing P Q x) : Sparing P Q (Eval.withScope frame x) := by
  intro m hm
  obtain ⟨hturns, hspares, hanswer⟩ := hx _ (hm.inScope hframe)
  exact ⟨hturns.inScope, hspares.outOfScope, hanswer⟩

/-! ### Special forms -/

section SpecialForms

variable {visit : Visit} (hv : ∀ e, e.Avoids P → Sparing P (Value.Avoids P) (visit e))
include hv

theorem fully {e : Value} (he : e.Avoids P) :
    Sparing P (Value.Avoids P) (SpecialForm.fully visit e) := withLevel .full (hv e he)

theorem sequence {es : List Value} (hes : Value.AllAvoid P es) :
    Sparing P (Value.Avoids P) (SpecialForm.sequence visit es) := by
  induction es with
  | nil => exact pure trivial
  | cons e rest ih =>
    obtain ⟨he, hrest⟩ := List.forall_mem_cons.1 hes
    cases rest with
    | nil => exact hv e he
    | cons e' rest => exact bind (hv e he) fun _ _ => ih hrest

omit hv in
theorem operandName (form : String) (operand : Value) :
    Sparing P Any (SpecialForm.operandName form operand) := by
  unfold SpecialForm.operandName
  split
  · exact pure trivial
  · exact refuse

omit hv in
theorem headD {args : List Value} (hargs : Value.AllAvoid P args) : (args.headD .nil).Avoids P := by
  cases args with
  | nil => exact trivial
  | cons v rest => exact hargs v (List.mem_cons_self ..)

omit hv in
theorem drop {args : List Value} (hargs : Value.AllAvoid P args) (n : Nat) :
    Value.AllAvoid P (args.drop n) := fun v hmem => hargs v (List.mem_of_mem_drop hmem)

omit hv in
theorem lambda {args : List Value} (hargs : Value.AllAvoid P args) :
    Sparing P (Value.Avoids P) (SpecialForm.lambda args) := by
  refine store fun s _ => ?_
  split
  · exact throw _
  · refine bind (Q := Any) (ofExcept fun _ _ => trivial) fun names _ => get fun m hm => ?_
    exact closure ⟨drop hargs 1, hm.active, .nil⟩

theorem define {args : List Value} (hargs : Value.AllAvoid P args) :
    Sparing P (Value.Avoids P) (SpecialForm.define visit args) := by
  unfold SpecialForm.define
  split
  · next name e =>
    refine bind (operandName _ _) fun name _ => ?_
    refine bind (fully hv (hargs e (by simp))) fun v hvalue => ?_
    exact bind (put name hvalue) fun _ _ => pure hvalue
  · exact throw _

omit hv in
theorem undefine (args : List Value) : Sparing P (Value.Avoids P) (SpecialForm.undefine args) := by
  induction args with
  | nil => exact pure trivial
  | cons operand rest ih =>
    refine bind (operandName _ _) fun name _ => ?_
    exact bind (remove name) fun _ _ => ih

theorem bindings {entries : List Value} (hentries : Value.AllAvoid P entries) :
    Sparing P (Bound.Avoid P) (SpecialForm.bindings visit entries) := by
  induction entries with
  | nil => exact pure .nil
  | cons entry rest ih =>
    obtain ⟨hentry, hrest⟩ := List.forall_mem_cons.1 hentries
    unfold SpecialForm.bindings
    split
    · next name e hlist =>
      refine bind (fully hv (.of_mem_toList? hlist hentry (by simp))) fun v hvalue => ?_
      refine bind (ih hrest) fun bound hbound => pure ?_
      exact List.forall_mem_cons.2 ⟨hvalue, hbound⟩
    · exact refuse

theorem bindLocal {args : List Value} (hargs : Value.AllAvoid P args) :
    Sparing P (Value.Avoids P) (SpecialForm.bindLocal visit args) := by
  simp only [SpecialForm.bindLocal]
  split
  · exact refuse
  · next entries hlist =>
    refine bind (bindings hv fun x hx => .of_mem_toList? hlist (headD hargs) hx) ?_
    intro bound hbound
    refine get fun m hm => ?_
    exact withScope (hm.active.putAll hbound) (sequence hv (drop hargs 1))

theorem choose {args : List Value} (hargs : Value.AllAvoid P args) :
    Sparing P (Value.Avoids P) (SpecialForm.choose visit args) := by
  unfold SpecialForm.choose
  split
  · next condition yes no =>
    refine bind (fully hv (hargs condition (by simp))) fun v _ => ?_
    split
    · exact fully hv (hargs yes (by simp))
    · exact fully hv (hargs no (by simp))
  · exact throw _

theorem both {v : Value} (hvalue : v.Avoids P) {args : List Value} (hargs : Value.AllAvoid P args) :
    Sparing P (Value.Avoids P) (SpecialForm.both visit v args) := by
  induction args generalizing v with
  | nil => exact pure hvalue
  | cons e es ih =>
    obtain ⟨he, hes⟩ := List.forall_mem_cons.1 hargs
    refine bind (fully hv he) fun v hvalue => ?_
    split
    · exact ih hvalue hes
    · exact pure hvalue

theorem either {args : List Value} (hargs : Value.AllAvoid P args) :
    Sparing P (Value.Avoids P) (SpecialForm.either visit args) := by
  induction args with
  | nil => exact pure trivial
  | cons e es ih =>
    obtain ⟨he, hes⟩ := List.forall_mem_cons.1 hargs
    refine bind (fully hv he) fun v hvalue => ?_
    split
    · exact pure hvalue
    · exact ih hes

omit hv in
theorem quote {args : List Value} (hargs : Value.AllAvoid P args) :
    Sparing P (Value.Avoids P) (SpecialForm.quote args) := by
  unfold SpecialForm.quote
  split
  · next e => exact pure (hargs e (by simp))
  · exact throw _

/-! ### Structs -/

omit hv in
theorem fieldType (tag : Option TypeTag) : Sparing P Any (SpecialForm.fieldType tag) := by
  unfold SpecialForm.fieldType
  split
  · exact pure trivial
  · refine get fun m _ => ?_
    split
    · exact pure trivial
    · exact throw _

theorem fieldSpecs (form : String) {entries : List Value} (hentries : Value.AllAvoid P entries) :
    Sparing P (FieldSpec.AllAvoid P) (SpecialForm.fieldSpecs visit form entries) := by
  induction entries with
  | nil => exact pure fun _ h => by cases h
  | cons entry rest ih =>
    obtain ⟨hentry, hrest⟩ := List.forall_mem_cons.1 hentries
    unfold SpecialForm.fieldSpecs
    split
    · exact refuse
    · next name tag default hparts =>
      refine bind (fieldType _) fun tag _ => ?_
      have hdefault : ∀ v : Value, v.Avoids P → Sparing P (FieldSpec.AllAvoid P)
          (SpecialForm.fieldSpecs visit form rest >>= fun specs =>
            Pure.pure ({ name, tag, default := v } :: specs)) := fun v hvalue =>
        bind (ih hrest) fun specs hspecs => pure (List.forall_mem_cons.2 ⟨hvalue, hspecs⟩)
      dsimp only
      split
      · exact bind (fully hv (.fieldParts? hentry hparts)) hdefault
      · exact bind (pure trivial) hdefault

theorem fieldList (form : String) {fields : Value} (hfields : fields.Avoids P) :
    Sparing P (FieldSpec.AllAvoid P) (SpecialForm.fieldList visit form fields) := by
  unfold SpecialForm.fieldList
  split
  · next entries hlist => exact fieldSpecs hv form fun x hx => .of_mem_toList? hlist hfields hx
  · exact refuse

omit hv in
theorem register {struct : Struct} (hstruct : struct.Avoids P) :
    Sparing P (Value.Avoids P) (Struct.register struct) := by
  intro m hm
  change m.Turns P (m.register struct m.store) ∧ (m.register struct m.store).Spares P ∧ _
  -- Nothing is asked of the templates in environments, so any struct may be registered.
  have hnoted : { m with
      events := .structRegistered struct.name struct.tag.name :: m.events
      store := (m.store.newStruct struct).2 : Machine }.Spares P :=
    { hm with store := hm.store.newStruct hstruct }
  refine ⟨.register struct, hnoted.updateActive fun env henv => henv, fun v h => ?_⟩
  cases h
  exact hm.store.fresh

omit hv in
theorem template (name : String) : Sparing P Any (Struct.template name) := by
  refine get fun m hm => ?_
  split
  · exact pure trivial
  · exact throw _

omit hv in
theorem defineTemplate (name : String) {specs : List FieldSpec}
    (hspecs : FieldSpec.AllAvoid P specs) :
    Sparing P (Value.Avoids P) (Struct.defineTemplate name specs) :=
  bind (ask fun _ _ _ h => Struct.define_avoid hspecs h) fun _ hstruct => register hstruct

omit hv in
theorem deriveTemplate (name parent : String) {specs : List FieldSpec}
    (hspecs : FieldSpec.AllAvoid P specs) :
    Sparing P (Value.Avoids P) (Struct.deriveTemplate name parent specs) :=
  bind (template parent) fun a _ =>
    bind (onStore fun _ _ _ hs h => Struct.derive_avoid hs a hspecs h) fun _ hstruct =>
      register hstruct

omit hv in
/-- A new instance is none of `P`, though its template may be. -/
theorem instantiateStruct (name : String) {inits : List (String × Value)}
    (hinits : Bound.Avoid P inits) :
    Sparing P (Value.Avoids P) (Struct.instantiate name inits) := by
  refine bind (template name) fun a _ => onStore fun s v s' hs h => ?_
  obtain ⟨hturns, hspares, hnew⟩ := hs.copyStruct a
  obtain ⟨made, hset, h⟩ := exists_of_bind_eq_ok h
  cases h
  obtain ⟨hturns', hspares'⟩ := hspares.setFields hnew hinits hset
  exact ⟨hturns.trans hturns', hspares', hnew⟩

theorem defineStruct {args : List Value} (hargs : Value.AllAvoid P args) :
    Sparing P (Value.Avoids P) (SpecialForm.defineStruct visit args) := by
  unfold SpecialForm.defineStruct
  split
  · next name fields =>
    refine bind (operandName _ _) fun name _ => ?_
    refine bind (fieldList hv _ (hargs fields (by simp))) ?_
    exact fun specs hspecs => defineTemplate name hspecs
  · exact throw _

theorem deriveStruct {args : List Value} (hargs : Value.AllAvoid P args) :
    Sparing P (Value.Avoids P) (SpecialForm.deriveStruct visit args) := by
  unfold SpecialForm.deriveStruct
  split
  · next name parent fields =>
    refine bind (operandName _ _) fun name _ => bind (operandName _ _) fun parent _ => ?_
    refine bind (fieldList hv _ (hargs fields (by simp))) ?_
    exact fun specs hspecs => deriveTemplate name parent hspecs
  · exact throw _

theorem initializers {inits : List Value} (hinits : Value.AllAvoid P inits) :
    Sparing P (Bound.Avoid P) (SpecialForm.initializers visit inits) := by
  induction inits with
  | nil => exact pure .nil
  | cons init rest ih =>
    obtain ⟨hinit, hrest⟩ := List.forall_mem_cons.1 hinits
    unfold SpecialForm.initializers
    split
    · next field e hlist =>
      refine bind (fully hv (.of_mem_toList? hlist hinit (by simp))) fun v hvalue => ?_
      refine bind (ih hrest) fun made hmade => pure ?_
      exact List.forall_mem_cons.2 ⟨hvalue, hmade⟩
    · exact refuse

theorem instantiate {args : List Value} (hargs : Value.AllAvoid P args) :
    Sparing P (Value.Avoids P) (SpecialForm.instantiate visit args) := by
  refine bind (operandName _ _) fun name _ => ?_
  refine bind (initializers hv (drop hargs 1)) fun inits hinits => ?_
  exact instantiateStruct name hinits

theorem setOption {args : List Value} (hargs : Value.AllAvoid P args) :
    Sparing P (Value.Avoids P) (SpecialForm.setOption visit args) := by
  unfold SpecialForm.setOption
  split
  · next name e =>
    refine bind (operandName _ _) fun name _ => ?_
    refine bind (fully hv (hargs e (by simp))) fun v _ => ?_
    refine get fun m _ => bind (Q := Any) (ofExcept fun _ _ => trivial) fun options _ => ?_
    refine bind (setOptions options) fun _ _ => bind (note _) fun _ _ => ?_
    exact pure (.of_isPlain (Value.isPlain_ofBool _))
  · exact throw _

/-! ### Operations and applications -/

omit hv in
/-- The answer to a question avoids what values and vectors avoid. -/
theorem question {op : Operation} (hop : op.isQuestion = true) (args : List Value) :
    Sparing P (Value.Avoids P) (op.run visit args) := by
  obtain ⟨f, hrun, hknown⟩ := Operation.exists_ask hop args
  rw [hrun]
  refine ask fun s v hs hv => ?_
  exact (hknown (Value.Avoids P) s (fun _ => .of_isPlain) (fun _ => trivial) hs.vector).of_ok hv

theorem run (op : Operation) {args : List Value} (hargs : Value.AllAvoid P args) :
    Sparing P (Value.Avoids P) (op.run visit args) := by
  cases op with
  | lambda => exact lambda hargs
  | define => exact define hv hargs
  | undefine => exact undefine args
  | bindLocal => exact bindLocal hv hargs
  | choose => exact choose hv hargs
  | both => exact both hv (v := .truth) trivial hargs
  | either => exact either hv hargs
  | quote => exact quote hargs
  | defineStruct => exact defineStruct hv hargs
  | deriveStruct => exact deriveStruct hv hargs
  | instantiate => exact instantiate hv hargs
  | setOption => exact setOption hv hargs
  | cons => exact onStore fun _ _ _ hs h => hs.consArgs hargs h
  | car => exact pure (Store.Spares.car hargs)
  | cdr => exact pure (Store.Spares.cdr hargs)
  | list => exact Sparing.list hargs
  | isNil => exact pure (.of_isPlain (isPlain_isNil args))
  | last => exact pure (holds_last (P := Value.Avoids P) trivial hargs)
  | length | add | subtract | multiply | divide | modulo | equal | less | greater | negate
  | toInteger | toFloat | toCharacter | typeOf | isType | elementAt | math => exact question rfl args
  | vector =>
    refine make fun s hs => ⟨.single (.newVector _) trivial, hs.newVector fun v hmem => ?_, trivial⟩
    exact hargs v (by simpa using hmem)
  | setElement => exact onStore fun _ _ _ hs h => hs.setElement hargs h
  | append => exact onStore fun _ _ _ hs h => hs.append hargs h
  | joinText => exact onStore fun _ _ _ hs h => hs.joinText h
  | copy => exact onStore fun _ _ _ hs h => hs.copy hargs h
  | evaluate =>
    rw [Operation.run.eq_def]
    dsimp only
    split
    · next e => exact fully hv (hargs e (by simp))
    · exact throw _
  | print => exact store fun _ _ => bind (write _) fun _ _ => pure trivial
  | printLine => exact store fun _ _ => bind (write _) fun _ _ => pure trivial
  | fail => exact refuse
  | apply | host => exact pure trivial

theorem visitAll {es : List Value} (hes : Value.AllAvoid P es) :
    Sparing P (Value.AllAvoid P) (Application.visitAll visit es) := by
  unfold Application.visitAll
  induction es with
  | nil => exact pure .nil
  | cons e es ih =>
    obtain ⟨he, hes⟩ := List.forall_mem_cons.1 hes
    rw [List.mapM_cons]
    refine bind (hv e he) fun v hvalue => bind (ih hes) fun vs hvs => pure ?_
    exact List.forall_mem_cons.2 ⟨hvalue, hvs⟩

omit hv in
theorem baseEnvironment {c : Closure} (hc : c.Avoids P) :
    Sparing P (Environment.Avoids P) (Application.baseEnvironment c) := by
  refine get fun m hm => ?_
  split
  · exact pure hc.env
  · exact pure hm.active

omit hv in
theorem zip {args : List Value} (hargs : Value.AllAvoid P args) (names : List String) :
    Bound.Avoid P (names.zip args) :=
  fun entry hentry => hargs entry.2 (List.of_mem_zip hentry).2

theorem callClosure {c : Closure} (hc : c.Avoids P) {args : List Value}
    (hargs : Value.AllAvoid P args) :
    Sparing P (Value.Avoids P) (Application.callClosure visit c args) := by
  refine bind (baseEnvironment hc) fun base hbase => ?_
  exact withScope ((hbase.putAll hc.bound).putAll (zip hargs c.params))
    (withLevel _ (sequence hv hc.body))

theorem curryClosure {c : Closure} (hc : c.Avoids P) {args : List Value}
    (hargs : Value.AllAvoid P args) :
    Sparing P (Value.Avoids P) (Application.curryClosure visit c args) := by
  have hbound : Bound.Avoid P (c.bound ++ (c.params.take args.length).zip args) :=
    List.forall_mem_append.2 ⟨hc.bound, zip hargs _⟩
  have hself : Bound.Avoid P ((c.params.drop args.length).map fun name => (name, .symbol name)) := by
    intro entry hentry
    obtain ⟨name, -, rfl⟩ := List.mem_map.1 hentry
    exact trivial
  refine bind (baseEnvironment hc) fun base hbase => ?_
  refine bind (withScope ((hbase.putAll hbound).putAll hself) (withLevel _ (visitAll hv hc.body))) ?_
  exact fun body hbody => bind (note _) fun _ _ => closure ⟨hbody, hc.env, hbound⟩

omit hv in
theorem callOperands {args : List Value} (hargs : Value.AllAvoid P args) :
    Sparing P (fun made => Value.AllAvoid P made.1 ∧ Bound.Avoid P made.2)
      (Application.callOperands args) := by
  induction args with
  | nil => exact pure ⟨.nil, .nil⟩
  | cons arg args ih =>
    obtain ⟨harg, hrest⟩ := List.forall_mem_cons.1 hargs
    unfold Application.callOperands
    split
    · refine bind placeholder fun name _ => bind (ih hrest) fun made hmade => pure ?_
      exact ⟨List.forall_mem_cons.2 ⟨trivial, hmade.1⟩, List.forall_mem_cons.2 ⟨harg, hmade.2⟩⟩
    · refine bind (ih hrest) fun made hmade => pure ?_
      exact ⟨List.forall_mem_cons.2 ⟨harg, hmade.1⟩, hmade.2⟩

omit hv in
theorem placeholders (n : Nat) : Sparing P Any (Application.placeholders n) := by
  induction n with
  | zero => exact pure trivial
  | succ n ih => exact bind placeholder fun _ _ => bind ih fun _ _ => pure trivial

omit hv in
theorem curryNative (f : NativeFunction) {args : List Value} (hargs : Value.AllAvoid P args) :
    Sparing P (Value.Avoids P) (Application.curryNative f args) := by
  refine bind (callOperands hargs) fun made hmade => bind (placeholders _) fun params _ => ?_
  have hcall : Value.AllAvoid P (.native f :: made.1 ++ params.map .symbol) := by
    refine List.forall_mem_append.2 ⟨List.forall_mem_cons.2 ⟨trivial, hmade.1⟩, fun v hmem => ?_⟩
    obtain ⟨name, -, rfl⟩ := List.mem_map.1 hmem
    exact trivial
  refine bind (list hcall) fun call hcall => bind (note _) fun _ _ => ?_
  exact closure ⟨List.forall_mem_singleton.2 hcall, .nil, hmade.2⟩

omit hv in
theorem fieldName (operand : Value) : Sparing P Any (Application.fieldName operand) := by
  unfold Application.fieldName
  split
  · exact pure trivial
  · exact pure trivial
  · exact refuse
  · exact refuse

omit hv in
theorem callStruct {a : Address} (ha : ¬P a) {args : List Value} (hargs : Value.AllAvoid P args) :
    Sparing P (Value.Avoids P) (Application.callStruct a args) := by
  unfold Application.callStruct
  split
  · exact bind (fieldName _) fun name _ => ask fun s v hs h => hs.read ha h
  · next field v =>
    exact bind (fieldName _) fun name _ =>
      onStore fun s _ _ hs h => hs.setField ha (hargs v (by simp)) h
  · exact refuse

omit hv in
/-- What is called refers to what the value refers to. -/
theorem callable? {s : Store} (hs : s.Spares P) {head : Value} (hhead : head.Avoids P) {f : Callable}
    (h : head.callable? s = some f) : f.Avoids P := by
  cases head with
  | closure a =>
    cases h
    exact hs.closure a
  | struct a =>
    cases h
    exact hhead
  | native g =>
    cases h
    exact trivial
  | _ => cases h

theorem curry {f : Callable} (hf : f.Avoids P) {args : List Value}
    (hargs : Value.AllAvoid P args) :
    Sparing P (Value.Avoids P) (Application.curry visit f args) := by
  unfold Application.curry
  split
  · exact curryClosure hv hf hargs
  · split
    · exact throw _
    · exact curryNative _ hargs
  · exact refuse

omit hv in
theorem notCallable (v : Value) : Sparing P Q (Application.notCallable v : Eval α) := refuse

omit hv in
theorem hostAnswer {args : List Value} (hargs : Value.AllAvoid P args) (a : HostAnswer) :
    Sparing P (Value.Avoids P) (Application.hostAnswer args a) := by
  induction a with
  | text text => exact make fun s hs => ⟨.single (.newText _) trivial, { hs with }, trivial⟩
  | level => exact get fun _ _ => pure trivial
  | argument position => exact pure (holds_getD (P := Value.Avoids P) trivial hargs position)
  | constant slot => exact store fun _ hs => pure (hs.constant slot)
  | pair car cdr ihCar ihCdr =>
    refine bind ihCar fun car hcar => bind ihCdr fun cdr hcdr => make fun s hs => ?_
    exact ⟨.chain [car] cdr s, hs.chain (List.forall_mem_singleton.2 hcar) hcdr⟩
  | _ => exact pure trivial

omit hv in
theorem hostBind {args : List Value} (hargs : Value.AllAvoid P args) :
    Sparing P (Value.Avoids P) (Application.hostBind args) := by
  unfold Application.hostBind
  split
  · next name v => exact bind (put name (hargs v (by simp))) fun _ _ => pure trivial
  · exact pure trivial

omit hv in
theorem callHost (slot : Nat) {args : List Value} (hargs : Value.AllAvoid P args)
    {applied : Eval Value} (h : Sparing P (Value.Avoids P) applied) :
    Sparing P (Value.Avoids P) (Application.callHost slot args applied) := by
  refine get fun m _ => ?_
  split
  · exact hostAnswer hargs _
  · exact throw _
  · exact hostBind hargs
  · exact h

/-- **An application spares structs that nothing refers to.** So does every operation that is
performed. -/
theorem applies :
    (∀ head args, head.Avoids P → Value.AllAvoid P args →
      Sparing P (Value.Avoids P) (Application.apply visit head args)) ∧
    ∀ op args, Value.AllAvoid P args →
      Sparing P (Value.Avoids P) (Application.perform visit op args) := by
  refine Application.applies_induction ?called ?list ?improper ?arity ?nobody ?first ?run
  case called =>
    intro head args ih hhead hargs
    rw [Application.apply]
    refine store fun s hs => ?_
    split
    · exact notCallable _
    · next f hf =>
      have hcalled : f.Avoids P := callable? hs hhead hf
      split
      · exact pure hhead
      · split
        · exact curry hv hcalled hargs
        · split
          · exact refuse
          · refine bind (Q := Any) (ask fun _ _ _ _ => trivial) fun _ _ => ?_
            cases f with
            | native g => exact ih g hargs
            | closure c => exact callClosure hv hcalled hargs
            | struct a => exact callStruct hcalled hargs
  case list =>
    intro f list items hitems ih hargs
    rw [Application.perform_list hitems]
    refine ih (hargs f (by simp)) fun v hmem => ?_
    exact .of_mem_toList? hitems (hargs list (by simp)) hmem
  case improper =>
    intro f list hlist _
    rw [Application.perform_improper hlist]
    exact refuse
  case arity =>
    intro args hargs _
    rw [Application.perform.eq_2 visit args hargs]
    exact throw _
  case nobody =>
    intro slot hargs
    rw [Application.perform]
    exact callHost slot hargs (notCallable _)
  case first =>
    intro slot f rest ih hargs
    obtain ⟨hf, hrest⟩ := List.forall_mem_cons.1 hargs
    rw [Application.perform]
    exact callHost slot hargs (ih hf hrest)
  case run =>
    intro op args happly hhost hargs
    rw [Application.perform_run op happly hhost]
    exact run hv op hargs

theorem apply {head : Value} (hhead : head.Avoids P) {args : List Value}
    (hargs : Value.AllAvoid P args) :
    Sparing P (Value.Avoids P) (Application.apply visit head args) :=
  (applies hv).1 head args hhead hargs

theorem perform (op : Operation) {args : List Value} (hargs : Value.AllAvoid P args) :
    Sparing P (Value.Avoids P) (Application.perform visit op args) :=
  (applies hv).2 op args hargs

/-! ### Steps -/

omit hv in
theorem resolveType (tag : TypeTag) : Sparing P (Value.Avoids P) (Evaluation.resolveType tag) := by
  refine get fun m _ => ?_
  split
  · exact pure trivial
  · split
    · exact pure trivial
    · exact throw _

omit hv in
theorem visitSymbol (name : String) :
    Sparing P (Value.Avoids P) (Evaluation.visitSymbol name) := by
  refine get fun m hm => ?_
  split
  · exact pure trivial
  · split
    · next v hfound =>
      split
      · exact pure trivial
      · split
        · exact resolveType _
        · exact pure (hm.lookup? hfound)
    · split
      · exact pure trivial
      · exact throw _

theorem visitQuoted {e inner : Value} (he : e.Avoids P) (hinner : inner.Avoids P) :
    Sparing P (Value.Avoids P) (Evaluation.visitQuoted visit e inner) := by
  refine get fun m _ => ?_
  split
  · exact withLevel _ (hv inner hinner)
  · exact pure he

omit hv in
theorem rebuild {head : Value} (hhead : head.Avoids P) {args : List Value}
    (hargs : Value.AllAvoid P args) :
    Sparing P (Value.Avoids P) (Evaluation.rebuild head args) :=
  list (List.forall_mem_cons.2 ⟨hhead, hargs⟩)

theorem structOperands {args : List Value} (hargs : Value.AllAvoid P args) :
    Sparing P (Value.AllAvoid P) (Evaluation.structOperands visit args) := by
  unfold Evaluation.structOperands
  split
  · next field v rest =>
    obtain ⟨hfield, hargs⟩ := List.forall_mem_cons.1 hargs
    obtain ⟨hvalue, hrest⟩ := List.forall_mem_cons.1 hargs
    refine bind (fully hv hvalue) fun found hfound => pure ?_
    exact List.forall_mem_cons.2 ⟨hfield, List.forall_mem_cons.2 ⟨hfound, hrest⟩⟩
  · exact pure hargs

theorem visitApplication {head : Value} (hhead : head.Avoids P) (f : Callable)
    {operands : List Value} (hoperands : Value.AllAvoid P operands) :
    Sparing P (Value.Avoids P) (Evaluation.visitApplication visit head f operands) := by
  refine get fun m _ => ?_
  dsimp only
  split
  · exact rebuild hhead hoperands
  · refine bind (withLevel _ (visitAll hv hoperands)) fun args hargs => ?_
    split
    · exact rebuild hhead hargs
    · split
      · exact bind (structOperands hv hargs) fun args hargs => apply hv hhead hargs
      · exact bind (Q := Value.AllAvoid P) (pure hargs) fun args hargs => apply hv hhead hargs

theorem visitPair {e car cdr : Value} (he : e.Avoids P) (hcar : car.Avoids P)
    (hcdr : cdr.Avoids P) : Sparing P (Value.Avoids P) (Evaluation.visitPair visit e car cdr) := by
  refine get fun m _ => ?_
  split
  · exact pure he
  · split
    · exact refuse
    · next operands hlist =>
      have hoperands : Value.AllAvoid P operands := fun v hmem => .of_mem_toList? hlist hcdr hmem
      refine bind (hv car hcar) fun head hhead => store fun s _ => ?_
      split
      · exact visitApplication hv hhead _ hoperands
      · refine get fun m _ => ?_
        split
        · exact bind (visitAll hv hoperands) fun args hargs => rebuild hhead hargs
        · exact notCallable _

theorem step {e : Value} (he : e.Avoids P) :
    Sparing P (Value.Avoids P) (Evaluation.step visit e) := by
  unfold Evaluation.step
  split
  · exact visitPair hv he he.1 he.2
  · next inner => exact visitQuoted hv he (show inner.Avoids P from he)
  · exact visitSymbol _
  · refine get fun m _ => ?_
    split
    · exact pure trivial
    · exact resolveType _
  · exact pure he

end SpecialForms

/-! ### Nested steps -/

theorem noteIf (c : Prop) [Decidable c] (e : Event) :
    Sparing P Any (if c then Eval.note e else Pure.pure () : Eval Unit) := by
  split
  · exact note e
  · exact pure trivial

theorem noteEntry (e : Value) : Sparing P Any (Evaluation.noteEntry e) := by
  refine get fun m _ => ?_
  dsimp only
  split
  · exact bind (note _) fun _ _ => noteIf _ _
  · exact noteIf _ _

theorem noteExit (result : Except Error Value) : Sparing P Any (Evaluation.noteExit result) := by
  refine get fun m _ => ?_
  dsimp only
  split
  · split
    · exact bind (note _) fun _ _ => noteIf _ _
    · exact bind (note _) fun _ _ => noteIf _ _
  · exact noteIf _ _

theorem observed (e : Value) {x : Eval Value} (hx : Sparing P (Value.Avoids P) x) :
    Sparing P (Value.Avoids P) (Evaluation.observed e x) := by
  -- A failure is caught, noted and thrown again, so what is caught avoids `P` if it is a value.
  have hcaught : Sparing P (fun result => ∀ v, result = .ok v → v.Avoids P)
      (liftM (Eval.bracket (fun m => { m with indent := m.indent + 1 })
        (fun m => { m with indent := m.indent - 1 }) x).run : Eval (Except Error Value)) := by
    intro m hm
    obtain ⟨hturns, hspares, hanswer⟩ := hx { m with indent := m.indent + 1 } { hm with }
    exact ⟨{ hturns with }, { hspares with }, fun result h => by cases h; exact hanswer⟩
  refine get fun m _ => ?_
  split
  · refine bind (noteEntry e) fun _ _ => bind hcaught fun result hresult => ?_
    exact bind (noteExit result) fun _ _ => ofExcept hresult
  · exact hx

theorem nested (room : Nat) {x : Eval α} (hx : Sparing P Q x) :
    Sparing P Q (Evaluation.nested room x) := by
  intro m hm
  rw [Evaluation.nested_eq, Eval.bracket_apply]
  obtain ⟨hturns, hspares, hanswer⟩ := hx { m with depth := m.depth + 1 } { hm with }
  exact ⟨{ hturns with }, { hspares with }, hanswer⟩

/-- **An evaluation spares structs that nothing refers to.** -/
theorem visitWithin (room : Nat) {e : Value} (he : e.Avoids P) :
    Sparing P (Value.Avoids P) (Evaluation.visitWithin room e) := by
  induction room generalizing e with
  | zero => exact get fun _ _ => throw _
  | succ room ih => exact nested room (observed e (step (fun _ he => ih he) he))

theorem visit {e : Value} (he : e.Avoids P) : Sparing P (Value.Avoids P) (Evaluation.visit e) :=
  get fun m _ => visitWithin (Evaluation.room m) he

end Sparing

end CurryLisp
