import CurryLisp.Proofs.References.Invariant

/-!
# Evaluation keeps references valid

`Keeps inv s P x`: on machines that uphold the invariant `inv` and have grown from the store `s`, the
computation `x` leaves a machine that upholds it, in particular a valid one, and `P` holds of what it
answers. What was valid in `s` may be used by `x`.

There is one rule for each computation. They are put together in `Keeps.apply` and
`Keeps.visitWithin`: applications and evaluations keep every lawful invariant, and what they answer is
valid.
-/

namespace CurryLisp

open SpecialForm (Visit)

/-- On machines that uphold the invariant and have grown from `s`, a computation removes no object and
the machine upholds the invariant afterwards; of what it answers, `P` holds. -/
def Keeps {α : Type} (inv : Invariant) (s : Store) (P : Store → α → Prop) (x : Eval α) : Prop :=
  ∀ m : Machine, s.Grows m.store → m.Upholds inv →
    m.store.Grows (x m).2.store ∧ (x m).2.Upholds inv ∧ ∀ a, (x m).1 = .ok a → P (x m).2.store a

/-- Of an answer that refers to nothing, nothing is said. -/
abbrev Keeps.Any {α : Type} (_ : Store) (_ : α) : Prop := True

namespace Keeps

variable {α β : Type} {inv : Invariant} {s : Store} {P : Store → α → Prop} {Q : Store → β → Prop}

/-! ### Primitive computations -/

theorem pure {a : α} (ha : ∀ s', s.Grows s' → P s' a) : Keeps inv s P (Pure.pure a) :=
  fun m hs hm => ⟨.refl _, hm, fun _ h => by cases h; exact ha m.store hs⟩

theorem value {v : Value} (hv : v.Valid s) : Keeps inv s Value.Valid (Pure.pure v) :=
  pure fun _ hs => hv.grows hs

theorem throw (e : Error) : Keeps inv s P (throw e) :=
  fun m _ hm => ⟨.refl m.store, hm, fun _ h => by cases h⟩

theorem bind {x : Eval α} {f : α → Eval β} (hx : Keeps inv s P x)
    (hf : ∀ s' a, s.Grows s' → P s' a → Keeps inv s' Q (f a)) : Keeps inv s Q (x >>= f) := by
  intro m hs hm
  obtain ⟨hgrows, hvalid, hanswer⟩ := hx m hs hm
  rw [Eval.bind_apply]
  rcases h : x m with ⟨e | a, m₁⟩
  · rw [h] at hgrows hvalid
    exact ⟨hgrows, hvalid, fun _ h => by cases h⟩
  · rw [h] at hgrows hvalid hanswer
    obtain ⟨hgrows', hvalid', hanswer'⟩ :=
      hf m₁.store a (hs.trans hgrows) (hanswer a rfl) m₁ (.refl _) hvalid
    exact ⟨hgrows.trans hgrows', hvalid', hanswer'⟩

theorem get {f : Machine → Eval β}
    (hf : ∀ m, s.Grows m.store → m.Upholds inv → Keeps inv m.store Q (f m)) : Keeps inv s Q (get >>= f) :=
  fun m hs hm => hf m hs hm m (.refl _) hm

theorem objects {f : Store → Eval β}
    (hf : ∀ s', s.Grows s' → s'.Valid → inv.OfStore s' → Keeps inv s' Q (f s')) :
    Keeps inv s Q (Eval.store >>= f) :=
  fun m hs hm => hf m.store hs hm.store hm.objects m (.refl _) hm

theorem store {f : Store → Eval β} (hf : ∀ s', s.Grows s' → s'.Valid → Keeps inv s' Q (f s')) :
    Keeps inv s Q (Eval.store >>= f) :=
  objects fun s' hs' hvalid _ => hf s' hs' hvalid

theorem ofExcept {r : Except Error α} (hr : ∀ a, r = .ok a → ∀ s', s.Grows s' → P s' a) :
    Keeps inv s P (MonadExcept.ofExcept r) := by
  cases r with
  | error e => exact throw e
  | ok a => exact pure (hr a rfl)

theorem ask {f : Store → Except Error α}
    (hf : ∀ s' a, s.Grows s' → s'.Valid → f s' = .ok a → P s' a) : Keeps inv s P (Eval.ask f) :=
  fun m hs hm => ⟨.refl _, hm, fun a h => hf m.store a hs hm.store h⟩

theorem make {f : Store → α × Store} (hgrows : ∀ s' : Store, s'.Grows (f s').2)
    (hf : ∀ s', s.Grows s' → s'.Valid → (f s').2.Valid ∧ P (f s').2 (f s').1)
    (hobjects : ∀ s', s.Grows s' → s'.Valid → inv.OfStore s' → inv.OfStore (f s').2) :
    Keeps inv s P (Eval.make f) := by
  intro m hs hm
  obtain ⟨hvalid, hanswer⟩ := hf m.store hs hm.store
  have hholds := hobjects m.store hs hm.store hm.objects
  rw [Eval.make_apply]
  exact ⟨hgrows m.store, hm.withStore (hgrows m.store) hvalid hholds,
    fun _ h => by cases h; exact hanswer⟩

theorem onStore {f : Store → Except Error (α × Store)}
    (hgrows : ∀ (s' : Store) a t, f s' = .ok (a, t) → s'.Grows t)
    (hf : ∀ s' a t, s.Grows s' → s'.Valid → inv.OfStore s' → f s' = .ok (a, t) →
      t.Valid ∧ inv.OfStore t ∧ P t a) :
    Keeps inv s P (Eval.onStore f) := by
  intro m hs hm
  unfold Eval.onStore
  cases h : f m.store with
  | error e => exact ⟨.refl _, hm, fun _ h => by cases h⟩
  | ok made =>
    obtain ⟨a, t⟩ := made
    obtain ⟨hvalid, hholds, hanswer⟩ := hf m.store a t hs hm.store hm.objects h
    have hgrown := hgrows m.store a t h
    exact ⟨hgrown, hm.withStore hgrown hvalid hholds, fun _ h => by cases h; exact hanswer⟩

/-- A change of the shared objects that leaves structs and closures as they are. -/
theorem onArrays [inv.Lawful] {f : Store → Except Error (α × Store)}
    (hgrows : ∀ (s' : Store) a t, f s' = .ok (a, t) → s'.Grows t)
    (hsame : ∀ (s' : Store) a t, f s' = .ok (a, t) → s'.SameRecords t)
    (hf : ∀ s' a t, s.Grows s' → s'.Valid → f s' = .ok (a, t) → t.Valid ∧ P t a) :
    Keeps inv s P (Eval.onStore f) := by
  refine onStore hgrows fun s' a t hs' hvalid hobjects h => ?_
  obtain ⟨hvalid', hanswer⟩ := hf s' a t hs' hvalid h
  exact ⟨hvalid', hobjects.sameRecords hvalid (hgrows s' a t h) (hsame s' a t h), hanswer⟩

theorem list [inv.Lawful] {items : List Value} (hitems : Value.AllValid s items) :
    Keeps inv s Value.Valid (Eval.make fun s => s.list items) :=
  make (fun s' => Store.Grows.list items s')
    (fun _ hs' hvalid => hvalid.chain (hitems.grows hs') trivial)
    fun _ _ hvalid hobjects => hobjects.list hvalid items

theorem updateActive {f : Environment → Environment}
    (hf : ∀ s' env, s.Grows s' → env.Valid s' → (f env).Valid s')
    (hholds : ∀ env, inv.environment env → inv.environment (f env)) :
    Keeps inv s Any (Eval.updateActive f) := by
  intro m hs hm
  change m.store.Grows (m.updateActive f).store ∧ (m.updateActive f).Upholds inv ∧ _
  refine ⟨?_, hm.updateActive (fun env henv => hf m.store env hs henv) hholds, fun _ _ => trivial⟩
  unfold Machine.updateActive
  split
  · exact .refl _
  · exact .refl _

theorem setOptions (options : Options) :
    Keeps inv s Any (modify fun m => { m with options } : Eval Unit) :=
  fun _ _ hm => ⟨.refl _, { hm with }, fun _ _ => trivial⟩

theorem write (text : String) : Keeps inv s Any (Eval.write text) :=
  fun _ _ hm => ⟨.refl _, { hm with }, fun _ _ => trivial⟩

theorem note (e : Event) : Keeps inv s Any (Eval.note e) :=
  fun _ _ hm => ⟨.refl _, { hm with }, fun _ _ => trivial⟩

theorem placeholder : Keeps inv s Any Eval.placeholder :=
  fun _ _ hm => ⟨.refl _, { hm with }, fun _ _ => trivial⟩

theorem withLevel (level : Level) {x : Eval α} (hx : Keeps inv s P x) :
    Keeps inv s P (Eval.withLevel level x) := by
  intro m hs hm
  obtain ⟨hgrows, hvalid, hanswer⟩ := hx (m.atLevel level) hs { hm with }
  exact ⟨hgrows, { hvalid with }, hanswer⟩

theorem withScope {frame : Environment} (hframe : frame.Valid s)
    (hholds : inv.environment frame) {x : Eval α} (hx : Keeps inv s P x) :
    Keeps inv s P (Eval.withScope frame x) := by
  intro m hs hm
  have hscope : { m with frames := frame :: m.frames : Machine }.Upholds inv := by
    refine { hm with frames := fun found h => ?_, scopes := fun found h => ?_ }
    · rcases List.mem_cons.1 h with rfl | h
      · exact hframe.grows hs
      · exact hm.frames found h
    · rcases List.mem_cons.1 h with rfl | h
      · exact hholds
      · exact hm.scopes found h
  obtain ⟨hgrows, hupholds, hanswer⟩ :=
    hx { m with frames := frame :: m.frames } hs hscope
  refine ⟨hgrows, { hupholds with frames := fun found h => ?_, scopes := fun found h => ?_ }, hanswer⟩
  · exact hupholds.frames found (List.mem_of_mem_tail h)
  · exact hupholds.scopes found (List.mem_of_mem_tail h)

/-! ### Special forms -/

section SpecialForms

variable {visit : Visit} (hv : ∀ s e, e.Valid s → Keeps inv s Value.Valid (visit e))
include hv

theorem fully {e : Value} (he : e.Valid s) : Keeps inv s Value.Valid (SpecialForm.fully visit e) :=
  withLevel .full (hv s e he)

theorem sequence {es : List Value} (hes : Value.AllValid s es) :
    Keeps inv s Value.Valid (SpecialForm.sequence visit es) := by
  induction es generalizing s with
  | nil => exact value trivial
  | cons e rest ih =>
    have he := hes e (List.mem_cons_self ..)
    cases rest with
    | nil => exact hv s e he
    | cons e' rest =>
      refine bind (hv s e he) fun s' _ hs _ => ih fun v hmem => ?_
      exact (hes v (List.mem_cons_of_mem _ hmem)).grows hs

omit hv in
theorem operandName (form : String) (operand : Value) :
    Keeps inv s Any (SpecialForm.operandName form operand) := by
  unfold SpecialForm.operandName
  split
  · exact pure fun _ _ => trivial
  · exact store fun _ _ _ => throw _

omit hv in
theorem headD {args : List Value} (hargs : Value.AllValid s args) : (args.headD .nil).Valid s := by
  cases args with
  | nil => exact trivial
  | cons v rest => exact hargs v (List.mem_cons_self ..)

omit hv in
theorem drop {args : List Value} (hargs : Value.AllValid s args) (n : Nat) :
    Value.AllValid s (args.drop n) := fun v hmem => hargs v (List.mem_of_mem_drop hmem)

omit hv in
theorem lambda [inv.Lawful] {args : List Value} (hargs : Value.AllValid s args) :
    Keeps inv s Value.Valid (SpecialForm.lambda args) := by
  refine store fun s₁ hs₁ _ => ?_
  split
  · exact throw _
  · refine bind (P := Any) (ofExcept fun _ _ _ _ => trivial) fun s₂ names hs₂ _ => get fun m hm hupholds => ?_
    refine make (fun s' => Store.Grows.newClosure _ s')
      (fun s' hs' hvalid' => hvalid'.newClosure ?_)
      fun _ _ hvalid' hobjects => hobjects.newClosure hvalid' hupholds.activeHolds
    exact {
      body := (drop hargs 1).grows (hs₁.trans (hs₂.trans (hm.trans hs')))
      env := hupholds.toValid.active.grows hs'
      bound := .nil }

theorem define [inv.Lawful] {args : List Value} (hargs : Value.AllValid s args) :
    Keeps inv s Value.Valid (SpecialForm.define visit args) := by
  unfold SpecialForm.define
  split
  · next name e =>
    refine bind (operandName _ _) fun s₁ name hs₁ _ => ?_
    refine bind (fully hv ((hargs e (by simp)).grows hs₁)) fun s₂ v hs₂ hvalue => ?_
    refine bind (updateActive (fun s' env hs' henv => henv.put name (hvalue.grows hs'))
      fun _ => Invariant.Lawful.put name v) ?_
    exact fun s₃ _ hs₃ _ => value (hvalue.grows hs₃)
  · exact throw _

omit hv in
theorem undefine [inv.Lawful] (args : List Value) : Keeps inv s Value.Valid (SpecialForm.undefine args) := by
  induction args generalizing s with
  | nil => exact value trivial
  | cons operand rest ih =>
    refine bind (operandName _ _) fun s₁ name hs₁ _ => ?_
    exact bind (updateActive (fun s' env hs' henv => henv.remove name)
      fun _ => Invariant.Lawful.remove name) fun _ _ _ _ => ih

theorem bindings {entries : List Value} (hentries : Value.AllValid s entries) :
    Keeps inv s Bound.Valid (SpecialForm.bindings visit entries) := by
  induction entries generalizing s with
  | nil => exact pure fun _ _ => .nil
  | cons entry rest ih =>
    unfold SpecialForm.bindings
    split
    · next name e hlist =>
      have hentry := hentries entry (List.mem_cons_self ..)
      have he : e.Valid s := .of_mem_toList? hlist hentry (by simp)
      refine bind (fully hv he) fun s₁ v hs₁ hvalue => ?_
      refine bind (ih fun x hx => (hentries x (List.mem_cons_of_mem _ hx)).grows hs₁) ?_
      intro s₂ bound hs₂ hbound
      refine pure fun s' hs' found hfound => ?_
      rcases List.mem_cons.1 hfound with rfl | hfound
      · exact hvalue.grows (hs₂.trans hs')
      · exact (hbound found hfound).grows hs'
    · exact store fun _ _ _ => throw _

theorem bindLocal [inv.Lawful] {args : List Value} (hargs : Value.AllValid s args) :
    Keeps inv s Value.Valid (SpecialForm.bindLocal visit args) := by
  simp only [SpecialForm.bindLocal]
  split
  · exact store fun _ _ _ => throw _
  · next entries hlist =>
    refine bind (bindings hv fun x hx => .of_mem_toList? hlist (headD hargs) hx) ?_
    intro s₁ bound hs₁ hbound
    refine get fun m hm hupholds => ?_
    exact withScope (hupholds.toValid.active.putAll (hbound.grows hm))
      (Invariant.Lawful.putAll hupholds.activeHolds bound)
      (sequence hv ((drop hargs 1).grows (hs₁.trans hm)))

theorem choose {args : List Value} (hargs : Value.AllValid s args) :
    Keeps inv s Value.Valid (SpecialForm.choose visit args) := by
  unfold SpecialForm.choose
  split
  · next condition yes no =>
    refine bind (fully hv (hargs condition (by simp))) fun s₁ v hs₁ _ => ?_
    split
    · exact fully hv ((hargs yes (by simp)).grows hs₁)
    · exact fully hv ((hargs no (by simp)).grows hs₁)
  · exact throw _

theorem both {v : Value} (hvalue : v.Valid s) {args : List Value} (hargs : Value.AllValid s args) :
    Keeps inv s Value.Valid (SpecialForm.both visit v args) := by
  induction args generalizing s v with
  | nil => exact value hvalue
  | cons e es ih =>
    refine bind (fully hv (hargs e (List.mem_cons_self ..))) fun s₁ v hs₁ hvalue => ?_
    split
    · exact ih hvalue fun x hx => (hargs x (List.mem_cons_of_mem _ hx)).grows hs₁
    · exact value hvalue

theorem either {args : List Value} (hargs : Value.AllValid s args) :
    Keeps inv s Value.Valid (SpecialForm.either visit args) := by
  induction args generalizing s with
  | nil => exact value trivial
  | cons e es ih =>
    refine bind (fully hv (hargs e (List.mem_cons_self ..))) fun s₁ v hs₁ hvalue => ?_
    split
    · exact value hvalue
    · exact ih fun x hx => (hargs x (List.mem_cons_of_mem _ hx)).grows hs₁

omit hv in
theorem quote {args : List Value} (hargs : Value.AllValid s args) :
    Keeps inv s Value.Valid (SpecialForm.quote args) := by
  unfold SpecialForm.quote
  split
  · next e => exact value (hargs e (by simp))
  · exact throw _

omit hv in
theorem fieldType (tag : Option TypeTag) : Keeps inv s Any (SpecialForm.fieldType tag) := by
  unfold SpecialForm.fieldType
  split
  · exact pure fun _ _ => trivial
  · refine get fun m hm hvalid => ?_
    split
    · exact pure fun _ _ => trivial
    · exact throw _

omit hv in
/-- A default is an item of its field entry. -/
theorem fieldParts?_valid {entry default : Value} {name : String} {tag : Option TypeTag}
    (hentry : entry.Valid s) (h : SpecialForm.fieldParts? entry = some (name, tag, some default)) :
    default.Valid s := by
  obtain ⟨_, hlist, -, hdefault⟩ := SpecialForm.mem_of_fieldParts? h
  exact .of_mem_toList? hlist hentry (hdefault _ rfl)

theorem fieldSpecs (form : String) {entries : List Value} (hentries : Value.AllValid s entries) :
    Keeps inv s FieldSpec.AllValid (SpecialForm.fieldSpecs visit form entries) := by
  induction entries generalizing s with
  | nil => exact pure fun _ _ _ h => by cases h
  | cons entry rest ih =>
    unfold SpecialForm.fieldSpecs
    split
    · exact store fun _ _ _ => throw _
    · next name tag default hparts =>
      have hentry := hentries entry (List.mem_cons_self ..)
      have hrest : Value.AllValid s rest := fun x hx => hentries x (List.mem_cons_of_mem _ hx)
      refine bind (fieldType _) fun s₁ tag hs₁ _ => ?_
      have hdefault : ∀ s' v, s₁.Grows s' → v.Valid s' → Keeps inv s' FieldSpec.AllValid
          (SpecialForm.fieldSpecs visit form rest >>= fun specs =>
            Pure.pure ({ name, tag, default := v } :: specs)) := by
        intro s' v hs' hvalue
        refine bind (ih (hrest.grows (hs₁.trans hs'))) fun s₂ specs hs₂ hspecs => ?_
        refine pure fun s₃ hs₃ spec hspec => ?_
        rcases List.mem_cons.1 hspec with rfl | hspec
        · exact hvalue.grows (hs₂.trans hs₃)
        · exact (hspecs spec hspec).grows hs₃
      dsimp only
      split
      · next e _ =>
        refine bind (fully hv ?_) fun s₂ v hs₂ hvalue => hdefault s₂ v hs₂ hvalue
        exact (fieldParts?_valid hentry hparts).grows hs₁
      · exact bind (value trivial) fun s₂ v hs₂ hvalue => hdefault s₂ v hs₂ hvalue

theorem fieldList (form : String) {fields : Value} (hfields : fields.Valid s) :
    Keeps inv s FieldSpec.AllValid (SpecialForm.fieldList visit form fields) := by
  unfold SpecialForm.fieldList
  split
  · next entries hlist => exact fieldSpecs hv form fun x hx => .of_mem_toList? hlist hfields hx
  · exact store fun _ _ _ => throw _

omit hv in
theorem newStruct [inv.Lawful] {struct : Struct} (hstruct : struct.Valid s)
    (hholds : inv.struct s struct) :
    Keeps inv s (fun s a => a < s.structs.size) (Eval.make (Store.newStruct struct)) :=
  make (fun s' => Store.Grows.newStruct struct s')
    (fun _ hs' hvalid => hvalid.newStruct (hstruct.grows hs'))
    fun _ hs' hvalid hobjects => hobjects.newStruct hvalid (hstruct.grows hs')
      (Invariant.Lawful.grows hs' hstruct hholds)

omit hv in
theorem register [inv.Lawful] {struct : Struct} (hstruct : struct.Valid s)
    (hholds : inv.struct s struct) : Keeps inv s Value.Valid (Struct.register struct) := by
  refine bind (note _) fun s₁ _ hs₁ _ => ?_
  refine bind (newStruct (hstruct.grows hs₁) (Invariant.Lawful.grows hs₁ hstruct hholds)) ?_
  intro s₂ template hs₂ htemplate
  refine bind (updateActive (fun s' env hs' henv => ?_) fun env henv => ?_) fun s₃ _ hs₃ _ => ?_
  · exact (henv.putType _).putStruct _ (Nat.lt_of_lt_of_le htemplate hs'.structs)
  · exact Invariant.Lawful.putStruct _ _ (Invariant.Lawful.putType _ henv)
  · exact value (v := .struct template) (Nat.lt_of_lt_of_le htemplate hs₃.structs)

omit hv in
theorem template (name : String) :
    Keeps inv s (fun s a => a < s.structs.size) (Struct.template name) := by
  refine get fun m hm hvalid => ?_
  split
  · next a ha =>
    exact pure fun s' hs' => Nat.lt_of_lt_of_le (hvalid.lookupStruct? ha) hs'.structs
  · exact throw _

omit hv in
theorem declared [inv.Lawful] (name : String) {specs : List FieldSpec}
    (hspecs : FieldSpec.AllValid s specs) :
    Keeps inv s (fun s struct => struct.Valid s ∧ inv.struct s struct)
      (Eval.ask fun s => Struct.define s name specs) :=
  ask fun _ _ hs' _ h => ⟨Struct.define_valid (fun x hx => (hspecs x hx).grows hs') h,
    Invariant.Lawful.define h⟩

omit hv in
theorem derived [inv.Lawful] (name : String) {parent : Address} (hparent : parent < s.structs.size)
    {specs : List FieldSpec} (hspecs : FieldSpec.AllValid s specs) :
    Keeps inv s (fun s struct => struct.Valid s ∧ inv.struct s struct)
      (Eval.onStore fun s => Struct.derive s name (s.struct parent) specs) := by
  refine onStore (fun _ _ _ h => Store.Grows.derive h) fun s' struct t hs' hvalid hobjects h => ?_
  have hspecs' : FieldSpec.AllValid s' specs := fun x hx => (hspecs x hx).grows hs'
  have hparent' := Nat.lt_of_lt_of_le hparent hs'.structs
  obtain ⟨hvalid', hstruct⟩ := Struct.derive_valid hvalid (hvalid.struct hparent') hspecs' h
  obtain ⟨hobjects', hholds⟩ := Invariant.Lawful.derive hvalid hobjects (hvalid.struct hparent')
    (hobjects.struct hparent') hspecs' h
  exact ⟨hvalid', hobjects', hstruct, hholds⟩

omit hv in
theorem defineTemplate [inv.Lawful] (name : String) {specs : List FieldSpec}
    (hspecs : FieldSpec.AllValid s specs) :
    Keeps inv s Value.Valid (Struct.defineTemplate name specs) :=
  bind (declared name hspecs) fun _ _ _ hstruct => register hstruct.1 hstruct.2

omit hv in
theorem deriveTemplate [inv.Lawful] (name parent : String) {specs : List FieldSpec}
    (hspecs : FieldSpec.AllValid s specs) :
    Keeps inv s Value.Valid (Struct.deriveTemplate name parent specs) :=
  bind (template parent) fun _ _ hs₁ ha =>
    bind (derived name ha fun x hx => (hspecs x hx).grows hs₁) fun _ _ _ hstruct =>
      register hstruct.1 hstruct.2

omit hv in
theorem instantiateStruct [inv.Lawful] (name : String) {inits : List (String × Value)}
    (hinits : Bound.Valid s inits) : Keeps inv s Value.Valid (Struct.instantiate name inits) := by
  refine bind (template name) fun s₁ a hs₁ ha => ?_
  refine onStore (fun s' v t h => ?_) fun s' v t hs' hvalid hobjects h => ?_
  · obtain ⟨made, hset, h⟩ := exists_of_bind_eq_ok h
    cases h
    exact (Store.Grows.copyStruct s' _).trans (Store.Grows.setFields hset)
  · obtain ⟨made, hset, h⟩ := exists_of_bind_eq_ok h
    cases h
    have hcopy := Store.Grows.copyStruct s' (s'.struct a)
    have ha' := Nat.lt_of_lt_of_le ha hs'.structs
    have hinits' := hinits.grows (hs₁.trans (hs'.trans hcopy))
    obtain ⟨hcopied, hnew⟩ := hvalid.copyStruct (hvalid.struct ha')
    have hholds := Invariant.Lawful.copy hvalid hobjects (hvalid.struct ha') (hobjects.struct ha')
    exact ⟨hcopied.setFields hinits' hset, hholds.setFields hcopied hinits' hset,
      Nat.lt_of_lt_of_le hnew (Store.Grows.setFields hset).structs⟩

theorem defineStruct [inv.Lawful] {args : List Value} (hargs : Value.AllValid s args) :
    Keeps inv s Value.Valid (SpecialForm.defineStruct visit args) := by
  unfold SpecialForm.defineStruct
  split
  · next name fields =>
    refine bind (operandName _ _) fun s₁ name hs₁ _ => ?_
    refine bind (fieldList hv _ ((hargs fields (by simp)).grows hs₁)) ?_
    exact fun s₂ specs _ hspecs => defineTemplate name hspecs
  · exact throw _

theorem deriveStruct [inv.Lawful] {args : List Value} (hargs : Value.AllValid s args) :
    Keeps inv s Value.Valid (SpecialForm.deriveStruct visit args) := by
  unfold SpecialForm.deriveStruct
  split
  · next name parent fields =>
    refine bind (operandName _ _) fun s₁ name hs₁ _ => ?_
    refine bind (operandName _ _) fun s₂ parent hs₂ _ => ?_
    refine bind (fieldList hv _ ((hargs fields (by simp)).grows (hs₁.trans hs₂))) ?_
    exact fun s₃ specs _ hspecs => deriveTemplate name parent hspecs
  · exact throw _

theorem initializers {inits : List Value} (hinits : Value.AllValid s inits) :
    Keeps inv s Bound.Valid (SpecialForm.initializers visit inits) := by
  induction inits generalizing s with
  | nil => exact pure fun _ _ => .nil
  | cons init rest ih =>
    unfold SpecialForm.initializers
    split
    · next field e hlist =>
      have he : e.Valid s := .of_mem_toList? hlist (hinits init (List.mem_cons_self ..)) (by simp)
      refine bind (fully hv he) fun s₁ v hs₁ hvalue => ?_
      refine bind (ih fun x hx => (hinits x (List.mem_cons_of_mem _ hx)).grows hs₁) ?_
      intro s₂ made hs₂ hmade
      refine pure fun s' hs' found hfound => ?_
      rcases List.mem_cons.1 hfound with rfl | hfound
      · exact hvalue.grows (hs₂.trans hs')
      · exact (hmade found hfound).grows hs'
    · exact store fun _ _ _ => throw _

theorem instantiate [inv.Lawful] {args : List Value} (hargs : Value.AllValid s args) :
    Keeps inv s Value.Valid (SpecialForm.instantiate visit args) := by
  refine bind (operandName _ _) fun s₁ name hs₁ _ => ?_
  refine bind (initializers hv ((drop hargs 1).grows hs₁)) ?_
  exact fun s₂ inits _ hinits => instantiateStruct name hinits

theorem setOption {args : List Value} (hargs : Value.AllValid s args) :
    Keeps inv s Value.Valid (SpecialForm.setOption visit args) := by
  unfold SpecialForm.setOption
  split
  · next name e =>
    refine bind (operandName _ _) fun s₁ name hs₁ _ => ?_
    refine bind (fully hv ((hargs e (by simp)).grows hs₁)) fun s₂ v _ _ => ?_
    refine get fun m _ _ => bind (P := Any) (ofExcept fun _ _ _ _ => trivial) fun _ options _ _ => ?_
    refine bind (setOptions options) fun _ _ _ _ => bind (note _) fun _ _ _ _ => ?_
    exact value (.of_isPlain (Value.isPlain_ofBool _))
  · exact throw _

/-! ### Operations and applications -/

omit hv in
/-- The answer to a question refers to what was there. -/
theorem question {op : Operation} (hop : op.isQuestion = true) (args : List Value) :
    Keeps inv s Value.Valid (op.run visit args) := by
  obtain ⟨f, hrun, hknown⟩ := Operation.exists_ask hop args
  rw [hrun]
  refine ask fun s' v _ hvalid hv => ?_
  exact (hknown (Value.Valid s') s' (fun _ => .of_isPlain) (fun _ => trivial) hvalid.vector).of_ok hv

theorem run [inv.Lawful] (op : Operation) {args : List Value} (hargs : Value.AllValid s args) :
    Keeps inv s Value.Valid (op.run visit args) := by
  cases op with
  | lambda => exact lambda hargs
  | define => exact define hv hargs
  | undefine => exact undefine args
  | bindLocal => exact bindLocal hv hargs
  | choose => exact choose hv hargs
  | both => exact both hv (v := .truth) trivial hargs
  | either => exact either hv hargs
  | quote => exact quote hargs
  | defineStruct => exact defineStruct hv hargs
  | deriveStruct => exact deriveStruct hv hargs
  | instantiate => exact instantiate hv hargs
  | setOption => exact setOption hv hargs
  | cons =>
    exact onArrays (fun _ _ _ h => .consArgs h) (fun _ _ _ h => .consArgs h)
      fun _ _ _ hs' hvalid h => hvalid.consArgs (hargs.grows hs') h
  | car => exact value (Store.Valid.car hargs)
  | cdr => exact value (Store.Valid.cdr hargs)
  | list => exact Keeps.list hargs
  | isNil => exact value (.of_isPlain (isPlain_isNil args))
  | last => exact value (holds_last (P := Value.Valid s) trivial hargs)
  | length | add | subtract | multiply | divide | modulo | equal | less | greater | negate
  | toInteger | toFloat | toCharacter | typeOf | isType | elementAt | math => exact question rfl args
  | vector =>
    have hitems : ∀ v ∈ args.toArray, v.Valid s := fun v hmem => hargs v (by simpa using hmem)
    exact make (fun s' => Store.Grows.newVector _ s')
      (fun _ hs' hvalid => hvalid.newVector fun v hmem => (hitems v hmem).grows hs')
      fun s' _ hvalid hobjects => hobjects.sameRecords hvalid (.newVector _ s') ⟨rfl, rfl⟩
  | setElement =>
    exact onArrays (fun _ _ _ h => .setElement h) (fun _ _ _ h => .setElement h)
      fun _ _ _ hs' hvalid h => hvalid.setElement (hargs.grows hs') h
  | append =>
    exact onArrays (fun _ _ _ h => .append h) (fun _ _ _ h => .append h)
      fun _ _ _ hs' hvalid h => hvalid.append (hargs.grows hs') h
  | joinText =>
    exact onArrays (fun _ _ _ h => .joinText h) (fun _ _ _ h => .joinText h)
      fun _ _ _ _ hvalid h => hvalid.joinText h
  | copy =>
    refine onStore (fun _ _ _ h => .copy h) fun _ _ _ hs' hvalid hobjects h => ?_
    obtain ⟨hvalid', hanswer⟩ := hvalid.copy (hargs.grows hs') h
    exact ⟨hvalid', hobjects.copyArgs hvalid (hargs.grows hs') h, hanswer⟩
  | evaluate =>
    rw [Operation.run.eq_def]
    dsimp only
    split
    · next e => exact fully hv (hargs e (by simp))
    · exact throw _
  | print => exact store fun _ _ _ => bind (write _) fun _ _ _ _ => value trivial
  | printLine => exact store fun _ _ _ => bind (write _) fun _ _ _ _ => value trivial
  | fail => exact store fun _ _ _ => throw _
  | apply | host => exact value trivial

theorem visitAll {es : List Value} (hes : Value.AllValid s es) :
    Keeps inv s Value.AllValid (Application.visitAll visit es) := by
  unfold Application.visitAll
  induction es generalizing s with
  | nil => exact pure fun _ _ => .nil
  | cons e es ih =>
    rw [List.mapM_cons]
    refine bind (hv s e (hes e (List.mem_cons_self ..))) fun s₁ v hs₁ hvalue => ?_
    refine bind (ih fun x hx => (hes x (List.mem_cons_of_mem _ hx)).grows hs₁) ?_
    intro s₂ vs hs₂ hvs
    refine pure fun s' hs' found hfound => ?_
    rcases List.mem_cons.1 hfound with rfl | hfound
    · exact hvalue.grows (hs₂.trans hs')
    · exact (hvs found hfound).grows hs'

omit hv in
theorem baseEnvironment {c : Closure} (hc : c.Valid s) (henv : inv.environment c.env) :
    Keeps inv s (fun s env => env.Valid s ∧ inv.environment env)
      (Application.baseEnvironment c) := by
  refine get fun m hm hupholds => ?_
  split
  · exact pure fun s' hs' => ⟨hc.env.grows (hm.trans hs'), henv⟩
  · exact pure fun s' hs' => ⟨hupholds.toValid.active.grows hs', hupholds.activeHolds⟩

omit hv in
/-- What stands beside a name in a zipped list is valid. -/
theorem zip {args : List Value} (hargs : Value.AllValid s args) (names : List String) :
    Bound.Valid s (names.zip args) :=
  fun entry hentry => hargs entry.2 (List.of_mem_zip hentry).2

theorem callClosure [inv.Lawful] {c : Closure} (hc : c.Valid s) (henv : inv.environment c.env)
    {args : List Value} (hargs : Value.AllValid s args) :
    Keeps inv s Value.Valid (Application.callClosure visit c args) := by
  refine bind (baseEnvironment hc henv) fun s₁ base hs₁ hbase => ?_
  have hc₁ := hc.grows hs₁
  refine withScope ((hbase.1.putAll hc₁.bound).putAll (zip (hargs.grows hs₁) c.params)) ?_
    (withLevel _ (sequence hv hc₁.body))
  exact Invariant.Lawful.putAll (Invariant.Lawful.putAll hbase.2 _) _

theorem curryClosure [inv.Lawful] {c : Closure} (hc : c.Valid s) (henv : inv.environment c.env)
    {args : List Value} (hargs : Value.AllValid s args) :
    Keeps inv s Value.Valid (Application.curryClosure visit c args) := by
  have hbound : Bound.Valid s (c.bound ++ (c.params.take args.length).zip args) := by
    intro entry hentry
    rcases List.mem_append.1 hentry with hentry | hentry
    · exact hc.bound entry hentry
    · exact zip hargs _ entry hentry
  refine bind (baseEnvironment hc henv) fun s₁ base hs₁ hbase => ?_
  have hself : Bound.Valid s₁ ((c.params.drop args.length).map fun name => (name, .symbol name)) := by
    intro entry hentry
    obtain ⟨name, -, rfl⟩ := List.mem_map.1 hentry
    exact trivial
  refine bind (withScope ((hbase.1.putAll (hbound.grows hs₁)).putAll hself)
    (Invariant.Lawful.putAll (Invariant.Lawful.putAll hbase.2 _) _)
    (withLevel _ (visitAll hv (hc.grows hs₁).body))) fun s₂ body hs₂ hbody => ?_
  refine bind (note _) fun s₃ _ hs₃ _ => ?_
  refine make (fun s' => Store.Grows.newClosure _ s') (fun s' hs' hvalid => hvalid.newClosure ?_)
    fun _ _ hvalid hobjects => hobjects.newClosure hvalid henv
  have hgrows := hs₁.trans (hs₂.trans (hs₃.trans hs'))
  exact ⟨hbody.grows (hs₃.trans hs'), hc.env.grows hgrows, hbound.grows hgrows⟩

omit hv in
theorem callOperands {args : List Value} (hargs : Value.AllValid s args) :
    Keeps inv s (fun s made => Value.AllValid s made.1 ∧ Bound.Valid s made.2)
      (Application.callOperands args) := by
  induction args generalizing s with
  | nil => exact pure fun _ _ => ⟨.nil, .nil⟩
  | cons arg args ih =>
    have harg := hargs arg (List.mem_cons_self ..)
    have hrest : Value.AllValid s args := fun x hx => hargs x (List.mem_cons_of_mem _ hx)
    unfold Application.callOperands
    split
    · refine bind placeholder fun s₁ name hs₁ _ => bind (ih (hrest.grows hs₁)) ?_
      intro s₂ made hs₂ hmade
      refine pure fun s' hs' => ⟨fun v hmem => ?_, fun entry hentry => ?_⟩
      · rcases List.mem_cons.1 hmem with rfl | hmem
        · exact trivial
        · exact (hmade.1 v hmem).grows hs'
      · rcases List.mem_cons.1 hentry with rfl | hentry
        · exact harg.grows (hs₁.trans (hs₂.trans hs'))
        · exact (hmade.2 entry hentry).grows hs'
    · refine bind (ih hrest) fun s₁ made hs₁ hmade => ?_
      refine pure fun s' hs' => ⟨fun v hmem => ?_, hmade.2.grows hs'⟩
      rcases List.mem_cons.1 hmem with rfl | hmem
      · exact harg.grows (hs₁.trans hs')
      · exact (hmade.1 v hmem).grows hs'

omit hv in
theorem placeholders (n : Nat) : Keeps inv s Any (Application.placeholders n) := by
  induction n generalizing s with
  | zero => exact pure fun _ _ => trivial
  | succ n ih => exact bind placeholder fun _ _ _ _ => bind ih fun _ _ _ _ => pure fun _ _ => trivial

omit hv in
theorem curryNative [inv.Lawful] (f : NativeFunction) {args : List Value} (hargs : Value.AllValid s args) :
    Keeps inv s Value.Valid (Application.curryNative f args) := by
  refine bind (callOperands hargs) fun s₁ made hs₁ hmade => ?_
  refine bind (placeholders _) fun s₂ params hs₂ _ => ?_
  have hcall : Value.AllValid s₂ (.native f :: made.1 ++ params.map .symbol) := by
    intro v hmem
    rcases List.mem_append.1 hmem with hmem | hmem
    · rcases List.mem_cons.1 hmem with rfl | hmem
      · exact trivial
      · exact (hmade.1 v hmem).grows hs₂
    · obtain ⟨name, -, rfl⟩ := List.mem_map.1 hmem
      exact trivial
  refine bind (list hcall) fun s₃ call hs₃ hcall => ?_
  refine bind (note _) fun s₄ _ hs₄ _ => ?_
  refine make (fun s' => Store.Grows.newClosure _ s') (fun s' hs' hvalid => hvalid.newClosure ?_)
    fun _ _ hvalid hobjects => hobjects.newClosure hvalid Invariant.Lawful.empty
  refine ⟨fun v hmem => ?_, .empty, ?_⟩
  · rw [List.mem_singleton.1 hmem]
    exact hcall.grows (hs₄.trans hs')
  · exact hmade.2.grows (hs₂.trans (hs₃.trans (hs₄.trans hs')))

omit hv in
theorem fieldName (operand : Value) : Keeps inv s Any (Application.fieldName operand) := by
  unfold Application.fieldName
  split
  · exact pure fun _ _ => trivial
  · exact pure fun _ _ => trivial
  · exact store fun _ _ _ => throw _
  · exact store fun _ _ _ => throw _

omit hv in
theorem callStruct [inv.Lawful] {a : Address} (ha : a < s.structs.size) {args : List Value}
    (hargs : Value.AllValid s args) :
    Keeps inv s Value.Valid (Application.callStruct a args) := by
  unfold Application.callStruct
  split
  · refine bind (fieldName _) fun s₁ name hs₁ _ => ask fun s' v hs' hvalid h => ?_
    exact Struct.read_valid (hvalid.struct (Nat.lt_of_lt_of_le ha (hs₁.trans hs').structs)) h
  · next field v =>
    refine bind (fieldName _) fun s₁ name hs₁ _ => ?_
    refine onStore (fun _ _ _ h => Store.Grows.setField h) fun s' _ t hs' hvalid hobjects h => ?_
    have hvalue := (hargs v (by simp)).grows (hs₁.trans hs')
    obtain ⟨hvalid', hanswer⟩ := hvalid.setField hvalue h
    exact ⟨hvalid', Invariant.Lawful.setField hvalid hobjects hvalue h, hanswer⟩
  · exact store fun _ _ _ => throw _

omit hv in
/-- A closure that a value is, is one of the shared objects. -/
theorem closure_of_callable? [inv.Lawful] {head : Value} {c : Closure} (hs : s.Valid)
    (hobjects : inv.OfStore s) (h : head.callable? s = some (.closure c)) :
    c.Valid s ∧ inv.environment c.env := by
  cases head with
  | closure a =>
    cases h
    exact ⟨hs.closure a, hobjects.closure a⟩
  | _ => cases h

theorem curry [inv.Lawful] {f : Callable}
    (hf : ∀ c, f = .closure c → c.Valid s ∧ inv.environment c.env) {args : List Value}
    (hargs : Value.AllValid s args) : Keeps inv s Value.Valid (Application.curry visit f args) := by
  unfold Application.curry
  split
  · exact curryClosure hv (hf _ rfl).1 (hf _ rfl).2 hargs
  · split
    · exact throw _
    · exact curryNative _ hargs
  · exact store fun _ _ _ => throw _

omit hv in
theorem notCallable (v : Value) : Keeps inv s P (Application.notCallable v : Eval α) :=
  store fun _ _ _ => throw _

omit hv in
theorem hostAnswer [inv.Lawful] {args : List Value} (hargs : Value.AllValid s args)
    (a : HostAnswer) : Keeps inv s Value.Valid (Application.hostAnswer args a) := by
  induction a generalizing s with
  | text text =>
    exact make (fun s' => Store.Grows.newText text s') (fun _ _ hvalid => hvalid.newText text)
      fun s' _ hvalid hobjects => hobjects.sameRecords hvalid (.newText text s') ⟨rfl, rfl⟩
  | level => exact get fun _ _ _ => value trivial
  | argument position => exact value (holds_getD (P := Value.Valid s) trivial hargs position)
  | constant slot => exact store fun _ _ hvalid => value (hvalid.constant slot)
  | pair car cdr ihCar ihCdr =>
    refine bind (ihCar hargs) fun s₁ car hs₁ hcar => ?_
    refine bind (ihCdr (hargs.grows hs₁)) fun s₂ cdr hs₂ hcdr => ?_
    refine make (fun s' => Store.Grows.cons s' car cdr) (fun s' hs' hvalid => ?_)
      fun _ _ hvalid hobjects => hobjects.list hvalid [car]
    exact hvalid.chain (List.forall_mem_singleton.2 (hcar.grows (hs₂.trans hs'))) (hcdr.grows hs')
  | _ => exact value trivial

omit hv in
theorem hostBind [inv.Lawful] {args : List Value} (hargs : Value.AllValid s args) :
    Keeps inv s Value.Valid (Application.hostBind args) := by
  unfold Application.hostBind
  split
  · next name v =>
    refine bind (updateActive (fun s' env hs' henv => ?_)
      fun _ => Invariant.Lawful.put name v) fun _ _ _ _ => value trivial
    exact henv.put name ((hargs v (by simp)).grows hs')
  · exact value trivial

omit hv in
theorem callHost [inv.Lawful] (slot : Nat) {args : List Value} (hargs : Value.AllValid s args)
    {applied : Eval Value} (h : ∀ s', s.Grows s' → Keeps inv s' Value.Valid applied) :
    Keeps inv s Value.Valid (Application.callHost slot args applied) := by
  refine get fun m hm _ => ?_
  split
  · exact hostAnswer (hargs.grows hm) _
  · exact throw _
  · exact hostBind (hargs.grows hm)
  · exact h m.store hm

/-- **An application keeps every lawful invariant, and what it answers is valid.** So does every
operation that is performed. -/
theorem applies [inv.Lawful] :
    (∀ head args, ∀ s, head.Valid s → Value.AllValid s args →
      Keeps inv s Value.Valid (Application.apply visit head args)) ∧
    ∀ op args, ∀ s, Value.AllValid s args →
      Keeps inv s Value.Valid (Application.perform visit op args) := by
  refine Application.applies_induction ?called ?list ?improper ?arity ?nobody ?first ?run
  case called =>
    intro head args ih s hhead hargs
    rw [Application.apply]
    refine objects fun s₁ hs₁ hvalid hobjects => ?_
    split
    · exact notCallable _
    · next f hf =>
      split
      · exact value (hhead.grows hs₁)
      · split
        · refine curry hv ?_ (hargs.grows hs₁)
          rintro c rfl
          exact closure_of_callable? hvalid hobjects hf
        · split
          · exact store fun _ _ _ => throw _
          · refine bind (P := Any) (ask fun _ _ _ _ _ => trivial) fun s₂ _ hs₂ _ => ?_
            have hargs₂ := hargs.grows (hs₁.trans hs₂)
            cases f with
            | native g => exact ih g s₂ hargs₂
            | closure c =>
              obtain ⟨hc, henv⟩ := closure_of_callable? hvalid hobjects hf
              exact callClosure hv (hc.grows hs₂) henv hargs₂
            | struct a =>
              have ha : a < s₂.structs.size := by
                cases head with
                | struct b =>
                  cases hf
                  exact hhead.grows (hs₁.trans hs₂)
                | _ => cases hf
              exact callStruct ha hargs₂
  case list =>
    intro f list items hitems ih s hargs
    rw [Application.perform_list hitems]
    refine ih s (hargs f (by simp)) fun v hmem => ?_
    exact .of_mem_toList? hitems (hargs list (by simp)) hmem
  case improper =>
    intro f list hlist s _
    rw [Application.perform_improper hlist]
    exact store fun _ _ _ => throw _
  case arity =>
    intro args hargs s _
    rw [Application.perform.eq_2 visit args hargs]
    exact throw _
  case nobody =>
    intro slot s hargs
    rw [Application.perform]
    exact callHost slot hargs fun _ _ => notCallable _
  case first =>
    intro slot f rest ih s hargs
    obtain ⟨hf, hrest⟩ : f.Valid s ∧ Value.AllValid s rest := List.forall_mem_cons.1 hargs
    rw [Application.perform]
    exact callHost slot hargs fun s' hs' => ih s' (hf.grows hs') (hrest.grows hs')
  case run =>
    intro op args happly hhost s hargs
    rw [Application.perform_run op happly hhost]
    exact run hv op hargs

theorem apply [inv.Lawful] {head : Value} (hhead : head.Valid s) {args : List Value}
    (hargs : Value.AllValid s args) : Keeps inv s Value.Valid (Application.apply visit head args) :=
  (applies hv).1 head args s hhead hargs

theorem perform [inv.Lawful] (op : Operation) {args : List Value} (hargs : Value.AllValid s args) :
    Keeps inv s Value.Valid (Application.perform visit op args) :=
  (applies hv).2 op args s hargs

/-! ### Steps -/

omit hv in
theorem resolveType (tag : TypeTag) : Keeps inv s Value.Valid (Evaluation.resolveType tag) := by
  refine get fun m _ _ => ?_
  split
  · exact value trivial
  · split
    · exact value trivial
    · exact throw _

omit hv in
theorem visitSymbol (name : String) : Keeps inv s Value.Valid (Evaluation.visitSymbol name) := by
  refine get fun m hm hvalid => ?_
  split
  · exact value trivial
  · split
    · next v hfound =>
      split
      · exact value trivial
      · split
        · exact resolveType _
        · exact value (hvalid.lookup? hfound)
    · split
      · exact value trivial
      · exact throw _

theorem visitQuoted {e inner : Value} (he : e.Valid s) (hinner : inner.Valid s) :
    Keeps inv s Value.Valid (Evaluation.visitQuoted visit e inner) := by
  refine get fun m hm _ => ?_
  split
  · exact withLevel _ (hv _ inner (hinner.grows hm))
  · exact value (he.grows hm)

omit hv in
theorem rebuild [inv.Lawful] {head : Value} (hhead : head.Valid s) {args : List Value}
    (hargs : Value.AllValid s args) : Keeps inv s Value.Valid (Evaluation.rebuild head args) := by
  refine list fun v hmem => ?_
  rcases List.mem_cons.1 hmem with rfl | hmem
  · exact hhead
  · exact hargs v hmem

theorem structOperands {args : List Value} (hargs : Value.AllValid s args) :
    Keeps inv s Value.AllValid (Evaluation.structOperands visit args) := by
  unfold Evaluation.structOperands
  split
  · next field v rest =>
    refine bind (fully hv (hargs v (by simp))) fun s₁ found hs₁ hfound => ?_
    refine pure fun s' hs' x hx => ?_
    rcases List.mem_cons.1 hx with rfl | hx
    · exact (hargs x (List.mem_cons_self ..)).grows (hs₁.trans hs')
    · rcases List.mem_cons.1 hx with rfl | hx
      · exact hfound.grows hs'
      · exact (hargs x (by simp [hx])).grows (hs₁.trans hs')
  · exact pure fun _ hs' => hargs.grows hs'

theorem visitApplication [inv.Lawful] {head : Value} (hhead : head.Valid s) (f : Callable)
    {operands : List Value} (hoperands : Value.AllValid s operands) :
    Keeps inv s Value.Valid (Evaluation.visitApplication visit head f operands) := by
  refine get fun m hm _ => ?_
  dsimp only
  split
  · exact rebuild (hhead.grows hm) (hoperands.grows hm)
  · refine bind (withLevel _ (visitAll hv (hoperands.grows hm))) fun s₁ args hs₁ hargs => ?_
    have hhead₁ := hhead.grows (hm.trans hs₁)
    split
    · exact rebuild hhead₁ hargs
    · split
      · refine bind (structOperands hv hargs) fun s₂ args hs₂ hargs => ?_
        exact apply hv (hhead₁.grows hs₂) hargs
      · refine bind (P := Value.AllValid) (pure fun _ hs' => hargs.grows hs') ?_
        exact fun s₂ args hs₂ hargs => apply hv (hhead₁.grows hs₂) hargs

theorem visitPair [inv.Lawful] {e car cdr : Value} (he : e.Valid s) (hcar : car.Valid s)
    (hcdr : cdr.Valid s) : Keeps inv s Value.Valid (Evaluation.visitPair visit e car cdr) := by
  refine get fun m hm _ => ?_
  split
  · exact value (he.grows hm)
  · split
    · exact store fun _ _ _ => throw _
    · next operands hlist =>
      have hoperands : Value.AllValid s operands := fun v hmem => .of_mem_toList? hlist hcdr hmem
      refine bind (hv _ car (hcar.grows hm)) fun s₁ head hs₁ hhead => store fun s₂ hs₂ _ => ?_
      have hoperands₂ := hoperands.grows (hm.trans (hs₁.trans hs₂))
      split
      · exact visitApplication hv (hhead.grows hs₂) _ hoperands₂
      · refine get fun m' hm' _ => ?_
        split
        · refine bind (visitAll hv (hoperands₂.grows hm')) fun s₃ args hs₃ hargs => ?_
          exact rebuild (hhead.grows (hs₂.trans (hm'.trans hs₃))) hargs
        · exact notCallable _

theorem step [inv.Lawful] {e : Value} (he : e.Valid s) :
    Keeps inv s Value.Valid (Evaluation.step visit e) := by
  unfold Evaluation.step
  split
  · exact visitPair hv he he.2.1 he.2.2
  · next inner => exact visitQuoted hv he (show inner.Valid s from he)
  · exact visitSymbol _
  · refine get fun m _ _ => ?_
    split
    · exact value trivial
    · exact resolveType _
  · exact value he

end SpecialForms

/-- **An evaluation keeps every lawful invariant, and what it answers is valid.** -/
theorem visitWithin [inv.Lawful] (room : Nat) {e : Value} (he : e.Valid s) :
    Keeps inv s Value.Valid (Evaluation.visitWithin room e) := by
  induction room generalizing s e with
  | zero => exact get fun _ _ _ => throw _
  | succ room ih =>
    intro m hs hm
    have hnoted := Evaluation.inside_noted e m
    obtain ⟨m', hvisit, hnoted'⟩ := Evaluation.visitWithin_succ room e m
    obtain ⟨hgrows, hvalid, hanswer⟩ := step (fun s e he => ih he) he (Evaluation.inside e m)
      (by rw [hnoted.store]; exact hs) (hnoted.upholds hm)
    rw [hvisit, hnoted'.store, ← hnoted.store]
    exact ⟨hgrows, hnoted'.upholds hvalid, hanswer⟩

end Keeps

namespace Evaluation

variable {room : Nat} {e r : Value} {m m' : Machine}

theorem visitWithin_valid (hm : m.Valid) (he : e.Valid m.store)
    (hr : visitWithin room e m = (.ok r, m')) : m'.Valid ∧ r.Valid m'.store := by
  obtain ⟨-, hupholds, hanswer⟩ := Keeps.visitWithin room he m (.refl _) hm.upholds_none
  rw [hr] at hupholds hanswer
  exact ⟨hupholds.toValid, hanswer r rfl⟩

end Evaluation

end CurryLisp
