import CurryLisp.Proofs.Currying

/-!
# Functions that call themselves

The function of a definition `(define f (\ (params…) body…))` keeps the environment as it is before
`f` is bound. So a call of it finds under `f` what was bound there before the definition, and only if
nothing was, what is bound globally when the call is made: the first definition of a name at the top
level reaches itself, but neither does one that replaces another nor one in a frame.

Statements:

* `Evaluation.visitWithin_definition`: what the evaluation of a definition does.
* `Evaluation.definition_recursion`: **where a call of the defined function finds its name**.
* `Evaluation.definition_recursion_local`: a definition in a frame, and one of a name that was bound
  already.
-/

namespace CurryLisp

open SpecialForm (Visit)

/-! ## Forms that are called by name -/

/-- A form that receives as many operands as it accepts is performed on them. -/
theorem Application.apply_form (visit : Visit) {name : String} {arity : Nat} {variadic : Bool}
    {op : Operation} {args : List Value} (m : Machine) (hsome : args ≠ [])
    (harity : arity ≤ args.length) (hvariadic : args.length ≤ arity ∨ variadic = true) :
    apply visit (.native (Builtin.form name arity variadic op)) args m =
      perform visit op args m := by
  have hcheck : (Callable.native (Builtin.form name arity variadic op)).checkArguments m.store args =
      .ok () := by
    simp [Callable.checkArguments, Callable.types, Builtin.form]
  exact apply_accepted visit (.inl hsome) harity hvariadic hcheck

namespace Evaluation

/-- As written, an expression stays. -/
theorem step_asWritten (visit : Visit) (e : Value) {m : Machine} (hm : m.level = .asWritten) :
    step visit e m = (.ok e, m) := by
  cases e with
  | pair stamp car cdr =>
    change visitPair visit (.pair stamp car cdr) car cdr m = _
    unfold visitPair
    rw [Eval.bind_apply, Eval.get_apply]
    dsimp only
    rw [if_pos (by simp [hm])]
    rfl
  | quoted inner =>
    change visitQuoted visit (.quoted inner) inner m = _
    unfold visitQuoted
    rw [Eval.bind_apply, Eval.get_apply]
    dsimp only
    rw [if_neg (by simp [hm])]
    rfl
  | symbol name =>
    change visitSymbol name m = _
    unfold visitSymbol
    rw [Eval.bind_apply, Eval.get_apply]
    dsimp only
    rw [if_pos hm]
    rfl
  | type tag =>
    change (get >>= fun m : Machine =>
      if m.level = .asWritten then pure (.type tag) else resolveType tag : Eval Value) m = _
    rw [Eval.bind_apply, Eval.get_apply]
    dsimp only
    rw [if_pos hm]
    rfl
  | _ => rfl

/-- As written, operands stay. -/
theorem visitAll_asWritten (room : Nat) (es : List Value) {m : Machine}
    (hm : m.level = .asWritten) :
    ∃ m', Application.visitAll (visitWithin (room + 1)) es m = (.ok es, m') ∧ m.Noted m' := by
  induction es generalizing m with
  | nil => exact ⟨m, rfl, .refl m⟩
  | cons e es ih =>
    obtain ⟨m₁, hfirst, hnoted⟩ := visitWithin_of_step
      (step_asWritten (visitWithin room) e ((inside_noted e m).level.trans hm))
    have hm₁ : m.Noted m₁ := (inside_noted e m).trans hnoted
    obtain ⟨m', hrest, hnoted'⟩ := ih (hm₁.level.trans hm)
    exact ⟨m', visitAll_cons_of_ok hfirst hrest, hm₁.trans hnoted'⟩

/-- A bound name has its value, which is no type that would have to be registered. -/
theorem step_bound (visit : Visit) {name : String} {v : Value} {m : Machine} (hm : m.level = .full)
    (hname : m.lookup? name = some v) (hv : ∀ tag, v ≠ .type tag) :
    step visit (.symbol name) m = (.ok v, m) := by
  refine (visitSymbol_bound hm hname).trans ?_
  cases v with
  | type tag => exact absurd rfl (hv tag)
  | _ => rfl

/-- So has the evaluation of the name. -/
theorem visitWithin_bound (room : Nat) {name : String} {v : Value} {m : Machine}
    (hm : m.level = .full) (hname : m.lookup? name = some v) (hv : ∀ tag, v ≠ .type tag) :
    ∃ m', visitWithin (room + 1) (.symbol name) m = (.ok v, m') ∧ m.Noted m' := by
  have hinside := inside_noted (.symbol name) m
  obtain ⟨m', hvisit, hnoted⟩ := visitWithin_of_step (step_bound (visitWithin room)
    (hinside.level.trans hm) ((hinside.lookup? name).trans hname) hv)
  exact ⟨m', hvisit, hinside.trans hnoted⟩

/-- An unbound name fails. -/
theorem visitWithin_unbound (room : Nat) {name : String} {m : Machine} (hm : m.level = .full)
    (hname : m.lookup? name = none) :
    (visitWithin (room + 1) (.symbol name) m).1 = .error (.unboundSymbol name) := by
  have hinside := inside_noted (.symbol name) m
  have hstep : visitSymbol name (inside (.symbol name) m) =
      (.error (.unboundSymbol name), inside (.symbol name) m) := by
    have hlevel := hinside.level.trans hm
    unfold visitSymbol
    rw [Eval.bind_apply, Eval.get_apply]
    dsimp only
    rw [if_neg (by simp [hlevel]), (hinside.lookup? name).trans hname]
    dsimp only
    rw [if_neg (by simp [hlevel])]
    rfl
  obtain ⟨m', hvisit, -⟩ := visitWithin_succ room (.symbol name) m
  exact (congrArg Prod.fst hvisit).trans (congrArg Prod.fst hstep)

/-- **A form that is called by its name is performed on its operands as they are written.** -/
theorem visitWithin_form (room : Nat) {e : Value} {form : String} {arity : Nat} {variadic : Bool}
    {op : Operation} {operands : List Value} {m : Machine}
    (he : e.toList? = some (.symbol form :: operands)) (hm : m.level = .full)
    (hform : m.lookup? form = some (.native (Builtin.form form arity variadic op)))
    (hsome : operands ≠ []) (harity : arity ≤ operands.length)
    (hvariadic : operands.length ≤ arity ∨ variadic = true) :
    ∃ m₁ m₂, m.Noted m₁ ∧ (Application.perform (visitWithin (room + 1)) op operands m₁).2.Noted m₂ ∧
      visitWithin (room + 2) e m =
        ((Application.perform (visitWithin (room + 1)) op operands m₁).1, m₂) := by
  obtain ⟨stamp, cdr, rfl, hcdr⟩ := Value.eq_pair_of_toList? he
  have hinside := inside_noted (.pair stamp (.symbol form) cdr) m
  obtain ⟨m₁, hhead, hnoted₁⟩ := visitWithin_bound room (hinside.level.trans hm)
    ((hinside.lookup? form).trans hform) (by simp)
  have hm₁ := hinside.trans hnoted₁
  -- The operands are visited as they are written, and the former level is restored.
  obtain ⟨m₂, hoperands, hnoted₂⟩ :=
    visitAll_asWritten room operands (m := m₁.atLevel .asWritten) rfl
  have hlevel₁ := hm₁.level.trans hm
  have hm₂ : m.Noted (m₂.atLevel .full) := by
    obtain ⟨_, _, _, rfl⟩ := hnoted₂
    rw [← hlevel₁]
    exact hm₁.trans ⟨_, _, _, rfl⟩
  have hwith : Eval.withLevel (Level.asWritten.min .full)
      (Application.visitAll (visitWithin (room + 1)) operands) m₁ =
        (.ok operands, m₂.atLevel .full) := by
    change (Prod.fst (Application.visitAll (visitWithin (room + 1)) operands
      (m₁.atLevel .asWritten)), (Prod.snd (Application.visitAll (visitWithin (room + 1)) operands
        (m₁.atLevel .asWritten))).atLevel m₁.level) = _
    rw [hoperands, hlevel₁]
  have happly : ∀ m, Application.apply (visitWithin (room + 1))
      (.native (Builtin.form form arity variadic op)) operands m =
        Application.perform (visitWithin (room + 1)) op operands m :=
    fun m => Application.apply_form _ m hsome harity hvariadic
  have hstep : step (visitWithin (room + 1)) (.pair stamp (.symbol form) cdr)
      (inside (.pair stamp (.symbol form) cdr) m) =
        Application.perform (visitWithin (room + 1)) op operands (m₂.atLevel .full) := by
    change visitPair _ _ _ _ _ = _
    rw [visitPair_eq _ _ (by simp [hinside.level, hm]) rfl hcdr, Eval.bind_apply, hhead]
    dsimp only
    rw [applied_some _ _ rfl]
    unfold visitApplication
    rw [Eval.bind_apply, Eval.get_apply]
    dsimp only
    rw [if_neg (by simp [hlevel₁]), hlevel₁]
    dsimp only [Callable.level, Builtin.form]
    rw [Eval.bind_apply, hwith]
    exact happly _
  obtain ⟨m₃, hvisit, hnoted₃⟩ := visitWithin_succ (room + 1) (.pair stamp (.symbol form) cdr) m
  rw [hstep] at hvisit hnoted₃
  exact ⟨_, m₃, hm₂, hnoted₃, hvisit⟩

/-- An application that succeeds needs a step for its head. -/
theorem two_le_room {room : Nat} {e v : Value} {head : String} {operands : List Value}
    {m m' : Machine} (he : e.toList? = some (.symbol head :: operands)) (hm : m.level = .full)
    (h : visitWithin room e m = (.ok v, m')) : 2 ≤ room := by
  obtain ⟨stamp, cdr, rfl, -⟩ := Value.eq_pair_of_toList? he
  match room with
  | 0 => cases h
  | 1 =>
    obtain ⟨m₁, hstep, -⟩ := step_of_visitWithin h
    have hlevel := (inside_noted (.pair stamp (.symbol head) cdr) m).level.trans hm
    obtain ⟨_, _, _, -, hhead, -⟩ := visitPair_ok (by simp [hlevel]) rfl hstep
    cases hhead
  | room + 2 => exact Nat.le_add_left 2 room

end Evaluation

/-! ## Definitions of functions -/

/-- `e` is the expression `(\ (params…) body…)` of a function. -/
structure Value.IsFunction (params : List String) (body : List Value) (e : Value) : Prop where
  written : ∃ names : Value, names.toList? = some (params.map .symbol) ∧
    e.toList? = some (.symbol "\\" :: names :: body)
  distinct : params.Nodup
  body : body ≠ []

/-- `e` is the expression `(define name (\ (params…) body…))`. -/
def Value.IsDefinition (name : String) (params : List String) (body : List Value) (e : Value) :
    Prop :=
  ∃ function : Value, function.IsFunction params body ∧
    e.toList? = some [.symbol "define", .symbol name, function]

/-- The names of the two forms of a definition have the meaning that they have initially. -/
structure Machine.KnowsForms (m : Machine) : Prop where
  define : m.lookup? "define" = some (.native (Builtin.form "define" 2 false .define))
  lambda : m.lookup? "\\" = some (.native (Builtin.form "\\" 2 true .lambda))

theorem Machine.Noted.knowsForms {m m' : Machine} (h : m.Noted m') (hm : m.KnowsForms) :
    m'.KnowsForms :=
  ⟨(h.lookup? _).trans hm.define, (h.lookup? _).trans hm.lambda⟩

namespace SpecialForm

/-- Symbols that differ from each other are a list of parameters. -/
theorem paramNames_symbols (refusal : Error) {before params : List String}
    (h : (before.reverse ++ params).Nodup) :
    paramNames refusal before (params.map .symbol) = .ok (before.reverse ++ params) := by
  induction params generalizing before with
  | nil => simp [paramNames]
  | cons name rest ih =>
    have hnew : before.contains name = false := by
      have hdisjoint := (List.nodup_append.1 h).2.2
      simpa using fun hmem => hdisjoint name (List.mem_reverse.2 hmem) name (by simp) rfl
    rw [List.map_cons, paramNames, hnew, if_neg (by simp), ih (by simpa using h)]
    simp

/-- A function keeps the innermost environment as it is. -/
theorem lambda_apply {names : Value} {params : List String} (body : List Value) (m : Machine)
    (hnames : names.toList? = some (params.map .symbol)) (hdistinct : params.Nodup) :
    lambda (names :: body) m = (.ok (.closure m.store.closures.size),
      { m with store := (m.store.newClosure { params, body, env := m.active }).2 }) := by
  unfold lambda
  dsimp only [List.headD_cons]
  rw [Eval.bind_apply, Eval.store_apply]
  dsimp only
  rw [hnames]
  dsimp only
  rw [Eval.bind_apply, Eval.ofExcept_apply, paramNames_symbols _ (by simpa using hdistinct)]
  rfl

/-- A definition binds the name once the value is known. -/
theorem define_ok {visit : Visit} {name : String} {e v : Value} {m m' : Machine}
    (h : fully visit e m = (.ok v, m')) :
    define visit [.symbol name, e] m = (.ok v, m'.updateActive (·.put name v)) := by
  change (fully visit e >>= fun value => do
    Eval.updateActive (·.put name value)
    return value : Eval Value) m = _
  rw [Eval.bind_apply, h]
  rfl

/-- A definition that succeeds has evaluated the expression. -/
theorem ok_of_define {visit : Visit} {name : String} {e v : Value} {m : Machine}
    (h : (define visit [.symbol name, e] m).1 = .ok v) :
    ∃ value, (fully visit e m).1 = .ok value := by
  change ((fully visit e >>= fun value => do
    Eval.updateActive (·.put name value)
    return value : Eval Value) m).1 = _ at h
  rw [Eval.bind_apply] at h
  rcases hfully : fully visit e m with ⟨err | value, m'⟩
  · rw [hfully] at h
    cases h
  · exact ⟨value, rfl⟩

end SpecialForm

namespace Evaluation

/-- **What a definition of a function does**: it makes the function, which keeps the innermost
environment as it is before, and binds the name to it there. -/
theorem visitWithin_definition (room : Nat) {name : String} {params : List String}
    {body : List Value} {e : Value} {m : Machine} (he : e.IsDefinition name params body)
    (hm : m.level = .full) (hforms : m.KnowsForms) :
    ∃ m', visitWithin (room + 3) e m = (.ok (.closure m.store.closures.size), m') ∧
      (({ m with store := (m.store.newClosure { params, body, env := m.active }).2 } :
        Machine).updateActive (·.put name (.closure m.store.closures.size))).Noted m' := by
  obtain ⟨function, ⟨⟨names, hnames, hfunction⟩, hdistinct, hbody⟩, he⟩ := he
  -- The two forms are two nested steps, and in a third one the name of the inner form is looked up.
  obtain ⟨m₁, m', hm₁, hm', hdefine⟩ := visitWithin_form (room + 1) he hm hforms.define
    (by simp) (by simp) (by simp)
  have hlevel₁ := hm₁.level.trans hm
  obtain ⟨m₂, m₃, hm₂, hm₃, hlambda⟩ := visitWithin_form room hfunction hlevel₁
    (hm₁.knowsForms hforms).lambda (by simp) (Nat.succ_le_succ (List.length_pos_iff.2 hbody))
    (.inr rfl)
  have hmade := SpecialForm.lambda_apply body m₂ hnames hdistinct
  have hrun : Application.perform (visitWithin (room + 1)) .lambda (names :: body) m₂ = _ :=
    (congrFun (Application.perform_run .lambda (by simp) (by simp)) m₂).trans hmade
  rw [hrun] at hm₃ hlambda
  have hfully : SpecialForm.fully (visitWithin (room + 2)) function m₁ =
      (.ok (.closure m₂.store.closures.size), m₃) := by
    have hlevel := (level_visitWithin hlambda).trans hlevel₁
    unfold SpecialForm.fully
    rw [withLevel_eq hlevel₁ (by rw [hlambda]; exact hlevel), hlambda]
  have hperform : Application.perform (visitWithin (room + 2)) .define [.symbol name, function] m₁ =
      (.ok (.closure m₂.store.closures.size),
        m₃.updateActive (·.put name (.closure m₂.store.closures.size))) := by
    rw [congrFun (Application.perform_run .define (by simp) (by simp)) m₁]
    exact SpecialForm.define_ok hfully
  rw [hperform] at hm' hdefine
  obtain ⟨depth, indent, events, rfl⟩ := hm₁.trans hm₂
  have hnoted : ({ m with store := (m.store.newClosure { params, body, env := m.active }).2 } :
      Machine).Noted m₃ := by
    obtain ⟨_, _, _, rfl⟩ := hm₃
    exact ⟨_, _, _, rfl⟩
  exact ⟨m', hdefine, (hnoted.updateActive _).trans hm'⟩

/-- A definition that succeeds needs steps for itself, for the function and for the head of that. -/
theorem three_le_room {room : Nat} {name : String} {params : List String} {body : List Value}
    {e v : Value} {m m' : Machine} (he : e.IsDefinition name params body) (hm : m.level = .full)
    (hforms : m.KnowsForms) (h : visitWithin room e m = (.ok v, m')) : 3 ≤ room := by
  obtain ⟨function, ⟨⟨names, -, hfunction⟩, -, -⟩, he⟩ := he
  obtain ⟨room, rfl⟩ := Nat.exists_eq_add_of_le' (two_le_room he hm h)
  obtain ⟨m₁, m₂, hm₁, -, hdefine⟩ := visitWithin_form room he hm hforms.define
    (by simp) (by simp) (by simp)
  rw [h, congrFun (Application.perform_run .define (by simp) (by simp)) m₁] at hdefine
  obtain ⟨value, hfully⟩ := SpecialForm.ok_of_define (congrArg Prod.fst hdefine).symm
  have hvisit : visitWithin (room + 1) function (m₁.atLevel .full) =
      (.ok value, (visitWithin (room + 1) function (m₁.atLevel .full)).2) :=
    Prod.ext hfully rfl
  have := two_le_room hfunction rfl hvisit
  omega

end Evaluation

/-! ## Calls of a defined function -/

/-- The frame of a lexical call binds a name that is no parameter as the environment of the function
does. -/
theorem Closure.lookup?_calling_lexical {c : Closure} {args : List Value} {m : Machine} {name : String}
    (hscoping : m.options.scoping = .lexical) (hbound : c.bound = []) (hname : name ∉ c.params) :
    (c.calling args m).lookup? name =
      (c.env.bindings.get? name <|> m.global.bindings.get? name) := by
  have hparams : ∀ entry ∈ c.params.zip args, entry.1 ≠ name := by
    intro entry hentry heq
    exact hname (heq ▸ (List.of_mem_zip hentry).1)
  have hbase : c.base m = c.env := by
    unfold Closure.base
    rw [hscoping]
  rw [Closure.lookup?_calling, hbase, hbound, List.nil_append, Table.get?_insertAll_of_ne _ hparams]

theorem Machine.active_updateActive (m : Machine) (f : Environment → Environment) :
    (m.updateActive f).active = f m.active := by
  obtain ⟨_, _ | ⟨frame, frames⟩, _, _, _, _, _, _, _, _⟩ := m <;> rfl

theorem Machine.store_updateActive (m : Machine) (f : Environment → Environment) :
    (m.updateActive f).store = m.store := by
  obtain ⟨_, _ | ⟨frame, frames⟩, _, _, _, _, _, _, _, _⟩ := m <;> rfl

namespace Evaluation

section Calls

variable {room : Nat} {name : String} {params : List String} {body : List Value} {e v : Value}
  {m m₁ : Machine} (he : e.IsDefinition name params body) (hm : m.level = .full)
  (hforms : m.KnowsForms) (h : visitWithin room e m = (.ok v, m₁))
include he hm hforms h

/-- A definition that succeeds gives a new function, to which the name is bound. -/
theorem definition_made : v = .closure m.store.closures.size ∧
    (({ m with store := (m.store.newClosure { params, body, env := m.active }).2 } :
      Machine).updateActive (·.put name v)).Noted m₁ := by
  obtain ⟨room, rfl⟩ := Nat.exists_eq_add_of_le' (three_le_room he hm hforms h)
  obtain ⟨m', hvisit, hnoted⟩ := visitWithin_definition room he hm hforms
  rw [h] at hvisit
  obtain ⟨hv, rfl⟩ := Prod.mk.inj hvisit
  cases hv
  exact ⟨rfl, hnoted⟩

theorem definition_active : m₁.active.bindings.get? name = some v := by
  obtain ⟨-, hnoted⟩ := definition_made he hm hforms h
  rw [hnoted.active, Machine.active_updateActive]
  exact Table.get?_insert_self _ _ _

/-- What an environment binds was made before the new function. -/
theorem definition_new (hvalid : m.Valid) : m.active.bindings.get? name ≠ some v := by
  obtain ⟨rfl, -⟩ := definition_made he hm hforms h
  intro hbound
  exact Nat.lt_irrefl _ (hvalid.active.get? hbound)

/-- **A full call of the function that a definition gave**, at any later time: the body is evaluated
in a frame in which the name is what it was before the definition, or else what it is globally. -/
theorem apply_defined (hparams : name ∉ params) (visit : Visit) {args : List Value}
    {later : Machine} (hgrows : m₁.store.Grows later.store) (hvalid : later.Valid)
    (hscoping : later.options.scoping = .lexical) (hargs : Value.AllValid later.store args)
    (hlength : args.length = params.length) :
    ∃ start : Machine,
      Application.apply visit v args later = ((SpecialForm.sequence visit body start).1,
        later.returned (SpecialForm.sequence visit body start).2) ∧
      start = Closure.calling { params, body, env := m.active } args later ∧
      start.lookup? name = (m.active.bindings.get? name <|> later.global.bindings.get? name) := by
  obtain ⟨rfl, hnoted⟩ := definition_made he hm hforms h
  have hstore : m₁.store = (m.store.newClosure { params, body, env := m.active }).2 :=
    hnoted.store.trans (Machine.store_updateActive _ _)
  have hclosure : later.store.closure m.store.closures.size =
      { params, body, env := m.active } := by
    rw [hgrows.closure _ (by simp [hstore, Store.newClosure]), hstore, Store.closure_newClosure]
  refine ⟨_, ?_, rfl, Closure.lookup?_calling_lexical hscoping rfl hparams⟩
  rw [Application.apply_call _ hvalid hargs (by rw [hclosure]; exact hlength),
    Application.callClosure_apply, hclosure]

end Calls

/-- **Where a function that was defined finds its own name.** In every later call with lexical scoping
the name is what it was in the environment of the definition before, or else what it is globally at the
time of the call. So the function finds itself exactly if its name was not bound in the environment of
the definition and is now bound to it globally. -/
theorem definition_recursion {room : Nat} {name : String} {params : List String}
    {body : List Value} {e : Value} {m : Machine} (he : e.IsDefinition name params body)
    (hparams : name ∉ params) (hvalid : m.Valid) (hm : m.level = .full) (hforms : m.KnowsForms) :
    (3 ≤ room → ∃ v m₁, visitWithin room e m = (.ok v, m₁)) ∧
    ∀ v m₁, visitWithin room e m = (.ok v, m₁) →
      m₁.active.bindings.get? name = some v ∧
      ∀ (visit : Visit) (args : List Value) (later : Machine), m₁.store.Grows later.store →
        later.Valid → later.options.scoping = .lexical → Value.AllValid later.store args →
        args.length = params.length →
        ∃ start : Machine,
          Application.apply visit v args later = ((SpecialForm.sequence visit body start).1,
            later.returned (SpecialForm.sequence visit body start).2) ∧
          start = Closure.calling { params, body, env := m.active } args later ∧
          start.lookup? name = (m.active.bindings.get? name <|> later.global.bindings.get? name) ∧
          (start.lookup? name = some v ↔
            m.active.bindings.get? name = none ∧ later.global.bindings.get? name = some v) := by
  refine ⟨fun hroom => ?_, fun v m₁ h => ⟨definition_active he hm hforms h, ?_⟩⟩
  · obtain ⟨room, rfl⟩ := Nat.exists_eq_add_of_le' hroom
    obtain ⟨m₁, hvisit, -⟩ := visitWithin_definition room he hm hforms
    exact ⟨_, m₁, hvisit⟩
  · intro visit args later hgrows hlater hscoping hargs hlength
    obtain ⟨start, happly, hstart, hlookup⟩ :=
      apply_defined he hm hforms h hparams visit hgrows hlater hscoping hargs hlength
    have hnew : m.active.bindings.get? name ≠ some v := definition_new he hm hforms h hvalid
    refine ⟨start, happly, hstart, hlookup, ?_⟩
    rw [hlookup]
    cases hbefore : m.active.bindings.get? name with
    | none => simp
    | some before => simpa [hbefore] using hnew

/-! ### A function that answers itself -/

/-- The expression `(define f (\ (n) f))`. -/
def selfDefinition : Value :=
  .pair 6 (.symbol "define") (.pair 5 (.symbol "f") (.pair 4
    (.pair 3 (.symbol "\\") (.pair 1 (.pair 0 (.symbol "n") .nil) (.pair 2 (.symbol "f") .nil)))
    .nil))

theorem isDefinition_self : selfDefinition.IsDefinition "f" ["n"] [.symbol "f"] :=
  ⟨_, ⟨⟨_, rfl, rfl⟩, by decide, by decide⟩, rfl⟩

/-- A machine in which the pairs of `selfDefinition` were made. -/
def defining (global : Environment) (frames : List Environment) : Machine :=
  { Machine.start global { maxDepth := 8 } { pairs := 7 } with frames }

/-- What a call of the function of `selfDefinition` is to answer. -/
def selfAnswer : Option Value → Except Error Value
  | some v => .ok v
  | none => .error (.unboundSymbol "f")

theorem defining_valid {global : Environment} {frames : List Environment}
    (hglobal : global.Valid { pairs := 7 }) (hframes : ∀ frame ∈ frames, frame.Valid { pairs := 7 }) :
    (defining global frames).Valid :=
  ⟨⟨fun _ h => by simp [defining, Machine.start] at h,
    fun _ h => by simp [defining, Machine.start] at h,
    fun _ h => by simp [defining, Machine.start] at h,
    fun _ h => by simp [defining, Machine.start] at h⟩, hglobal, hframes⟩

section Self

variable {global : Environment} {frames : List Environment}
  (hvalid : (defining global frames).Valid) (hforms : (defining global frames).KnowsForms)
include hvalid hforms

/-- `selfDefinition` succeeds, and its function answers what its name is. -/
theorem apply_self {after : Environment} (hafter : after = match frames with
      | [] => global.put "f" (.closure 0)
      | _ :: _ => global)
    (hv : ∀ value, ((defining global frames).active.bindings.get? "f" <|>
      after.bindings.get? "f") = some value → ∀ tag, value ≠ .type tag) :
    ∃ m₁, visitWithin 8 selfDefinition (defining global frames) = (.ok (.closure 0), m₁) ∧
      m₁.active.bindings.get? "f" = some (.closure 0) ∧ m₁.Valid ∧
      m₁.options.scoping = .lexical ∧ m₁.global = after ∧
      (Application.apply (visitWithin 8) (.closure 0) [.integer 1] m₁).1 =
        selfAnswer ((defining global frames).active.bindings.get? "f" <|>
          after.bindings.get? "f") := by
  obtain ⟨m₁, h, hnoted⟩ := visitWithin_definition 5 isDefinition_self rfl hforms
  have hself : selfDefinition.Valid (defining global frames).store := by
    simp [selfDefinition, Value.Valid, defining, Machine.start]
  have hvalid₁ := (visitWithin_valid hvalid hself h).1
  have hends : m₁.options.scoping = .lexical ∧ m₁.global = after := by
    obtain ⟨_, _, _, rfl⟩ := hnoted
    subst hafter
    cases frames <;> exact ⟨rfl, rfl⟩
  obtain ⟨hscoping, hglobal⟩ := hends
  have hargs : Value.AllValid m₁.store [.integer 1] := fun v hv => by
    rw [List.eq_of_mem_singleton hv]
    exact trivial
  -- The body is the name alone, so the answer is what the call finds under it.
  obtain ⟨start, happly, hstart, hlookup⟩ := apply_defined isDefinition_self rfl hforms h
    (by decide) (visitWithin 8) (.refl _) hvalid₁ hscoping hargs rfl
  have hlevel : start.level = .full := by
    rw [hstart]
    rfl
  refine ⟨m₁, h, definition_active isDefinition_self rfl hforms h, hvalid₁, hscoping, hglobal, ?_⟩
  change (Application.apply (visitWithin 8) (.closure (defining global frames).store.closures.size)
    [.integer 1] m₁).1 = _
  rw [happly]
  change (visitWithin 8 (.symbol "f") start).1 = _
  rw [hglobal] at hlookup
  rw [← hlookup] at hv ⊢
  cases hname : start.lookup? "f" with
  | none => exact visitWithin_unbound 7 hlevel hname
  | some value =>
    obtain ⟨m₂, hvisit, -⟩ := visitWithin_bound 7 hlevel hname (hv value hname)
    rw [hvisit]
    rfl

end Self

/-- At the top level the function of `(define f (\ (n) f))` answers itself. -/
theorem definition_recursion_self :
    let m := defining .initial []
    selfDefinition.IsDefinition "f" ["n"] [.symbol "f"] ∧ "f" ∉ ["n"] ∧ m.Valid ∧
    m.level = .full ∧ m.KnowsForms ∧ m.active.bindings.get? "f" = none ∧
    ∃ v m₁, visitWithin 8 selfDefinition m = (.ok v, m₁) ∧ m₁.Valid ∧
      m₁.options.scoping = .lexical ∧ Value.AllValid m₁.store [.integer 1] ∧
      ∃ start, Application.apply (visitWithin 8) v [.integer 1] m₁ =
          ((SpecialForm.sequence (visitWithin 8) [.symbol "f"] start).1,
            m₁.returned (SpecialForm.sequence (visitWithin 8) [.symbol "f"] start).2) ∧
        start.lookup? "f" = some v := by
  intro m
  have hforms : m.KnowsForms := ⟨rfl, rfl⟩
  have hvalid : m.Valid := defining_valid .initial fun _ h => by cases h
  obtain ⟨m₁, h, -, hvalid₁, hscoping, hglobal, -⟩ :=
    apply_self hvalid hforms rfl fun value hvalue => by
      cases hvalue
      exact nofun
  have hargs : Value.AllValid m₁.store [.integer 1] := fun v hv => by
    rw [List.eq_of_mem_singleton hv]
    exact trivial
  obtain ⟨-, hcalls⟩ := definition_recursion isDefinition_self (by decide) hvalid rfl hforms
  obtain ⟨-, hcall⟩ := hcalls _ m₁ h
  obtain ⟨start, happly, -, -, hself⟩ :=
    hcall (visitWithin 8) [.integer 1] m₁ (.refl _) hvalid₁ hscoping hargs rfl
  refine ⟨isDefinition_self, by decide, hvalid, rfl, hforms, rfl, _, m₁, h, hvalid₁, hscoping,
    hargs, start, happly, hself.2 ⟨rfl, ?_⟩⟩
  rw [hglobal]
  rfl

/-- A definition in a frame is not found by its function, and one of a name that was bound already is
not found either: the function finds the old value. -/
theorem definition_recursion_local :
    let inFrame := defining .initial [.initial]
    let again := defining (Environment.initial.put "f" (.integer 5)) []
    (inFrame.Valid ∧ inFrame.KnowsForms ∧
      ∃ v m₁, visitWithin 8 selfDefinition inFrame = (.ok v, m₁) ∧
        m₁.active.bindings.get? "f" = some v ∧ m₁.options.scoping = .lexical ∧
        (Application.apply (visitWithin 8) v [.integer 1] m₁).1 = .error (.unboundSymbol "f")) ∧
    (again.Valid ∧ again.KnowsForms ∧
      ∃ v m₁, visitWithin 8 selfDefinition again = (.ok v, m₁) ∧
        m₁.active.bindings.get? "f" = some v ∧ m₁.options.scoping = .lexical ∧
        (Application.apply (visitWithin 8) v [.integer 1] m₁).1 = .ok (.integer 5)) := by
  intro inFrame again
  have hframe : inFrame.KnowsForms := ⟨rfl, rfl⟩
  have hagain : again.KnowsForms := ⟨rfl, rfl⟩
  have hvalidFrame : inFrame.Valid :=
    defining_valid .initial fun frame h => by
      rw [List.eq_of_mem_singleton h]
      exact .initial
  have hvalidAgain : again.Valid :=
    defining_valid (Environment.Valid.initial.put "f" trivial) fun _ h => by cases h
  obtain ⟨m₁, h₁, hbound₁, -, hscoping₁, -, hanswer₁⟩ :=
    apply_self hvalidFrame hframe rfl fun value hvalue => by cases hvalue
  obtain ⟨m₂, h₂, hbound₂, -, hscoping₂, -, hanswer₂⟩ :=
    apply_self hvalidAgain hagain rfl fun value hvalue => by
      cases hvalue
      exact nofun
  exact ⟨⟨hvalidFrame, hframe, _, m₁, h₁, hbound₁, hscoping₁, hanswer₁⟩,
    hvalidAgain, hagain, _, m₂, h₂, hbound₂, hscoping₂, hanswer₂⟩

end Evaluation

end CurryLisp
