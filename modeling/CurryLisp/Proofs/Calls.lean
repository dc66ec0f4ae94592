import CurryLisp.Proofs.Arithmetic
import CurryLisp.Proofs.DepthLimit
import CurryLisp.Proofs.Recursion
import CurryLisp.Proofs.Reports

/-!
# Written calls

A call is written as an application whose operands are quoted values, or it is made directly, of a value
to values. Each operand that is written is evaluated once: a closure or a native function has them
evaluated before, a struct takes the field as it is written and has the new value evaluated afterwards.
So, unless a written call is cut off at the limit on nesting, it goes on as the direct one
(`Eval.LeadsTo`), one step deeper. Neither the nesting nor what was noted of steps before changes what
comes of that (`Evaluation.agrees_of_leadsTo`).

Statements:

* `Evaluation.written_call`: a written call of a function leads to the direct one,
* `Evaluation.written_access`, `Evaluation.written_apply`: so does a written access to a field, and one
  that is made through `apply`,
* `Session.apply_written`: **written calls and direct application agree**.
-/

namespace CurryLisp

open SpecialForm (Visit)

/-! ## Computations that go on as others -/

/-- Unless it is cut off, `x` goes on from the machine `m` as `y` does from `m'`, but for what is noted
of steps. -/
def Eval.LeadsTo {α : Type} (x : Eval α) (m : Machine) (y : Eval α) (m' : Machine) : Prop :=
  CutOff (x m).1 ∨ ∃ m₁, m'.Stepped m₁ ∧ (x m).1 = (y m₁).1 ∧ (y m₁).2.Stepped (x m).2

namespace Eval.LeadsTo

variable {α β : Type} {x y z : Eval α} {m m' m₁ m₂ : Machine} {a : α}

theorem refl (x : Eval α) (m : Machine) : x.LeadsTo m x m := .inr ⟨m, .refl m, rfl, .refl _⟩

/-- What was noted of steps before does not matter. -/
theorem of_stepped (hm : m'.Stepped m₁) (h : x.LeadsTo m y m₁) : x.LeadsTo m y m' := by
  obtain hcut | ⟨m₂, hm₂, hsame, hafter⟩ := h
  · exact .inl hcut
  · exact .inr ⟨m₂, hm.trans hm₂, hsame, hafter⟩

/-- Only what `x` does in this machine matters. -/
theorem of_eq (heq : x m = z m) (h : z.LeadsTo m y m') : x.LeadsTo m y m' := by
  unfold LeadsTo
  rw [heq]
  exact h

theorem trans (h : x.LeadsTo m y m₁) (h' : ∀ m₂, m₁.Stepped m₂ → y.LeadsTo m₂ z m') :
    x.LeadsTo m z m' := by
  obtain hcut | ⟨m₂, hm₂, hsame, hafter⟩ := h
  · exact .inl hcut
  · obtain hcut | ⟨m₃, hm₃, hsame', hafter'⟩ := h' m₂ hm₂
    · exact .inl (by rwa [hsame])
    · exact .inr ⟨m₃, hm₃, hsame.trans hsame', hafter'.trans hafter⟩

/-- A computation that leads to an answer answers it, unless it is cut off. -/
theorem pure_iff :
    x.LeadsTo m (pure a) m' ↔ CutOff (x m).1 ∨ ∃ m₁, x m = (.ok a, m₁) ∧ m'.Stepped m₁ := by
  refine or_congr_right ⟨?_, ?_⟩
  · rintro ⟨m₁, hm₁, hsame, hafter⟩
    exact ⟨(x m).2, Prod.ext hsame rfl, hm₁.trans hafter⟩
  · rintro ⟨m₁, hx, hm₁⟩
    rw [hx]
    exact ⟨m₁, hm₁, rfl, .refl m₁⟩

theorem pure_of_eq (hx : x m = (.ok a, m₁)) (hm : m'.Stepped m₁) : x.LeadsTo m (pure a) m' :=
  pure_iff.2 (.inr ⟨m₁, hx, hm⟩)

/-- After an answer the computation goes on with it. -/
theorem bind {f : α → Eval β} {y : Eval β} (hx : x.LeadsTo m (pure a) m₁)
    (hf : ∀ m₂, m₁.Stepped m₂ → (f a).LeadsTo m₂ y m') : (x >>= f).LeadsTo m y m' := by
  unfold LeadsTo
  rw [Eval.bind_apply]
  obtain ⟨limit, hcut⟩ | ⟨m₂, hanswer, hm₂⟩ := pure_iff.1 hx
  · rw [show x m = (.error (.depthExceeded limit), (x m).2) from Prod.ext hcut rfl]
    exact .inl ⟨limit, rfl⟩
  · rw [hanswer]
    exact hf m₂ hm₂

/-- At another level the computation may note other steps only. -/
theorem withLevel {level : Level}
    (hx : x.LeadsTo (m.atLevel level) (pure a) (m.atLevel level)) :
    (Eval.withLevel level x).LeadsTo m (pure a) m := by
  have hwith : Eval.withLevel level x m =
      ((x (m.atLevel level)).1, (x (m.atLevel level)).2.atLevel m.level) := rfl
  obtain ⟨limit, hcut⟩ | ⟨m₁, hanswer, hm₁⟩ := pure_iff.1 hx
  · refine .inl ⟨limit, ?_⟩
    rw [hwith]
    exact hcut
  · rw [hanswer] at hwith
    exact pure_of_eq hwith (hm₁.atLevel m.level)

end Eval.LeadsTo

/-! ## Evaluations that lead to an answer -/

namespace Evaluation

open Eval (LeadsTo)

variable {m m' : Machine} {y : Eval Value}

/-- An evaluation leads to what its step leads to. -/
theorem leadsTo_of_step {room : Nat} {e : Value}
    (h : (step (visitWithin room) e).LeadsTo (inside e m) y m') :
    (visitWithin (room + 1) e).LeadsTo m y m' := by
  obtain ⟨m₁, hvisit, hm₁⟩ := visitWithin_stepped room e m
  unfold LeadsTo
  rw [hvisit]
  obtain hcut | ⟨m₂, hm₂, hsame, hafter⟩ := h
  · exact .inl hcut
  · exact .inr ⟨m₂, hm₂, hsame, hafter.trans hm₁⟩

/-- If the step of an expression answers at once, so does its evaluation. -/
theorem leadsTo_answer (room : Nat) {e v : Value}
    (h : ∀ visit, step visit e (inside e m) = (.ok v, inside e m)) :
    (visitWithin room e).LeadsTo m (pure v) m := by
  cases room with
  | zero => exact .inl ⟨_, rfl⟩
  | succ room => exact leadsTo_of_step (.pure_of_eq (h _) (inside_stepped e m))

/-- What can be called is its own value. -/
theorem leadsTo_callable (room : Nat) {f : Value} {s : Store} {c : Callable}
    (hf : f.callable? s = some c) : (visitWithin room f).LeadsTo m (pure f) m := by
  refine leadsTo_answer room fun visit => ?_
  cases f with
  | native _ | closure _ | struct _ => rfl
  | _ => cases hf

theorem leadsTo_asWritten (room : Nat) (e : Value) (hm : m.level = .asWritten) :
    (visitWithin room e).LeadsTo m (pure e) m :=
  leadsTo_answer room fun visit => step_asWritten visit e ((inside_noted e m).level.trans hm)

theorem leadsTo_bound (room : Nat) {name : String} {v : Value} (hm : m.level = .full)
    (hname : m.lookup? name = some v) (hv : ∀ tag, v ≠ .type tag) :
    (visitWithin room (.symbol name)).LeadsTo m (pure v) m := by
  have hinside := inside_noted (.symbol name) m
  exact leadsTo_answer room fun visit =>
    step_bound visit (hinside.level.trans hm) ((hinside.lookup? name).trans hname) hv

/-- **A quoted value is that value**, whatever it is: it is not evaluated another time. -/
theorem leadsTo_quoted (room : Nat) (v : Value) (hm : m.level = .full) :
    (visitWithin room (.quoted v)).LeadsTo m (pure v) m := by
  cases room with
  | zero => exact .inl ⟨_, rfl⟩
  | succ room =>
    have hinside := inside_stepped (.quoted v) m
    have hstep : step (visitWithin room) (.quoted v) (inside (.quoted v) m) =
        Eval.withLevel .asWritten (visitWithin room v) (inside (.quoted v) m) := by
      change visitQuoted _ _ _ _ = _
      unfold visitQuoted
      rw [Eval.bind_apply, Eval.get_apply]
      dsimp only
      rw [if_pos (hinside.noted.level.trans hm)]
    refine leadsTo_of_step (.of_eq hstep (.of_stepped hinside ?_))
    exact .withLevel (leadsTo_asWritten room v rfl)

/-! ## Operands -/

theorem leadsTo_visitAll_cons {visit : Visit} {e v : Value} {es vs : List Value} {m₁ : Machine}
    (hfirst : (visit e).LeadsTo m (pure v) m₁)
    (hrest : ∀ m₂, m₁.Stepped m₂ → (Application.visitAll visit es).LeadsTo m₂ (pure vs) m') :
    (Application.visitAll visit (e :: es)).LeadsTo m (pure (v :: vs)) m' := by
  unfold Application.visitAll at hrest ⊢
  rw [List.mapM_cons]
  exact .bind hfirst fun m₂ hm₂ => .bind (hrest m₂ hm₂) fun m₃ hm₃ => .of_stepped hm₃ (.refl _ _)

/-- Operands that have their values, one by one, have them together. -/
theorem leadsTo_visitAll {visit : Visit} (written : Value → Value) (vs : List Value)
    (h : ∀ v m₁, m.Stepped m₁ → (visit (written v)).LeadsTo m₁ (pure v) m₁) :
    (Application.visitAll visit (vs.map written)).LeadsTo m (pure vs) m := by
  -- Every operand may add notes, so the rest starts from another machine.
  induction vs generalizing m with
  | nil => exact .refl _ _
  | cons v vs ih =>
    refine leadsTo_visitAll_cons (h v m (.refl m)) fun m₁ hm₁ => .of_stepped hm₁ (ih ?_)
    exact fun v m₂ hm₂ => h v m₂ (hm₁.trans hm₂)

theorem leadsTo_quotedAll (room : Nat) (vs : List Value) (hm : m.level = .full) :
    (Application.visitAll (visitWithin room) (vs.map .quoted)).LeadsTo m (pure vs) m :=
  leadsTo_visitAll .quoted vs fun v _ hm₁ => leadsTo_quoted room v (hm₁.noted.level.trans hm)

theorem leadsTo_writtenAll (room : Nat) (es : List Value) (hm : m.level = .asWritten) :
    (Application.visitAll (visitWithin room) es).LeadsTo m (pure es) m := by
  -- Operands that are left as written are their own values.
  have hall : (Application.visitAll (visitWithin room) (es.map id)).LeadsTo m (pure es) m :=
    leadsTo_visitAll id es fun e m₁ hm₁ => leadsTo_asWritten room e (hm₁.noted.level.trans hm)
  rwa [List.map_id] at hall

/-! ## Applications -/

/-- An application leads to what is done once the value of its head is known. -/
theorem leadsTo_application (room : Nat) {e head f : Value} {operands : List Value}
    (he : e.toList? = some (head :: operands)) (hnil : head.isNil = false) (hm : m.level = .full)
    (hhead : ∀ m₁, m.Stepped m₁ → (visitWithin (room - 1) head).LeadsTo m₁ (pure f) m₁)
    (happlied : ∀ m₁, m.Stepped m₁ →
      (applied (visitWithin (room - 1)) operands f).LeadsTo m₁ y m') :
    (visitWithin room e).LeadsTo m y m' := by
  cases room with
  | zero => exact .inl ⟨_, rfl⟩
  | succ room =>
    obtain ⟨stamp, cdr, rfl, hcdr⟩ := Value.eq_pair_of_toList? he
    have hinside := inside_stepped (.pair stamp head cdr) m
    refine leadsTo_of_step (.of_eq (visitPair_eq _ _ ?_ hnil hcdr) ?_)
    · simp [hinside.noted.level, hm]
    · exact .bind (hhead _ hinside) fun m₁ hm₁ => happlied m₁ (hinside.trans hm₁)

/-- What takes values is applied to those of the operands. -/
theorem leadsTo_values (room : Nat) {f : Value} {operands args : List Value} (hm : m.level = .full)
    (hf : f.takesValues = true)
    (hargs : (Application.visitAll (visitWithin room) operands).LeadsTo m (pure args) m') :
    (applied (visitWithin room) operands f).LeadsTo m
      (Application.apply (visitWithin room) f args) m' :=
  .of_eq (applied_full room operands hm hf) (.bind hargs fun _ hm₁ => .of_stepped hm₁ (.refl _ _))

/-- **A written call of a function leads to the direct one.** -/
theorem written_call (room : Nat) {e f : Value} {vs : List Value} (hm : m.level = .full)
    (hf : f.takesValues = true) (he : e.toList? = some (f :: vs.map .quoted)) :
    (visitWithin room e).LeadsTo m (Application.apply (visitWithin (room - 1)) f vs) m := by
  obtain ⟨c, hc⟩ : ∃ c, f.callable? m.store = some c := by
    cases f with
    | native _ | closure _ => exact ⟨_, rfl⟩
    | _ => cases hf
  have hnil : f.isNil = false := by
    cases f with
    | nil => cases hf
    | _ => rfl
  refine leadsTo_application room he hnil hm (fun m₁ _ => leadsTo_callable _ hc) fun m₁ hm₁ => ?_
  have hlevel := hm₁.noted.level.trans hm
  exact .of_stepped hm₁ (leadsTo_values _ hlevel hf (leadsTo_quotedAll _ vs hlevel))

/-- So does a call by name. -/
theorem named_call (room : Nat) {e : Value} {name : String} {f : NativeFunction}
    {operands args : List Value} (hm : m.level = .full) (hname : m.lookup? name = some (.native f))
    (hf : f.isSpecialForm = false) (he : e.toList? = some (.symbol name :: operands))
    (hargs : ∀ m₁, m.Stepped m₁ →
      (Application.visitAll (visitWithin (room - 1)) operands).LeadsTo m₁ (pure args) m') :
    (visitWithin room e).LeadsTo m (Application.apply (visitWithin (room - 1)) (.native f) args)
      m' := by
  refine leadsTo_application room (f := .native f) he rfl hm (fun m₁ hm₁ => ?_) fun m₁ hm₁ => ?_
  · exact leadsTo_bound _ (hm₁.noted.level.trans hm) ((hm₁.noted.lookup? name).trans hname) nofun
  · exact leadsTo_values _ (hm₁.noted.level.trans hm) (by simp [Value.takesValues, hf])
      (hargs m₁ hm₁)

end Evaluation

/-! ## Structs -/

/-- Reads a field of a struct, or writes the first of the values into it. -/
def Struct.access (a : Address) (name : String) : List Value → Eval Value
  | [] => Eval.ask fun s => (s.struct a).read name
  | v :: _ => Eval.onStore fun s => s.setField a name v

/-- A field is named by a symbol, quoted or not. -/
theorem Application.apply_struct (visit : Visit) (a : Address) {field : Value} {name : String}
    (hfield : field = .symbol name ∨ field = .quoted (.symbol name)) {vs : List Value}
    (hvs : vs.length ≤ 1) : apply visit (.struct a) (field :: vs) = Struct.access a name vs := by
  funext m
  have hcheck : (Callable.struct a).checkArguments m.store (field :: vs) = .ok () := by
    obtain rfl | rfl := hfield
    · rfl
    · rfl
  have hname : fieldName field = pure name := by
    obtain rfl | rfl := hfield
    · rfl
    · rfl
  rw [apply, Eval.bind_apply, Eval.store_apply]
  dsimp only [Value.callable?]
  rw [if_neg (by simp), if_neg (by simp [Callable.arity]), if_neg (by simp [Callable.variadic]),
    Eval.bind_apply]
  unfold Eval.ask
  dsimp only
  rw [hcheck]
  dsimp only
  unfold callStruct
  rcases vs with _ | ⟨v, _ | ⟨_, _⟩⟩
  · dsimp only
    rw [hname, pure_bind]
    rfl
  · dsimp only
    rw [hname, pure_bind]
    rfl
  · simp at hvs

namespace Store

theorem typeTag_spend (pairs : Nat) (s : Store) (v : Value) :
    v.typeTag (s.spend pairs) = v.typeTag s := by
  refine Value.typeTag_of_structs ?_ v
  rfl

theorem hasType_spend (pairs : Nat) (s : Store) (v : Value) (tag : TypeTag) :
    v.hasType (s.spend pairs) tag = v.hasType s tag :=
  congrArg tag.isSupertypeOf (typeTag_spend pairs s v)

/-- Writing a field does not depend on pairs, and makes none. -/
theorem setField_spend (pairs : Nat) (s : Store) (a : Address) (name : String) (v : Value) :
    (s.spend pairs).setField a name v =
      (s.setField a name v).map fun made => (made.1, made.2.spend pairs) := by
  have hstruct : (s.spend pairs).struct a = s.struct a := rfl
  unfold setField
  rw [hstruct]
  dsimp only
  cases (s.struct a).fields.get? name with
  | none => rfl
  | some field =>
    dsimp only
    rw [hasType_spend]
    by_cases htype : v.hasType s field.tag = true
    · rw [if_pos htype, if_pos htype]
      rfl
    · rw [if_neg htype, if_neg htype]
      simp only [Except.map, Struct.fieldMismatch, typeTag_spend]

end Store

/-- The machine after so many more pairs were made. -/
def Machine.spend (pairs : Nat) (m : Machine) : Machine := { m with store := m.store.spend pairs }

theorem Machine.Stepped.spend {m m' : Machine} (h : m.Stepped m') (pairs : Nat) :
    (m.spend pairs).Stepped (m'.spend pairs) := by
  obtain ⟨depth, indent, events, rfl⟩ := h.noted
  exact ⟨⟨depth, indent, events, rfl⟩, h.changes⟩

/-- An access to a field does not depend on pairs, and makes none. -/
theorem Struct.access_spend (a : Address) (name : String) (vs : List Value) (pairs : Nat)
    (m : Machine) : access a name vs (m.spend pairs) =
      ((access a name vs m).1, (access a name vs m).2.spend pairs) := by
  cases vs with
  | nil => rfl
  | cons v vs =>
    have hstore : (m.spend pairs).store = m.store.spend pairs := rfl
    simp only [access, Eval.onStore, hstore, Store.setField_spend]
    cases m.store.setField a name v <;> rfl

namespace Evaluation

open Eval (LeadsTo)

variable {m m' : Machine}

/-- An application of a struct takes the operands as written, and evaluates a new value afterwards. -/
theorem applied_struct (visit : Visit) (operands : List Value) (a : Address) (hm : m.level = .full) :
    applied visit operands (.struct a) m =
      (Eval.withLevel .asWritten (Application.visitAll visit operands) >>= fun args =>
        structOperands visit args >>= Application.apply visit (.struct a)) m := by
  rw [applied_some _ _ rfl]
  unfold visitApplication
  rw [Eval.bind_apply, Eval.get_apply]
  dsimp only
  rw [if_neg (by simp [hm]), hm, Eval.bind_apply, Eval.bind_apply]
  dsimp only [Callable.level, Level.min, Level.rank]
  rfl

/-- **A written access to a field leads to the direct one**: the field is taken as it is written, and
the new value is evaluated. -/
theorem written_access (room : Nat) {e field : Value} {a : Address} {vs : List Value}
    (hm : m.level = .full) (hvs : vs.length ≤ 1)
    (he : e.toList? = some (.struct a :: field :: vs.map .quoted)) :
    (visitWithin room e).LeadsTo m
      (Application.apply (visitWithin (room - 1)) (.struct a) (field :: vs)) m := by
  have hoperands : ∀ m₁ : Machine, (structOperands (visitWithin (room - 1))
      (field :: vs.map .quoted)).LeadsTo m₁ (pure (field :: vs)) m₁ := by
    intro m₁
    rcases vs with _ | ⟨v, _ | ⟨_, _⟩⟩
    · exact .refl _ _
    · have hvalue : (SpecialForm.fully (visitWithin (room - 1)) (.quoted v)).LeadsTo m₁ (pure v) m₁ :=
        .withLevel (leadsTo_quoted _ v rfl)
      exact hvalue.bind fun m₂ hm₂ => .of_stepped hm₂ (.refl _ _)
    · simp at hvs
  refine leadsTo_application room (f := .struct a) he rfl hm
    (fun m₁ _ => leadsTo_callable _ (s := m.store) (c := .struct a) rfl) fun m₁ hm₁ => ?_
  refine .of_stepped hm₁ (.of_eq (applied_struct _ _ a (hm₁.noted.level.trans hm)) ?_)
  -- The value among the operands is taken twice: as written, where it keeps its quote, and then at the
  -- full level, where it loses it.
  have hwritten := (leadsTo_writtenAll (m := m₁.atLevel .asWritten) (room - 1)
    (field :: vs.map .quoted) rfl).withLevel
  refine hwritten.bind fun m₂ hm₂ => (hoperands m₂).bind fun m₃ hm₃ => ?_
  exact .of_stepped (hm₂.trans hm₃) (.refl _ _)

/-- The function `list` makes a list of its arguments. -/
theorem apply_list (visit : Visit) {items : List Value} (hsome : items ≠ []) (m : Machine) :
    Application.apply visit (.native (Builtin.function "list" 0 true [] .list)) items m =
      (.ok (m.store.list items).1, m.spend items.length) := by
  rw [Application.apply_accepted visit (.inl hsome) (Nat.zero_le _) (.inr rfl) rfl]
  change Application.perform visit .list items m = _
  rw [Application.perform_run .list nofun nofun]
  change (Except.ok (m.store.list items).1, { m with store := (m.store.list items).2 }) = _
  rw [Store.list_snd]
  rfl

/-- A written list is made of its items. -/
theorem written_list (room : Nat) {e : Value} {items : List Value} (hm : m.level = .full)
    (hlist : m.lookup? "list" = some (Builtin.named "list")) (hsome : items ≠ [])
    (he : e.toList? = some (.symbol "list" :: items.map .quoted)) :
    (visitWithin room e).LeadsTo m (pure (m.store.list items).1) (m.spend items.length) := by
  have hnamed : Builtin.named "list" = .native (Builtin.function "list" 0 true [] .list) :=
    Builtin.named_eq (by decide)
  rw [hnamed] at hlist
  have hargs : ∀ m₁, m.Stepped m₁ → (Application.visitAll (visitWithin (room - 1))
      (items.map .quoted)).LeadsTo m₁ (pure items) m :=
    fun m₁ hm₁ => .of_stepped hm₁ (leadsTo_quotedAll _ items (hm₁.noted.level.trans hm))
  refine (named_call room hm hlist rfl he hargs).trans fun m₁ hm₁ => ?_
  rw [← hm₁.noted.store]
  exact .pure_of_eq (apply_list _ hsome m₁) (hm₁.spend _)

/-- `apply` applies a struct to the items of a list that was made for it. -/
theorem apply_items (visit : Visit) {a : Address} {items : List Value} (hvalid : m.Valid)
    (ha : (Value.struct a).Valid m.store) (hsome : items ≠ [])
    (hm' : (m.spend items.length).Stepped m') :
    Application.apply visit (.native (Builtin.action "apply" 2 false [.any, .cons] .apply))
        [.struct a, (m.store.list items).1] m' =
      Application.apply visit (.struct a) items m' := by
  have hitems := Store.toList?_list items m.store
  have hcheck : (Callable.native (Builtin.action "apply" 2 false [.any, .cons] .apply)).checkArguments
      m'.store [.struct a, (m.store.list items).1] = .ok () := by
    have hstruct : (Value.struct a).hasType m'.store BaseType.any.tag = true := by
      rw [hm'.noted.store]
      exact (m.store.hasType_spend items.length _ _).trans (ha.hasType_any hvalid.store)
    have hlist : (m.store.list items).1.hasType m'.store BaseType.cons.tag = true := by
      obtain ⟨item, rest, rfl⟩ := List.exists_cons_of_ne_nil hsome
      obtain ⟨stamp, cdr, hpair, -⟩ := Value.eq_pair_of_toList? hitems
      rw [hpair]
      exact TypeTag.isSupertypeOf_refl _
    refine Callable.checkArguments_ok (List.forall_mem_cons.2 ⟨hstruct, ?_⟩)
    exact List.forall_mem_singleton.2 hlist
  rw [Application.apply_native visit (by simp) rfl hcheck]
  exact congrFun (Application.perform_list hitems visit) m'

/-- **An access to a field through `apply` leads to the direct one**, after the list of its arguments
was made. -/
theorem written_apply (room : Nat) {e list : Value} {a : Address} {items : List Value}
    (hm : m.level = .full) (hvalid : m.Valid) (ha : (Value.struct a).Valid m.store)
    (happly : m.lookup? "apply" = some (Builtin.named "apply"))
    (hlist : m.lookup? "list" = some (Builtin.named "list")) (hsome : items ≠ [])
    (he : e.toList? = some [.symbol "apply", .struct a, list])
    (hitems : list.toList? = some (.symbol "list" :: items.map .quoted)) :
    (visitWithin room e).LeadsTo m
      (Application.apply (visitWithin (room - 1)) (.struct a) items) (m.spend items.length) := by
  have hnamed : Builtin.named "apply" =
      .native (Builtin.action "apply" 2 false [.any, .cons] .apply) := Builtin.named_eq (by decide)
  rw [hnamed] at happly
  have hargs : ∀ m₁, m.Stepped m₁ →
      (Application.visitAll (visitWithin (room - 1)) [.struct a, list]).LeadsTo m₁
        (pure [.struct a, (m.store.list items).1]) (m.spend items.length) := by
    intro m₁ hm₁
    refine leadsTo_visitAll_cons (leadsTo_callable _ (s := m.store) (c := .struct a) rfl)
      fun m₂ hm₂ => ?_
    have hm₂ := hm₁.trans hm₂
    have hmade := written_list (room - 1) (hm₂.noted.level.trans hm)
      ((hm₂.noted.lookup? _).trans hlist) hsome hitems
    rw [hm₂.noted.store] at hmade
    -- Making the list gives out a stamp for each item; the access itself begins after that.
    refine leadsTo_visitAll_cons (.of_stepped (hm₂.spend _) hmade) fun m₃ hm₃ => ?_
    exact .of_stepped hm₃ (.refl _ _)
  refine (named_call room hm happly rfl he hargs).trans fun m₁ hm₁ => ?_
  exact .of_eq (apply_items _ hvalid ha hsome hm₁) (.of_stepped hm₁ (.refl _ _))

end Evaluation

/-! ## Agreement -/

/-- Surroundings in which runs share everything but what was noted of steps. -/
def Surroundings.stepping (hosts : Array HostFunction) : Surroundings :=
  { Surroundings.reporting hosts with changes := True }

namespace Machine

variable {m m' : Machine}

theorem Stepped.alike (h : m.Stepped m') (hdepth : m'.depth = m.depth) :
    m.Alike (.stepping m.store.hosts) m.frames.length m' := by
  obtain ⟨depth, indent, events, rfl⟩ := h.noted
  obtain rfl : depth = m.depth := hdepth
  have halike := m.alike_reporting ⟨m.options.trace, m.options.printAst, m.options.showEnv,
    m.options.showBuiltins, m.options.showTypes, indent, events⟩
  exact { halike with changes := fun _ => ⟨rfl, h.changes⟩ }

theorem Alike.stepped {hosts : Array HostFunction} {n : Nat} (h : m.Alike (.stepping hosts) n m') :
    m.Stepped m' := by
  obtain ⟨own, -, hm, hm', -⟩ := h.frames
  obtain ⟨hoptions, hevents⟩ := h.changes trivial
  refine ⟨⟨m'.depth, m'.indent, m'.events, ?_⟩, hevents⟩
  rw [← h.global, hm.trans hm'.symm, ← h.level, ← hoptions, ← h.placeholders, ← h.store, ← h.printed]

theorem stepped_bounded (depth : Nat) {limit : Nat} (h : m.options.maxDepth = limit) :
    (m.bounded depth limit).Stepped m := by
  subst h
  exact ⟨⟨m.depth, m.indent, m.events, rfl⟩, rfl⟩

/-- At the same nesting only the notes differ. -/
theorem Stepped.eq_of_nesting (h : m.Stepped m') (hdepth : m'.depth = m.depth)
    (hindent : m'.indent = m.indent) : m' = { m with events := m'.events } := by
  obtain ⟨depth, indent, events, rfl⟩ := h.noted
  obtain rfl : depth = m.depth := hdepth
  obtain rfl : indent = m.indent := hindent
  rfl

end Machine

/-- What is written ended as what is done directly: with the same result, and in the same machine but
for what was noted of steps. -/
structure Agrees (direct written : Except Error Value × Machine) : Prop where
  result : written.1 = direct.1
  machine : written.2 = { direct.2 with events := written.2.events }
  changes : Event.changes written.2.events = Event.changes direct.2.events

namespace Evaluation

/-- Neither the nesting nor what was noted of steps before changes what comes of an application that is
not cut off, and more room does not either. -/
theorem apply_stepped {room room' : Nat} (hle : room ≤ room') (f : Value) (args : List Value)
    {m m' : Machine} (hm : m.Stepped m')
    (hcut : ¬CutOff (Application.apply (visitWithin room) f args m').1) :
    (Application.apply (visitWithin room) f args m').1 =
        (Application.apply (visitWithin room') f args m).1 ∧
      (Application.apply (visitWithin room') f args m).2.Stepped
        (Application.apply (visitWithin room) f args m').2 := by
  let limit := m.options.maxDepth
  obtain ⟨depth, indent, events, rfl⟩ := hm.noted
  -- This machine differs from the first in its notes and from the second in its nesting.
  let between : Machine := { m with indent, events }
  have hbetween : m.Stepped between := ⟨⟨m.depth, indent, events, rfl⟩, hm.changes⟩
  obtain ⟨hdeeper, hlimit⟩ :=
    apply_outlasts hle limit limit f args between depth m.depth hcut
  have hstable : Stable (.stepping m.store.hosts) _ (Application.apply (visitWithin room') f args) :=
    Stable.apply (fun e he => Stable.visitWithin room' he) (.of_forall (fun _ => trivial) f)
      fun v _ => .of_forall (fun _ => trivial) v
  obtain ⟨hsame, halike, -⟩ := hstable _ _ _ (hbetween.alike rfl)
  rw [show between = between.bounded m.depth limit from rfl, hdeeper] at hsame halike
  exact ⟨hsame, halike.stepped.trans (Machine.stepped_bounded m.depth hlimit)⟩

/-- **What leads to an application agrees with it**, unless it is cut off. -/
theorem agrees_of_leadsTo {e f : Value} {args : List Value} {m m' : Machine}
    (h : (visit e).LeadsTo m (Application.apply (visitWithin (room m - 1)) f args) m')
    (hroom : room m' = room m) (hdepth : m'.depth = m.depth) (hindent : m'.indent = m.indent)
    (hcut : ¬CutOff (visit e m).1) : Agrees (Session.apply f args m') (visit e m) := by
  obtain hcut' | ⟨m₁, hm₁, hsame, hafter⟩ := h
  · exact absurd hcut' hcut
  · rw [hsame] at hcut
    -- The direct application is not nested, so it has one more level of room.
    have hle : room m - 1 ≤ room m' := by omega
    obtain ⟨hresult, hstepped⟩ := apply_stepped hle f args hm₁ hcut
    have hdirect := Session.apply_framed f args m'
    have hwritten := Machine.Framed.policy.pervasive.visit e m
    have hall := hstepped.trans hafter
    refine ⟨hsame.trans hresult, hall.eq_of_nesting ?_ ?_, hall.changes⟩
    · exact hwritten.depth.trans (hdepth.symm.trans hdirect.depth.symm)
    · exact hwritten.indent.trans (hindent.symm.trans hdirect.indent.symm)

end Evaluation

namespace Session

/-- **Written calls and direct application agree.** At the full level, and unless it is cut off, a
written call of a closure, or of a native function that is no special form, with any number of quoted
operands ends as the direct application to the values does. So does reading or writing a field of a
struct, whether the field is written quoted or not, and whether it is done through `apply` or not; the
last makes the pairs of a list besides. -/
theorem apply_written {m : Machine} (hm : m.level = .full) :
    (∀ (f : Value) (vs : List Value) (e : Value),
      ((∃ k, f = .closure k) ∨ ∃ g : NativeFunction, f = .native g ∧ g.isSpecialForm = false) →
      e.toList? = some (f :: vs.map .quoted) → ¬CutOff (Evaluation.visit e m).1 →
      Agrees (apply f vs m) (Evaluation.visit e m)) ∧
    ∀ (a : Address) (x : String) (vs : List Value), vs.length ≤ 1 →
      (∀ e : Value, e.toList? = some (.struct a :: .symbol x :: vs.map .quoted) ∨
          e.toList? = some (.struct a :: .quoted (.symbol x) :: vs.map .quoted) →
        ¬CutOff (Evaluation.visit e m).1 →
        Agrees (apply (.struct a) (.symbol x :: vs) m) (Evaluation.visit e m)) ∧
      ∀ e list : Value, m.Valid → (Value.struct a).Valid m.store →
        m.lookup? "apply" = some (Builtin.named "apply") →
        m.lookup? "list" = some (Builtin.named "list") →
        e.toList? = some [.symbol "apply", .struct a, list] →
        list.toList? = some (.symbol "list" :: .quoted (.symbol x) :: vs.map .quoted) →
        ¬CutOff (Evaluation.visit e m).1 →
        Agrees ((apply (.struct a) (.symbol x :: vs) m).1,
            (apply (.struct a) (.symbol x :: vs) m).2.spend (vs.length + 1))
          (Evaluation.visit e m) := by
  -- However the field is named, and with any room, its access is one operation on the struct.
  have haccess : ∀ (a : Address) (x : String) (vs : List Value), vs.length ≤ 1 →
      ∀ field, field = .symbol x ∨ field = .quoted (.symbol x) →
        apply (.struct a) (field :: vs) = Struct.access a x vs := by
    intro a x vs hvs field hfield
    funext m
    change Application.apply (Evaluation.visitWithin (Evaluation.room m)) _ _ m = _
    rw [Application.apply_struct _ a hfield hvs]
  refine ⟨fun f vs e hf he hcut => ?_, fun a x vs hvs => ⟨fun e he hcut => ?_, ?_⟩⟩
  · have htakes : f.takesValues = true := by
      obtain ⟨k, rfl⟩ | ⟨g, rfl, hg⟩ := hf
      · rfl
      · simp [Value.takesValues, hg]
    exact Evaluation.agrees_of_leadsTo (Evaluation.written_call _ hm htakes he) rfl rfl rfl hcut
  · rw [haccess a x vs hvs _ (.inl rfl)]
    obtain he | he := he
    · rw [← haccess a x vs hvs _ (.inl rfl)]
      exact Evaluation.agrees_of_leadsTo (Evaluation.written_access _ hm hvs he) rfl rfl rfl hcut
    · rw [← haccess a x vs hvs _ (.inr rfl)]
      exact Evaluation.agrees_of_leadsTo (Evaluation.written_access _ hm hvs he) rfl rfl rfl hcut
  · intro e list hvalid ha happly hlist he hitems hcut
    have hsome : Value.symbol x :: vs ≠ [] := List.cons_ne_nil _ _
    have hleads :=
      Evaluation.written_apply (Evaluation.room m) hm hvalid ha happly hlist hsome he hitems
    have hagrees := Evaluation.agrees_of_leadsTo hleads rfl rfl rfl hcut
    rw [haccess a x vs hvs _ (.inl rfl), Struct.access_spend] at hagrees
    rwa [haccess a x vs hvs _ (.inl rfl)]

/-- A point with the field `x`. -/
def point : Struct where
  name := "point"
  tag := .define ":point" (some BaseType.struct.tag)
  fields := ⟨[("x", ⟨BaseType.any.tag, .integer 1⟩)]⟩

/-- A machine with a point and little room for nested steps. -/
def pointed : Machine := .start .initial { maxDepth := 8 } { structs := #[point], pairs := 9 }

theorem pointed_valid : pointed.Valid := by
  have hpoint : ∀ s : Store, point.Valid s := fun s => ⟨by simp [point, Value.Valid], rfl⟩
  refine .start ?_
  constructor <;> simp [hpoint]

/-- The expression `(list 'x '2)`. -/
def listing : Value :=
  .pair 0 (.symbol "list") (.pair 1 (.quoted (.symbol "x")) (.pair 2 (.quoted (.integer 2)) .nil))

/-- The expression `(p 'x '2)`, where `p` is the point. -/
def writing : Value :=
  .pair 0 (.struct 0) (.pair 1 (.quoted (.symbol "x")) (.pair 2 (.quoted (.integer 2)) .nil))

/-- The expression `(apply p (list 'x '2))`, where `p` is the point. -/
def applying : Value := .pair 3 (.symbol "apply") (.pair 4 (.struct 0) (.pair 5 listing .nil))

theorem not_cutOff_writing : ¬CutOff (Evaluation.visit writing pointed).1 := by
  have hends : (Evaluation.visit writing pointed).1 =
      (Application.apply (Evaluation.visitWithin 7) (.struct 0) [.quoted (.symbol "x"), .integer 2]
        { pointed with depth := 1 }).1 := rfl
  rw [hends, Application.apply_struct _ _ (.inr rfl) (Nat.le_refl _)]
  exact not_cutOff_ok (Value.integer 2)

theorem not_cutOff_applying : ¬CutOff (Evaluation.visit applying pointed).1 := by
  let items : List Value := [.symbol "x", .integer 2]
  let begun : Machine := { pointed with depth := 1 }
  have hends : (Evaluation.visit applying pointed).1 =
      (Evaluation.visitPair (Evaluation.visitWithin 7) applying (.symbol "apply")
        (.pair 4 (.struct 0) (.pair 5 listing .nil)) begun).1 := by
    have hroom : Evaluation.room pointed = 7 + 1 := rfl
    have hinside : Evaluation.inside applying pointed = begun := rfl
    obtain ⟨after, hvisit, -⟩ := Evaluation.visitWithin_succ 7 applying pointed
    change (Evaluation.visitWithin (Evaluation.room pointed) applying pointed).1 = _
    rw [hroom, hvisit, hinside]
    rfl
  have hhead : Evaluation.visitWithin 7 (.symbol "apply") begun =
      (.ok (.native (Builtin.action "apply" 2 false [.any, .cons] .apply)), begun) := rfl
  have hoperands : (Value.pair 4 (.struct 0) (.pair 5 listing .nil)).toList? =
      some [.struct 0, listing] := rfl
  have hstruct : Evaluation.visitWithin 7 (.struct 0) begun = (.ok (.struct 0), begun) := rfl
  have hlist : Evaluation.visitWithin 7 listing begun =
      (.ok (pointed.store.list items).1, begun.spend 2) := by
    have hends : Evaluation.visitWithin 7 listing begun =
        Evaluation.outside (Application.apply (Evaluation.visitWithin 6)
          (.native (Builtin.function "list" 0 true [] .list)) items { pointed with depth := 2 }) := rfl
    rw [hends, Evaluation.apply_list _ (List.cons_ne_nil _ _)]
    rfl
  have hargs : Application.visitAll (Evaluation.visitWithin 7) [.struct 0, listing] begun =
      (.ok [.struct 0, (pointed.store.list items).1], begun.spend 2) :=
    Evaluation.visitAll_cons_of_ok hstruct (Evaluation.visitAll_cons_of_ok hlist rfl)
  have hstepped : (pointed.spend items.length).Stepped (begun.spend 2) := ⟨⟨1, 0, [], rfl⟩, rfl⟩
  rw [hends, Evaluation.visitPair_eq _ _ (by decide) rfl hoperands, Eval.bind_apply, hhead]
  dsimp only
  rw [Evaluation.applied_full 7 _ rfl rfl, Eval.bind_apply, hargs]
  dsimp only
  rw [Evaluation.apply_items _ pointed_valid Nat.zero_lt_one (List.cons_ne_nil _ _) hstepped,
    Application.apply_struct _ _ (.inl rfl) (Nat.le_refl _)]
  exact not_cutOff_ok (Value.integer 2)

/-- The symbol `x` is put into a list and not evaluated, and 2 is put into the field of that name, by a
written call and through `apply`. -/
theorem apply_written_point :
    let call : Value := .pair 0 (Builtin.named "list") (.pair 1 (.quoted (.symbol "x")) .nil)
    let direct := apply (.struct 0) [.symbol "x", .integer 2] pointed
    pointed.level = .full ∧
      Agrees (apply (Builtin.named "list") [.symbol "x"] pointed) (Evaluation.visit call pointed) ∧
      Agrees direct (Evaluation.visit writing pointed) ∧
      Agrees (direct.1, direct.2.spend 2) (Evaluation.visit applying pointed) := by
  intro call direct
  have hnamed : Builtin.named "list" = .native (Builtin.function "list" 0 true [] .list) :=
    Builtin.named_eq (by decide)
  have hcall : ¬CutOff (Evaluation.visit call pointed).1 := by
    have hends : (Evaluation.visit call pointed).1 =
        (Application.apply (Evaluation.visitWithin 7)
          (.native (Builtin.function "list" 0 true [] .list)) [.symbol "x"]
            { pointed with depth := 1 }).1 := rfl
    rw [hends, Evaluation.apply_list _ (List.cons_ne_nil _ _)]
    exact not_cutOff_ok _
  obtain ⟨hcalls, haccesses⟩ := apply_written (m := pointed) rfl
  obtain ⟨hwritten, hthrough⟩ := haccesses 0 "x" [.integer 2] (Nat.le_refl _)
  refine ⟨rfl, ?_, hwritten writing (.inr rfl) not_cutOff_writing, ?_⟩
  · exact hcalls _ [.symbol "x"] call (.inr ⟨_, hnamed, rfl⟩) rfl hcall
  · exact hthrough applying listing pointed_valid Nat.zero_lt_one rfl rfl rfl rfl not_cutOff_applying

end Session

end CurryLisp
