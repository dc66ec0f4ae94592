import CurryLisp.Proofs.NativeCurrying.Outcomes
import Mathlib.Data.List.Nodup

/-!
# Closures that wait for the arguments of a native function

A native function that receives only its first arguments becomes a closure whose body is the whole
call: each supplied argument stands in it as it is, or, if it would be taken for code, under a
placeholder that is bound to it, and the placeholders of the other arguments are the parameters
(`Closure.Awaits`). The placeholders differ from each other, so in the frame of a call each has its
value. Supplying more arguments reduces the call to one of the same kind, and a call evaluates the
operands to the arguments, of which only types are looked up again, under their names.

Statements:

* `Application.curryNative_awaits`: a native function that is curried awaits the other arguments.
* `Closure.Awaits.supplied`: so does a closure that receives some of them.
* `Closure.Awaits.called`: with the last of them the function is applied to all.
-/

namespace CurryLisp

open SpecialForm (Visit)

/-! ## Types under their names -/

/-- Each type is registered under its name. -/
def Environment.Keyed (env : Environment) : Prop :=
  ∀ entry ∈ env.types.entries, entry.2.name = entry.1

/-- Each type is registered under its name. -/
def Invariant.keyed : Invariant where
  environment := Environment.Keyed
  struct := fun _ _ => True

instance Invariant.keyed_lawful : Invariant.keyed.Lawful where
  empty := fun _ h => by cases h
  put := fun _ _ henv => henv
  remove := fun _ henv => henv
  putType := fun _ henv entry hentry => by
    rcases Table.mem_insertEntry hentry with rfl | hentry
    · rfl
    · exact henv entry hentry
  putStruct := fun _ _ henv => henv
  grows := fun _ _ _ => trivial
  define := fun _ => trivial
  derive := fun _ hobjects _ _ _ h =>
    ⟨⟨fun _ _ => trivial, by rw [Struct.closures_derive h]; exact hobjects.closures⟩, trivial⟩
  copy := fun _ hobjects _ _ => ⟨fun _ _ => trivial, hobjects.closures⟩
  setField := fun _ hobjects _ h =>
    ⟨fun _ _ => trivial, by rw [Store.closures_setField h]; exact hobjects.closures⟩

/-- The innermost and the outermost environment know a type of this name. -/
theorem Machine.lookupType?_registered {m : Machine} (hactive : m.active.Keyed)
    (hglobal : m.global.Keyed) {name : String} (h : (m.global.types.get? name).isSome = true) :
    ∃ found, m.lookupType? name = some found ∧ found.name = name := by
  unfold lookupType?
  cases hfirst : m.active.types.get? name with
  | some found => exact ⟨found, rfl, hactive _ (Table.mem_of_lookup hfirst)⟩
  | none =>
    obtain ⟨found, hfound⟩ := Option.isSome_iff_exists.1 h
    exact ⟨found, hfound, hglobal _ (Table.mem_of_lookup hfound)⟩

/-- If the value is a type, one of its name is registered. -/
def Machine.Resolves (m : Machine) (v : Value) : Prop :=
  ∀ tag, v = .type tag → ∃ found, m.lookupType? tag.name = some found ∧ found.name = tag.name

theorem Machine.Noted.resolves {m m' : Machine} (h : m.Noted m') {v : Value} (hv : m.Resolves v) :
    m'.Resolves v := by
  obtain ⟨_, _, _, rfl⟩ := h
  exact hv

theorem Machine.Resolves.retagged {m : Machine} {v v' : Value} (hv : m.Resolves v)
    (h : v'.Retagged v) : m.Resolves v' := by
  rcases h with rfl | ⟨t, u, rfl, rfl, hname⟩
  · exact hv
  · intro tag htag
    cases htag
    rw [hname]
    exact hv u rfl

/-! ## Operands -/

namespace Evaluation

section Operands

variable (room : Nat) {m : Machine} {v : Value}

/-- A value that stands for no code gives itself; a type is looked up under its name. -/
theorem visitWithin_value (hm : m.level ≠ .asWritten) (hv : v.isResidual = false)
    (htype : m.Resolves v) :
    ∃ v' m', visitWithin (room + 1) v m = (.ok v', m') ∧ m.Noted m' ∧ v'.Retagged v := by
  have hinside := inside_noted v m
  have hstep : ∃ v', step (visitWithin room) v (inside v m) = (.ok v', inside v m) ∧
      v'.Retagged v := by
    cases v with
    | type tag =>
      obtain ⟨found, hfound, hname⟩ := hinside.resolves htype tag rfl
      refine ⟨.type found, ?_, .inr ⟨found, tag, rfl, rfl, hname⟩⟩
      rw [step_type _ tag (by rwa [hinside.level])]
      exact resolveType_found hfound
    | symbol name => cases hv
    | quoted inner => cases hv
    | pair stamp car cdr => cases hv
    | _ => exact ⟨_, rfl, .refl _⟩
  obtain ⟨v', hstep, hv'⟩ := hstep
  obtain ⟨m', hvisit, hnoted⟩ := visitWithin_of_step hstep
  exact ⟨v', m', hvisit, hinside.trans hnoted, hv'⟩

/-- A bound name has its value, unless that would be taken for code ahead of time. -/
theorem visitWithin_name {name : String} (hm : m.level ≠ .asWritten)
    (hname : m.lookup? name = some v) (hv : m.level = .ahead → v.isResidual = false)
    (htype : m.Resolves v) :
    ∃ v' m', visitWithin (room + 1) (.symbol name) m = (.ok v', m') ∧ m.Noted m' ∧
      v'.Retagged v := by
  have hinside := inside_noted (.symbol name) m
  have hlevel := hinside.level
  have hstep : ∃ v', step (visitWithin room) (.symbol name) (inside (.symbol name) m) =
      (.ok v', inside (.symbol name) m) ∧ v'.Retagged v := by
    change ∃ v', visitSymbol name _ = _ ∧ _
    unfold visitSymbol
    rw [Eval.bind_apply, Eval.get_apply]
    dsimp only
    rw [if_neg (by rwa [hlevel]), hinside.lookup?, hname]
    dsimp only
    rw [if_neg (by simpa [hlevel] using hv)]
    cases v with
    | type tag =>
      obtain ⟨found, hfound, hfoundName⟩ := hinside.resolves htype tag rfl
      exact ⟨.type found, resolveType_found hfound, .inr ⟨found, tag, rfl, rfl, hfoundName⟩⟩
    | _ => exact ⟨_, rfl, .refl _⟩
  obtain ⟨v', hstep, hv'⟩ := hstep
  obtain ⟨m', hvisit, hnoted⟩ := visitWithin_of_step hstep
  exact ⟨v', m', hvisit, hinside.trans hnoted, hv'⟩

/-- Ahead of time a name stays whose value would be taken for code. -/
theorem visitWithin_kept {name : String} (hm : m.level = .ahead) (hname : m.lookup? name = some v)
    (hv : v.isResidual = true) :
    ∃ m', visitWithin (room + 1) (.symbol name) m = (.ok (.symbol name), m') ∧ m.Noted m' := by
  have hinside := inside_noted (.symbol name) m
  have hlevel := hinside.level.trans hm
  have hstep : step (visitWithin room) (.symbol name) (inside (.symbol name) m) =
      (.ok (.symbol name), inside (.symbol name) m) := by
    change visitSymbol name _ = _
    unfold visitSymbol
    rw [Eval.bind_apply, Eval.get_apply]
    dsimp only
    rw [if_neg (by simp [hlevel]), hinside.lookup?, hname]
    dsimp only
    rw [if_pos (by simp [hlevel, hv])]
    rfl
  obtain ⟨m', hvisit, hnoted⟩ := visitWithin_of_step hstep
  exact ⟨m', hvisit, hinside.trans hnoted⟩

end Operands

/-- Operands are evaluated one by one. -/
theorem visitAll_forall₂ {α : Type} {visit : Visit} {S T : Value → α → Prop} {es : List Value}
    {as : List α} {m : Machine} (hes : List.Forall₂ S es as)
    (h : ∀ e a m₁, a ∈ as → m.Noted m₁ → S e a →
      ∃ v m₂, visit e m₁ = (.ok v, m₂) ∧ m₁.Noted m₂ ∧ T v a) :
    ∃ vs m', Application.visitAll visit es m = (.ok vs, m') ∧ m.Noted m' ∧ List.Forall₂ T vs as := by
  induction hes generalizing m with
  | nil => exact ⟨[], m, rfl, .refl m, .nil⟩
  | cons hfirst _ ih =>
    obtain ⟨v, m₁, hvisit, hnoted, hv⟩ := h _ _ m (List.mem_cons_self ..) (.refl m) hfirst
    obtain ⟨vs, m', hrest, hnoted', hvs⟩ := ih fun e a m₂ ha hm₂ hS =>
      h e a m₂ (List.mem_cons_of_mem _ ha) (hnoted.trans hm₂) hS
    exact ⟨v :: vs, m', visitAll_cons_of_ok hvisit hrest, hnoted.trans hnoted', .cons hv hvs⟩

theorem visitAll_append {visit : Visit} {es es' rs rs' : List Value} {m m₁ m' : Machine}
    (hfirst : Application.visitAll visit es m = (.ok rs, m₁))
    (hrest : Application.visitAll visit es' m₁ = (.ok rs', m')) :
    Application.visitAll visit (es ++ es') m = (.ok (rs ++ rs'), m') := by
  unfold Application.visitAll at hfirst hrest ⊢
  rw [List.mapM_append, Eval.bind_apply, hfirst]
  dsimp only
  rw [Eval.bind_apply, hrest]
  rfl

end Evaluation

/-! ## Machines in which code was made -/

/-- Since `s`, nothing but closures and pairs were made. -/
structure Store.Extended (s s' : Store) : Prop where
  grows : s.Grows s'
  texts : s'.texts = s.texts
  vectors : s'.vectors = s.vectors
  structs : s'.structs = s.structs

/-- Since `m`, nothing but closures and pairs were made. The machines may differ in their nesting, in
the placeholders made, and in what they note. -/
structure Machine.Extended (m m' : Machine) : Prop where
  global : m'.global = m.global
  frames : m'.frames = m.frames
  level : m'.level = m.level
  options : m'.options = m.options
  printed : m'.printed = m.printed
  store : m.store.Extended m'.store

namespace Store.Extended

variable {s s₁ s₂ : Store}

theorem refl (s : Store) : s.Extended s := ⟨.refl s, rfl, rfl, rfl⟩

theorem trans (h : s.Extended s₁) (h' : s₁.Extended s₂) : s.Extended s₂ :=
  ⟨h.grows.trans h'.grows, h'.texts.trans h.texts, h'.vectors.trans h.vectors,
    h'.structs.trans h.structs⟩

theorem list (items : List Value) (s : Store) : s.Extended (s.list items).2 := by
  unfold Store.list Store.chain
  induction items with
  | nil => exact refl s
  | cons item rest ih => exact ih.trans ⟨.cons _ _ _, rfl, rfl, rfl⟩

theorem newClosure (c : Closure) (s : Store) : s.Extended (s.newClosure c).2 :=
  ⟨.newClosure c s, rfl, rfl, rfl⟩

theorem alike (h : s.Extended s₁) : s.Alike s₁ := ⟨h.texts, by rw [h.vectors], h.structs⟩

end Store.Extended

namespace Machine

variable {m m₁ m₂ : Machine}

theorem Extended.refl (m : Machine) : m.Extended m := ⟨rfl, rfl, rfl, rfl, rfl, .refl m.store⟩

theorem Extended.trans (h : m.Extended m₁) (h' : m₁.Extended m₂) : m.Extended m₂ where
  global := h'.global.trans h.global
  frames := h'.frames.trans h.frames
  level := h'.level.trans h.level
  options := h'.options.trans h.options
  printed := h'.printed.trans h.printed
  store := h.store.trans h'.store

theorem Noted.extended (h : m.Noted m₁) : m.Extended m₁ := by
  obtain ⟨_, _, _, rfl⟩ := h
  exact { Extended.refl m with }

theorem Extended.withStore (h : m.Extended m₁) {s : Store} (hs : m₁.store.Extended s) :
    m.Extended { m₁ with store := s } :=
  { h with store := h.store.trans hs }

end Machine

/-! ## Waiting closures -/

/-- What stands for an argument in a call: the argument itself, or the name that is bound to it, if it
would be taken for code. -/
inductive Value.StandsFor (bound : List (String × Value)) : Value → Value → Prop
  | known {v arg : Value} (residual : v.isResidual = false) (same : v.Retagged arg) :
      StandsFor bound v arg
  | named {name : String} {arg : Value} (residual : arg.isResidual = true)
      (mem : (name, arg) ∈ bound) : StandsFor bound (.symbol name) arg

theorem Value.StandsFor.mono {bound bound' : List (String × Value)} {v arg : Value}
    (h : v.StandsFor bound arg) (hbound : bound ⊆ bound') : v.StandsFor bound' arg := by
  cases h with
  | known residual same => exact .known residual same
  | named residual mem => exact .named residual (hbound mem)

/-- The closure has received the first arguments of `f` and waits for the others: its body is the whole
call, with all names in it different from each other. -/
structure Closure.Awaits (f : NativeFunction) (args : List Value) (c : Closure) : Prop where
  env : c.env = {}
  distinct : (c.bound.map (·.1) ++ c.params).Nodup
  missing : args.length + c.params.length = f.arity
  body : ∃ call operands, c.body = [call] ∧
    call.toList? = some (.native f :: operands ++ c.params.map .symbol) ∧
    List.Forall₂ (Value.StandsFor c.bound) operands args

namespace Closure

variable {c : Closure} {m : Machine} {args : List Value}

/-- In the frame in which the body is reduced each name has its value. -/
theorem lookup?_reducing_of_entry (hdistinct : (c.bound.map (·.1) ++ c.params).Nodup)
    (hlength : args.length ≤ c.params.length) {name : String} {v : Value}
    (h : (name, v) ∈ c.bound ++ (c.params.take args.length).zip args ++
      (c.params.drop args.length).map fun name => (name, .symbol name)) :
    (c.reducing args m).lookup? name = some v := by
  rw [← map_fst_reducing hlength] at hdistinct
  rw [lookup?_reducing, Table.get?_insertAll_of_mem (c.base m).bindings hdistinct h]
  rfl

/-- In the frame of a call each name has its value. -/
theorem lookup?_calling_of_entry (hdistinct : (c.bound.map (·.1) ++ c.params).Nodup)
    (hlength : args.length = c.params.length) {name : String} {v : Value}
    (h : (name, v) ∈ c.bound ++ c.params.zip args) :
    (c.calling args m).lookup? name = some v := by
  have hnames : ((c.bound ++ c.params.zip args).map (·.1)).Nodup := by
    rw [List.map_append, ← List.unzip_fst (l := c.params.zip args),
      List.unzip_zip_left (Nat.le_of_eq hlength.symm)]
    exact hdistinct
  rw [lookup?_calling, Table.get?_insertAll_of_mem (c.base m).bindings hnames h]
  rfl

/-- In both frames a type is found under its name that the outermost environment knows. -/
theorem resolves_frame (m' : Machine) (hm : m.Upholds .keyed) (henv : c.env = {})
    (hglobal : m'.global = m.global) (htypes : m'.active.types = (c.base m).types) {v : Value}
    (hv : ∀ tag, v = .type tag → (m.global.types.get? tag.name).isSome = true) : m'.Resolves v := by
  have hbase : (c.base m).Keyed := by
    unfold base
    split
    · rw [henv]
      exact Invariant.keyed_lawful.empty
    · exact hm.activeHolds
  intro tag htag
  refine Machine.lookupType?_registered ?_ ?_ ?_
  · intro entry hentry
    rw [htypes] at hentry
    exact hbase entry hentry
  · rw [hglobal]
    exact hm.outermost
  · rw [hglobal]
    exact hv tag htag

/-! ### The operands in both frames -/

/-- Ahead of time each operand stands for its argument as before. -/
theorem visitAll_operands (hm : m.Upholds .keyed) (henv : c.env = {})
    (hdistinct : (c.bound.map (·.1) ++ c.params).Nodup) {more : List Value}
    (hlength : more.length ≤ c.params.length)
    (htypes : ∀ tag, .type tag ∈ args → (m.global.types.get? tag.name).isSome = true)
    {operands : List Value} (hoperands : List.Forall₂ (Value.StandsFor c.bound) operands args)
    (room : Nat) {m₁ : Machine} (hm₁ : (c.reducing more m).Noted m₁) :
    ∃ vs m', Application.visitAll (Evaluation.visitWithin (room + 1)) operands m₁ = (.ok vs, m') ∧
      m₁.Noted m' ∧ List.Forall₂
        (Value.StandsFor (c.bound ++ (c.params.take more.length).zip more)) vs args := by
  refine Evaluation.visitAll_forall₂ hoperands fun e arg m₂ harg hm₂ hstands => ?_
  have hnoted := hm₁.trans hm₂
  have hlevel : m₂.level = .ahead := hnoted.level
  have hresolves : (c.reducing more m).Resolves arg :=
    resolves_frame (c.reducing more m) hm henv rfl rfl fun tag htag => htypes tag (htag ▸ harg)
  cases hstands with
  | known residual same =>
    obtain ⟨v, m', hvisit, hnoted', hv⟩ :=
      Evaluation.visitWithin_value room (by simp [hlevel]) residual
        (hnoted.resolves (hresolves.retagged same))
    exact ⟨v, m', hvisit, hnoted', .known (hv.isResidual.trans residual) (hv.trans same)⟩
  | named residual mem =>
    obtain ⟨m', hvisit, hnoted'⟩ := Evaluation.visitWithin_kept room hlevel
      ((hnoted.lookup? _).trans (lookup?_reducing_of_entry hdistinct hlength
        (List.mem_append_left _ (List.mem_append_left _ mem)))) residual
    exact ⟨_, m', hvisit, hnoted', .named residual (List.mem_append_left _ mem)⟩

/-- Ahead of time the name of an argument that is supplied now stands for it, or its value does. -/
theorem visitAll_supplied (hm : m.Upholds .keyed) (henv : c.env = {})
    (hdistinct : (c.bound.map (·.1) ++ c.params).Nodup) {more : List Value}
    (hlength : more.length ≤ c.params.length)
    (htypes : ∀ tag, .type tag ∈ more → (m.global.types.get? tag.name).isSome = true)
    (room : Nat) {m₁ : Machine} (hm₁ : (c.reducing more m).Noted m₁) :
    ∃ vs m', Application.visitAll (Evaluation.visitWithin (room + 1))
        ((c.params.take more.length).map .symbol) m₁ = (.ok vs, m') ∧
      m₁.Noted m' ∧ List.Forall₂
        (Value.StandsFor (c.bound ++ (c.params.take more.length).zip more)) vs more := by
  have hnames : List.Forall₂ (fun e arg => ∃ name, e = .symbol name ∧
      (name, arg) ∈ (c.params.take more.length).zip more)
        ((c.params.take more.length).map Value.symbol) more := by
    rw [List.forall₂_map_left_iff, List.forall₂_iff_zip]
    refine ⟨by rw [List.length_take]; omega, fun hmem => ⟨_, rfl, hmem⟩⟩
  refine Evaluation.visitAll_forall₂ hnames fun e arg m₂ harg hm₂ hname => ?_
  obtain ⟨name, rfl, hmem⟩ := hname
  have hnoted := hm₁.trans hm₂
  have hlevel : m₂.level = .ahead := hnoted.level
  have hlookup : m₂.lookup? name = some arg := (hnoted.lookup? _).trans
    (lookup?_reducing_of_entry hdistinct hlength (List.mem_append_left _ (List.mem_append_right _ hmem)))
  cases hresidual : arg.isResidual with
  | true =>
    obtain ⟨m', hvisit, hnoted'⟩ := Evaluation.visitWithin_kept room hlevel hlookup hresidual
    exact ⟨_, m', hvisit, hnoted', .named hresidual (List.mem_append_right _ hmem)⟩
  | false =>
    have hresolves : (c.reducing more m).Resolves arg :=
      resolves_frame (c.reducing more m) hm henv rfl rfl fun tag htag => htypes tag (htag ▸ harg)
    obtain ⟨v, m', hvisit, hnoted', hv⟩ := Evaluation.visitWithin_name room (by simp [hlevel])
      hlookup (fun _ => hresidual) (hnoted.resolves hresolves)
    exact ⟨v, m', hvisit, hnoted', .known (hv.isResidual.trans hresidual) hv⟩

/-- Ahead of time the names of missing arguments stay. -/
theorem visitAll_missing (hdistinct : (c.bound.map (·.1) ++ c.params).Nodup) {more : List Value}
    (hlength : more.length ≤ c.params.length) (room : Nat) {m₁ : Machine}
    (hm₁ : (c.reducing more m).Noted m₁) :
    ∃ m', Application.visitAll (Evaluation.visitWithin (room + 1))
        ((c.params.drop more.length).map .symbol) m₁ =
          (.ok ((c.params.drop more.length).map .symbol), m') ∧ m₁.Noted m' := by
  have hnames : List.Forall₂ (fun e name => e = .symbol name)
      ((c.params.drop more.length).map Value.symbol) (c.params.drop more.length) := by
    rw [List.forall₂_map_left_iff]
    exact List.forall₂_same.2 fun _ _ => rfl
  have hall : ∃ vs m', Application.visitAll (Evaluation.visitWithin (room + 1))
      ((c.params.drop more.length).map .symbol) m₁ = (.ok vs, m') ∧ m₁.Noted m' ∧
        List.Forall₂ (fun v name => v = .symbol name) vs (c.params.drop more.length) := by
    refine Evaluation.visitAll_forall₂ hnames fun e name m₂ hmem hm₂ he => ?_
    subst he
    have hnoted := hm₁.trans hm₂
    obtain ⟨m', hvisit, hnoted'⟩ := Evaluation.visitWithin_kept room hnoted.level
      ((hnoted.lookup? _).trans (lookup?_reducing_of_entry hdistinct hlength
        (List.mem_append_right _ (List.mem_map.2 ⟨name, hmem, rfl⟩)))) rfl
    exact ⟨_, m', hvisit, hnoted', rfl⟩
  obtain ⟨vs, m', hvisit, hnoted, hvs⟩ := hall
  have hsame : vs = (c.params.drop more.length).map .symbol := by
    rw [← List.forall₂_eq_eq_eq, List.forall₂_map_right_iff]
    exact hvs
  exact ⟨m', hsame ▸ hvisit, hnoted⟩

/-- In the call each operand gives the argument that it stands for. -/
theorem visitAll_operands_calling (hm : m.Upholds .keyed) (henv : c.env = {})
    (hdistinct : (c.bound.map (·.1) ++ c.params).Nodup) {more : List Value}
    (hlength : more.length = c.params.length)
    (htypes : ∀ tag, .type tag ∈ args → (m.global.types.get? tag.name).isSome = true)
    {operands : List Value} (hoperands : List.Forall₂ (Value.StandsFor c.bound) operands args)
    (room : Nat) {m₁ : Machine} (hm₁ : (c.calling more m).Noted m₁) :
    ∃ vs m', Application.visitAll (Evaluation.visitWithin (room + 1)) operands m₁ = (.ok vs, m') ∧
      m₁.Noted m' ∧ List.Forall₂ Value.Retagged vs args := by
  refine Evaluation.visitAll_forall₂ hoperands fun e arg m₂ harg hm₂ hstands => ?_
  have hnoted := hm₁.trans hm₂
  have hlevel : m₂.level = .full := hnoted.level
  have hresolves : (c.calling more m).Resolves arg :=
    resolves_frame (c.calling more m) hm henv rfl rfl fun tag htag => htypes tag (htag ▸ harg)
  cases hstands with
  | known residual same =>
    obtain ⟨v, m', hvisit, hnoted', hv⟩ := Evaluation.visitWithin_value room (by simp [hlevel])
      residual (hnoted.resolves (hresolves.retagged same))
    exact ⟨v, m', hvisit, hnoted', hv.trans same⟩
  | named residual mem =>
    have hlookup : m₂.lookup? _ = some arg := (hnoted.lookup? _).trans
      (lookup?_calling_of_entry hdistinct hlength (List.mem_append_left _ mem))
    exact Evaluation.visitWithin_name room (by simp [hlevel]) hlookup (by simp [hlevel])
      (hnoted.resolves hresolves)

/-- In the call the name of a parameter gives the argument that is bound to it. -/
theorem visitAll_supplied_calling (hm : m.Upholds .keyed) (henv : c.env = {})
    (hdistinct : (c.bound.map (·.1) ++ c.params).Nodup) {more : List Value}
    (hlength : more.length = c.params.length)
    (htypes : ∀ tag, .type tag ∈ more → (m.global.types.get? tag.name).isSome = true)
    (room : Nat) {m₁ : Machine} (hm₁ : (c.calling more m).Noted m₁) :
    ∃ vs m', Application.visitAll (Evaluation.visitWithin (room + 1)) (c.params.map .symbol) m₁ =
      (.ok vs, m') ∧ m₁.Noted m' ∧ List.Forall₂ Value.Retagged vs more := by
  have hnames : List.Forall₂ (fun e arg => ∃ name, e = .symbol name ∧ (name, arg) ∈ c.params.zip more)
      (c.params.map Value.symbol) more := by
    rw [List.forall₂_map_left_iff, List.forall₂_iff_zip]
    exact ⟨hlength.symm, fun hmem => ⟨_, rfl, hmem⟩⟩
  refine Evaluation.visitAll_forall₂ hnames fun e arg m₂ harg hm₂ hname => ?_
  obtain ⟨name, rfl, hmem⟩ := hname
  have hnoted := hm₁.trans hm₂
  have hlevel : m₂.level = .full := hnoted.level
  have hlookup : m₂.lookup? name = some arg := (hnoted.lookup? _).trans
    (lookup?_calling_of_entry hdistinct hlength (List.mem_append_right _ hmem))
  have hresolves : (c.calling more m).Resolves arg :=
    resolves_frame (c.calling more m) hm henv rfl rfl fun tag htag => htypes tag (htag ▸ harg)
  exact Evaluation.visitWithin_name room (by simp [hlevel]) hlookup (by simp [hlevel])
    (hnoted.resolves hresolves)

/-! ### Supplying more arguments -/

/-- The head of the call gives itself. -/
theorem visit_head (f : NativeFunction) (room : Nat) {m : Machine} (hm : m.level ≠ .asWritten) :
    ∃ m', Evaluation.visitWithin (room + 1) (.native f) m = (.ok (.native f), m') ∧ m.Noted m' := by
  obtain ⟨v, m', hvisit, hnoted, rfl | ⟨t, u, -, ⟨⟩, -⟩⟩ :=
    Evaluation.visitWithin_value room hm (v := .native f) rfl fun tag htag => by cases htag
  exact ⟨m', hvisit, hnoted⟩

/-- Ahead of time a call with an operand that stands for code is put together again. -/
theorem applied_rebuilds {f : NativeFunction} (hfull : f.level = .full) {room : Nat}
    {operands vs : List Value} {m m' : Machine} (hm : m.level = .ahead)
    (hoperands : Application.visitAll (Evaluation.visitWithin room) operands m = (.ok vs, m'))
    (hresidual : vs.any Value.isResidual = true) :
    Evaluation.applied (Evaluation.visitWithin room) operands (.native f) m =
      (.ok (m'.store.list (.native f :: vs)).1,
        { m' with store := (m'.store.list (.native f :: vs)).2 }) := by
  have hlevel : (Callable.native f).level = .full := hfull
  have hwith : Eval.withLevel (Level.full.min .ahead)
      (Application.visitAll (Evaluation.visitWithin room) operands) m =
        Application.visitAll (Evaluation.visitWithin room) operands m :=
    Evaluation.withLevel_eq hm ((Evaluation.level_visitAll rfl).trans hm)
  rw [Evaluation.applied_some _ _ rfl]
  unfold Evaluation.visitApplication
  rw [Eval.bind_apply, Eval.get_apply]
  dsimp only
  rw [if_neg (by simp [hlevel]), hlevel, hm, Eval.bind_apply, hwith, hoperands]
  dsimp only
  rw [if_pos (by simp [hresidual])]
  rfl

namespace Awaits

variable {f : NativeFunction} (h : c.Awaits f args) (hfull : f.level = .full)
  (hm : m.Upholds .keyed) {more : List Value}
  (htypes : ∀ tag, .type tag ∈ args ++ more → (m.global.types.get? tag.name).isSome = true)
  (room : Nat)
include h hfull hm htypes

/-- **A closure that receives some of the arguments awaits the others.** -/
theorem supplied (hshort : more.length < c.params.length) :
    ∃ body m', Application.visitAll (Evaluation.visitWithin (room + 2)) c.body (c.reducing more m) =
        (.ok body, m') ∧ (c.reducing more m).Extended m' ∧
      (c.supplied more body).Awaits f (args ++ more) := by
  obtain ⟨call, operands, hbody, hcall, hoperands⟩ := h.body
  obtain ⟨stamp, cdr, rfl, hcdr⟩ := Value.eq_pair_of_toList? hcall
  have hlength := Nat.le_of_lt hshort
  have hinside := Evaluation.inside_noted (.pair stamp (.native f) cdr) (c.reducing more m)
  have hahead : (c.reducing more m).level ≠ .asWritten := nofun
  obtain ⟨m₁, hhead, hnoted₁⟩ := visit_head f room (m := Evaluation.inside
    (.pair stamp (.native f) cdr) (c.reducing more m)) (by rw [hinside.level]; exact hahead)
  have hm₁ := hinside.trans hnoted₁
  -- The three kinds of operands: given before, given now, and still missing.
  obtain ⟨vs, m₂, hgiven, hnoted₂, hvs⟩ := visitAll_operands hm h.env h.distinct hlength
    (fun tag htag => htypes tag (List.mem_append_left _ htag)) hoperands room hm₁
  obtain ⟨ws, m₃, hnow, hnoted₃, hws⟩ := visitAll_supplied hm h.env h.distinct hlength
    (fun tag htag => htypes tag (List.mem_append_right _ htag)) room (hm₁.trans hnoted₂)
  obtain ⟨m₄, hmissing, hnoted₄⟩ := visitAll_missing h.distinct hlength room
    ((hm₁.trans hnoted₂).trans hnoted₃)
  have hall := Evaluation.visitAll_append hgiven (Evaluation.visitAll_append hnow hmissing)
  rw [← List.map_append, List.take_append_drop] at hall
  let items := Value.native f :: (vs ++ (ws ++ (c.params.drop more.length).map Value.symbol))
  have hresidual : (vs ++ (ws ++ (c.params.drop more.length).map Value.symbol)).any
      Value.isResidual = true := by
    obtain ⟨name, hname⟩ : ∃ name, name ∈ c.params.drop more.length :=
      List.exists_mem_of_ne_nil _ (by rw [ne_eq, List.drop_eq_nil_iff]; omega)
    rw [List.any_eq_true]
    refine ⟨.symbol name, ?_, rfl⟩
    exact List.mem_append_right _ (List.mem_append_right _ (List.mem_map.2 ⟨name, hname, rfl⟩))
  have hstep : Evaluation.step (Evaluation.visitWithin (room + 1)) (.pair stamp (.native f) cdr)
      (Evaluation.inside (.pair stamp (.native f) cdr) (c.reducing more m)) =
        (.ok (m₄.store.list items).1, { m₄ with store := (m₄.store.list items).2 }) := by
    change Evaluation.visitPair _ _ _ _ _ = _
    rw [Evaluation.visitPair_eq _ _ (by rw [hinside.level]; exact hahead) rfl hcdr, Eval.bind_apply,
      hhead]
    exact applied_rebuilds hfull hm₁.level hall hresidual
  obtain ⟨m₅, hvisit, hnoted₅⟩ := Evaluation.visitWithin_of_step hstep
  refine ⟨_, m₅, by rw [hbody]; exact Evaluation.visitAll_cons_of_ok hvisit rfl, ?_, ?_⟩
  · exact (((hm₁.trans hnoted₂).trans (hnoted₃.trans hnoted₄)).extended.withStore
      (.list _ m₄.store)).trans hnoted₅.extended
  · refine ⟨h.env, ?_, ?_, _, vs ++ ws, rfl, ?_, ?_⟩
    · show ((c.bound ++ _).map (·.1) ++ _).Nodup
      rw [List.map_append, map_fst_zip_take hlength, List.append_assoc]
      show (_ ++ (_ ++ c.params.drop more.length)).Nodup
      rw [List.take_append_drop]
      exact h.distinct
    · have hmissing := h.missing
      show (args ++ more).length + (c.params.drop more.length).length = f.arity
      rw [List.length_append, List.length_drop]
      omega
    · rw [Store.toList?_list]
      simp only [items, Closure.supplied, List.cons_append, List.append_assoc]
    · exact List.rel_append hvs hws

/-- **With the last arguments, the native function is applied to all.** -/
theorem called (hlength : more.length = c.params.length) :
    ∃ all m₁ m₂, List.Forall₂ Value.Retagged all (args ++ more) ∧ (c.calling more m).Noted m₁ ∧
      SpecialForm.sequence (Evaluation.visitWithin (room + 2)) c.body (c.calling more m) =
        ((Application.apply (Evaluation.visitWithin (room + 1)) (.native f) all m₁).1, m₂) ∧
      (Application.apply (Evaluation.visitWithin (room + 1)) (.native f) all m₁).2.Noted m₂ := by
  obtain ⟨call, operands, hbody, hcall, hoperands⟩ := h.body
  obtain ⟨stamp, cdr, rfl, hcdr⟩ := Value.eq_pair_of_toList? hcall
  have hinside := Evaluation.inside_noted (.pair stamp (.native f) cdr) (c.calling more m)
  have hcalling : (c.calling more m).level ≠ .asWritten := nofun
  obtain ⟨m₁, hhead, hnoted₁⟩ := visit_head f room (m := Evaluation.inside
    (.pair stamp (.native f) cdr) (c.calling more m)) (by rw [hinside.level]; exact hcalling)
  have hm₁ := hinside.trans hnoted₁
  obtain ⟨vs, m₂, hgiven, hnoted₂, hvs⟩ := visitAll_operands_calling hm h.env h.distinct hlength
    (fun tag htag => htypes tag (List.mem_append_left _ htag)) hoperands room hm₁
  obtain ⟨ws, m₃, hlast, hnoted₃, hws⟩ := visitAll_supplied_calling hm h.env h.distinct hlength
    (fun tag htag => htypes tag (List.mem_append_right _ htag)) room (hm₁.trans hnoted₂)
  have hall := Evaluation.visitAll_append hgiven hlast
  have hnoted := (hm₁.trans hnoted₂).trans hnoted₃
  have hstep : Evaluation.step (Evaluation.visitWithin (room + 1)) (.pair stamp (.native f) cdr)
      (Evaluation.inside (.pair stamp (.native f) cdr) (c.calling more m)) =
        Application.apply (Evaluation.visitWithin (room + 1)) (.native f) (vs ++ ws) m₃ := by
    change Evaluation.visitPair _ _ _ _ _ = _
    rw [Evaluation.visitPair_eq _ _ (by rw [hinside.level]; exact hcalling) rfl hcdr,
      Eval.bind_apply, hhead]
    change Evaluation.applied _ (operands ++ c.params.map .symbol) _ _ = _
    rw [Evaluation.applied_full (room + 1) _ hm₁.level
      (by simp [Value.takesValues, NativeFunction.isSpecialForm, hfull]), Eval.bind_apply, hall]
  obtain ⟨m₄, hvisit, hnoted₄⟩ := Evaluation.visitWithin_succ (room + 1)
    (.pair stamp (.native f) cdr) (c.calling more m)
  rw [hstep] at hvisit hnoted₄
  refine ⟨vs ++ ws, m₃, m₄, List.rel_append hvs hws, hnoted, ?_, hnoted₄⟩
  rw [hbody]
  exact hvisit

end Awaits

end Closure

/-- An application needs a step for itself and one for its head. -/
theorem Evaluation.visitWithin_shallow {room : Nat} (hroom : room < 2) {e head : Value}
    {operands : List Value} {m : Machine} (he : e.toList? = some (head :: operands))
    (hhead : head.isNil = false) (hm : m.level ≠ .asWritten) :
    ∃ limit, (visitWithin room e m).1 = .error (.depthExceeded limit) := by
  obtain ⟨stamp, cdr, rfl, hcdr⟩ := Value.eq_pair_of_toList? he
  match room with
  | 0 => exact ⟨m.options.maxDepth, rfl⟩
  | 1 =>
    obtain ⟨m', hvisit, -⟩ := visitWithin_succ 0 (.pair stamp head cdr) m
    have hinside := inside_noted (.pair stamp head cdr) m
    refine ⟨(inside (.pair stamp head cdr) m).options.maxDepth, ?_⟩
    rw [hvisit]
    change (visitPair (visitWithin 0) _ _ _ _).1 = _
    rw [visitPair_eq _ _ (by rwa [hinside.level]) hhead hcdr]
    rfl

/-! ## Currying a native function -/

namespace Application

/-- Each argument that would be taken for code receives a placeholder of its own. -/
theorem callOperands_apply (args : List Value) (m : Machine) :
    ∃ operands bound count, callOperands args m =
        (.ok (operands, bound), { m with placeholders := m.placeholders + count }) ∧
      bound.map (·.1) = (List.range' (m.placeholders + 1) count).map placeholderName ∧
      (∀ entry ∈ bound, entry.2 ∈ args) ∧ List.Forall₂ (Value.StandsFor bound) operands args := by
  -- By induction on the arguments; the names made for the first ones are those before the others.
  induction args generalizing m with
  | nil => exact ⟨[], [], 0, rfl, rfl, fun _ h => (by cases h), .nil⟩
  | cons arg args ih =>
    cases hresidual : arg.isResidual with
    | true =>
      obtain ⟨operands, bound, count, hrest, hnames, hvalues, hstands⟩ :=
        ih { m with placeholders := m.placeholders + 1 }
      refine ⟨.symbol (placeholderName (m.placeholders + 1)) :: operands,
        (placeholderName (m.placeholders + 1), arg) :: bound, count + 1, ?_, ?_, ?_, ?_⟩
      · unfold callOperands
        rw [if_pos hresidual, Eval.bind_apply]
        change (callOperands args >>= fun made : List Value × List (String × Value) => _ :
          Eval (List Value × List (String × Value))) { m with placeholders := m.placeholders + 1 } = _
        rw [Eval.bind_apply, hrest]
        show _ = (_, { m with placeholders := m.placeholders + (count + 1) })
        rw [Nat.add_comm count 1, ← Nat.add_assoc]
        rfl
      · rw [List.map_cons, hnames, List.range'_succ, List.map_cons]
      · exact List.forall_mem_cons.2 ⟨List.mem_cons_self .., fun entry hentry =>
          List.mem_cons_of_mem _ (hvalues entry hentry)⟩
      · exact .cons (.named hresidual (List.mem_cons_self ..))
          (hstands.imp fun _ _ hv => hv.mono (List.subset_cons_self ..))
    | false =>
      obtain ⟨operands, bound, count, hrest, hnames, hvalues, hstands⟩ := ih m
      refine ⟨arg :: operands, bound, count, ?_, hnames, fun entry hentry =>
        List.mem_cons_of_mem _ (hvalues entry hentry), .cons (.known hresidual (.refl arg)) hstands⟩
      unfold callOperands
      rw [if_neg (by simp [hresidual]), Eval.bind_apply, hrest]
      rfl

/-- The names that stand for supplied arguments and those for the others differ from each other. -/
theorem nodup_placeholders {bound : List (String × Value)} {k count : Nat}
    (hnames : bound.map (·.1) = (List.range' (k + 1) count).map placeholderName) (missing : Nat) :
    (bound.map (·.1) ++ (List.range' (k + count + 1) missing).map placeholderName).Nodup := by
  rw [hnames, ← List.map_append, List.nodup_map_iff placeholderName_injective, Nat.add_right_comm,
    List.range'_append_1]
  exact List.nodup_range' _

/-- **A native function that is curried awaits the other arguments.** -/
theorem curryNative_awaits (f : NativeFunction) {args : List Value} (m : Machine)
    (hlength : args.length ≤ f.arity) :
    ∃ m', curryNative f args m = (.ok (.closure m.store.closures.size), m') ∧ m.Extended m' ∧
      m.store.closures.size < m'.store.closures.size ∧
      (m'.store.closure m.store.closures.size).Awaits f args := by
  obtain ⟨operands, bound, count, hoperands, hnames, -, hstands⟩ := callOperands_apply args m
  let params := (List.range' (m.placeholders + count + 1) (f.arity - args.length)).map placeholderName
  let items := .native f :: operands ++ params.map .symbol
  let c : Closure := { params, body := [(m.store.list items).1], bound }
  have hcurry := curryNative_apply f hoperands
  have hsize : (m.store.list items).2.closures.size = m.store.closures.size :=
    congrArg Array.size (Store.SameRecords.list _ m.store).closures
  have hclosure := Store.closure_newClosure (m.store.list items).2 c
  have hextended := (Store.Extended.list items m.store).trans (.newClosure c _)
  dsimp only at hcurry
  rw [hsize] at hcurry hclosure
  refine ⟨_, hcurry, { Machine.Extended.refl m with store := hextended }, ?_, ?_⟩
  · show _ < (Array.push _ _).size
    rw [Array.size_push, hsize]
    exact Nat.lt_succ_self _
  · dsimp only
    rw [hclosure]
    refine ⟨rfl, nodup_placeholders hnames _, ?_, _, operands, rfl, Store.toList?_list _ _, hstands⟩
    show args.length + params.length = f.arity
    rw [List.length_map, List.length_range']
    omega

end Application

end CurryLisp
