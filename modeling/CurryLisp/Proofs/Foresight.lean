import CurryLisp.Proofs.AheadOfTime
import CurryLisp.Proofs.Currying.Reduction
import CurryLisp.Proofs.Detached

/-!
# Values found ahead of time

Where the reduction ahead of time ends in a value that stands for no code, every part of the
expression was a name, a type or a calculation on such values. Complete evaluation meets the same
names and runs the same calculations, so it gives the same value and leaves the same machine. Only a
type that is not registered makes a difference: it stays ahead of time and is an error afterwards.

Two machines run side by side, one of them ahead of time and the other, its counterpart, at the full
level (`Machine.Counterpart`). A calculation does not look at the level
(`Machine.Counterpart.detached`).

Statement:

* `visit_full_of_ahead`: complete evaluation gives what was found ahead of time, or fails for an
  unbound type.
-/

namespace CurryLisp

open SpecialForm (Visit)

/-! ## Machines side by side -/

/-- `m` is `a` at the full level, but for its nesting and what it has noted. -/
def Machine.Counterpart (a m : Machine) : Prop := (a.atLevel .full).Noted m

namespace Machine.Counterpart

variable {a a' m m' : Machine}

theorem level (h : a.Counterpart m) : m.level = .full := Noted.level h

theorem store (h : a.Counterpart m) : m.store = a.store := Noted.store (m := a.atLevel .full) h

theorem noted (h : a.Counterpart m) (ha : a.Noted a') (hm : m.Noted m') : a'.Counterpart m' := by
  obtain ⟨_, _, _, rfl⟩ := h
  obtain ⟨_, _, _, rfl⟩ := ha
  obtain ⟨depth, indent, events, rfl⟩ := hm
  exact ⟨depth, indent, events, rfl⟩

theorem lookup? (h : a.Counterpart m) (name : String) : m.lookup? name = a.lookup? name := by
  obtain ⟨_, _, _, rfl⟩ := h
  rfl

theorem lookupType? (h : a.Counterpart m) (name : String) :
    m.lookupType? name = a.lookupType? name := by
  obtain ⟨_, _, _, rfl⟩ := h
  rfl

/-- At one level and with one nesting they differ in notes only. -/
theorem atLevel_eq (h : a.Counterpart m) (hdepth : m.depth = a.depth)
    (hindent : m.indent = a.indent) (level : Level) :
    m.atLevel level = { a.atLevel level with events := m.events } := by
  obtain ⟨depth, indent, events, rfl⟩ := h
  obtain rfl : depth = a.depth := hdepth
  obtain rfl : indent = a.indent := hindent
  rfl

/-- A computation that sees objects only does not look at the level. -/
theorem detached (h : a.Counterpart m) {α : Type} {x : Eval α} (hx : Detached a.store.hosts x) :
    ∃ m', x m = ((x a).1, m') ∧ (x a).2.Counterpart m' := by
  obtain ⟨depth, indent, events, rfl⟩ := h
  obtain ⟨d, -, hd⟩ := hx a.store a.placeholders rfl
  rw [hd a rfl rfl, hd { a.atLevel .full with depth, indent, events } rfl rfl]
  exact ⟨_, rfl, depth, indent, d.events ++ events, rfl⟩

end Machine.Counterpart

/-- A calculation sees objects only. -/
theorem Operation.isContextual_of_isCalculation {op : Operation} (h : op.isCalculation = true) :
    op.isContextual = false := by
  cases op <;> first | rfl | cases h

/-! ## Steps at the full level -/

namespace Evaluation

/-- A computation at the full level gives `r` and leaves a counterpart of `after`, or it has met a
type that is not registered. -/
def Foreseen {α : Type} (r : α) (after : Machine) (outcome : Except Error α × Machine) : Prop :=
  (∃ m', outcome = (.ok r, m') ∧ after.Counterpart m') ∨
    ∃ name, outcome.1 = .error (.unboundType name)

/-- The first part may fail for a type; if it does not, the second is foreseen. -/
theorem Foreseen.bind {α β : Type} {x : Eval α} {f : α → Eval β} {r : α} {r' : β}
    {after after' m : Machine} (hx : Foreseen r after (x m))
    (hf : ∀ m', after.Counterpart m' → Foreseen r' after' (f r m')) :
    Foreseen r' after' ((x >>= f) m) := by
  rw [Eval.bind_apply]
  obtain ⟨m', hxm, hafter⟩ | ⟨name, hfails⟩ := hx
  · rw [hxm]
    exact hf m' hafter
  · refine .inr ⟨name, ?_⟩
    rcases hxm : x m with ⟨e | r, m'⟩
    · rw [hxm] at hfails
      cases hfails
      rfl
    · rw [hxm] at hfails
      cases hfails

/-- Where the reduction ahead of time finds a value that stands for no code, evaluation on the
counterpart has foreseen it. -/
def Foresees (visit : Visit) : Prop :=
  ∀ {e r : Value} {a a' m : Machine}, e.isStandard = true → a.isStandard = true →
    a.level = .ahead → visit e a = (.ok r, a') → r.isResidual = false → a.Counterpart m →
      Foreseen r a' (visit e m)

variable {room : Nat} {a a' m : Machine}

/-- A reduction keeps the level and the functions in reach, and its result has standard functions
only. -/
theorem ahead_visitWithin {e r : Value} (he : e.isStandard = true) (hstandard : a.isStandard = true)
    (ha : a.level = .ahead) (hr : visitWithin room e a = (.ok r, a')) :
    a'.isStandard = true ∧ a'.level = .ahead ∧ r.isStandard = true := by
  obtain ⟨-, hlevel, hstandard', hknown⟩ := (Ahead.visitWithin room he).ok ha hstandard hr
  exact ⟨hstandard', hlevel, hknown⟩

/-- A type is found, or it is missing at the full level. -/
theorem foreseen_resolveType {tag : TypeTag} {r : Value} (ha : a.level = .ahead)
    (hr : resolveType tag a = (.ok r, a')) (hm : a.Counterpart m) :
    Foreseen r a' (resolveType tag m) := by
  obtain ⟨rfl, ⟨found, hfound, rfl⟩ | ⟨hmissing, rfl⟩⟩ := resolveType_ahead ha hr
  · exact .inl ⟨m, resolveType_found ((hm.lookupType? _).trans hfound), hm⟩
  · refine .inr ⟨tag.name, ?_⟩
    unfold resolveType
    rw [Eval.bind_apply, Eval.get_apply]
    dsimp only
    rw [hm.lookupType?, hmissing]
    dsimp only
    rw [if_neg (by simp [hm.level])]
    rfl

/-- A bound name has its value at both levels. -/
theorem foreseen_visitSymbol {name : String} {r : Value} (ha : a.level = .ahead)
    (hr : visitSymbol name a = (.ok r, a')) (hresidual : r.isResidual = false)
    (hm : a.Counterpart m) : Foreseen r a' (visitSymbol name m) := by
  obtain ⟨rfl, -⟩ | ⟨v, hv, -, hresolved⟩ := visitSymbol_ahead ha hr
  · cases hresidual
  · rw [visitSymbol_bound hm.level ((hm.lookup? name).trans hv)]
    cases v with
    | type tag => exact foreseen_resolveType ha hresolved hm
    | _ =>
      cases hresolved
      exact .inl ⟨m, rfl, hm⟩

section Parts

variable (hv : Foresees (visitWithin room))
include hv

theorem foreseen_visitAll {es args : List Value} (hes : ∀ e ∈ es, e.isStandard = true)
    (hstandard : a.isStandard = true) (ha : a.level = .ahead)
    (hargs : Application.visitAll (visitWithin room) es a = (.ok args, a'))
    (hvalues : args.any Value.isResidual = false) (hm : a.Counterpart m) :
    Foreseen args a' (Application.visitAll (visitWithin room) es m) := by
  induction es generalizing a m args with
  | nil =>
    cases hargs
    exact .inl ⟨m, rfl, hm⟩
  | cons e es ih =>
    obtain ⟨r, a₁, rs, rfl, hfirst, hrest⟩ := visitAll_cons_ok hargs
    rw [List.any_cons, Bool.or_eq_false_iff] at hvalues
    have he := hes e (List.mem_cons_self ..)
    obtain ⟨hstandard₁, ha₁, -⟩ := ahead_visitWithin he hstandard ha hfirst
    have hall := fun m₁ => ih (fun e' he' => hes e' (List.mem_cons_of_mem _ he')) hstandard₁ ha₁
      hrest hvalues.2 (m := m₁)
    show Foreseen _ _ (((e :: es).mapM (visitWithin room)) m)
    rw [List.mapM_cons]
    refine (hv he hstandard ha hfirst hvalues.1 hm).bind fun m₁ hm₁ => ?_
    exact (hall m₁ hm₁).bind fun m₂ hm₂ => .inl ⟨m₂, rfl, hm₂⟩

/-- An application that gives a value is a calculation, which runs at the full level as well. -/
theorem foreseen_applied {operands : List Value} {head r : Value}
    (hoperands : ∀ e ∈ operands, e.isStandard = true) (hhead : head.isStandard = true)
    (hstandard : a.isStandard = true) (ha : a.level = .ahead)
    (hr : applied (visitWithin room) operands head a = (.ok r, a'))
    (hresidual : r.isResidual = false) (hm : a.Counterpart m) :
    Foreseen r a' (applied (visitWithin room) operands head m) := by
  obtain ⟨-, hrebuilt⟩ | ⟨hcode, args, a₁, hargs, hfound⟩ := applied_ahead ha hr
  · rw [isResidual_of_rebuild hrebuilt] at hresidual
    cases hresidual
  · obtain hrebuilt | ⟨hcalculates, happly⟩ := hfound
    · rw [isResidual_of_rebuild hrebuilt] at hresidual
      cases hresidual
    · obtain ⟨f, rfl⟩ : ∃ f, head = .native f := by
        cases head with
        | native f => exact ⟨f, rfl⟩
        | _ => cases hcalculates
      obtain ⟨hpure, hvalues⟩ : f.isPure = true ∧ args.any Value.isResidual = false := by
        simpa [Value.calculates] using hcalculates
      have htakes : (Value.native f).takesValues = true := by
        rw [Value.takesValues_eq (s := a.store) rfl, hcode]
        rfl
      have hlevel : f.level = .full :=
        Value.level_of_takesValues (f := .native f) (s := a.store) rfl htakes
      rw [applied_full room operands hm.level htakes]
      refine (foreseen_visitAll hv hoperands hstandard ha hargs hvalues hm).bind fun m₁ hm₁ => ?_
      -- A pure function of the language sees no more of the machine than both runs share.
      have hcontext := Operation.ignoresNames_of_not_contextual
        (Operation.isContextual_of_isCalculation (isCalculation_of_isPure hhead hpure hlevel))
        a₁.store.hosts
      obtain ⟨m', hsame, hafter⟩ := hm₁.detached (Detached.apply (visitWithin room) hcontext args)
      rw [happly] at hsame hafter
      exact .inl ⟨m', hsame, hafter⟩

theorem foreseen_visitPair {e car cdr r : Value} (hcar : car.isStandard = true)
    (hcdr : cdr.isStandard = true) (he : e.isResidual = true) (hstandard : a.isStandard = true)
    (ha : a.level = .ahead) (hr : visitPair (visitWithin room) e car cdr a = (.ok r, a'))
    (hresidual : r.isResidual = false) (hm : a.Counterpart m) :
    Foreseen r a' (visitPair (visitWithin room) e car cdr m) := by
  cases hnil : car.isNil with
  | true =>
    rw [visitPair_nil _ _ hnil] at hr
    cases hr
    rw [he] at hresidual
    cases hresidual
  | false =>
    obtain ⟨operands, head, a₁, hoperands, hhead, happlied⟩ := visitPair_ok (by simp [ha]) hnil hr
    obtain ⟨hstandard₁, ha₁, hheadStandard⟩ := ahead_visitWithin hcar hstandard ha hhead
    -- only a native function is applied ahead of time, so the head stands for no code
    have hvalue : head.isResidual = false := by
      obtain ⟨-, hrebuilt⟩ | ⟨-, args, a₂, -, hfound⟩ := applied_ahead ha₁ happlied
      · rw [isResidual_of_rebuild hrebuilt] at hresidual
        cases hresidual
      · obtain hrebuilt | ⟨hcalculates, -⟩ := hfound
        · rw [isResidual_of_rebuild hrebuilt] at hresidual
          cases hresidual
        · cases head with
          | native f => rfl
          | _ => cases hcalculates
    rw [visitPair_eq _ _ (by simp [hm.level]) hnil hoperands]
    refine (hv hcar hstandard ha hhead hvalue hm).bind fun m₁ hm₁ => ?_
    exact foreseen_applied hv (fun v hv => Value.isStandard_of_mem_toList? hoperands hcdr hv)
      hheadStandard hstandard₁ ha₁ happlied hresidual hm₁

theorem foreseen_step {e r : Value} (he : e.isStandard = true) (hstandard : a.isStandard = true)
    (ha : a.level = .ahead) (hr : step (visitWithin room) e a = (.ok r, a'))
    (hresidual : r.isResidual = false) (hm : a.Counterpart m) :
    Foreseen r a' (step (visitWithin room) e m) := by
  cases e with
  | pair stamp car cdr =>
    simp only [Value.isStandard, Bool.and_eq_true] at he
    exact foreseen_visitPair hv he.1 he.2 rfl hstandard ha hr hresidual hm
  | quoted inner =>
    change visitQuoted (visitWithin room) (.quoted inner) inner a = _ at hr
    rw [visitQuoted_ahead _ _ _ ha] at hr
    cases hr
    cases hresidual
  | symbol name => exact foreseen_visitSymbol ha hr hresidual hm
  | type tag =>
    rw [step_type _ _ (by simp [ha])] at hr
    rw [step_type _ _ (by simp [hm.level])]
    exact foreseen_resolveType ha hr hm
  | _ =>
    cases hr
    exact .inl ⟨m, rfl, hm⟩

end Parts

/-- **Complete evaluation foresees what the reduction finds**, by induction on the steps that may
still be nested. -/
theorem foresees_visitWithin (room : Nat) : Foresees (visitWithin room) := by
  induction room with
  | zero =>
    intro e r a a' m _ _ _ hr
    cases hr
  | succ room ih =>
    intro e r a a' m he hstandard ha hr hresidual hm
    have hinside := inside_noted e a
    have hstandard₀ : (inside e a).isStandard = true := by
      obtain ⟨_, _, _, hnoted⟩ := hinside
      rw [hnoted]
      exact hstandard
    obtain ⟨a₁, hstep, hnoted⟩ := step_of_visitWithin hr
    obtain ⟨m₁, hvisit, hnoted'⟩ := visitWithin_succ room e m
    rw [hvisit]
    have hforeseen := foreseen_step ih he hstandard₀ (hinside.level.trans ha) hstep hresidual
      (hm.noted hinside (inside_noted e m))
    obtain ⟨m₂, hstep', hafter⟩ | hfails := hforeseen
    · rw [hstep'] at hnoted' ⊢
      exact .inl ⟨m₁, rfl, hafter.noted hnoted hnoted'⟩
    · exact .inr hfails

end Evaluation

/-! ## The main statement -/

/-- **What is found ahead of time is the value.** If the reduction of an expression gives a value
that stands for no code, then complete evaluation from the same machine gives this value and leaves
the same environments, objects, options, output and placeholders, or it fails for a type that is not
registered. -/
theorem visit_full_of_ahead {m after : Machine} {e v : Value} (hm : m.isStandard = true)
    (he : e.isStandard = true) (hv : Eval.withLevel .ahead (Evaluation.visit e) m = (.ok v, after))
    (hresidual : v.isResidual = false) :
    (∃ events, Eval.withLevel .full (Evaluation.visit e) m = (.ok v, { after with events })) ∨
      ∃ name, (Eval.withLevel .full (Evaluation.visit e) m).1 = .error (.unboundType name) := by
  have hframed := fun level => Machine.Framed.policy.pervasive.visit e (m.atLevel level)
  rcases hahead : Evaluation.visit e (m.atLevel .ahead) with ⟨result, a⟩
  change ((Evaluation.visit e (m.atLevel .ahead)).1,
    (Evaluation.visit e (m.atLevel .ahead)).2.atLevel m.level) = _ at hv
  rw [hahead] at hv
  obtain ⟨rfl, rfl⟩ := Prod.mk.inj hv
  obtain ⟨m', hfull, hafter⟩ | hfails := Evaluation.foresees_visitWithin (Evaluation.room m) he
    (a := m.atLevel .ahead) hm rfl hahead hresidual (Machine.Noted.refl (m.atLevel .full))
  · change Evaluation.visit e (m.atLevel .full) = _ at hfull
    have hnesting := hframed .ahead
    have hnesting' := hframed .full
    rw [hahead] at hnesting
    rw [hfull] at hnesting'
    refine .inl ⟨m'.events, ?_⟩
    change ((Evaluation.visit e (m.atLevel .full)).1,
      (Evaluation.visit e (m.atLevel .full)).2.atLevel m.level) = _
    rw [hfull]
    exact congrArg (Prod.mk _) (hafter.atLevel_eq (hnesting'.depth.trans hnesting.depth.symm)
      (hnesting'.indent.trans hnesting.indent.symm) m.level)
  · exact .inr hfails

/-- In the initial environment `(+ 1)` is curried ahead of time as it is afterwards: both give the
first closure. -/
theorem visit_full_of_ahead_curried :
    let m := Machine.start .initial {} {}
    let e := Value.pair 1 (.symbol "+") (.pair 0 (.integer 1) .nil)
    let after := (Eval.withLevel .ahead (Evaluation.visit e) m).2
    m.isStandard = true ∧ e.isStandard = true ∧ (Value.closure 0).isResidual = false ∧
      Eval.withLevel .ahead (Evaluation.visit e) m = (.ok (.closure 0), after) ∧
      ∃ events, Eval.withLevel .full (Evaluation.visit e) m =
        (.ok (.closure 0), { after with events }) := by
  intro m e after
  have hm : m.isStandard = true := by
    simp [m, Machine.isStandard, Machine.start, initial_isStandard]
  have he : e.isStandard = true := by decide
  let add := Builtin.function "+" 2 false [.number, .number] .add
  have hcurry : ∀ m', Application.apply (Evaluation.visitWithin (m.options.maxDepth - 1))
      (.native add) [.integer 1] m' = Application.curryNative add [.integer 1] m' := by
    intro m'
    rw [Application.apply]
    rfl
  have happly : ∀ level, level ≠ .asWritten →
      (Eval.withLevel level (Evaluation.visit e) m).1 =
        (Application.apply (Evaluation.visitWithin (m.options.maxDepth - 1)) (.native add)
          [.integer 1] { m with level, depth := 1 }).1 := by
    intro level hlevel
    cases level with
    | asWritten => exact absurd rfl hlevel
    | ahead => rfl
    | full => rfl
  have hahead : Eval.withLevel .ahead (Evaluation.visit e) m = (.ok (.closure 0), after) :=
    Prod.ext ((happly .ahead (by decide)).trans (by rw [hcurry]; rfl)) rfl
  have hfull : (Eval.withLevel .full (Evaluation.visit e) m).1 = .ok (.closure 0) :=
    (happly .full (by decide)).trans (by rw [hcurry]; rfl)
  refine ⟨hm, he, rfl, hahead, (visit_full_of_ahead hm he hahead rfl).resolve_right ?_⟩
  rintro ⟨name, hfails⟩
  rw [hfull] at hfails
  cases hfails

end CurryLisp
