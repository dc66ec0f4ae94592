import CurryLisp.Proofs.Currying.Beside

/-!
# When a reduction holds

An expression is reduced ahead of time in one machine and evaluated later in another one. What the
reduction found may have changed by then: the value of a name, the type that a name stands for, what a
calculation read of an array. `Holds last room e a m` follows the reduction of `e` in `a` and its
evaluation in `m` side by side, and says that what was found is still so when its turn comes. It also
says where a reduced expression means something else by itself: a value that stands for code is no
result of a calculation, no head is reduced to `nil`, and a head that turns out to take code finds its
operands as they were written.

Calculations are made again with the same value, because they are pure; this is not part of it.

Statements:

* `visitWithin_reduced`: **the reduced expression ends as the expression does.**
* `sequence_reduced`: so does a reduced body.
-/

namespace CurryLisp.Evaluation

open SpecialForm (Visit)

/-! ## What holds -/

/-- A type that is registered in `a` is registered in `m`, where it is found again by its own name. -/
def TypeHolds (a m : Machine) (tag : TypeTag) : Prop :=
  ∀ found, a.lookupType? tag.name = some found →
    m.lookupType? tag.name = some found ∧ m.lookupType? found.name = some found

/-- A name that was replaced by its value in `a` has this value in `m`. -/
def NameHolds (a m : Machine) (name : String) : Prop :=
  ∀ v, a.lookup? name = some v → v.isResidual = false →
    m.lookup? name = some v ∧ ∀ tag, v = .type tag → TypeHolds a m tag

/-- As long as a reduction is to make more placeholders, up to `last`, the evaluation makes none that the
reduction has not made. -/
def CountHolds (last : Nat) (x : Eval Value) (a m : Machine) : Prop :=
  ∀ r a', x a = (.ok r, a') → a'.placeholders < last → (x m).2.placeholders ≤ a'.placeholders

section

variable (visit : Visit) (holds : Value → Machine → Machine → Prop)

/-- Each of several expressions holds when its turn comes. -/
def AllHold : List Value → Machine → Machine → Prop
  | [], _, _ => True
  | e :: es, a, m => holds e a m ∧
      ∀ r a' v m', visit e a = (.ok r, a') → visit e m = (.ok v, m') → AllHold es a' m'

/-- What was calculated ahead of time may stand for the calculation: it is no code, it and the arguments
are no types that are not registered, and the objects that were read are as they were read. -/
def CalculationHolds (f : NativeFunction) (operands args : List Value) (a m : Machine) : Prop :=
  (∀ arg ∈ args, m.Settles arg) ∧
    ∀ v a' vs m', Application.apply visit (.native f) args a = (.ok v, a') →
      Application.visitAll visit operands m = (.ok vs, m') →
        m'.Settles v ∧ f.operation.Rereads a.store m'.store args

/-- The operands of an application hold whose head was reduced to `known` and has the value `head`.
A head that takes code may only be met if the operands are as they were written. -/
def OperandsHold (known head : Value) (operands : List Value) (a m : Machine) : Prop :=
  ∀ args a', Application.visitAll visit operands a = (.ok args, a') →
    (head.takesCode = true → args = operands ∧ a'.placeholders = a.placeholders) ∧
    (head.takesValues = true → AllHold visit holds operands a m ∧
      ∀ f, known = .native f → known.calculates args = true →
        CalculationHolds visit f operands args a' m)

/-- An application holds if its head does, which is not reduced to `nil`, and then its operands. -/
def ApplicationHolds (car : Value) (operands : List Value) (a m : Machine) : Prop :=
  holds car a m ∧
    ∀ known a', visit car a = (.ok known, a') → known.isNil = false ∧
      ∀ head m', visit car m = (.ok head, m') → known.takesCode = false →
        OperandsHold visit holds known head operands a' m'

/-- An expression holds whose parts are compared by `holds`. -/
def StepHolds : Value → Machine → Machine → Prop
  | .symbol name, a, m => NameHolds a m name
  | .type tag, a, m => TypeHolds a m tag
  | .pair _ car cdr, a, m => car.isNil = false →
      ∀ operands, cdr.toList? = some operands → ApplicationHolds visit holds car operands a m
  | _, _, _ => True

end

/-- **What was found of `e` ahead of time in `a` is so when `e` is evaluated in `m`**, where `room`
steps may be nested and the reduction makes placeholders up to `last`. -/
def Holds (last : Nat) : Nat → Value → Machine → Machine → Prop
  | 0, _, _, _ => True
  | room + 1, e, a, m =>
    StepHolds (visitWithin room) (Holds last room) e (inside e a) (inside e m) ∧
      CountHolds last (step (visitWithin room) e) (inside e a) (inside e m)

/-! ## Names -/

/-- A resolved type changes nothing. -/
theorem resolveType_snd (tag : TypeTag) (m : Machine) : (resolveType tag m).2 = m := by
  unfold resolveType
  rw [Eval.bind_apply, Eval.get_apply]
  dsimp only
  cases m.lookupType? tag.name with
  | some found => rfl
  | none =>
    dsimp only
    split
    · rfl
    · rfl

/-- The value of a name changes nothing, either. -/
theorem visitSymbol_snd (name : String) (m : Machine) : (visitSymbol name m).2 = m := by
  unfold visitSymbol
  rw [Eval.bind_apply, Eval.get_apply]
  dsimp only
  by_cases hwritten : m.level = .asWritten
  · rw [if_pos hwritten]
    rfl
  · rw [if_neg hwritten]
    cases m.lookup? name with
    | none =>
      dsimp only
      split <;> rfl
    | some v =>
      dsimp only
      split
      · rfl
      · cases v with
        | type tag => exact resolveType_snd tag m
        | _ => rfl

/-- A name that has the same value in both machines, which is no type, holds. -/
theorem NameHolds.of_lookup? {a m : Machine} {name : String} {v : Value}
    (ha : a.lookup? name = some v) (hm : m.lookup? name = some v) (hv : ∀ tag, v ≠ .type tag) :
    NameHolds a m name := by
  intro w hw _
  rw [ha] at hw
  cases hw
  exact ⟨hm, fun tag htag => absurd htag (hv tag)⟩

/-- A name is an expression that makes no placeholder. -/
theorem Holds.symbol {last room : Nat} {name : String} {a m : Machine} (hname : NameHolds a m name)
    (hcount : m.placeholders ≤ a.placeholders) : Holds last (room + 1) (.symbol name) a m := by
  have ha := visitSymbol_snd name (inside (.symbol name) a)
  have hm := visitSymbol_snd name (inside (.symbol name) m)
  obtain ⟨_, _, _, ha'⟩ := inside_noted (.symbol name) a
  obtain ⟨_, _, _, hm'⟩ := inside_noted (.symbol name) m
  refine ⟨?_, fun r a' hr _ => ?_⟩
  · rw [ha', hm']
    exact hname
  · change visitSymbol name _ = _ at hr
    rw [hr] at ha
    obtain rfl : a' = _ := ha
    change (visitSymbol name _).2.placeholders ≤ _
    rw [hm, ha', hm']
    exact hcount

/-! ## Expressions of the body -/

/-- The expression was there when the reduction began, and its native functions are standard. -/
structure Given (a₀ : Machine) (e : Value) : Prop where
  valid : e.Valid a₀.store
  standard : e.isStandard = true

section Given

variable {a₀ a a' : Machine} {room : Nat}

theorem Given.pair {stamp : Nat} {car cdr : Value} {operands : List Value}
    (h : Given a₀ (.pair stamp car cdr)) (hcdr : cdr.toList? = some operands) :
    Given a₀ car ∧ ∀ e ∈ operands, Given a₀ e := by
  obtain ⟨-, hcar, hcdrValid⟩ := h.valid
  obtain ⟨hcarStandard, hcdrStandard⟩ : car.isStandard = true ∧ cdr.isStandard = true := by
    simpa [Value.isStandard] using h.standard
  refine ⟨⟨hcar, hcarStandard⟩, fun e he => ⟨.of_mem_toList? hcdr hcdrValid he, ?_⟩⟩
  exact Value.isStandard_of_mem_toList? hcdr hcdrStandard he

/-- The reduction of an expression. -/
theorem Given.stage {e r : Value} (he : Given a₀ e) (h : Stage a₀ a)
    (hr : visitWithin room e a = (.ok r, a')) :
    Stage a₀ a' ∧ a.Prepares a' ∧ r.isStandard = true ∧ r.Valid a'.store :=
  h.next (Ahead.visitWithin room he.standard)
    (Keeps.visitWithin room (he.valid.grows h.since.grows)) hr

/-- The reduction of several expressions. -/
theorem Given.stageAll {es rs : List Value} (hes : ∀ e ∈ es, Given a₀ e) (h : Stage a₀ a)
    (hr : Application.visitAll (visitWithin room) es a = (.ok rs, a')) :
    Stage a₀ a' ∧ a.Prepares a' ∧ (∀ r ∈ rs, r.isStandard = true) ∧ Value.AllValid a'.store rs :=
  h.next (Ahead.visitAll (fun e he => (hes e he).standard) fun _ he => Ahead.visitWithin room he)
    (Keeps.visitAll (fun _ _ he => Keeps.visitWithin room he)
      fun e he => (hes e he).valid.grows h.since.grows) hr

/-- Putting an application together makes no placeholder. -/
theorem stage_rebuild {head r : Value} {args : List Value} (h : Stage a₀ a)
    (hhead : head.isStandard = true) (hheadValid : head.Valid a.store)
    (hargs : ∀ v ∈ args, v.isStandard = true) (hargsValid : Value.AllValid a.store args)
    (hr : rebuild head args a = (.ok r, a')) :
    Stage a₀ a' ∧ a.Prepares a' ∧ a'.placeholders = a.placeholders := by
  obtain ⟨hstage, hprepares, -⟩ := h.next (Ahead.rebuild hhead hargs)
    (Keeps.rebuild hheadValid hargsValid) hr
  cases hr
  exact ⟨hstage, hprepares, rfl⟩

/-- A calculation. -/
theorem stage_calculation {f : NativeFunction} {args : List Value} {r : Value} (h : Stage a₀ a)
    (hf : f.isStandard = true) (hlevel : f.level = .full)
    (hcalculates : (Value.native f).calculates args = true)
    (hargs : ∀ v ∈ args, v.isStandard = true) (hargsValid : Value.AllValid a.store args)
    (hr : Application.apply (visitWithin room) (.native f) args a = (.ok r, a')) :
    Stage a₀ a' ∧ a.Prepares a' := by
  obtain ⟨hpure, -⟩ : f.isPure = true ∧ args.any Value.isResidual = false := by
    simpa [Value.calculates] using hcalculates
  obtain ⟨hstage, hprepares, -⟩ := h.next (Ahead.apply hf hpure hlevel hargs)
    (Keeps.apply (fun _ _ he => Keeps.visitWithin room he)
      (show (Value.native f).Valid a.store from trivial) hargsValid) hr
  exact ⟨hstage, hprepares⟩

end Given

/-! ## Steps that stay -/

theorem follows_visitWithin (σ : Renaming) (room : Nat) (e : Value) :
    Follows σ (Value.rename σ) (visitWithin room e) (visitWithin room (e.rename σ)) :=
  Follows.visitWithin (Nat.le_refl room) e

theorem orderly_visitWithin (room : Nat) (e : Value) : Orderly (visitWithin room e) :=
  Orderly.pervasive.visitWithin room e

section Stays

variable {a₀ z a m m' : Machine} {σ : Renaming} {room : Nat}

/-- An expression that the reduction leaves as it is. -/
theorem step_stays {e : Value} (h : Beside a₀ z σ a m m') (he : Given a₀ e)
    (hr : step (visitWithin room) e a = (.ok e, a))
    (hcount : CountHolds z.placeholders (step (visitWithin room) e) a m) :
    EndedBeside a₀ z a σ m.store Value.rename (step (visitWithin room) e m)
      (step (visitWithin room) e m') := by
  have hfollows := Follows.step (follows_visitWithin σ room) e
  rw [he.valid.rename_eq h.fixes] at hfollows
  have horderly := Orderly.pervasive.step (orderly_visitWithin room) e
  refine h.follows hfollows horderly horderly (hcount e a hr) fun v m₁ hv => ?_
  obtain ⟨-, hupholds, -⟩ := Keeps.step (fun _ _ he => Keeps.visitWithin room he)
    (he.valid.grows h.grows) m (.refl _) h.valid.upholds_none
  rw [hv] at hupholds
  exact hupholds.toValid

/-- A reduced type is resolved as the type is. -/
theorem resolveType_reduced {tag : TypeTag} {r : Value} {a' : Machine} (h : Beside a₀ z σ a m m')
    (hholds : TypeHolds a m tag) (hr : resolveType tag a = (.ok r, a')) :
    EndedBeside a₀ z a' σ m.store Value.rename (resolveType tag m)
      (step (visitWithin room) r m') := by
  have hm' : m'.level ≠ .asWritten := by simp [show m'.level = m.level from h.renamed.level, h.level]
  obtain ⟨rfl, ⟨found, hfound, rfl⟩ | ⟨-, rfl⟩⟩ := resolveType_ahead h.stage.level hr
  · obtain ⟨htag, hname⟩ := hholds found hfound
    have hsettled : m.Settles (.type found) := ⟨rfl, fun _ h => by cases h; exact hname⟩
    rw [step_type _ _ hm', resolveType_found htag,
      resolveType_found (((h.settles_iff _).2 hsettled).2 found rfl)]
    exact h.done Value.rename (.type found)
  · rw [step_type _ _ hm']
    have horderly := Orderly.pervasive.resolveType tag
    refine h.follows (Follows.resolveType tag) horderly horderly (fun hlast => ?_) fun v m₁ hv => ?_
    · rw [resolveType_snd, h.waiting hlast]
    · have hsame := resolveType_snd tag m
      rw [hv] at hsame
      obtain rfl : m₁ = m := hsame
      exact h.valid

/-- Evaluating settled values gives these values. -/
theorem visitAll_settled (room : Nat) {rs : List Value} {m : Machine} (hm : m.level = .full)
    (hrs : ∀ r ∈ rs, m.Settles r) :
    ∃ m', Application.visitAll (visitWithin (room + 1)) rs m = (.ok rs, m') ∧ m.Noted m' := by
  induction rs generalizing m with
  | nil => exact ⟨m, rfl, .refl m⟩
  | cons r rs ih =>
    obtain ⟨hr, hrs⟩ := List.forall_mem_cons.1 hrs
    obtain ⟨m₁, hfirst, hnoted⟩ := visitWithin_settled room hr hm
    obtain ⟨m₂, hrest, hnoted'⟩ := ih (hnoted.level.trans hm)
      fun v hv => (hnoted.settles_iff v).2 (hrs v hv)
    exact ⟨m₂, visitAll_cons_of_ok hfirst hrest, hnoted.trans hnoted'⟩

/-- An application ends as it is written, if its head was reduced only. -/
theorem applied_written {operands : List Value} {head : Value}
    (h : Beside a₀ z σ a m m') (hoperands : ∀ e ∈ operands, Given a₀ e) (hhead : head.Valid m.store)
    (hcount : a.placeholders < z.placeholders →
      (applied (visitWithin room) operands head m).2.placeholders ≤ a.placeholders) :
    EndedBeside a₀ z a σ m.store Value.rename (applied (visitWithin room) operands head m)
      (applied (visitWithin room) operands (head.rename σ) m') := by
  have hfollows := follows_applied (follows_visitWithin σ room) operands head
  have hfixed : operands.map (Value.rename σ) = operands :=
    Value.AllValid.rename_eq h.fixes fun e he => (hoperands e he).valid
  rw [hfixed] at hfollows
  have horderly := closed_applied Orderly.pervasive.toClosed (orderly_visitWithin room) operands
  refine h.follows hfollows (horderly head) (horderly _) hcount fun v m₁ hv => ?_
  exact applied_valid h.valid (fun e he => (hoperands e he).valid.grows h.grows) hhead hv

end Stays

/-! ## Reduced expressions -/

section Reduced

variable {a₀ z : Machine} {room : Nat}
  (hreduced : ∀ {σ : Renaming} {e r : Value} {a a' m m' : Machine}, Beside a₀ z σ a m m' →
    Given a₀ e → Holds z.placeholders room e a m → visitWithin room e a = (.ok r, a') →
    a'.Prepares z → EndedBeside a₀ z a' σ m.store Value.rename (visitWithin room e m)
      (visitWithin room r m'))
include hreduced

/-- Reduced operands end as the operands do. -/
theorem visitAll_reduced {σ : Renaming} {es rs : List Value} {a a' m m' : Machine}
    (h : Beside a₀ z σ a m m') (hes : ∀ e ∈ es, Given a₀ e)
    (hholds : AllHold (visitWithin room) (Holds z.placeholders room) es a m)
    (hr : Application.visitAll (visitWithin room) es a = (.ok rs, a')) (hz : a'.Prepares z) :
    EndedBeside a₀ z a' σ m.store (fun τ => List.map (Value.rename τ))
      (Application.visitAll (visitWithin room) es m)
      (Application.visitAll (visitWithin room) rs m') := by
  induction es generalizing σ rs a m m' with
  | nil =>
    cases hr
    exact h.done (fun τ => List.map (Value.rename τ)) []
  | cons e es ih =>
    obtain ⟨he, hes⟩ := List.forall_mem_cons.1 hes
    obtain ⟨r, a₁, rs', rfl, hfirst, hrest⟩ := visitAll_cons_ok hr
    obtain ⟨hstage, -⟩ := he.stage h.stage hfirst
    obtain ⟨-, hnext, -⟩ := Given.stageAll hes hstage hrest
    unfold Application.visitAll
    rw [List.mapM_cons, List.mapM_cons]
    refine (hreduced h he hholds.1 hfirst (hnext.trans hz)).bind fun v τ m₁ m₁' hv _ _ hbeside => ?_
    refine (ih hbeside hes (hholds.2 r a₁ v m₁ hfirst hv) hrest).bind
      fun vs υ m₂ m₂' _ _ hυ hbeside' => ?_
    -- The value of the first operand is not changed by numbers that were given out later.
    obtain ⟨-, hvalid⟩ := visitWithin_valid h.valid (he.valid.grows h.grows) hv
    rw [← hvalid.rename_congr hυ]
    exact hbeside'.done (fun τ => List.map (Value.rename τ)) (v :: vs)

/-- An expression that was reduced to a settled value has this value. -/
theorem visitWithin_known {σ : Renaming} {e r : Value} {a a' m m' : Machine}
    (h : Beside a₀ z σ a m m') (he : Given a₀ e) (hholds : Holds z.placeholders room e a m)
    (hr : visitWithin room e a = (.ok r, a')) (hz : a'.Prepares z) (hsettled : m'.Settles r) :
    EndedBeside a₀ z a' σ m.store Value.rename (visitWithin room e m) (.ok r, m') := by
  have hended := hreduced h he hholds hr hz
  cases room with
  | zero => cases hr
  | succ room =>
    obtain ⟨m₁, hvisit, hnoted⟩ := visitWithin_settled room hsettled h.level'
    rw [hvisit] at hended
    exact hended.noted (.refl a') (.refl _) hnoted.symm

/-- Operands that were reduced to settled values have these values. -/
theorem visitAll_known {σ : Renaming} {es rs : List Value} {a a' m m' : Machine}
    (h : Beside a₀ z σ a m m') (hes : ∀ e ∈ es, Given a₀ e)
    (hholds : AllHold (visitWithin room) (Holds z.placeholders room) es a m)
    (hr : Application.visitAll (visitWithin room) es a = (.ok rs, a')) (hz : a'.Prepares z)
    (hsettled : ∀ r ∈ rs, m'.Settles r) :
    EndedBeside a₀ z a' σ m.store (fun τ => List.map (Value.rename τ))
      (Application.visitAll (visitWithin room) es m) (.ok rs, m') := by
  have hended := visitAll_reduced hreduced h hes hholds hr hz
  cases room with
  | zero =>
    cases es with
    | nil =>
      cases hr
      exact hended
    | cons e es =>
      obtain ⟨_, _, _, -, hfirst, -⟩ := visitAll_cons_ok hr
      cases hfirst
  | succ room =>
    obtain ⟨m₁, hvisit, hnoted⟩ := visitAll_settled room h.level' hsettled
    rw [hvisit] at hended
    exact hended.noted (.refl a') (.refl _) hnoted.symm

/-! ### Applications -/

/-- An application that was put together again ends as the application does. -/
theorem applied_rebuilt {σ : Renaming} {operands args : List Value} {known head : Value}
    {a a₁ a' m m' : Machine} (h : Beside a₀ z σ a m m') (hoperands : ∀ e ∈ operands, Given a₀ e)
    (hhead : head.Valid m.store)
    (hholds : OperandsHold (visitWithin room) (Holds z.placeholders room) known head operands a m)
    (hargs : Application.visitAll (visitWithin room) operands a = (.ok args, a₁))
    (hstage : Stage a₀ a') (hprepares : a₁.Prepares a')
    (hsame : a'.placeholders = a₁.placeholders) (hz : a'.Prepares z)
    (hcount : a'.placeholders < z.placeholders →
      (applied (visitWithin room) operands head m).2.placeholders ≤ a'.placeholders) :
    EndedBeside a₀ z a' σ m.store Value.rename (applied (visitWithin room) operands head m)
      (applied (visitWithin room) args (head.rename σ) m') := by
  obtain ⟨hcode, hvalues⟩ := hholds args a₁ hargs
  obtain ⟨hstage₁, hprepares₁, -, hargsValid⟩ := Given.stageAll hoperands h.stage hargs
  have hvalid : ∀ v m₁, applied (visitWithin room) operands head m = (.ok v, m₁) → m₁.Valid :=
    fun v m₁ hv =>
      applied_valid h.valid (fun e he => (hoperands e he).valid.grows h.grows) hhead hv
  cases hf : head.callable? m.store with
  | none =>
    have hf' : (head.rename σ).callable? m'.store = none := by
      rw [h.store.callable?, hf]
      rfl
    rw [applied_none _ _ hf, applied_none _ _ hf', if_neg (by simp [h.level]),
      if_neg (by simp [h.level'])]
    have horderly := Orderly.pervasive.toClosed.notCallable (α := Value)
    refine (h.follows (Follows.notCallable head) (horderly head) (horderly _) (fun hlast => ?_)
      fun v m₁ hv => (by cases hv)).failed fun v hv => (by cases hv)
    exact Nat.le_of_eq (h.waiting hlast)
  | some f =>
    cases htakes : head.takesCode with
    | true =>
      obtain ⟨rfl, hnone⟩ := hcode htakes
      exact applied_written (h.advance hstage (hprepares₁.trans hprepares) hz (hsame.trans hnone))
        hoperands hhead hcount
    | false =>
      have htakes' : head.takesValues = true := by
        rw [Value.takesValues_eq hf, htakes]
        rfl
      have hrename : (head.rename σ).takesValues = true := by
        rw [← htakes']
        cases head <;> rfl
      rw [applied_full room operands h.level htakes'] at hcount hvalid ⊢
      rw [applied_full room args h.level' hrename]
      refine (visitAll_reduced hreduced h hoperands (hvalues htakes').1 hargs
        (hprepares.trans hz)).bind fun vs τ m₁ m₁' hvs _ hτ hbeside => ?_
      rw [Eval.bind_apply, hvs] at hcount
      rw [← hhead.rename_congr hτ]
      have hfollows := Follows.apply (follows_visitWithin τ room) head vs
      have horderly := Orderly.pervasive.toClosed.apply (orderly_visitWithin room)
      refine (hbeside.advance hstage hprepares hz hsame).follows hfollows (horderly head vs)
        (horderly _ _) hcount fun v m₂ hv => hvalid v m₂ ?_
      rw [Eval.bind_apply, hvs]
      exact hv

/-- An application that was calculated ends with the value that was found. -/
theorem applied_calculated {σ : Renaming} {operands args : List Value} {f : NativeFunction}
    {r : Value} {a a₁ a' m m' : Machine} (h : Beside a₀ z σ a m m') (hf : f.isStandard = true)
    (hlevel : f.level = .full) (hoperands : ∀ e ∈ operands, Given a₀ e)
    (hholds : OperandsHold (visitWithin room) (Holds z.placeholders room) (.native f) (.native f)
      operands a m)
    (hargs : Application.visitAll (visitWithin room) operands a = (.ok args, a₁))
    (hcalculates : (Value.native f).calculates args = true)
    (hr : Application.apply (visitWithin room) (.native f) args a₁ = (.ok r, a'))
    (hstage : Stage a₀ a') (hprepares : a₁.Prepares a') (hz : a'.Prepares z) :
    EndedBeside a₀ z a' σ m.store Value.rename (applied (visitWithin room) operands (.native f) m)
      (step (visitWithin room) r m') := by
  have hvalues : (Value.native f).takesValues = true := by
    simp [Value.takesValues, NativeFunction.isSpecialForm, hlevel]
  obtain ⟨-, -, -, hargsValid⟩ := Given.stageAll hoperands h.stage hargs
  obtain ⟨hall, hcalculation⟩ := (hholds args a₁ hargs).2 hvalues
  obtain ⟨hsettled, hagain⟩ := hcalculation f rfl hcalculates
  rw [applied_full room operands h.level hvalues]
  -- The second run has nothing to do.
  change EndedBeside _ _ _ _ _ _ _ ((pure args >>= fun _ => step (visitWithin room) r : Eval Value) m')
  refine (visitAll_known hreduced h hoperands hall hargs (hprepares.trans hz) fun v hv =>
    (h.settles_iff v).2 (hsettled v hv)).bind fun vs τ m₁ m₁' hvs hsame hτ hbeside => ?_
  obtain ⟨hfound, rfl⟩ := Prod.mk.inj hsame
  obtain rfl := Except.ok.inj hfound
  obtain ⟨hresult, hreads⟩ := hagain r a' vs m₁ hr hvs
  rw [step_settled _ ((hbeside.settles_iff r).2 hresult) hbeside.level']
  have hvisit : ∀ s e, e.Valid s → Keeps .none s Value.Valid (visitWithin room e) :=
    fun _ _ he => Keeps.visitWithin room he
  obtain ⟨-, -, hvsValid⟩ := Keeps.visitAll hvisit
    (fun e he => (hoperands e he).valid.grows h.grows) m (.refl _) h.valid.upholds_none
  rw [hvs] at hvsValid
  have hvsValid := hvsValid vs rfl
  refine hbeside.native (follows_visitWithin τ room) (orderly_visitWithin room) hf hlevel hvsValid
    hargsValid hcalculates hr hresult.1 hreads hstage hz fun v m₂ hv => ?_
  obtain ⟨-, hupholds, -⟩ := Keeps.apply hvisit (show (Value.native f).Valid _ from trivial) hvsValid
    m₁ (.refl _) hbeside.valid.upholds_none
  rw [hv] at hupholds
  exact hupholds.toValid

/-- A call that was calculated ends with the value that was found, since its head is the function that
was found. -/
theorem called_calculated {σ : Renaming} {car known r : Value} {operands args : List Value}
    {a a₁ a₂ a' m m' : Machine} (h : Beside a₀ z σ a m m') (hcar : Given a₀ car)
    (hoperands : ∀ e ∈ operands, Given a₀ e) (hcarHolds : Holds z.placeholders room car a m)
    (hholds : ∀ head m₁, visitWithin room car m = (.ok head, m₁) →
      OperandsHold (visitWithin room) (Holds z.placeholders room) known head operands a₁ m₁)
    (hcode : known.takesCode = false) (hhead : visitWithin room car a = (.ok known, a₁))
    (hargs : Application.visitAll (visitWithin room) operands a₁ = (.ok args, a₂))
    (hcalculates : known.calculates args = true)
    (hr : Application.apply (visitWithin room) known args a₂ = (.ok r, a')) (hz : a'.Prepares z) :
    EndedBeside a₀ z a' σ m.store Value.rename
      ((visitWithin room car >>= applied (visitWithin room) operands) m)
      (step (visitWithin room) r m') := by
  obtain ⟨f, rfl⟩ : ∃ f, known = .native f := by
    cases known with
    | native f => exact ⟨f, rfl⟩
    | _ => cases hcalculates
  have hcallable : (Value.native f).callable? a₁.store = some (.native f) := rfl
  have hlevel : f.level = .full := by
    refine Value.level_of_takesValues hcallable ?_
    rw [Value.takesValues_eq hcallable, hcode]
    rfl
  obtain ⟨hstage₁, -, hstandard, -⟩ := hcar.stage h.stage hhead
  obtain ⟨hstage₂, hprepares₂, hargsStandard, hargsValid⟩ := Given.stageAll hoperands hstage₁ hargs
  obtain ⟨hstage, hprepares⟩ :=
    stage_calculation hstage₂ hstandard hlevel hcalculates hargsStandard hargsValid hr
  -- The second run has the function already.
  change EndedBeside _ _ _ _ _ _ _
    ((pure (Value.native f) >>= fun _ => step (visitWithin room) r : Eval Value) m')
  refine (visitWithin_known hreduced h hcar hcarHolds hhead (hprepares₂.trans (hprepares.trans hz))
    ⟨rfl, fun _ h => by cases h⟩).bind fun head τ m₁ m₁' hvisit hsame _ hbeside => ?_
  obtain ⟨hfound, rfl⟩ := Prod.mk.inj hsame
  obtain rfl : head = .native f := by
    cases head <;> cases hfound
    rfl
  exact applied_calculated hreduced hbeside hstandard hlevel hoperands (hholds _ m₁ hvisit) hargs
    hcalculates hr hstage hprepares hz

/-- The reduction of an application ends as the application does. -/
theorem visitPair_reduced {σ : Renaming} {stamp : Nat} {car cdr r : Value} {a a' m m' : Machine}
    (h : Beside a₀ z σ a m m') (he : Given a₀ (.pair stamp car cdr)) (hcar : car.isNil = false)
    (hholds : StepHolds (visitWithin room) (Holds z.placeholders room) (.pair stamp car cdr) a m)
    (hcount : CountHolds z.placeholders (step (visitWithin room) (.pair stamp car cdr)) a m)
    (hr : step (visitWithin room) (.pair stamp car cdr) a = (.ok r, a')) (hz : a'.Prepares z) :
    EndedBeside a₀ z a' σ m.store Value.rename
      (step (visitWithin room) (.pair stamp car cdr) m) (step (visitWithin room) r m') := by
  obtain ⟨operands, known, a₁, hcdr, hhead, happlied⟩ := visitPair_ok (by simp [h.stage.level]) hcar hr
  obtain ⟨hcarGiven, hoperands⟩ := he.pair hcdr
  obtain ⟨hcarHolds, hothers⟩ := hholds hcar operands hcdr
  obtain ⟨hknown, hothers⟩ := hothers known a₁ hhead
  obtain ⟨hstage₁, -, hstandard, hvalid⟩ := hcarGiven.stage h.stage hhead
  have hm' : m'.level ≠ .asWritten := by simp [h.level']
  have hfirst : step (visitWithin room) (.pair stamp car cdr) m =
      (visitWithin room car >>= applied (visitWithin room) operands) m :=
    visitPair_eq _ _ (by simp [h.level]) hcar hcdr
  have hcounted : ∀ head m₁, visitWithin room car m = (.ok head, m₁) →
      a'.placeholders < z.placeholders →
        (applied (visitWithin room) operands head m₁).2.placeholders ≤ a'.placeholders := by
    intro head m₁ hvisit hlast
    have hmade := hcount r a' hr hlast
    rwa [hfirst, Eval.bind_apply, hvisit] at hmade
  have hcarValid := hcarGiven.valid.grows h.grows
  rw [hfirst]
  rcases applied_ahead hstage₁.level happlied with
    ⟨-, hrebuild⟩ | ⟨hcode, args, a₂, hargs, hrebuild | ⟨hcalculates, happly⟩⟩
  · -- The head takes code, so only the head was reduced.
    obtain ⟨hstage, hprepares, hsame⟩ := stage_rebuild hstage₁ hstandard hvalid
      (fun e he => (hoperands e he).standard)
      (fun e he => (hoperands e he).valid.grows hstage₁.since.grows) hrebuild
    obtain ⟨-, stamp', cdr', rfl, hcdr'⟩ := rebuild_ok hrebuild
    change EndedBeside _ _ _ _ _ _ _ (visitPair _ _ known cdr' m')
    rw [visitPair_eq _ _ hm' hknown hcdr']
    refine (hreduced h hcarGiven hcarHolds hhead (hprepares.trans hz)).bind
      fun head τ m₁ m₁' hvisit _ _ hbeside => ?_
    exact applied_written (hbeside.advance hstage hprepares hz hsame) hoperands
      (visitWithin_valid h.valid hcarValid hvisit).2 (hcounted head m₁ hvisit)
  · -- The operands were reduced, too, and the application was put together again.
    obtain ⟨hstage₂, hprepares₂, hargsStandard, hargsValid⟩ :=
      Given.stageAll hoperands hstage₁ hargs
    obtain ⟨hstage, hprepares, hsame⟩ := stage_rebuild hstage₂ hstandard
      (hvalid.grows hprepares₂.grows) hargsStandard hargsValid hrebuild
    obtain ⟨-, stamp', cdr', rfl, hcdr'⟩ := rebuild_ok hrebuild
    change EndedBeside _ _ _ _ _ _ _ (visitPair _ _ known cdr' m')
    rw [visitPair_eq _ _ hm' hknown hcdr']
    refine (hreduced h hcarGiven hcarHolds hhead (hprepares₂.trans (hprepares.trans hz))).bind
      fun head τ m₁ m₁' hvisit _ _ hbeside => ?_
    exact applied_rebuilt hreduced hbeside hoperands (visitWithin_valid h.valid hcarValid hvisit).2
      (hothers head m₁ hvisit hcode) hargs hstage hprepares hsame hz (hcounted head m₁ hvisit)
  · exact called_calculated hreduced h hcarGiven hoperands hcarHolds
      (fun head m₁ hvisit => hothers head m₁ hvisit hcode) hcode hhead hargs hcalculates happly hz

end Reduced

/-- The value that a name was replaced by is the value of the name. -/
theorem visitSymbol_reduced {a₀ z a a' m m' : Machine} {σ : Renaming} {room : Nat} {name : String}
    {v r : Value} (h : Beside a₀ z σ a m m') (hholds : NameHolds a m name)
    (hv : a.lookup? name = some v) (hresidual : v.isResidual = false)
    (hr : resolved v a = (.ok r, a')) :
    EndedBeside a₀ z a' σ m.store Value.rename (visitSymbol name m)
      (step (visitWithin room) r m') := by
  obtain ⟨hbound, htype⟩ := hholds v hv hresidual
  have hvalid := h.stage.start.lookup? ((h.stage.since.lookup? name).symm.trans hv)
  have hdone := h.done Value.rename v
  rw [hvalid.rename_eq h.fixes] at hdone
  rw [visitSymbol_bound h.level hbound]
  cases v with
  | type tag => exact resolveType_reduced h (htype tag rfl) hr
  | _ =>
    cases hr
    rw [step_settled _ ⟨hresidual, fun _ h => by cases h⟩ h.level']
    exact hdone

/-- **The reduced expression ends as the expression does.** -/
theorem visitWithin_reduced {a₀ z a a' m m' : Machine} {σ : Renaming} {room : Nat} {e r : Value}
    (h : Beside a₀ z σ a m m') (he : Given a₀ e) (hholds : Holds z.placeholders room e a m)
    (hr : visitWithin room e a = (.ok r, a')) (hz : a'.Prepares z) :
    EndedBeside a₀ z a' σ m.store Value.rename (visitWithin room e m) (visitWithin room r m') := by
  induction room generalizing σ e r a a' m m' with
  | zero => cases hr
  | succ room ih =>
    obtain ⟨hholds, hcount⟩ := hholds
    obtain ⟨a₁, hstep, hnoted₁⟩ := step_of_visitWithin hr
    obtain ⟨m₁, hvisit, hnoted⟩ := visitWithin_succ room e m
    obtain ⟨m₁', hvisit', hnoted'⟩ := visitWithin_succ room r m'
    have hz₁ := hnoted₁.prepares.trans hz
    have hinside : Beside a₀ z σ (inside e a) (inside e m) (inside r m') :=
      h.noted (inside_noted e a) (inside_noted e m) (inside_noted r m')
    suffices hsteps : EndedBeside a₀ z a₁ σ (inside e m).store Value.rename
        (step (visitWithin room) e (inside e m)) (step (visitWithin room) r (inside r m')) by
      rw [hvisit, hvisit', ← (inside_noted e m).store]
      exact hsteps.noted hnoted₁ hnoted hnoted'
    cases e with
    | pair stamp car cdr =>
      cases hcar : car.isNil with
      | true =>
        have hsame : step (visitWithin room) (.pair stamp car cdr) (inside (.pair stamp car cdr) a) =
            (.ok (.pair stamp car cdr), inside (.pair stamp car cdr) a) := visitPair_nil _ _ hcar
        rw [hsame] at hstep
        cases hstep
        exact step_stays hinside he hsame hcount
      | false => exact visitPair_reduced ih hinside he hcar hholds hcount hstep hz₁
    | quoted inner =>
      have hsame : step (visitWithin room) (.quoted inner) (inside (.quoted inner) a) =
          (.ok (.quoted inner), inside (.quoted inner) a) := visitQuoted_ahead _ _ _ hinside.stage.level
      rw [hsame] at hstep
      cases hstep
      exact step_stays hinside he hsame hcount
    | symbol name =>
      rcases visitSymbol_ahead hinside.stage.level hstep with ⟨rfl, rfl⟩ | ⟨v, hv, hresidual, hresolved⟩
      · exact step_stays hinside he hstep hcount
      · exact visitSymbol_reduced hinside hholds hv hresidual hresolved
    | type tag =>
      rw [step_type _ _ (by simp [hinside.stage.level])] at hstep
      rw [step_type _ _ (by simp [hinside.level])]
      exact resolveType_reduced hinside hholds hstep
    | _ =>
      cases hstep
      exact step_stays hinside he rfl hcount

/-- A reduced body ends as the body does. -/
theorem sequence_reduced {a₀ z a m m' : Machine} {σ : Renaming} {room : Nat} {es rs : List Value}
    (h : Beside a₀ z σ a m m') (hes : ∀ e ∈ es, Given a₀ e)
    (hholds : AllHold (visitWithin room) (Holds z.placeholders room) es a m)
    (hr : Application.visitAll (visitWithin room) es a = (.ok rs, z)) :
    EndedBeside a₀ z z σ m.store Value.rename (SpecialForm.sequence (visitWithin room) es m)
      (SpecialForm.sequence (visitWithin room) rs m') := by
  induction es generalizing σ rs a m m' with
  | nil =>
    cases hr
    exact h.done Value.rename .nil
  | cons e es ih =>
    obtain ⟨he, hes⟩ := List.forall_mem_cons.1 hes
    obtain ⟨r, a₁, rs', rfl, hfirst, hrest⟩ := visitAll_cons_ok hr
    obtain ⟨hstage, -⟩ := he.stage h.stage hfirst
    obtain ⟨-, hnext, -⟩ := Given.stageAll hes hstage hrest
    have hreduced := visitWithin_reduced h he hholds.1 hfirst hnext
    cases es with
    | nil =>
      cases hrest
      exact hreduced
    | cons e' es =>
      obtain ⟨r', a₂, rs'', rfl, -, -⟩ := visitAll_cons_ok hrest
      refine hreduced.bind fun v τ m₁ m₁' hv _ _ hbeside => ?_
      exact ih hbeside hes (hholds.2 r a₁ v m₁ hfirst hv) hrest

end CurryLisp.Evaluation
