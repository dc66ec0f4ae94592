import CurryLisp.Proofs.References.Evaluation
import CurryLisp.Proofs.Renaming.Evaluation
import CurryLisp.Proofs.StackDiscipline

/-!
# Steps at two levels

Ahead of time a step either keeps a node, or finds the value of a name or of a calculation, or puts an
application together again from reduced parts (`applied_ahead`). Completely evaluated, a value that
stands for no code gives itself (`visitWithin_settled`), and an application gives what its head answers
to its evaluated operands (`applied_full`).
-/

namespace CurryLisp

open SpecialForm (Visit)

/-! ## Heads of applications -/

namespace Value

/-- Whether a head takes its operands as written. -/
def takesCode : Value → Bool
  | native f => f.isSpecialForm
  | struct _ => true
  | _ => false

/-- Whether a head takes its operands evaluated. -/
def takesValues : Value → Bool
  | native f => !f.isSpecialForm
  | closure _ => true
  | _ => false

/-- Whether an application is calculated ahead of time: the head is a pure function and no argument
stands for code. -/
def calculates (args : List Value) : Value → Bool
  | native f => f.isPure && !args.any isResidual
  | _ => false

theorem rank_lt_of_takesCode {head : Value} {f : Callable} {s : Store}
    (hf : head.callable? s = some f) : f.level.rank < Level.full.rank ↔ head.takesCode = true := by
  cases head with
  | native g =>
    cases hf
    simp [takesCode, NativeFunction.isSpecialForm, Callable.level]
  | closure a =>
    cases hf
    simp [takesCode, Callable.level]
  | struct a =>
    cases hf
    simp [takesCode, Callable.level, Level.rank]
  | _ => cases hf

/-- What cannot be called takes no operands. -/
theorem takesCode_of_not_callable {head : Value} {s : Store} (h : head.callable? s = none) :
    head.takesCode = false := by
  cases head with
  | native g => cases h
  | struct a => cases h
  | _ => rfl

theorem takesValues_eq {head : Value} {f : Callable} {s : Store} (hf : head.callable? s = some f) :
    head.takesValues = !head.takesCode := by
  cases head with
  | native g => rfl
  | closure a => rfl
  | struct a => rfl
  | _ => cases hf

theorem level_of_takesValues {head : Value} {f : Callable} {s : Store}
    (hf : head.callable? s = some f) (hhead : head.takesValues = true) : f.level = .full := by
  rw [takesValues_eq hf, Bool.not_eq_true'] at hhead
  have hrank : ¬ f.level.rank < Level.full.rank := by
    rw [rank_lt_of_takesCode hf, hhead]
    exact Bool.false_ne_true
  cases hlevel : f.level with
  | full => rfl
  | asWritten => exact absurd (by rw [hlevel]; decide) hrank
  | ahead => exact absurd (by rw [hlevel]; decide) hrank

end Value

/-- A list with an item is a pair of the item and the list of the others. -/
theorem Value.eq_pair_of_toList? {v item : Value} {items : List Value}
    (h : v.toList? = some (item :: items)) :
    ∃ stamp cdr, v = .pair stamp item cdr ∧ cdr.toList? = some items := by
  unfold toList? at h
  cases v with
  | pair stamp car cdr =>
    unfold spine at h
    rcases hspine : cdr.spine with ⟨rest, _ | tail⟩
    · rw [hspine] at h
      cases h
      exact ⟨stamp, cdr, rfl, by rw [toList?, hspine]⟩
    · rw [hspine] at h
      cases h
  | _ => cases h

/-- A new list has the items it was made of. -/
theorem Store.toList?_list (items : List Value) (s : Store) :
    (s.list items).1.toList? = some items := by
  have hspine : (s.list items).1.spine = (items, none) := by
    unfold Store.list Store.chain
    induction items with
    | nil => rfl
    | cons item rest ih =>
      rw [List.foldr_cons]
      show (item :: Prod.fst (Value.spine _), _) = _
      rw [ih]
  rw [Value.toList?, hspine]

theorem Store.closure_newClosure (s : Store) (c : Closure) :
    (s.newClosure c).2.closure s.closures.size = c := by
  simp [Store.newClosure, Store.closure, Array.getD_eq_getD_getElem?]

/-! ## Settled values -/

/-- Evaluating `v` gives `v`: it stands for no code, and if it is a type, it is registered. -/
def Machine.Settles (m : Machine) (v : Value) : Prop :=
  v.isResidual = false ∧ ∀ tag, v = .type tag → m.lookupType? tag.name = some tag

theorem Machine.Noted.settles_iff {m m' : Machine} (hm : m.Noted m') (v : Value) :
    m'.Settles v ↔ m.Settles v := by
  obtain ⟨_, _, _, rfl⟩ := hm
  exact Iff.rfl

namespace Evaluation

section Along

variable {α : Type} {room : Nat} {m m' : Machine}

theorem level_visitWithin {e : Value} {result : Except Error Value}
    (h : visitWithin room e m = (result, m')) : m'.level = m.level := by
  have hframed := Machine.Framed.policy.pervasive.visitWithin room e m
  rw [h] at hframed
  exact hframed.level

theorem level_visitAll {es : List Value} {results : Except Error (List Value)}
    (h : Application.visitAll (visitWithin room) es m = (results, m')) : m'.level = m.level := by
  have hframed := Machine.Framed.policy.pervasive.visitAll
    (Machine.Framed.policy.pervasive.visitWithin room) es m
  rw [h] at hframed
  exact hframed.level

end Along

/-! ## Settled values and names -/

/-- A registered type is resolved. -/
theorem resolveType_found {tag found : TypeTag} {m : Machine}
    (h : m.lookupType? tag.name = some found) :
    resolveType tag m = (.ok (.type found), m) := by
  unfold resolveType
  rw [Eval.bind_apply, Eval.get_apply]
  dsimp only
  rw [h]
  rfl

theorem step_type (visit : Visit) (tag : TypeTag) {m : Machine} (hm : m.level ≠ .asWritten) :
    step visit (.type tag) m = resolveType tag m := by
  change (get >>= fun m : Machine =>
    if m.level = .asWritten then pure (.type tag) else resolveType tag : Eval Value) m = _
  rw [Eval.bind_apply, Eval.get_apply]
  dsimp only
  rw [if_neg hm]

theorem step_settled (visit : Visit) {v : Value} {m : Machine} (hv : m.Settles v)
    (hm : m.level = .full) : step visit v m = (.ok v, m) := by
  obtain ⟨hresidual, htype⟩ := hv
  cases v with
  | symbol name => cases hresidual
  | quoted inner => cases hresidual
  | pair stamp car cdr => cases hresidual
  | type tag =>
    rw [step_type visit tag (by simp [hm])]
    exact resolveType_found (htype tag rfl)
  | _ => rfl

section Atoms

variable {a a' m : Machine} {tag : TypeTag} {name : String} {r v : Value}

/-- Ahead of time a type is found, or its reference stays. -/
theorem resolveType_ahead (ha : a.level = .ahead) (hr : resolveType tag a = (.ok r, a')) :
    a' = a ∧ ((∃ found, a.lookupType? tag.name = some found ∧ r = .type found) ∨
      a.lookupType? tag.name = none ∧ r = .type tag) := by
  cases hfound : a.lookupType? tag.name with
  | some found =>
    rw [resolveType_found hfound] at hr
    cases hr
    exact ⟨rfl, .inl ⟨found, rfl, rfl⟩⟩
  | none =>
    unfold resolveType at hr
    rw [Eval.bind_apply, Eval.get_apply] at hr
    dsimp only at hr
    rw [hfound] at hr
    dsimp only at hr
    rw [if_pos ha] at hr
    cases hr
    exact ⟨rfl, .inr ⟨rfl, rfl⟩⟩

/-- The value of a name, from what it is bound to. -/
def resolved : Value → Eval Value
  | .type tag => resolveType tag
  | v => return v

/-- Completely evaluated, a bound name has its value. -/
theorem visitSymbol_bound (hm : m.level = .full) (hv : m.lookup? name = some v) :
    visitSymbol name m = resolved v m := by
  unfold visitSymbol
  rw [Eval.bind_apply, Eval.get_apply]
  dsimp only
  rw [if_neg (by simp [hm]), hv]
  dsimp only
  rw [if_neg (by simp [hm])]
  cases v <;> rfl

/-- Ahead of time a name stays, or it has a value that stands for no code. -/
theorem visitSymbol_ahead (ha : a.level = .ahead) (hr : visitSymbol name a = (.ok r, a')) :
    (r = .symbol name ∧ a' = a) ∨
      ∃ v, a.lookup? name = some v ∧ v.isResidual = false ∧ resolved v a = (.ok r, a') := by
  unfold visitSymbol at hr
  rw [Eval.bind_apply, Eval.get_apply] at hr
  dsimp only at hr
  rw [if_neg (by simp [ha])] at hr
  cases hv : a.lookup? name with
  | none =>
    rw [hv] at hr
    dsimp only at hr
    rw [if_pos ha] at hr
    cases hr
    exact .inl ⟨rfl, rfl⟩
  | some v =>
    rw [hv] at hr
    dsimp only at hr
    by_cases hresidual : v.isResidual = true
    · rw [if_pos (by simp [ha, hresidual])] at hr
      cases hr
      exact .inl ⟨rfl, rfl⟩
    · rw [if_neg (by simp [hresidual])] at hr
      refine .inr ⟨v, rfl, by simpa using hresidual, ?_⟩
      cases v <;> exact hr

end Atoms

/-- **A settled value gives itself.** -/
theorem visitWithin_settled (room : Nat) {v : Value} {m : Machine} (hv : m.Settles v)
    (hm : m.level = .full) : ∃ m', visitWithin (room + 1) v m = (.ok v, m') ∧ m.Noted m' := by
  have hinside := inside_noted v m
  obtain ⟨m', hvisit, hnoted⟩ := visitWithin_of_step
    (step_settled (visitWithin room) ((hinside.settles_iff v).2 hv) (hinside.level.trans hm))
  exact ⟨m', hvisit, hinside.trans hnoted⟩

/-! ## Applications -/

/-- The first of several evaluations that succeed. -/
theorem visitAll_cons_ok {visit : Visit} {e : Value} {es rs : List Value} {m m' : Machine}
    (h : Application.visitAll visit (e :: es) m = (.ok rs, m')) :
    ∃ r m₁ rs', rs = r :: rs' ∧ visit e m = (.ok r, m₁) ∧
      Application.visitAll visit es m₁ = (.ok rs', m') := by
  unfold Application.visitAll at h ⊢
  rw [List.mapM_cons] at h
  obtain ⟨r, m₁, hfirst, h⟩ := Eval.bind_eq_ok h
  obtain ⟨rs', m₂, hrest, h⟩ := Eval.bind_eq_ok h
  cases h
  exact ⟨r, m₁, rs', rfl, hfirst, hrest⟩

theorem visitAll_cons_of_ok {visit : Visit} {e r : Value} {es rs : List Value} {m m₁ m' : Machine}
    (hfirst : visit e m = (.ok r, m₁)) (hrest : Application.visitAll visit es m₁ = (.ok rs, m')) :
    Application.visitAll visit (e :: es) m = (.ok (r :: rs), m') := by
  unfold Application.visitAll at hrest ⊢
  rw [List.mapM_cons, Eval.bind_apply, hfirst]
  dsimp only
  rw [Eval.bind_apply, hrest]
  rfl

/-- A computation that keeps the level runs as it is at that level. -/
theorem withLevel_eq {α : Type} {level : Level} {x : Eval α} {m : Machine} (hm : m.level = level)
    (hx : (x m).2.level = level) : Eval.withLevel level x m = x m := by
  have hatLevel : m.atLevel level = m := by
    subst hm
    rfl
  change ((x (m.atLevel level)).1, (x (m.atLevel level)).2.atLevel m.level) = x m
  rw [hatLevel, hm, ← hx]
  rfl

/-- What a step does with an application once the value of its head is known. -/
def applied (visit : Visit) (operands : List Value) (head : Value) : Eval Value := do
  match head.callable? (← Eval.store) with
  | some f => visitApplication visit head f operands
  | none =>
    if (← get).level = .ahead then
      let args ← Application.visitAll visit operands
      rebuild head args
    else Application.notCallable head

theorem closed_applied {Q : {α : Type} → Eval α → Prop} (hQ : Closed Q) {visit : Visit}
    (hv : ∀ e, Q (visit e)) (operands : List Value) (head : Value) :
    Q (applied visit operands head) := by
  refine hQ.bind hQ.store fun s => ?_
  split
  · exact hQ.visitApplication hv head _ operands
  · refine hQ.get (fun _ _ => rfl) fun m => ?_
    split
    · exact hQ.bind (hQ.visitAll hv operands) fun args => hQ.rebuild head args
    · exact hQ.notCallable head

/-- What an application leads to is valid. -/
theorem applied_valid {room : Nat} {operands : List Value} {head v : Value} {m m' : Machine}
    (hm : m.Valid) (hoperands : Value.AllValid m.store operands) (hhead : head.Valid m.store)
    (hv : applied (visitWithin room) operands head m = (.ok v, m')) : m'.Valid := by
  have hvisit : ∀ s e, e.Valid s → Keeps .none s Value.Valid (visitWithin room e) :=
    fun _ _ he => Keeps.visitWithin room he
  have hkeeps : Keeps .none m.store Value.Valid (applied (visitWithin room) operands head) := by
    refine Keeps.store fun s hs _ => ?_
    split
    · exact Keeps.visitApplication hvisit (hhead.grows hs) _ (hoperands.grows hs)
    · refine Keeps.get fun m₁ hm₁ _ => ?_
      split
      · refine Keeps.bind (Keeps.visitAll hvisit ((hoperands.grows hs).grows hm₁))
          fun s₁ args hs₁ hargs => ?_
        exact Keeps.rebuild (hhead.grows (hs.trans (hm₁.trans hs₁))) hargs
      · exact Keeps.notCallable _
  obtain ⟨-, hupholds, -⟩ := hkeeps m (.refl _) hm.upholds_none
  rw [hv] at hupholds
  exact hupholds.toValid

/-- An application follows the renamed application. -/
theorem follows_applied {σ : Renaming} {visit visit' : Visit}
    (hv : ∀ e, Follows σ (Value.rename σ) (visit e) (visit' (e.rename σ))) (operands : List Value)
    (head : Value) : Follows σ (Value.rename σ) (applied visit operands head)
      (applied visit' (operands.map (Value.rename σ)) (head.rename σ)) := by
  refine Follows.store fun s s' h => ?_
  rw [h.callable?]
  cases head.callable? s with
  | some f => exact Follows.visitApplication hv head f operands
  | none =>
    refine Follows.get fun m m' hm => ?_
    rw [hm.level]
    split
    · exact Follows.bind (Follows.visitAll hv operands) fun args => Follows.rebuild head args
    · exact Follows.notCallable head

theorem visitPair_eq (visit : Visit) (e : Value) {car cdr : Value} {operands : List Value}
    {m : Machine} (hlevel : m.level ≠ .asWritten) (hcar : car.isNil = false)
    (hcdr : cdr.toList? = some operands) :
    visitPair visit e car cdr m = (visit car >>= applied visit operands) m := by
  unfold visitPair
  rw [Eval.bind_apply, Eval.get_apply]
  dsimp only
  rw [if_neg (by simp [hlevel, hcar]), hcdr]
  rfl

/-- A pair whose head is `nil` stays. -/
theorem visitPair_nil (visit : Visit) (e : Value) {car cdr : Value} {m : Machine}
    (hcar : car.isNil = true) : visitPair visit e car cdr m = (.ok e, m) := by
  unfold visitPair
  rw [Eval.bind_apply, Eval.get_apply]
  dsimp only
  rw [if_pos (by simp [hcar])]
  rfl

/-- An application that succeeds has a list of operands, and its head succeeds. -/
theorem visitPair_ok {visit : Visit} {e car cdr r : Value} {m m' : Machine}
    (hlevel : m.level ≠ .asWritten) (hcar : car.isNil = false)
    (h : visitPair visit e car cdr m = (.ok r, m')) :
    ∃ operands head m₁, cdr.toList? = some operands ∧ visit car m = (.ok head, m₁) ∧
      applied visit operands head m₁ = (.ok r, m') := by
  cases hcdr : cdr.toList? with
  | none =>
    unfold visitPair at h
    rw [Eval.bind_apply, Eval.get_apply] at h
    dsimp only at h
    rw [if_neg (by simp [hlevel, hcar]), hcdr] at h
    cases h
  | some operands =>
    rw [visitPair_eq visit e hlevel hcar hcdr] at h
    obtain ⟨head, m₁, hhead, happlied⟩ := Eval.bind_eq_ok h
    exact ⟨operands, head, m₁, rfl, hhead, happlied⟩

/-- Ahead of time a quote stays. -/
theorem visitQuoted_ahead (visit : Visit) (e inner : Value) {m : Machine} (hm : m.level = .ahead) :
    visitQuoted visit e inner m = (.ok e, m) := by
  unfold visitQuoted
  rw [Eval.bind_apply, Eval.get_apply]
  dsimp only
  rw [if_neg (by simp [hm])]
  rfl

theorem applied_some (visit : Visit) (operands : List Value) {head : Value} {f : Callable}
    {m : Machine} (hf : head.callable? m.store = some f) :
    applied visit operands head m = visitApplication visit head f operands m := by
  unfold applied
  rw [Eval.bind_apply, Eval.store_apply]
  dsimp only
  rw [hf]

theorem applied_none (visit : Visit) (operands : List Value) {head : Value} {m : Machine}
    (hf : head.callable? m.store = none) :
    applied visit operands head m =
      (if m.level = .ahead then Application.visitAll visit operands >>= rebuild head
        else Application.notCallable head : Eval Value) m := by
  unfold applied
  rw [Eval.bind_apply, Eval.store_apply]
  dsimp only
  rw [hf]
  rfl

/-- An application whose head takes values applies it to the values of the operands. -/
theorem applied_full (room : Nat) (operands : List Value) {head : Value} {m : Machine}
    (hm : m.level = .full) (hhead : head.takesValues = true) :
    applied (visitWithin room) operands head m =
      (Application.visitAll (visitWithin room) operands >>=
        Application.apply (visitWithin room) head) m := by
  obtain ⟨f, hf⟩ : ∃ f, head.callable? m.store = some f := by
    cases head with
    | native f => exact ⟨_, rfl⟩
    | closure a => exact ⟨_, rfl⟩
    | _ => cases hhead
  have hfull := Value.level_of_takesValues hf hhead
  have hwith : Eval.withLevel (Level.full.min .full)
      (Application.visitAll (visitWithin room) operands) m =
        Application.visitAll (visitWithin room) operands m :=
    withLevel_eq hm ((level_visitAll rfl).trans hm)
  rw [applied_some _ _ hf]
  unfold visitApplication
  rw [Eval.bind_apply, Eval.get_apply]
  dsimp only
  rw [if_neg (by simp [hm]), hfull, hm, Eval.bind_apply, Eval.bind_apply, hwith]
  rcases Application.visitAll (visitWithin room) operands m with ⟨e | args, m₁⟩
  · rfl
  · cases head with
    | native g =>
      cases hf
      rfl
    | closure a =>
      cases hf
      rfl
    | _ => cases hhead

/-- A list that was put together has its head in front of its operands. -/
theorem rebuild_ok {head r : Value} {args : List Value} {m m' : Machine}
    (h : rebuild head args m = (.ok r, m')) :
    m.store.Grows m'.store ∧ ∃ stamp cdr, r = .pair stamp head cdr ∧ cdr.toList? = some args := by
  have hgrows := Store.Grows.policy.pervasive.rebuild head args m
  rw [h] at hgrows
  cases h
  exact ⟨hgrows, _, _, rfl, Store.toList?_list args m.store⟩

/-- It stands for code. -/
theorem isResidual_of_rebuild {head r : Value} {args : List Value} {m m' : Machine}
    (h : rebuild head args m = (.ok r, m')) : r.isResidual = true := by
  obtain ⟨-, stamp, cdr, rfl, -⟩ := rebuild_ok h
  rfl

/-- Ahead of time a head that takes code is put in front of the operands as they are written. -/
theorem applied_code (visit : Visit) (operands : List Value) {head : Value} {m : Machine}
    (hm : m.level = .ahead) (hcode : head.takesCode = true) :
    applied visit operands head m = rebuild head operands m := by
  cases hf : head.callable? m.store with
  | none =>
    rw [Value.takesCode_of_not_callable hf] at hcode
    cases hcode
  | some f =>
    have hrank := (Value.rank_lt_of_takesCode hf).2 hcode
    rw [applied_some _ _ hf]
    unfold visitApplication
    rw [Eval.bind_apply, Eval.get_apply]
    dsimp only
    rw [if_pos (by simp [hm, hrank])]

/-- Another head has its operands reduced. It is applied to them if it calculates, and put in front of
them otherwise. -/
theorem applied_values (room : Nat) (operands : List Value) {head : Value} {m : Machine}
    (hm : m.level = .ahead) (hcode : head.takesCode = false) :
    applied (visitWithin room) operands head m =
      (Application.visitAll (visitWithin room) operands >>= fun args =>
        if head.calculates args = true then Application.apply (visitWithin room) head args
        else rebuild head args) m := by
  cases hf : head.callable? m.store with
  | none =>
    have hcalculates : ∀ args, head.calculates args = false := by
      intro args
      cases head with
      | native g => cases hf
      | _ => rfl
    rw [applied_none _ _ hf, if_pos hm]
    simp only [hcalculates, Bool.false_eq_true, if_false]
  | some f =>
    have hrank : ¬f.level.rank < Level.full.rank := by
      rw [Value.rank_lt_of_takesCode hf, hcode]
      exact Bool.false_ne_true
    have hfull := Value.level_of_takesValues hf (by rw [Value.takesValues_eq hf, hcode]; rfl)
    have hwith : Eval.withLevel (Level.full.min .ahead)
        (Application.visitAll (visitWithin room) operands) m =
          Application.visitAll (visitWithin room) operands m :=
      withLevel_eq hm ((level_visitAll rfl).trans hm)
    rw [applied_some _ _ hf]
    unfold visitApplication
    rw [Eval.bind_apply, Eval.get_apply]
    dsimp only
    rw [if_neg (by simp [hrank]), hfull, hm, Eval.bind_apply, Eval.bind_apply, hwith]
    rcases Application.visitAll (visitWithin room) operands m with ⟨e | args, m₁⟩
    · rfl
    · dsimp only
      cases head with
      | native g =>
        cases hf
        by_cases hpure : g.isPure = true ∧ args.any Value.isResidual = false
        · rw [if_neg (by simp [Callable.isPure, hpure]), if_pos (by simp [Value.calculates, hpure])]
          rfl
        · rw [if_pos, if_neg]
          · simpa [Value.calculates] using hpure
          · simpa [Callable.isPure, Decidable.or_iff_not_imp_left] using hpure
      | closure a =>
        cases hf
        rfl
      | struct a => cases hcode
      | _ => cases hf

/-- **What an application is reduced to ahead of time.** A head that takes code is put in front of the
operands as they are written; another one is put in front of the reduced operands, or it is a pure
function and calculates the value. -/
theorem applied_ahead {room : Nat} {operands : List Value} {known r : Value} {m m' : Machine}
    (hm : m.level = .ahead) (hr : applied (visitWithin room) operands known m = (.ok r, m')) :
    known.takesCode = true ∧ rebuild known operands m = (.ok r, m') ∨
    known.takesCode = false ∧ ∃ args m₁,
      Application.visitAll (visitWithin room) operands m = (.ok args, m₁) ∧
        (rebuild known args m₁ = (.ok r, m') ∨
          known.calculates args = true ∧
            Application.apply (visitWithin room) known args m₁ = (.ok r, m')) := by
  cases hcode : known.takesCode with
  | true =>
    rw [applied_code _ _ hm hcode] at hr
    exact .inl ⟨rfl, hr⟩
  | false =>
    rw [applied_values _ _ hm hcode] at hr
    obtain ⟨args, m₁, hargs, hr⟩ := Eval.bind_eq_ok hr
    refine .inr ⟨rfl, args, m₁, hargs, ?_⟩
    split at hr
    · next hcalculates => exact .inr ⟨hcalculates, hr⟩
    · exact .inl hr

end Evaluation

end CurryLisp
