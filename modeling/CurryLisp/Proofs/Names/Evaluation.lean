import CurryLisp.Proofs.Dialogue
import CurryLisp.Proofs.Lexical
import CurryLisp.Proofs.Names
import CurryLisp.Proofs.NativeCurrying.Waiting

/-!
# Evaluation makes new names only

A name that begins with a percent sign and goes on with decimal digits is that of a placeholder.
`IsIssued n` says that it is one of the first `n`, and `Machine.Issued` that all names in a machine are
among the placeholders made so far. The next one is then a new name.

`Issues n P x x'`: on such machines, after at least `n` placeholders, the computation `x` leaves such a
machine, and `P` holds of what it answers. `x'` is the same computation with the parts of the expression
evaluated in another way, which makes a difference in no such machine; so `x` evaluates its parts in
such machines only.

There is one rule for each computation. They are put together in `Issues.apply` and
`Issues.visitWithin`.
-/

namespace CurryLisp

open SpecialForm (Visit)

/-! ## Placeholders -/

/-- The number of the placeholder that has this name. -/
def placeholderNumber? (name : String) : Option Nat :=
  match name.toList with
  | '%' :: digits =>
    if !digits.isEmpty && digits.all Char.isDigit then some (Decimal.ofDigits 10 digits) else none
  | _ => none

/-- If this is the name of a placeholder, then of one of the first `n`. -/
def IsIssued (n : Nat) (name : String) : Prop := ∀ k, placeholderNumber? name = some k → k ≤ n

theorem placeholderNumber?_name (n : Nat) : placeholderNumber? (placeholderName n) = some n := by
  have hlist : (placeholderName n).toList = '%' :: Nat.toDigits 10 n := by
    simp [placeholderName, toString]
  obtain ⟨hne, hdigits⟩ := Decimal.AreDigits.toDigits n
  have hall : (Nat.toDigits 10 n).all Char.isDigit = true := List.all_eq_true.2 hdigits
  simp [placeholderNumber?, hlist, hne, hall, Decimal.ofDigits_toDigits]

namespace IsIssued

variable {n n' : Nat} {name : String}

theorem mono (h : n ≤ n') (hname : IsIssued n name) : IsIssued n' name :=
  fun k hk => Nat.le_trans (hname k hk) h

/-- A name without the mark of placeholders. -/
theorem of_unmarked (h : '%' ∉ name.toList) (n : Nat) : IsIssued n name := by
  intro k hk
  unfold placeholderNumber? at hk
  split at hk
  · next digits hname =>
    rw [hname] at h
    exact absurd (List.mem_cons_self ..) h
  · cases hk

theorem placeholder (h : n' ≤ n) : IsIssued n (placeholderName n') := by
  intro k hk
  rw [placeholderNumber?_name] at hk
  cases hk
  exact h

/-- Placeholders that are made one after the other. -/
theorem of_mem_range' {k count : Nat}
    (hname : name ∈ (List.range' (k + 1) count).map placeholderName) (h : k + count ≤ n) :
    IsIssued n name := by
  obtain ⟨i, hi, rfl⟩ := List.mem_map.1 hname
  have := List.mem_range'_1.1 hi
  exact .placeholder (by omega)

/-- A placeholder that is made later has another name. -/
theorem ne_placeholder (hname : IsIssued n name) (h : n < n') : name ≠ placeholderName n' := by
  rintro rfl
  have := hname n' (placeholderNumber?_name n')
  omega

end IsIssued

/-! ## What has been issued -/

/-- The names in a value are among the first `n`. -/
abbrev Value.Issued (n : Nat) (v : Value) : Prop := v.NamesOnly (IsIssued n)

/-- The names in several values are among the first `n`. -/
abbrev Value.AllIssued (n : Nat) (vs : List Value) : Prop := Value.AllNameOnly (IsIssued n) vs

/-- Names that are bound, and those in their values, are among the first `n`. -/
abbrev Bound.Issued (n : Nat) (entries : List (String × Value)) : Prop :=
  Bound.NameOnly (IsIssued n) entries

/-- The names in an environment are among the first `n`. -/
abbrev Environment.Issued (n : Nat) (env : Environment) : Prop := env.NamesOnly (IsIssued n)

/-- The names in declarations of fields are among the first `n`. -/
abbrev FieldSpec.AllIssued (n : Nat) (specs : List FieldSpec) : Prop :=
  FieldSpec.AllNameOnly (IsIssued n) specs

/-- The names in a machine are among those that it has made. -/
def Machine.Issued (m : Machine) : Prop := m.NamesOnly (IsIssued m.placeholders)

section Later

variable {n n' : Nat} (h : n ≤ n')
include h

theorem Value.NamesOnly.later {v : Value} (hv : v.Issued n) : v.Issued n' := hv.mono fun _ => .mono h

theorem Value.AllNameOnly.later {vs : List Value} (hvs : AllIssued n vs) : AllIssued n' vs :=
  hvs.mono fun _ => .mono h

theorem Bound.NameOnly.later {entries : List (String × Value)} (hentries : Issued n entries) :
    Issued n' entries := hentries.mono fun _ => .mono h

theorem Environment.NamesOnly.later {env : Environment} (henv : env.Issued n) : env.Issued n' :=
  henv.mono fun _ => .mono h

theorem FieldSpec.AllNameOnly.later {specs : List FieldSpec} (hspecs : AllIssued n specs) :
    AllIssued n' specs := hspecs.mono fun _ => .mono h

theorem Closure.NamesOnly.later {c : Closure} (hc : c.NamesOnly (IsIssued n)) :
    c.NamesOnly (IsIssued n') := hc.mono fun _ => .mono h

end Later

namespace Machine.Issued

variable {m : Machine} (hm : m.Issued)
include hm

theorem active : m.active.Issued m.placeholders := by
  unfold Machine.active
  split
  · exact hm.global
  · next frame frames hframes =>
    exact hm.frames frame (by rw [hframes]; exact List.mem_cons_self ..)

theorem lookup? {name : String} {v : Value} (h : m.lookup? name = some v) :
    v.Issued m.placeholders := by
  unfold Machine.lookup? at h
  cases hactive : m.active.bindings.get? name with
  | some found =>
    rw [hactive] at h
    cases h
    exact hm.active.get? hactive
  | none =>
    rw [hactive] at h
    exact hm.global.get? h

/-- Placeholders have been made. -/
theorem counted {n : Nat} (h : m.placeholders ≤ n) : { m with placeholders := n : Machine }.Issued :=
  have hlater := Machine.NamesOnly.mono (fun _ => IsIssued.mono h) hm
  ⟨hlater.store, hlater.global, hlater.frames⟩

theorem withStore {s : Store} (hs : s.NamesOnly (IsIssued m.placeholders)) :
    { m with store := s : Machine }.Issued :=
  ⟨hs, hm.global, hm.frames⟩

theorem updateActive {f : Environment → Environment} (hf : ∀ env : Environment,
    env.Issued m.placeholders → (f env).Issued m.placeholders) : (m.updateActive f).Issued := by
  unfold Machine.updateActive
  split
  · exact ⟨hm.store, hf _ hm.global, hm.frames⟩
  · next frame frames hframes =>
    refine ⟨hm.store, hm.global, fun found h => ?_⟩
    have hbefore := hm.frames
    rw [hframes] at hbefore
    rcases List.mem_cons.1 h with rfl | h
    · exact hf _ (hbefore frame (List.mem_cons_self ..))
    · exact hbefore found (List.mem_cons_of_mem _ h)

theorem inScope {frame : Environment} (hframe : frame.Issued m.placeholders) :
    { m with frames := frame :: m.frames : Machine }.Issued := by
  refine ⟨hm.store, hm.global, fun found h => ?_⟩
  rcases List.mem_cons.1 h with rfl | h
  · exact hframe
  · exact hm.frames found h

theorem outOfScope : { m with frames := m.frames.tail : Machine }.Issued :=
  ⟨hm.store, hm.global, fun found h => hm.frames found (List.mem_of_mem_tail h)⟩

end Machine.Issued

/-- The names in what is called are among the first `n`. -/
def Callable.Issued (n : Nat) : Callable → Prop
  | closure c => c.NamesOnly (IsIssued n)
  | native _ | struct _ => True

/-! ## Computations -/

/-- On a machine with the names that it has made, at least `n` of them, `x` does what `x'` does, makes
names that are new, and `P` holds of what it answers. -/
def Issues {α : Type} (n : Nat) (P : Nat → α → Prop) (x x' : Eval α) : Prop :=
  ∀ m : Machine, n ≤ m.placeholders → m.Issued →
    x' m = x m ∧ m.placeholders ≤ (x m).2.placeholders ∧ (x m).2.Issued ∧
      ∀ a, (x m).1 = .ok a → P (x m).2.placeholders a

/-- What `Issues` says of a computation that evaluates no part of an expression. -/
abbrev Issues.Own {α : Type} (n : Nat) (P : Nat → α → Prop) (x : Eval α) : Prop := Issues n P x x

/-- Of an answer without names nothing is said. -/
abbrev Issues.Any {α : Type} (_ : Nat) (_ : α) : Prop := True

namespace Issues

variable {α β : Type} {n : Nat} {P : Nat → α → Prop} {Q : Nat → β → Prop}

/-! ### Primitive computations -/

theorem pure {a : α} (ha : ∀ n', n ≤ n' → P n' a) : Own n P (Pure.pure a) :=
  fun m hn hm => ⟨rfl, Nat.le_refl _, hm, fun _ h => by cases h; exact ha _ hn⟩

theorem value {v : Value} (hv : v.Issued n) : Own n Value.Issued (Pure.pure v) :=
  pure fun _ hn => hv.later hn

theorem throw (e : Error) : Own n P (throw e) :=
  fun _ _ hm => ⟨rfl, Nat.le_refl _, hm, fun _ h => by cases h⟩

theorem bind {x x' : Eval α} {f f' : α → Eval β} (hx : Issues n P x x')
    (hf : ∀ n' a, n ≤ n' → P n' a → Issues n' Q (f a) (f' a)) :
    Issues n Q (x >>= f) (x' >>= f') := by
  intro m hn hm
  obtain ⟨hsame, hle, hissued, hanswer⟩ := hx m hn hm
  rw [Eval.bind_apply, Eval.bind_apply, hsame]
  rcases h : x m with ⟨e | a, m₁⟩
  · rw [h] at hle hissued
    exact ⟨rfl, hle, hissued, fun _ h => by cases h⟩
  · rw [h] at hle hissued hanswer
    obtain ⟨hsame', hle', hissued', hanswer'⟩ :=
      hf m₁.placeholders a (Nat.le_trans hn hle) (hanswer a rfl) m₁ (Nat.le_refl _) hissued
    exact ⟨hsame', Nat.le_trans hle hle', hissued', hanswer'⟩

/-- More placeholders may have been made. -/
theorem later {x x' : Eval α} {n' : Nat} (hn : n ≤ n') (hx : Issues n P x x') : Issues n' P x x' :=
  fun m hn' hm => hx m (Nat.le_trans hn hn') hm

theorem get {f f' : Machine → Eval β}
    (hf : ∀ m : Machine, n ≤ m.placeholders → m.Issued → Issues m.placeholders Q (f m) (f' m)) :
    Issues n Q (get >>= f) (get >>= f') :=
  fun m hn hm => hf m hn hm m (Nat.le_refl _) hm

theorem store {f f' : Store → Eval β}
    (hf : ∀ n' s, n ≤ n' → s.NamesOnly (IsIssued n') → Issues n' Q (f s) (f' s)) :
    Issues n Q (Eval.store >>= f) (Eval.store >>= f') :=
  fun m hn hm => hf m.placeholders m.store hn hm.store m (Nat.le_refl _) hm

theorem refuse {f : Store → Error} :
    Own n P (Eval.store >>= fun s => MonadExcept.throw (f s)) := store fun _ _ _ _ => throw _

theorem ite (c : Prop) [Decidable c] {x x' y y' : Eval α} (hx : Issues n P x x')
    (hy : Issues n P y y') : Issues n P (if c then x else y) (if c then x' else y') := by
  by_cases h : c
  · rwa [if_pos h, if_pos h]
  · rwa [if_neg h, if_neg h]

theorem ofExcept {r : Except Error α} (hr : ∀ n' a, n ≤ n' → r = .ok a → P n' a) :
    Own n P (MonadExcept.ofExcept r) := by
  cases r with
  | error e => exact throw e
  | ok a => exact pure fun n' hn => hr n' a hn rfl

theorem ask {f : Store → Except Error α}
    (hf : ∀ n' s a, n ≤ n' → s.NamesOnly (IsIssued n') → f s = .ok a → P n' a) :
    Own n P (Eval.ask f) :=
  fun m hn hm => ⟨rfl, Nat.le_refl _, hm, fun a h => hf m.placeholders m.store a hn hm.store h⟩

theorem make {f : Store → α × Store} (hf : ∀ n' s, n ≤ n' → s.NamesOnly (IsIssued n') →
    (f s).2.NamesOnly (IsIssued n') ∧ P n' (f s).1) : Own n P (Eval.make f) := by
  intro m hn hm
  obtain ⟨hs, hanswer⟩ := hf m.placeholders m.store hn hm.store
  rw [Eval.make_apply]
  exact ⟨rfl, Nat.le_refl _, hm.withStore hs, fun _ h => by cases h; exact hanswer⟩

theorem onStore {f : Store → Except Error (α × Store)} (hf : ∀ n' s a s', n ≤ n' →
    s.NamesOnly (IsIssued n') → f s = .ok (a, s') → s'.NamesOnly (IsIssued n') ∧ P n' a) :
    Own n P (Eval.onStore f) := by
  intro m hn hm
  unfold Eval.onStore
  cases h : f m.store with
  | error e => exact ⟨rfl, Nat.le_refl _, hm, fun _ h => by cases h⟩
  | ok made =>
    obtain ⟨hs, hanswer⟩ := hf m.placeholders m.store made.1 made.2 hn hm.store h
    exact ⟨rfl, Nat.le_refl _, hm.withStore hs, fun _ h => by cases h; exact hanswer⟩

theorem list {items : List Value} (hitems : Value.AllIssued n items) :
    Own n Value.Issued (Eval.make fun s => s.list items) :=
  make fun _ _ hn hs => hs.chain (hitems.later hn) trivial

theorem closure {c : Closure} (hc : c.NamesOnly (IsIssued n)) :
    Own n Value.Issued (Eval.make (Store.newClosure c)) :=
  make fun _ _ hn hs => hs.newClosure (hc.later hn)

theorem updateActive {f : Environment → Environment} (hf : ∀ n' env, n ≤ n' →
    Environment.Issued n' env → (f env).Issued n') :
    Own n Any (Eval.updateActive f) := by
  intro m hn hm
  have hcount : (m.updateActive f).placeholders = m.placeholders := by
    unfold Machine.updateActive
    split <;> rfl
  exact ⟨rfl, Nat.le_of_eq hcount.symm,
    hm.updateActive fun env henv => hf m.placeholders env hn henv, fun _ _ => trivial⟩

theorem put {name : String} (hname : IsIssued n name) {value : Value} (hvalue : value.Issued n) :
    Own n Any (Eval.updateActive (·.put name value)) :=
  updateActive fun _ _ hn henv => henv.put (hname.mono hn) (hvalue.later hn)

theorem remove (name : String) :
    Own n Any (Eval.updateActive (·.remove name)) :=
  updateActive fun _ _ _ henv => henv.remove name

theorem setOptions (options : Options) :
    Own n Any (modify fun m => { m with options } : Eval Unit) :=
  fun _ _ hm => ⟨rfl, Nat.le_refl _, { hm with }, fun _ _ => trivial⟩

theorem write (text : String) : Own n Any (Eval.write text) :=
  fun _ _ hm => ⟨rfl, Nat.le_refl _, { hm with }, fun _ _ => trivial⟩

theorem note (e : Event) : Own n Any (Eval.note e) :=
  fun _ _ hm => ⟨rfl, Nat.le_refl _, { hm with }, fun _ _ => trivial⟩

theorem withLevel (level : Level) {x x' : Eval α} (hx : Issues n P x x') :
    Issues n P (Eval.withLevel level x) (Eval.withLevel level x') := by
  intro m hn hm
  obtain ⟨hsame, hle, hissued, hanswer⟩ := hx (m.atLevel level) hn { hm with }
  refine ⟨?_, hle, { hissued with }, hanswer⟩
  change ((x' (m.atLevel level)).1, (x' (m.atLevel level)).2.atLevel m.level) = _
  rw [hsame]
  rfl

theorem withScope {frame : Environment} (hframe : frame.Issued n) {x x' : Eval α}
    (hx : Issues n P x x') : Issues n P (Eval.withScope frame x) (Eval.withScope frame x') := by
  intro m hn hm
  obtain ⟨hsame, hle, hissued, hanswer⟩ :=
    hx { m with frames := frame :: m.frames } hn (hm.inScope (hframe.later hn))
  refine ⟨?_, hle, hissued.outOfScope, hanswer⟩
  unfold Eval.withScope
  rw [Eval.bracket_apply, Eval.bracket_apply, hsame]

/-! ### Special forms -/

section SpecialForms

variable {visit visit' : Visit}
  (hv : ∀ n e, Value.Issued n e → Issues n Value.Issued (visit e) (visit' e))
include hv

theorem fully {e : Value} (he : e.Issued n) :
    Issues n Value.Issued (SpecialForm.fully visit e) (SpecialForm.fully visit' e) :=
  withLevel .full (hv n e he)

theorem sequence {es : List Value} (hes : Value.AllIssued n es) :
    Issues n Value.Issued (SpecialForm.sequence visit es) (SpecialForm.sequence visit' es) := by
  induction es generalizing n with
  | nil => exact value trivial
  | cons e rest ih =>
    obtain ⟨he, hrest⟩ := List.forall_mem_cons.1 hes
    cases rest with
    | nil => exact hv n e he
    | cons e' rest => exact bind (hv n e he) fun n' _ hn _ => ih (Value.AllNameOnly.later hn hrest)

omit hv in
theorem operandName (form : String) {operand : Value} (hoperand : operand.Issued n) :
    Own n IsIssued (SpecialForm.operandName form operand) := by
  unfold SpecialForm.operandName
  split
  · exact pure fun _ hn => IsIssued.mono hn hoperand
  · exact refuse

omit hv in
theorem headD {args : List Value} (hargs : Value.AllIssued n args) : (args.headD .nil).Issued n := by
  cases args with
  | nil => exact trivial
  | cons v rest => exact hargs v (List.mem_cons_self ..)

omit hv in
theorem drop {args : List Value} (hargs : Value.AllIssued n args) (k : Nat) :
    Value.AllIssued n (args.drop k) := fun v hmem => hargs v (List.mem_of_mem_drop hmem)

omit hv in
/-- Parameters are symbols of the list, and each is named once. -/
theorem paramNames {refusal : Error} {before names : List String} {items : List Value}
    (h : SpecialForm.paramNames refusal before items = .ok names) (hbefore : before.Nodup) :
    names.Nodup ∧ ∀ name ∈ names, name ∈ before ∨ .symbol name ∈ items := by
  induction items generalizing before with
  | nil =>
    cases h
    exact ⟨List.nodup_reverse.2 hbefore, fun name hname => .inl (List.mem_reverse.1 hname)⟩
  | cons item rest ih =>
    cases item with
    | symbol first =>
      unfold SpecialForm.paramNames at h
      split at h
      · cases h
      · next hnew =>
        have hnew : first ∉ before := by simpa using hnew
        obtain ⟨hdistinct, hnames⟩ := ih h (List.nodup_cons.2 ⟨hnew, hbefore⟩)
        refine ⟨hdistinct, fun name hname => ?_⟩
        rcases hnames name hname with hmem | hmem
        · rcases List.mem_cons.1 hmem with rfl | hmem
          · exact .inr (List.mem_cons_self ..)
          · exact .inl hmem
        · exact .inr (List.mem_cons_of_mem _ hmem)
    | _ => cases h

omit hv in
theorem lambda {args : List Value} (hargs : Value.AllIssued n args) :
    Own n Value.Issued (SpecialForm.lambda args) := by
  refine store fun n₁ s hn₁ _ => ?_
  have hargs : Value.AllIssued n₁ args := hargs.later hn₁
  split
  · exact throw _
  · next items hitems =>
    refine bind (P := fun n names => names.Nodup ∧ ∀ name ∈ names, IsIssued n name)
      (ofExcept fun n₂ names hn₂ h => ?_) fun n₂ names hn₂ hnames => get fun m hm hissued => ?_
    · obtain ⟨hdistinct, hnames⟩ := paramNames h List.nodup_nil
      refine ⟨hdistinct, fun name hname => .mono hn₂ ?_⟩
      have hmem := (hnames name hname).resolve_left List.not_mem_nil
      exact Value.NamesOnly.of_mem_toList? hitems (headD hargs) hmem
    · refine closure ⟨fun name hname => (hnames.2 name hname).mono hm, ?_, hissued.active, .nil, ?_⟩
      · exact (drop hargs 1).later (Nat.le_trans hn₂ hm)
      · simpa [Closure.names] using hnames.1

theorem define {args : List Value} (hargs : Value.AllIssued n args) :
    Issues n Value.Issued (SpecialForm.define visit args) (SpecialForm.define visit' args) := by
  unfold SpecialForm.define
  split
  · next name e =>
    refine bind (operandName _ (hargs name (by simp))) fun n₁ name hn₁ hname => ?_
    refine bind (fully hv ((hargs e (by simp)).later hn₁)) fun n₂ v hn₂ hvalue => ?_
    exact bind (put (hname.mono hn₂) hvalue) fun n₃ _ hn₃ _ => value (hvalue.later hn₃)
  · exact throw _

omit hv in
theorem undefine (args : List Value) : Own n Value.Issued (SpecialForm.undefine args) := by
  induction args with
  | nil => exact value trivial
  | cons operand rest ih =>
    refine bind (P := Any) ?_ fun n₁ name hn₁ _ => bind (remove name) fun n₂ _ hn₂ _ => ?_
    · unfold SpecialForm.operandName
      split
      · exact pure fun _ _ => trivial
      · exact refuse
    · exact later (Nat.le_trans hn₁ hn₂) ih

theorem bindings {entries : List Value} (hentries : Value.AllIssued n entries) :
    Issues n Bound.Issued (SpecialForm.bindings visit entries)
      (SpecialForm.bindings visit' entries) := by
  induction entries generalizing n with
  | nil => exact pure fun _ _ => .nil
  | cons entry rest ih =>
    obtain ⟨hentry, hrest⟩ := List.forall_mem_cons.1 hentries
    unfold SpecialForm.bindings
    split
    · next name e hlist =>
      have hname : Value.Issued n (.symbol name) := .of_mem_toList? hlist hentry (by simp)
      refine bind (fully hv (.of_mem_toList? hlist hentry (by simp))) fun n₁ v hn₁ hvalue => ?_
      refine bind (ih (Value.AllNameOnly.later hn₁ hrest)) fun n₂ bound hn₂ hbound =>
        pure fun n₃ hn₃ => ?_
      exact List.forall_mem_cons.2 ⟨⟨IsIssued.mono (by omega) hname, hvalue.later (by omega)⟩,
        Bound.NameOnly.later hn₃ hbound⟩
    · exact refuse

theorem bindLocal {args : List Value} (hargs : Value.AllIssued n args) :
    Issues n Value.Issued (SpecialForm.bindLocal visit args)
      (SpecialForm.bindLocal visit' args) := by
  simp only [SpecialForm.bindLocal]
  split
  · exact refuse
  · next entries hlist =>
    refine bind (bindings hv fun x hx => .of_mem_toList? hlist (headD hargs) hx) ?_
    intro n₁ bound hn₁ hbound
    refine get fun m hm hissued => ?_
    exact withScope (hissued.active.putAll (Bound.NameOnly.later hm hbound))
      (sequence hv ((drop hargs 1).later (Nat.le_trans hn₁ hm)))

theorem choose {args : List Value} (hargs : Value.AllIssued n args) :
    Issues n Value.Issued (SpecialForm.choose visit args) (SpecialForm.choose visit' args) := by
  unfold SpecialForm.choose
  split
  · next condition yes no =>
    refine bind (fully hv (hargs condition (by simp))) fun n₁ v hn₁ _ => ite _ ?_ ?_
    · exact fully hv ((hargs yes (by simp)).later hn₁)
    · exact fully hv ((hargs no (by simp)).later hn₁)
  · exact throw _

theorem both {v : Value} (hvalue : v.Issued n) {args : List Value}
    (hargs : Value.AllIssued n args) :
    Issues n Value.Issued (SpecialForm.both visit v args) (SpecialForm.both visit' v args) := by
  induction args generalizing n v with
  | nil => exact value hvalue
  | cons e es ih =>
    obtain ⟨he, hes⟩ := List.forall_mem_cons.1 hargs
    refine bind (fully hv he) fun n₁ v hn₁ hvalue => ite _ ?_ (value hvalue)
    exact ih hvalue (Value.AllNameOnly.later hn₁ hes)

theorem either {args : List Value} (hargs : Value.AllIssued n args) :
    Issues n Value.Issued (SpecialForm.either visit args) (SpecialForm.either visit' args) := by
  induction args generalizing n with
  | nil => exact value trivial
  | cons e es ih =>
    obtain ⟨he, hes⟩ := List.forall_mem_cons.1 hargs
    refine bind (fully hv he) fun n₁ v hn₁ hvalue => ite _ (value hvalue) ?_
    exact ih (Value.AllNameOnly.later hn₁ hes)

omit hv in
theorem quote {args : List Value} (hargs : Value.AllIssued n args) :
    Own n Value.Issued (SpecialForm.quote args) := by
  unfold SpecialForm.quote
  split
  · next e => exact value (hargs e (by simp))
  · exact throw _

/-! ### Structs -/

omit hv in
theorem fieldType (tag : Option TypeTag) : Own n Any (SpecialForm.fieldType tag) := by
  unfold SpecialForm.fieldType
  split
  · exact pure fun _ _ => trivial
  · refine get fun m _ _ => ?_
    split
    · exact pure fun _ _ => trivial
    · exact throw _

theorem fieldSpecs (form : String) {entries : List Value} (hentries : Value.AllIssued n entries) :
    Issues n FieldSpec.AllIssued (SpecialForm.fieldSpecs visit form entries)
      (SpecialForm.fieldSpecs visit' form entries) := by
  induction entries generalizing n with
  | nil => exact pure fun _ _ _ h => by cases h
  | cons entry rest ih =>
    obtain ⟨hentry, hrest⟩ := List.forall_mem_cons.1 hentries
    unfold SpecialForm.fieldSpecs
    split
    · exact refuse
    · next name tag default hparts =>
      obtain ⟨hname, hdefault⟩ := Value.NamesOnly.fieldParts? hentry hparts
      refine bind (fieldType _) fun n₁ tag hn₁ _ => ?_
      have hspecs : ∀ n₂ v, n₁ ≤ n₂ → Value.Issued n₂ v → Issues n₂ FieldSpec.AllIssued
          (SpecialForm.fieldSpecs visit form rest >>= fun specs =>
            Pure.pure ({ name, tag, default := v } :: specs))
          (SpecialForm.fieldSpecs visit' form rest >>= fun specs =>
            Pure.pure ({ name, tag, default := v } :: specs)) := fun n₂ v hn₂ hvalue =>
        bind (ih (Value.AllNameOnly.later (Nat.le_trans hn₁ hn₂) hrest)) fun n₃ specs hn₃ hspecs =>
          pure fun n₄ hn₄ => List.forall_mem_cons.2
            ⟨⟨hname.mono (by omega), hvalue.later (by omega)⟩,
              FieldSpec.AllNameOnly.later hn₄ hspecs⟩
      cases default with
      | some e => exact bind (fully hv ((hdefault e rfl).later hn₁)) hspecs
      | none => exact bind (value trivial) hspecs

theorem fieldList (form : String) {fields : Value} (hfields : fields.Issued n) :
    Issues n FieldSpec.AllIssued (SpecialForm.fieldList visit form fields)
      (SpecialForm.fieldList visit' form fields) := by
  unfold SpecialForm.fieldList
  split
  · next entries hlist => exact fieldSpecs hv form fun x hx => .of_mem_toList? hlist hfields hx
  · exact refuse

omit hv in
theorem register {struct : Struct} (hname : IsIssued n struct.name)
    (hstruct : struct.NamesOnly (IsIssued n)) : Own n Value.Issued (Struct.register struct) := by
  refine bind (note _) fun n₁ _ hn₁ _ => ?_
  have hlater : struct.NamesOnly (IsIssued n₁) := fun entry hentry =>
    ⟨(hstruct entry hentry).1.mono hn₁, (hstruct entry hentry).2.later hn₁⟩
  refine bind (P := Any) (make fun n₂ s hn₂ hs => ⟨hs.newStruct fun entry hentry => ?_, trivial⟩)
    fun n₂ template hn₂ _ => ?_
  · exact ⟨(hlater entry hentry).1.mono hn₂, (hlater entry hentry).2.later hn₂⟩
  · refine bind (updateActive fun n₃ env hn₃ henv => ?_) fun n₃ _ _ _ => value trivial
    have htype : (env.putType struct.tag).Issued n₃ := { henv with }
    exact htype.putStruct (hname.mono (by omega)) template

omit hv in
theorem template (name : String) : Own n Any (Struct.template name) := by
  refine get fun m _ _ => ?_
  split
  · exact pure fun _ _ => trivial
  · exact throw _

omit hv in
theorem defineTemplate {name : String} (hname : IsIssued n name) {specs : List FieldSpec}
    (hspecs : FieldSpec.AllIssued n specs) :
    Own n Value.Issued (Struct.defineTemplate name specs) := by
  refine bind (P := fun n struct => IsIssued n struct.name ∧ struct.NamesOnly (IsIssued n))
    (ask fun n₁ s struct hn₁ _ h => ?_) fun n₁ struct _ hstruct => register hstruct.1 hstruct.2
  obtain ⟨rfl, hfields⟩ := Struct.define_namesOnly (hspecs.later hn₁) h
  exact ⟨hname.mono hn₁, hfields⟩

omit hv in
theorem deriveTemplate {name : String} (hname : IsIssued n name) (parent : String)
    {specs : List FieldSpec} (hspecs : FieldSpec.AllIssued n specs) :
    Own n Value.Issued (Struct.deriveTemplate name parent specs) := by
  refine bind (template parent) fun n₁ a hn₁ _ => ?_
  refine bind (P := fun n struct => IsIssued n struct.name ∧ struct.NamesOnly (IsIssued n))
    (onStore fun n₂ s struct s' hn₂ hs h => ?_) fun n₂ struct _ hstruct =>
      register hstruct.1 hstruct.2
  obtain ⟨hs', rfl, hfields⟩ :=
    Struct.derive_namesOnly hs (hs.struct a) (hspecs.later (Nat.le_trans hn₁ hn₂)) h
  exact ⟨hs', hname.mono (Nat.le_trans hn₁ hn₂), hfields⟩

omit hv in
theorem instantiateStruct (name : String) {inits : List (String × Value)}
    (hinits : Bound.Issued n inits) : Own n Value.Issued (Struct.instantiate name inits) := by
  refine bind (template name) fun n₁ a hn₁ _ => onStore fun n₂ s v s' hn₂ hs h => ?_
  obtain ⟨made, hset, h⟩ := exists_of_bind_eq_ok h
  cases h
  have hinits : Bound.Issued n₂ inits := hinits.later (Nat.le_trans hn₁ hn₂)
  exact ⟨(hs.copyStruct (hs.struct a)).setFields hinits hset, trivial⟩

theorem defineStruct {args : List Value} (hargs : Value.AllIssued n args) :
    Issues n Value.Issued (SpecialForm.defineStruct visit args)
      (SpecialForm.defineStruct visit' args) := by
  unfold SpecialForm.defineStruct
  split
  · next name fields =>
    refine bind (operandName _ (hargs name (by simp))) fun n₁ name hn₁ hname => ?_
    refine bind (fieldList hv _ ((hargs fields (by simp)).later hn₁)) fun n₂ specs hn₂ hspecs => ?_
    exact defineTemplate (hname.mono hn₂) hspecs
  · exact throw _

theorem deriveStruct {args : List Value} (hargs : Value.AllIssued n args) :
    Issues n Value.Issued (SpecialForm.deriveStruct visit args)
      (SpecialForm.deriveStruct visit' args) := by
  unfold SpecialForm.deriveStruct
  split
  · next name parent fields =>
    refine bind (operandName _ (hargs name (by simp))) fun n₁ name hn₁ hname => ?_
    refine bind (operandName _ ((hargs parent (by simp)).later hn₁)) fun n₂ parent hn₂ _ => ?_
    refine bind (fieldList hv _ ((hargs fields (by simp)).later (Nat.le_trans hn₁ hn₂))) ?_
    exact fun n₃ specs hn₃ hspecs => deriveTemplate (hname.mono (Nat.le_trans hn₂ hn₃)) parent hspecs
  · exact throw _

theorem initializers {inits : List Value} (hinits : Value.AllIssued n inits) :
    Issues n Bound.Issued (SpecialForm.initializers visit inits)
      (SpecialForm.initializers visit' inits) := by
  induction inits generalizing n with
  | nil => exact pure fun _ _ => .nil
  | cons init rest ih =>
    obtain ⟨hinit, hrest⟩ := List.forall_mem_cons.1 hinits
    unfold SpecialForm.initializers
    split
    · next field e hlist =>
      have hfield : Value.Issued n (.symbol field) := .of_mem_toList? hlist hinit (by simp)
      refine bind (fully hv (.of_mem_toList? hlist hinit (by simp))) fun n₁ v hn₁ hvalue => ?_
      refine bind (ih (Value.AllNameOnly.later hn₁ hrest)) fun n₂ made hn₂ hmade =>
        pure fun n₃ hn₃ => ?_
      exact List.forall_mem_cons.2 ⟨⟨IsIssued.mono (by omega) hfield, hvalue.later (by omega)⟩,
        Bound.NameOnly.later hn₃ hmade⟩
    · exact refuse

theorem instantiate {args : List Value} (hargs : Value.AllIssued n args) :
    Issues n Value.Issued (SpecialForm.instantiate visit args)
      (SpecialForm.instantiate visit' args) := by
  refine bind (operandName _ (headD hargs)) fun n₁ name hn₁ _ => ?_
  refine bind (initializers hv ((drop hargs 1).later hn₁)) fun n₂ inits _ hinits => ?_
  exact instantiateStruct name hinits

theorem setOption {args : List Value} (hargs : Value.AllIssued n args) :
    Issues n Value.Issued (SpecialForm.setOption visit args)
      (SpecialForm.setOption visit' args) := by
  unfold SpecialForm.setOption
  split
  · next name e =>
    refine bind (operandName _ (hargs name (by simp))) fun n₁ name hn₁ _ => ?_
    refine bind (fully hv ((hargs e (by simp)).later hn₁)) fun n₂ v _ _ => ?_
    refine get fun m _ _ => bind (P := Any) (ofExcept fun _ _ _ _ => trivial) fun _ options _ _ => ?_
    refine bind (setOptions options) fun _ _ _ _ => bind (note _) fun _ _ _ _ => ?_
    exact value (.of_isPlain (Value.isPlain_ofBool _))
  · exact throw _

/-! ### Operations and applications -/

omit hv in
/-- The answer to a question holds only names that were there. -/
theorem question {op : Operation} (hop : op.isQuestion = true) (args : List Value) :
    Issues n Value.Issued (op.run visit args) (op.run visit' args) := by
  obtain ⟨f, hrun, hknown⟩ := Operation.exists_ask hop args
  rw [hrun, hrun]
  refine ask fun n' s v _ hs hv => ?_
  exact (hknown (Value.Issued n') s (fun _ => .of_isPlain) (fun _ => trivial) hs.vector).of_ok hv

theorem run (op : Operation) {args : List Value} (hargs : Value.AllIssued n args) :
    Issues n Value.Issued (op.run visit args) (op.run visit' args) := by
  cases op
  case length | add | subtract | multiply | divide | modulo | equal | less | greater | negate
    | toInteger | toFloat | toCharacter | typeOf | isType | elementAt | math => exact question rfl args
  all_goals simp only [Operation.run]
  case lambda => exact lambda hargs
  case define => exact define hv hargs
  case undefine => exact undefine args
  case bindLocal => exact bindLocal hv hargs
  case choose => exact choose hv hargs
  case both => exact both hv (v := .truth) trivial hargs
  case either => exact either hv hargs
  case quote => exact quote hargs
  case defineStruct => exact defineStruct hv hargs
  case deriveStruct => exact deriveStruct hv hargs
  case instantiate => exact instantiate hv hargs
  case setOption => exact setOption hv hargs
  case cons => exact onStore fun _ _ _ _ hn hs h => hs.consArgs (hargs.later hn) h
  case car => exact value (Store.NamesOnly.car hargs)
  case cdr => exact value (Store.NamesOnly.cdr hargs)
  case list => exact Issues.list hargs
  case isNil => exact value (.of_isPlain (isPlain_isNil args))
  case last => exact value (holds_last (P := Value.Issued n) trivial hargs)
  case vector =>
    refine make fun _ _ hn hs => hs.newVector fun v hmem => ?_
    exact (hargs v (by simpa using hmem)).later hn
  case setElement => exact onStore fun _ _ _ _ hn hs h => hs.setElement (hargs.later hn) h
  case append => exact onStore fun _ _ _ _ hn hs h => hs.append (hargs.later hn) h
  case joinText => exact onStore fun _ _ _ _ _ hs h => hs.joinText h
  case copy => exact onStore fun _ _ _ _ hn hs h => hs.copy (hargs.later hn) h
  case evaluate =>
    split
    · next e => exact fully hv (hargs e (by simp))
    · exact throw _
  case print => exact store fun _ _ _ _ => Issues.bind (write _) fun _ _ _ _ => value trivial
  case printLine => exact store fun _ _ _ _ => Issues.bind (write _) fun _ _ _ _ => value trivial
  case fail => exact refuse
  case apply | host => exact value trivial

theorem visitAll {es : List Value} (hes : Value.AllIssued n es) :
    Issues n Value.AllIssued (Application.visitAll visit es)
      (Application.visitAll visit' es) := by
  unfold Application.visitAll
  induction es generalizing n with
  | nil => exact pure fun _ _ => .nil
  | cons e es ih =>
    obtain ⟨he, hes⟩ := List.forall_mem_cons.1 hes
    rw [List.mapM_cons, List.mapM_cons]
    refine bind (hv n e he) fun n₁ v hn₁ hvalue => ?_
    refine bind (ih (Value.AllNameOnly.later hn₁ hes)) fun n₂ vs hn₂ hvs => pure fun n₃ hn₃ => ?_
    exact List.forall_mem_cons.2 ⟨hvalue.later (Nat.le_trans hn₂ hn₃),
      Value.AllNameOnly.later hn₃ hvs⟩

omit hv in
theorem baseEnvironment {c : Closure} (hc : c.NamesOnly (IsIssued n)) :
    Own n Environment.Issued (Application.baseEnvironment c) := by
  refine get fun m hm hissued => ?_
  split
  · exact pure fun _ hn => hc.env.later (Nat.le_trans hm hn)
  · exact pure fun _ hn => hissued.active.later hn

theorem callClosure {c : Closure} (hc : c.NamesOnly (IsIssued n)) {args : List Value}
    (hargs : Value.AllIssued n args) :
    Issues n Value.Issued (Application.callClosure visit c args)
      (Application.callClosure visit' c args) := by
  refine bind (baseEnvironment hc) fun n₁ base hn₁ hbase => ?_
  have hc := hc.later hn₁
  exact withScope ((hbase.putAll hc.bound).putAll (Closure.NamesOnly.zip hc.params (hargs.later hn₁)))
    (withLevel _ (sequence hv hc.body))

theorem curryClosure {c : Closure} (hc : c.NamesOnly (IsIssued n)) {args : List Value}
    (hargs : Value.AllIssued n args) :
    Issues n Value.Issued (Application.curryClosure visit c args)
      (Application.curryClosure visit' c args) := by
  refine bind (baseEnvironment hc) fun n₁ base hn₁ hbase => ?_
  have hc := hc.later hn₁
  have hargs : Value.AllIssued n₁ args := hargs.later hn₁
  have hself : Bound.Issued n₁ ((c.params.drop args.length).map fun name => (name, .symbol name)) := by
    intro entry hentry
    obtain ⟨name, hname, rfl⟩ := List.mem_map.1 hentry
    exact ⟨hc.params name (List.mem_of_mem_drop hname), hc.params name (List.mem_of_mem_drop hname)⟩
  have hframe := (hbase.putAll (hc.curried hargs .nil).bound).putAll hself
  refine bind (withScope hframe (withLevel _ (visitAll hv hc.body))) fun n₂ body hn₂ hbody => ?_
  refine bind (note _) fun n₃ _ hn₃ _ => closure ?_
  exact ((hc.later hn₂).curried (hargs.later hn₂) hbody).later hn₃

omit hv in
/-- What stands for issued values is issued. -/
theorem standsFor {bound : List (String × Value)} (hbound : Bound.Issued n bound)
    {operands args : List Value} (h : List.Forall₂ (Value.StandsFor bound) operands args)
    (hargs : Value.AllIssued n args) : Value.AllIssued n operands := by
  induction h with
  | nil => exact .nil
  | cons hfirst _ ih =>
    obtain ⟨harg, hrest⟩ := List.forall_mem_cons.1 hargs
    refine List.forall_mem_cons.2 ⟨?_, ih hrest⟩
    cases hfirst with
    | known _ hsame =>
      rcases hsame with rfl | ⟨_, _, rfl, -, -⟩
      · exact harg
      · exact trivial
    | named _ hmem => exact (hbound _ hmem).1

omit hv in
/-- A native function that is curried binds new names, each once. -/
theorem curryNative (f : NativeFunction) {args : List Value} (hargs : Value.AllIssued n args) :
    Own n Value.Issued (Application.curryNative f args) := by
  intro m hn hm
  obtain ⟨operands, bound, count, hoperands, hnames, hvalues, hstands⟩ :=
    Application.callOperands_apply args m
  have hcurry := Application.curryNative_apply f hoperands
  let missing := f.arity - args.length
  let params := (List.range' (m.placeholders + count + 1) missing).map placeholderName
  let last := m.placeholders + count + missing
  have hlast : m.placeholders ≤ last := by omega
  -- Names for operands that stand for code come first, then those for the missing arguments.
  have hbound : Bound.Issued last bound := fun entry hentry => by
    have hname : entry.1 ∈ bound.map (·.1) := List.mem_map_of_mem hentry
    rw [hnames] at hname
    exact ⟨.of_mem_range' hname (by omega), (hargs _ (hvalues entry hentry)).later (by omega)⟩
  have hparams : ∀ name ∈ params, IsIssued last name :=
    fun name hname => .of_mem_range' hname (Nat.le_refl _)
  have hoperands : Value.AllIssued last operands := standsFor hbound hstands (hargs.later (by omega))
  have hitems : Value.AllIssued last (.native f :: operands ++ params.map .symbol) := by
    refine List.forall_mem_append.2 ⟨List.forall_mem_cons.2 ⟨trivial, hoperands⟩, fun v hmem => ?_⟩
    obtain ⟨name, hname, rfl⟩ := List.mem_map.1 hmem
    exact hparams name hname
  have hm := hm.counted hlast
  obtain ⟨hlist, hcall⟩ := hm.store.chain hitems (show Value.Issued last .nil from trivial)
  have hdistinct : (params ++ bound.map (·.1)).Nodup :=
    List.perm_append_comm.nodup_iff.1 (Application.nodup_placeholders hnames _)
  have hclosure := hlist.newClosure (c := {
      params, body := [(m.store.list (.native f :: operands ++ params.map .symbol)).1], bound })
    ⟨hparams, List.forall_mem_singleton.2 hcall, .empty, hbound, hdistinct⟩
  rw [hcurry]
  exact ⟨rfl, hlast, ⟨hclosure.1, hm.global, hm.frames⟩, fun _ h => by cases h; exact trivial⟩

omit hv in
theorem fieldName (operand : Value) : Own n Any (Application.fieldName operand) := by
  unfold Application.fieldName
  split
  · exact pure fun _ _ => trivial
  · exact pure fun _ _ => trivial
  · exact refuse
  · exact refuse

omit hv in
theorem callStruct (a : Address) {args : List Value} (hargs : Value.AllIssued n args) :
    Own n Value.Issued (Application.callStruct a args) := by
  unfold Application.callStruct
  split
  · exact bind (fieldName _) fun _ _ _ _ =>
      ask fun _ _ _ _ hs h => Struct.read_namesOnly (hs.struct a) h
  · next field v =>
    exact bind (fieldName _) fun _ _ hn₁ _ => onStore fun _ _ _ _ hn₂ hs h =>
      hs.setField ((hargs v (by simp)).later (Nat.le_trans hn₁ hn₂)) h
  · exact refuse

omit hv in
/-- What is called is an object, or uses no names. -/
theorem callable? {s : Store} (hs : s.NamesOnly (IsIssued n)) {head : Value} {f : Callable}
    (h : head.callable? s = some f) : f.Issued n := by
  cases head with
  | closure a =>
    cases h
    exact hs.closure a
  | struct a =>
    cases h
    exact trivial
  | native g =>
    cases h
    exact trivial
  | _ => cases h

theorem curry {f : Callable} (hf : f.Issued n) {args : List Value}
    (hargs : Value.AllIssued n args) :
    Issues n Value.Issued (Application.curry visit f args) (Application.curry visit' f args) := by
  cases f with
  | closure c => exact curryClosure hv hf hargs
  | native g => exact ite _ (throw _) (curryNative g hargs)
  | struct a => exact refuse

omit hv in
theorem notCallable (v : Value) : Own n P (Application.notCallable v : Eval α) := refuse

omit hv in
/-- An answer of the host is put together from names that were there; that of a level is no
placeholder. -/
theorem hostAnswer {args : List Value} (hargs : Value.AllIssued n args) (a : HostAnswer) :
    Own n Value.Issued (Application.hostAnswer args a) := by
  induction a generalizing n with
  | text text => exact make fun _ _ _ hs => hs.newText text
  | level =>
    refine get fun m _ _ => value ?_
    exact IsIssued.of_unmarked (by cases m.level <;> decide) _
  | argument position =>
    exact value (holds_getD (P := Value.Issued n) trivial hargs position)
  | constant slot => exact store fun _ _ _ hs => value (hs.constant slot)
  | pair car cdr ihCar ihCdr =>
    refine bind (ihCar hargs) fun n₁ car hn₁ hcar => ?_
    refine bind (ihCdr (hargs.later hn₁)) fun n₂ cdr hn₂ hcdr => ?_
    refine make fun n₃ s hn₃ hs => ?_
    exact hs.chain (List.forall_mem_singleton.2 (hcar.later (Nat.le_trans hn₂ hn₃)))
      (hcdr.later hn₃)
  | _ => exact value trivial

omit hv in
theorem hostBind {args : List Value} (hargs : Value.AllIssued n args) :
    Own n Value.Issued (Application.hostBind args) := by
  unfold Application.hostBind
  split
  · next name v =>
    have hname : IsIssued n name := hargs (.symbol name) (by simp)
    exact bind (put hname (hargs v (by simp))) fun _ _ _ _ => value trivial
  · exact value trivial

omit hv in
theorem callHost (slot : Nat) {args : List Value} (hargs : Value.AllIssued n args)
    {applied applied' : Eval Value} (h : Issues n Value.Issued applied applied') :
    Issues n Value.Issued (Application.callHost slot args applied)
      (Application.callHost slot args applied') := by
  refine get fun m hn _ => ?_
  split
  · exact hostAnswer (hargs.later hn) _
  · exact throw _
  · exact hostBind (hargs.later hn)
  · exact later hn h

/-- **An application makes new names only.** -/
theorem apply {head : Value} (hhead : head.Issued n) {args : List Value}
    (hargs : Value.AllIssued n args) :
    Issues n Value.Issued (Application.apply visit head args)
      (Application.apply visit' head args) := by
  refine (Application.applies_induction
    (P := fun head args => ∀ n, head.Issued n → Value.AllIssued n args →
      Issues n Value.Issued (Application.apply visit head args)
        (Application.apply visit' head args))
    (Q := fun op args => ∀ n, Value.AllIssued n args →
      Issues n Value.Issued (Application.perform visit op args)
        (Application.perform visit' op args))
    ?called ?list ?improper ?arity ?nobody ?first ?run).1 head args n hhead hargs
  case called =>
    intro head args ih n hhead hargs
    rw [Application.apply, Application.apply]
    refine store fun n₁ s hn₁ hs => ?_
    have hargs : Value.AllIssued n₁ args := hargs.later hn₁
    cases hf : head.callable? s with
    | none => exact notCallable _
    | some f =>
      have hcalled : f.Issued n₁ := callable? hs hf
      refine ite _ (value (hhead.later hn₁)) (ite _ (curry hv hcalled hargs) (ite _ refuse ?_))
      refine bind (P := Any) (ask fun _ _ _ _ _ _ => trivial) fun n₂ _ hn₂ _ => ?_
      cases f with
      | native g => exact ih g n₂ (hargs.later hn₂)
      | closure c => exact later hn₂ (callClosure hv hcalled hargs)
      | struct a => exact later hn₂ (callStruct a hargs)
  case list =>
    intro f list items hitems ih n hargs
    rw [Application.perform_list hitems, Application.perform_list hitems]
    refine ih n (hargs f (by simp)) fun v hmem => ?_
    exact .of_mem_toList? hitems (hargs list (by simp)) hmem
  case improper =>
    intro f list hlist n _
    rw [Application.perform_improper hlist, Application.perform_improper hlist]
    exact refuse
  case arity =>
    intro args hargs n _
    rw [Application.perform.eq_2 visit args hargs, Application.perform.eq_2 visit' args hargs]
    exact throw _
  case nobody =>
    intro slot n hargs
    rw [Application.perform, Application.perform]
    exact callHost slot hargs (notCallable _)
  case first =>
    intro slot f rest ih n hargs
    obtain ⟨hf, hrest⟩ := List.forall_mem_cons.1 hargs
    rw [Application.perform, Application.perform]
    exact callHost slot hargs (ih n hf hrest)
  case run =>
    intro op args happly hhost n hargs
    rw [Application.perform_run op happly hhost, Application.perform_run op happly hhost]
    exact run hv op hargs

/-! ### Steps -/

omit hv in
theorem resolveType (tag : TypeTag) : Own n Value.Issued (Evaluation.resolveType tag) := by
  refine get fun m _ _ => ?_
  split
  · exact value trivial
  · exact ite _ (value trivial) (throw _)

omit hv in
theorem visitSymbol {name : String} (hname : IsIssued n name) :
    Own n Value.Issued (Evaluation.visitSymbol name) := by
  refine get fun m hm hissued => ?_
  have hsymbol : Value.Issued m.placeholders (.symbol name) := hname.mono hm
  refine ite _ (value hsymbol) ?_
  split
  · next v hfound =>
    refine ite _ (value hsymbol) ?_
    split
    · exact resolveType _
    · exact value (hissued.lookup? hfound)
  · exact ite _ (value hsymbol) (throw _)

theorem visitQuoted {e inner : Value} (he : e.Issued n) (hinner : inner.Issued n) :
    Issues n Value.Issued (Evaluation.visitQuoted visit e inner)
      (Evaluation.visitQuoted visit' e inner) :=
  get fun _ hm _ => ite _ (withLevel _ (hv _ inner (hinner.later hm))) (value (he.later hm))

omit hv in
theorem rebuild {head : Value} (hhead : head.Issued n) {args : List Value}
    (hargs : Value.AllIssued n args) : Own n Value.Issued (Evaluation.rebuild head args) :=
  list (List.forall_mem_cons.2 ⟨hhead, hargs⟩)

theorem structOperands {args : List Value} (hargs : Value.AllIssued n args) :
    Issues n Value.AllIssued (Evaluation.structOperands visit args)
      (Evaluation.structOperands visit' args) := by
  unfold Evaluation.structOperands
  split
  · next field v rest =>
    obtain ⟨hfield, hargs⟩ := List.forall_mem_cons.1 hargs
    obtain ⟨hvalue, hrest⟩ := List.forall_mem_cons.1 hargs
    refine bind (fully hv hvalue) fun n₁ found hn₁ hfound => pure fun n₂ hn₂ => ?_
    exact List.forall_mem_cons.2 ⟨hfield.later (Nat.le_trans hn₁ hn₂), List.forall_mem_cons.2
      ⟨hfound.later hn₂, Value.AllNameOnly.later (Nat.le_trans hn₁ hn₂) hrest⟩⟩
  · exact pure fun _ hn => hargs.later hn

theorem visitApplication {head : Value} (hhead : head.Issued n) (f : Callable)
    {operands : List Value} (hoperands : Value.AllIssued n operands) :
    Issues n Value.Issued (Evaluation.visitApplication visit head f operands)
      (Evaluation.visitApplication visit' head f operands) := by
  refine get fun m hm _ => ?_
  have hhead := hhead.later hm
  have hoperands : Value.AllIssued m.placeholders operands := hoperands.later hm
  refine ite _ (rebuild hhead hoperands) ?_
  refine bind (withLevel _ (visitAll hv hoperands)) fun n₁ args hn₁ hargs => ?_
  refine ite _ (rebuild (hhead.later hn₁) hargs) ?_
  cases f with
  | struct a =>
    exact bind (structOperands hv hargs) fun _ _ hn₂ hargs =>
      apply hv (hhead.later (Nat.le_trans hn₁ hn₂)) hargs
  | native g => exact apply hv (hhead.later hn₁) hargs
  | closure c => exact apply hv (hhead.later hn₁) hargs

theorem visitPair {e car cdr : Value} (he : e.Issued n) (hcar : car.Issued n)
    (hcdr : cdr.Issued n) :
    Issues n Value.Issued (Evaluation.visitPair visit e car cdr)
      (Evaluation.visitPair visit' e car cdr) := by
  refine get fun m hm _ => ite _ (value (he.later hm)) ?_
  cases hlist : cdr.toList? with
  | none => exact refuse
  | some operands =>
    have hoperands : Value.AllIssued m.placeholders operands := fun v hmem =>
      .of_mem_toList? hlist (hcdr.later hm) hmem
    refine bind (hv _ car (hcar.later hm)) fun n₁ head hn₁ hhead => store fun n₂ s hn₂ _ => ?_
    have hhead := hhead.later hn₂
    have hoperands : Value.AllIssued n₂ operands := hoperands.later (Nat.le_trans hn₁ hn₂)
    cases head.callable? s with
    | some f => exact visitApplication hv hhead f hoperands
    | none =>
      refine get fun m' hm' _ => ite _ ?_ (notCallable _)
      exact bind (visitAll hv (hoperands.later hm')) fun _ args hn₃ hargs =>
        rebuild (hhead.later (Nat.le_trans hm' hn₃)) hargs

theorem step {e : Value} (he : e.Issued n) :
    Issues n Value.Issued (Evaluation.step visit e) (Evaluation.step visit' e) := by
  cases e with
  | pair stamp car cdr => exact visitPair hv he he.1 he.2
  | quoted inner => exact visitQuoted hv he (show inner.Issued n from he)
  | symbol name => exact visitSymbol he
  | type tag => exact get fun _ _ _ => ite _ (value trivial) (resolveType _)
  | _ => exact value he

end SpecialForms

/-! ### Nested steps -/

theorem noteEntry (e : Value) : Own n Any (Evaluation.noteEntry e) := by
  intro m _ hm
  rw [Evaluation.noteEntry_apply]
  exact ⟨rfl, Nat.le_refl _, { hm with }, fun _ _ => trivial⟩

theorem noteExit (result : Except Error Value) : Own n Any (Evaluation.noteExit result) := by
  intro m _ hm
  rw [Evaluation.noteExit_apply]
  exact ⟨rfl, Nat.le_refl _, { hm with }, fun _ _ => trivial⟩

theorem observed (e : Value) {x x' : Eval Value} (hx : Issues n Value.Issued x x') :
    Issues n Value.Issued (Evaluation.observed e x) (Evaluation.observed e x') := by
  -- A failure is caught, noted and thrown again, so what is caught is issued if it is a value.
  have hcaught : ∀ n', n ≤ n' → Issues n' (fun n result => ∀ v, result = .ok v → Value.Issued n v)
      (liftM (Eval.bracket (fun m => { m with indent := m.indent + 1 })
        (fun m => { m with indent := m.indent - 1 }) x).run : Eval (Except Error Value))
      (liftM (Eval.bracket (fun m => { m with indent := m.indent + 1 })
        (fun m => { m with indent := m.indent - 1 }) x').run : Eval (Except Error Value)) := by
    intro n' hn' m hn hm
    obtain ⟨hsame, hle, hissued, hanswer⟩ :=
      hx { m with indent := m.indent + 1 } (Nat.le_trans hn' hn) { hm with }
    refine ⟨?_, hle, { hissued with }, fun result h => by cases h; exact hanswer⟩
    change (Except.ok (x' { m with indent := m.indent + 1 }).1, _) = _
    rw [hsame]
    rfl
  refine get fun m hm _ => ite _ ?_ (later hm hx)
  refine bind (noteEntry e) fun n₁ _ hn₁ _ => ?_
  refine bind (hcaught n₁ (Nat.le_trans hm hn₁)) fun n₂ result _ hresult => ?_
  refine bind (noteExit result) fun n₃ _ hn₃ _ => ofExcept fun n₄ v hn₄ h => ?_
  exact (hresult v h).later (Nat.le_trans hn₃ hn₄)

theorem nested (room : Nat) {x x' : Eval α} (hx : Issues n P x x') :
    Issues n P (Evaluation.nested room x) (Evaluation.nested room x') := by
  intro m hn hm
  obtain ⟨hsame, hle, hissued, hanswer⟩ := hx { m with depth := m.depth + 1 } hn { hm with }
  rw [Evaluation.nested_eq, Evaluation.nested_eq, Eval.bracket_apply, Eval.bracket_apply, hsame]
  exact ⟨rfl, hle, { hissued with }, hanswer⟩

end Issues

namespace Evaluation

/-- The names that a computation leaves in the machine and in its answer are among those made. -/
def EndsIssued (outcome : Except Error Value × Machine) : Prop :=
  outcome.2.Issued ∧ ∀ v, outcome.1 = .ok v → v.Issued outcome.2.placeholders

open Classical in
/-- An evaluation of which some steps are replaced by `other`: all but those that begin and end with no
names besides those made. -/
noncomputable def diverted (other : Visit) : Nat → Visit
  | 0, e => visitWithin 0 e
  | room + 1, e => fun m =>
    let outcome := nested room (observed e (step (diverted other room) e)) m
    if m.Issued ∧ e.Issued m.placeholders ∧ EndsIssued outcome then outcome else other e m

end Evaluation

namespace Issues

variable {n : Nat}

/-- **An evaluation makes new names only**, and so does each of its steps: nothing that could be done
in the place of one that does not would make a difference. -/
theorem visitWithin (other : Visit) (room : Nat) {e : Value} (he : e.Issued n) :
    Issues n Value.Issued (Evaluation.visitWithin room e) (Evaluation.diverted other room e) := by
  induction room generalizing n e with
  | zero => exact get fun _ _ _ => throw _
  | succ room ih =>
    intro m hn hm
    obtain ⟨hsame, hle, hends⟩ := nested room (observed e (step (fun _ _ he => ih he) he)) m hn hm
    refine ⟨?_, hle, hends⟩
    rw [Evaluation.diverted]
    dsimp only
    rw [hsame]
    exact if_pos ⟨hm, he.later hn, hends⟩

end Issues

end CurryLisp
