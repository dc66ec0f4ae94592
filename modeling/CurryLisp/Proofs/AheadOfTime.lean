import CurryLisp.Proofs.Calculations
import CurryLisp.Proofs.Effect

/-!
# Evaluation ahead of time

Ahead of time only calculations run: pure functions that make numbers, lists and truth values. So an
expression that is reduced ahead of time leaves environments, options, output and shared objects as
they were, and an unknown name stays in it instead of failing.

The functions are those of the initial environment and of the package of mathematics
(`Value.isStandard`); another package could call a function pure that is not.

Statements:

* `isCalculation_of_isPure`: the pure functions are calculations.
* `Ahead.visitWithin`: each step ahead of time is quiet.
* `visit_ahead_quiet`: reducing an expression ahead of time has no effect, and it fails for no unknown
  name.
-/

namespace CurryLisp

open SpecialForm (Visit)

/-! ## Standard functions -/

/-- Whether a function is builtin or belongs to the package of mathematics. -/
def NativeFunction.isStandard (f : NativeFunction) : Bool :=
  Builtin.all.contains f || Package.math.functions.contains f

/-- Whether every native function in a tree is standard. -/
def Value.isStandard : Value → Bool
  | native f => f.isStandard
  | quoted inner => inner.isStandard
  | pair _ car cdr => car.isStandard && cdr.isStandard
  | _ => true

/-- Whether every native function that is bound to a name is standard. -/
def Environment.isStandard (env : Environment) : Bool :=
  env.bindings.values.all Value.isStandard

/-- Whether every native function that a name or a vector leads to is standard. -/
def Machine.isStandard (m : Machine) : Bool :=
  (m.global :: m.frames).all Environment.isStandard &&
    m.store.vectors.all (·.all Value.isStandard)

theorem initial_isStandard : Environment.initial.isStandard = true := by decide

theorem install_math_isStandard :
    (Package.math.install Environment.initial).isStandard = true := by decide

/-- Operations that make a value of their arguments and do nothing else. -/
def Operation.isCalculation : Operation → Bool
  | cons | car | cdr | list | isNil | length => true
  | add | subtract | multiply | divide | modulo | equal | less | greater | negate => true
  | toInteger | toFloat | toCharacter | typeOf | isType | elementAt | last | math _ => true
  | _ => false

/-- The functions that may run ahead of time are calculations. -/
theorem isCalculation_of_isPure {f : NativeFunction} (hf : f.isStandard = true)
    (hpure : f.isPure = true) (hlevel : f.level = .full) : f.operation.isCalculation = true := by
  have hall : ∀ g ∈ Builtin.all ++ Package.math.functions,
      g.isPure = true → g.level = .full → g.operation.isCalculation = true := by decide
  have hmem : f ∈ Builtin.all ++ Package.math.functions := by
    simpa [NativeFunction.isStandard] using hf
  exact hall f hmem hpure hlevel

theorem Value.isStandard_of_mem_toList? {v item : Value} {items : List Value}
    (hitems : v.toList? = some items) (hv : v.isStandard = true) (hitem : item ∈ items) :
    item.isStandard = true := by
  refine forall_mem_toList? (P := fun v => v.isStandard = true) (fun _ _ _ hpair => ?_) hitems hv item
    hitem
  simpa [Value.isStandard] using hpair

theorem Environment.isStandard_of_get? {env : Environment} (henv : env.isStandard = true)
    {name : String} {v : Value} (h : env.bindings.get? name = some v) : v.isStandard = true := by
  have hmem : v ∈ env.bindings.values := by
    unfold Table.get? at h
    obtain ⟨l₁, l₂, hsplit, -⟩ := List.lookup_eq_some_iff.1 h
    refine List.mem_map.2 ⟨(name, v), ?_, rfl⟩
    rw [hsplit]
    simp
  exact List.all_eq_true.1 henv v hmem

namespace Machine

variable {m : Machine}

theorem isStandard_active (hm : m.isStandard = true) : m.active.isStandard = true := by
  simp only [isStandard, List.all_cons, Bool.and_eq_true] at hm
  obtain ⟨⟨hglobal, hframes⟩, -⟩ := hm
  unfold active
  split
  · exact hglobal
  · next frame frames hm =>
    rw [hm, List.all_cons, Bool.and_eq_true] at hframes
    exact hframes.1

theorem isStandard_of_lookup? (hm : m.isStandard = true) {name : String} {v : Value}
    (h : m.lookup? name = some v) : v.isStandard = true := by
  have hactive := isStandard_active hm
  simp only [isStandard, List.all_cons, Bool.and_eq_true] at hm
  obtain ⟨⟨hglobal, -⟩, -⟩ := hm
  unfold lookup? at h
  cases hfound : m.active.bindings.get? name with
  | some found =>
    rw [hfound] at h
    cases h
    exact Environment.isStandard_of_get? hactive hfound
  | none =>
    rw [hfound] at h
    exact Environment.isStandard_of_get? hglobal h

theorem isStandard_of_mem_vector (hm : m.isStandard = true) {a : Address} {v : Value}
    (h : v ∈ m.store.vector a) : v.isStandard = true := by
  simp only [isStandard, Bool.and_eq_true] at hm
  obtain ⟨-, hvectors⟩ := hm
  unfold Store.vector at h
  rw [Array.getD_eq_getD_getElem?] at h
  cases hfound : m.store.vectors[a]? with
  | none =>
    rw [hfound] at h
    simp at h
  | some items =>
    rw [hfound, Option.getD_some] at h
    have hitems := Array.all_eq_true_iff_forall_mem.1 hvectors items
      (Array.mem_of_getElem? hfound)
    exact Array.all_eq_true_iff_forall_mem.1 hitems v h

end Machine

/-! ## Quiet changes -/

/-- The machines differ in notes, placeholders, stamps and new closures only. -/
structure Machine.Quiet (m m' : Machine) : Prop where
  global : m'.global = m.global
  frames : m'.frames = m.frames
  level : m'.level = m.level
  options : m'.options = m.options
  indent : m'.indent = m.indent
  depth : m'.depth = m.depth
  printed : m'.printed = m.printed
  placeholders : m.placeholders ≤ m'.placeholders
  texts : m'.store.texts = m.store.texts
  vectors : m'.store.vectors = m.store.vectors
  structs : m'.store.structs = m.store.structs
  constants : m'.store.constants = m.store.constants
  hosts : m'.store.hosts = m.store.hosts
  closures : ∃ made, m'.store.closures = m.store.closures ++ made
  pairs : m.store.pairs ≤ m'.store.pairs

namespace Machine.Quiet

variable {m m₁ m₂ : Machine}

theorem refl (m : Machine) : Quiet m m :=
  ⟨rfl, rfl, rfl, rfl, rfl, rfl, rfl, Nat.le_refl _, rfl, rfl, rfl, rfl, rfl, ⟨#[], by simp⟩,
    Nat.le_refl _⟩

theorem trans (h : Quiet m m₁) (h' : Quiet m₁ m₂) : Quiet m m₂ where
  global := by rw [h'.global, h.global]
  frames := by rw [h'.frames, h.frames]
  level := by rw [h'.level, h.level]
  options := by rw [h'.options, h.options]
  indent := by rw [h'.indent, h.indent]
  depth := by rw [h'.depth, h.depth]
  printed := by rw [h'.printed, h.printed]
  placeholders := Nat.le_trans h.placeholders h'.placeholders
  texts := by rw [h'.texts, h.texts]
  vectors := by rw [h'.vectors, h.vectors]
  structs := by rw [h'.structs, h.structs]
  constants := by rw [h'.constants, h.constants]
  hosts := by rw [h'.hosts, h.hosts]
  closures := by
    obtain ⟨made, hmade⟩ := h.closures
    obtain ⟨made', hmade'⟩ := h'.closures
    exact ⟨made ++ made', by rw [hmade', hmade, Array.append_assoc]⟩
  pairs := Nat.le_trans h.pairs h'.pairs

theorem isStandard (h : Quiet m m₁) (hm : m.isStandard = true) : m₁.isStandard = true := by
  unfold Machine.isStandard at hm ⊢
  rw [h.global, h.frames, h.vectors]
  exact hm

/-- A new chain changes the number of pairs only. -/
theorem chain (m : Machine) (items : List Value) (tail : Value) :
    Quiet m { m with store := (m.store.chain items tail).2 } := by
  have hstore : ∃ n, m.store.pairs ≤ n ∧ (m.store.chain items tail).2 = { m.store with pairs := n } := by
    induction items with
    | nil => exact ⟨m.store.pairs, Nat.le_refl _, rfl⟩
    | cons item rest ih =>
      obtain ⟨n, hn, hrest⟩ := ih
      refine ⟨n + 1, Nat.le_succ_of_le hn, ?_⟩
      show (Store.cons (m.store.chain rest tail).2 item (m.store.chain rest tail).1).2 = _
      rw [hrest]
      rfl
  obtain ⟨n, hn, hchain⟩ := hstore
  rw [hchain]
  exact { refl m with pairs := hn }

end Machine.Quiet

/-! ## What calculations answer -/

/-- A plain value holds no native function. -/
theorem Value.isStandard_of_isPlain {v : Value} (hv : v.isPlain = true) : v.isStandard = true := by
  cases v with
  | native f => cases hv
  | quoted inner => cases hv
  | pair stamp car cdr => cases hv
  | _ => rfl

theorem isStandard_car {args : List Value} (hargs : ∀ v ∈ args, v.isStandard = true) :
    (Builtin.car args).isStandard = true := by
  unfold Builtin.car
  split
  · next stamp car cdr rest =>
    have h := hargs (.pair stamp car cdr) (List.mem_cons_self ..)
    simp only [Value.isStandard, Bool.and_eq_true] at h
    exact h.1
  · rfl

theorem isStandard_cdr {args : List Value} (hargs : ∀ v ∈ args, v.isStandard = true) :
    (Builtin.cdr args).isStandard = true := by
  unfold Builtin.cdr
  split
  · next stamp car cdr rest =>
    have h := hargs (.pair stamp car cdr) (List.mem_cons_self ..)
    simp only [Value.isStandard, Bool.and_eq_true] at h
    exact h.2
  · rfl

theorem isStandard_chain {items : List Value} {tail : Value} (s : Store)
    (hitems : ∀ v ∈ items, v.isStandard = true) (htail : tail.isStandard = true) :
    (s.chain items tail).1.isStandard = true := by
  induction items with
  | nil => exact htail
  | cons item rest ih =>
    have hrest := ih fun v hv => hitems v (List.mem_cons_of_mem _ hv)
    show (item.isStandard && (s.chain rest tail).1.isStandard) = true
    rw [hitems item (List.mem_cons_self ..), hrest]
    rfl

/-! ## Steps ahead of time -/

/-- Ahead of time and among standard functions, `x` is quiet and its outcome is known. -/
def Ahead {α : Type} (P : α → Prop) (x : Eval α) : Prop :=
  ∀ m : Machine, m.level = .ahead → m.isStandard = true → m.Quiet (x m).2 ∧ Known P (x m).1

namespace Ahead

variable {α β : Type} {P : α → Prop} {Q : β → Prop}

theorem pure {a : α} (ha : P a) : Ahead P (Pure.pure a) :=
  fun m _ _ => ⟨Machine.Quiet.refl m, ha⟩

theorem throw {e : Error} (he : e.isUnknown = false) : Ahead P (throw e : Eval α) :=
  fun m _ _ => ⟨Machine.Quiet.refl m, he⟩

theorem bind {x : Eval α} {f : α → Eval β} (hx : Ahead P x) (hf : ∀ a, P a → Ahead Q (f a)) :
    Ahead Q (x >>= f) := by
  intro m hl hm
  obtain ⟨hquiet, hknown⟩ := hx m hl hm
  rw [Eval.bind_apply]
  rcases h : x m with ⟨e | a, m'⟩
  · rw [h] at hquiet hknown
    exact ⟨hquiet, hknown⟩
  · rw [h] at hquiet hknown
    obtain ⟨hquiet', hknown'⟩ := hf a hknown m' (hquiet.level.trans hl) (hquiet.isStandard hm)
    exact ⟨hquiet.trans hquiet', hknown'⟩

/-- Where it succeeds, it is still ahead of time and among standard functions. -/
theorem ok {x : Eval α} (hx : Ahead P x) {m m' : Machine} {a : α} (hl : m.level = .ahead)
    (hm : m.isStandard = true) (h : x m = (.ok a, m')) :
    m.Quiet m' ∧ m'.level = .ahead ∧ m'.isStandard = true ∧ P a := by
  obtain ⟨hquiet, hknown⟩ := hx m hl hm
  rw [h] at hquiet hknown
  exact ⟨hquiet, hquiet.level.trans hl, hquiet.isStandard hm, hknown⟩

/-- The machine that a computation looks at is ahead of time and standard. -/
theorem get : Ahead (fun m => m.level = .ahead ∧ m.isStandard = true) (get : Eval Machine) :=
  fun m hl hm => ⟨Machine.Quiet.refl m, hl, hm⟩

theorem store : Ahead (fun _ => True) Eval.store := fun m _ _ => ⟨Machine.Quiet.refl m, trivial⟩

theorem ask {f : Store → Except Error α}
    (hf : ∀ s : Store, (∀ a, ∀ v ∈ s.vector a, v.isStandard = true) → Known P (f s)) :
    Ahead P (Eval.ask f) :=
  fun m _ hm => ⟨Machine.Quiet.refl m, hf m.store fun _ _ => Machine.isStandard_of_mem_vector hm⟩

theorem chain {items : List Value} {tail : Value} (hitems : ∀ v ∈ items, v.isStandard = true)
    (htail : tail.isStandard = true) :
    Ahead (·.isStandard = true) (Eval.make (Store.chain items tail)) :=
  fun m _ _ => ⟨Machine.Quiet.chain m items tail, isStandard_chain m.store hitems htail⟩

theorem newClosure (c : Closure) :
    Ahead (·.isStandard = true) (Eval.make (Store.newClosure c)) :=
  fun m _ _ => ⟨{ Machine.Quiet.refl m with
    closures := ⟨#[c], by simp [Eval.make_apply, Store.newClosure]⟩ }, rfl⟩

theorem placeholder : Ahead (fun _ => True) Eval.placeholder :=
  fun m _ _ => ⟨{ Machine.Quiet.refl m with placeholders := Nat.le_succ _ }, trivial⟩

theorem note (e : Event) : Ahead (fun _ => True) (Eval.note e) :=
  fun _ _ _ => ⟨⟨rfl, rfl, rfl, rfl, rfl, rfl, rfl, Nat.le_refl _, rfl, rfl, rfl, rfl, rfl,
    ⟨#[], Array.append_empty.symm⟩, Nat.le_refl _⟩, trivial⟩

/-- Operands of a function that takes them reduced stay ahead of time. -/
theorem withLevel {x : Eval α} (hx : Ahead P x) : Ahead P (Eval.withLevel .ahead x) := by
  intro m hl hm
  obtain ⟨hquiet, hknown⟩ := hx (m.atLevel .ahead) rfl hm
  exact ⟨{ hquiet with level := rfl }, hknown⟩

theorem cons {args : List Value} (hargs : ∀ v ∈ args, v.isStandard = true) :
    Ahead (·.isStandard = true) (Eval.onStore fun s => Builtin.cons s args) := by
  intro m _ _
  by_cases h : ∃ car cdr, args = [car, cdr]
  · obtain ⟨car, cdr, rfl⟩ := h
    refine ⟨{ Machine.Quiet.refl m with pairs := Nat.le_succ _ }, ?_⟩
    show (car.isStandard && cdr.isStandard) = true
    rw [hargs car (by simp), hargs cdr (by simp)]
    rfl
  · have harity : Builtin.cons m.store args = .error (.arity "cons" 2 args.length) := by
      unfold Builtin.cons
      split
      · next car cdr => exact absurd ⟨car, cdr, rfl⟩ h
      · rfl
    simp only [Eval.onStore, harity]
    exact ⟨Machine.Quiet.refl m, rfl⟩

/-- The answer to a question is standard where the items of vectors are. -/
theorem question {visit : Visit} {op : Operation} (hop : op.isQuestion = true) (args : List Value) :
    Ahead (·.isStandard = true) (op.run visit args) := by
  obtain ⟨f, hrun, hknown⟩ := Operation.exists_ask hop args
  rw [hrun]
  exact ask fun s hs => hknown _ s (fun _ => Value.isStandard_of_isPlain) (fun _ => rfl) hs

/-- A calculation makes a standard value of standard arguments. -/
theorem run {visit : Visit} {op : Operation} (hop : op.isCalculation = true) {args : List Value}
    (hargs : ∀ v ∈ args, v.isStandard = true) : Ahead (·.isStandard = true) (op.run visit args) := by
  cases op with
  | cons => exact cons hargs
  | car => exact pure (isStandard_car hargs)
  | cdr => exact pure (isStandard_cdr hargs)
  | list => exact chain hargs rfl
  | isNil => exact pure (Value.isStandard_of_isPlain (isPlain_isNil args))
  | last => exact pure (holds_last (P := (·.isStandard = true)) rfl hargs)
  | length | add | subtract | multiply | divide | modulo | equal | less | greater | negate
  | toInteger | toFloat | toCharacter | typeOf | isType | elementAt | math => exact question rfl args
  | _ => cases hop

theorem visitAll {visit : Visit} {es : List Value} (hes : ∀ e ∈ es, e.isStandard = true)
    (hv : ∀ e, e.isStandard = true → Ahead (·.isStandard = true) (visit e)) :
    Ahead (fun args => ∀ v ∈ args, v.isStandard = true) (Application.visitAll visit es) := by
  unfold Application.visitAll
  induction es with
  | nil => exact pure fun v hv => by cases hv
  | cons e es ih =>
    rw [List.mapM_cons]
    refine bind (hv e (hes e (List.mem_cons_self ..))) fun value hvalue => ?_
    refine bind (ih fun e' he' => hes e' (List.mem_cons_of_mem _ he')) fun values hvalues => ?_
    refine pure fun v hmem => ?_
    rcases List.mem_cons.1 hmem with rfl | hmem
    · exact hvalue
    · exact hvalues v hmem

/-! ### Currying and calls -/

theorem callOperands {args : List Value} (hargs : ∀ v ∈ args, v.isStandard = true) :
    Ahead (fun made => ∀ v ∈ made.1, v.isStandard = true) (Application.callOperands args) := by
  induction args with
  | nil => exact pure fun v hv => by cases hv
  | cons arg args ih =>
    have hrest := ih fun v hv => hargs v (List.mem_cons_of_mem _ hv)
    unfold Application.callOperands
    split
    · refine bind placeholder fun name _ => bind hrest fun made hmade => pure fun v hmem => ?_
      rcases List.mem_cons.1 hmem with rfl | hmem
      · rfl
      · exact hmade v hmem
    · refine bind hrest fun made hmade => pure fun v hmem => ?_
      rcases List.mem_cons.1 hmem with rfl | hmem
      · exact hargs _ (List.mem_cons_self ..)
      · exact hmade v hmem

theorem placeholders (n : Nat) : Ahead (fun _ => True) (Application.placeholders n) := by
  induction n with
  | zero => exact pure trivial
  | succ n ih => exact bind placeholder fun _ _ => bind ih fun _ _ => pure trivial

theorem curryNative {f : NativeFunction} (hf : f.isStandard = true) {args : List Value}
    (hargs : ∀ v ∈ args, v.isStandard = true) :
    Ahead (·.isStandard = true) (Application.curryNative f args) := by
  refine bind (callOperands hargs) fun made hmade => bind (placeholders _) fun params _ => ?_
  refine bind (chain ?_ rfl) fun call _ => bind (note _) fun _ _ => newClosure _
  intro v hv
  rcases List.mem_append.1 hv with hv | hv
  · rcases List.mem_cons.1 hv with rfl | hv
    · exact hf
    · exact hmade v hv
  · obtain ⟨name, -, rfl⟩ := List.mem_map.1 hv
    rfl

/-- What is applied ahead of time is a calculation. -/
theorem apply {visit : Visit} {f : NativeFunction} (hf : f.isStandard = true)
    (hpure : f.isPure = true) (hlevel : f.level = .full) {args : List Value}
    (hargs : ∀ v ∈ args, v.isStandard = true) :
    Ahead (·.isStandard = true) (Application.apply visit (.native f) args) := by
  have hop := isCalculation_of_isPure hf hpure hlevel
  have hform : f.isSpecialForm = false := by
    unfold NativeFunction.isSpecialForm
    rw [hlevel]
    rfl
  rw [Application.apply]
  refine bind store fun s _ => ?_
  dsimp only [Value.callable?]
  split
  · exact pure hf
  · split
    · show Ahead _ (if f.isSpecialForm then _ else _)
      rw [hform]
      exact curryNative hf hargs
    · split
      · exact bind store fun _ _ => throw rfl
      · refine bind (P := fun _ => True) (ask fun s _ => ?_) fun _ _ => ?_
        · unfold Callable.checkArguments
          split
          · exact trivial
          · rfl
        · rw [Application.perform_run _ (fun h => by rw [h] at hop; cases hop)
            fun slot h => by rw [h] at hop; cases hop]
          exact run hop hargs

/-! ### Steps -/

theorem resolveType (tag : TypeTag) : Ahead (·.isStandard = true) (Evaluation.resolveType tag) := by
  refine bind get fun m hm => ?_
  split
  · exact pure rfl
  · rw [if_pos hm.1]
    exact pure rfl

theorem visitSymbol (name : String) : Ahead (·.isStandard = true) (Evaluation.visitSymbol name) := by
  refine bind get fun m ⟨hl, hm⟩ => ?_
  split
  · exact pure rfl
  · split
    · next value hvalue =>
      split
      · exact pure rfl
      · split
        · exact resolveType _
        · exact pure (Machine.isStandard_of_lookup? hm hvalue)
    · exact pure rfl

theorem rebuild {head : Value} (hhead : head.isStandard = true) {args : List Value}
    (hargs : ∀ v ∈ args, v.isStandard = true) :
    Ahead (·.isStandard = true) (Evaluation.rebuild head args) := by
  refine chain (fun v hv => ?_) rfl
  rcases List.mem_cons.1 hv with rfl | hv
  · exact hhead
  · exact hargs v hv

section

variable {visit : Visit} (hv : ∀ e, e.isStandard = true → Ahead (·.isStandard = true) (visit e))
include hv

/-- Only a pure native function is applied; everything else is put together again. -/
theorem visitApplication {s : Store} {head : Value} {f : Callable}
    (hhead : head.isStandard = true) (hf : head.callable? s = some f) {operands : List Value}
    (hoperands : ∀ v ∈ operands, v.isStandard = true) :
    Ahead (·.isStandard = true) (Evaluation.visitApplication visit head f operands) := by
  refine bind get fun m ⟨hl, hm⟩ => ?_
  dsimp only
  rw [hl]
  by_cases hlevel : f.level = .full
  · rw [if_neg (by simp [hlevel]), hlevel]
    refine bind (withLevel (visitAll hoperands hv)) fun args hargs => ?_
    by_cases hpure : f.isPure = true
    · split
      · exact rebuild hhead hargs
      · cases f with
        | native g =>
          obtain rfl : head = .native g := by
            cases head with
            | native f =>
              cases hf
              rfl
            | _ => cases hf
          exact bind (pure hargs) fun args hargs => apply hhead hpure hlevel hargs
        | closure c => cases hpure
        | struct a => cases hpure
    · rw [if_pos (by simp [hpure])]
      exact rebuild hhead hargs
  · have hrank : f.level.rank < Level.full.rank := by
      cases h : f.level with
      | full => exact absurd h hlevel
      | asWritten => decide
      | ahead => decide
    rw [if_pos (by simpa using hrank)]
    exact rebuild hhead hoperands

theorem visitPair {e car cdr : Value} (he : e.isStandard = true) (hcar : car.isStandard = true)
    (hcdr : cdr.isStandard = true) :
    Ahead (·.isStandard = true) (Evaluation.visitPair visit e car cdr) := by
  refine bind get fun m ⟨hl, hm⟩ => ?_
  split
  · exact pure he
  · split
    · exact bind store fun _ _ => throw rfl
    · next operands hoperands =>
      have hmem : ∀ v ∈ operands, v.isStandard = true :=
        fun v hv => Value.isStandard_of_mem_toList? hoperands hcdr hv
      refine bind (hv car hcar) fun head hhead => bind store fun s _ => ?_
      split
      · next f hf => exact visitApplication hv hhead hf hmem
      · refine bind get fun m' ⟨hl', hm'⟩ => ?_
        rw [if_pos hl']
        exact bind (visitAll hmem hv) fun args hargs => rebuild hhead hargs

theorem step {e : Value} (he : e.isStandard = true) :
    Ahead (·.isStandard = true) (Evaluation.step visit e) := by
  unfold Evaluation.step
  split
  · next stamp car cdr =>
    have hparts := he
    simp only [Value.isStandard, Bool.and_eq_true] at hparts
    exact visitPair hv he hparts.1 hparts.2
  · refine bind get fun m ⟨hl, hm⟩ => ?_
    rw [hl]
    exact pure he
  · exact visitSymbol _
  · refine bind get fun m ⟨hl, hm⟩ => ?_
    split
    · exact pure he
    · exact resolveType _
  · exact pure he

end

/-! ### Nested steps -/

theorem noteIf (c : Prop) [Decidable c] (e : Event) :
    Ahead (fun _ => True) (if c then Eval.note e else Pure.pure () : Eval Unit) := by
  split
  · exact note e
  · exact pure trivial

theorem noteEntry (e : Value) : Ahead (fun _ => True) (Evaluation.noteEntry e) := by
  refine bind get fun m _ => ?_
  dsimp only
  split
  · exact bind (note _) fun _ _ => noteIf _ _
  · exact noteIf _ _

theorem noteExit (result : Except Error Value) :
    Ahead (fun _ => True) (Evaluation.noteExit result) := by
  refine bind get fun m _ => ?_
  dsimp only
  split
  · split
    · exact bind (note _) fun _ _ => noteIf _ _
    · exact bind (note _) fun _ _ => noteIf _ _
  · exact noteIf _ _

theorem observed (e : Value) {x : Eval Value} (hx : Ahead (·.isStandard = true) x) :
    Ahead (·.isStandard = true) (Evaluation.observed e x) := by
  have hcaught : Ahead (Known (·.isStandard = true))
      (liftM (Eval.bracket (fun m => { m with indent := m.indent + 1 })
        (fun m => { m with indent := m.indent - 1 }) x).run : Eval (Except Error Value)) := by
    intro m hl hm
    obtain ⟨hquiet, hknown⟩ := hx { m with indent := m.indent + 1 } hl hm
    refine ⟨{ hquiet with indent := ?_ }, hknown⟩
    show (x { m with indent := m.indent + 1 }).2.indent - 1 = m.indent
    rw [hquiet.indent, Nat.add_sub_cancel]
  refine bind get fun m _ => ?_
  split
  · refine bind (noteEntry e) fun _ _ => bind hcaught fun result hresult => ?_
    refine bind (noteExit result) fun _ _ m _ _ => ?_
    rw [Eval.ofExcept_apply]
    exact ⟨Machine.Quiet.refl m, hresult⟩
  · exact hx

theorem nested (room : Nat) {x : Eval Value} (hx : Ahead (·.isStandard = true) x) :
    Ahead (·.isStandard = true) (Evaluation.nested room x) := by
  intro m hl hm
  rw [Evaluation.nested_eq, Eval.bracket_apply]
  obtain ⟨hquiet, hknown⟩ := hx { m with depth := m.depth + 1 } hl hm
  refine ⟨{ hquiet with depth := ?_ }, hknown⟩
  show (x { m with depth := m.depth + 1 }).2.depth - 1 = m.depth
  rw [hquiet.depth, Nat.add_sub_cancel]

/-- **Each step ahead of time is quiet.** -/
theorem visitWithin (room : Nat) {e : Value} (he : e.isStandard = true) :
    Ahead (·.isStandard = true) (Evaluation.visitWithin room e) := by
  induction room generalizing e with
  | zero => exact bind get fun m _ => throw rfl
  | succ room ih => exact nested room (observed e (step (fun e he => ih he) he))

end Ahead

/-! ## The main statement -/

/-- **Reducing an expression ahead of time has no effect**: environments, options, output, texts,
vectors, structs and the closures made before are as they were, on every machine whose native
functions are standard. If it fails, then not because of an unknown name or a head that is no
function. -/
theorem visit_ahead_quiet {m : Machine} (hm : m.isStandard = true) {e : Value}
    (he : e.isStandard = true) :
    m.Quiet (Eval.withLevel .ahead (Evaluation.visit e) m).2 ∧
      ∀ err, (Eval.withLevel .ahead (Evaluation.visit e) m).1 = .error err →
        err.isUnknown = false := by
  obtain ⟨hquiet, hknown⟩ :=
    Ahead.visitWithin (Evaluation.room m) he (m.atLevel .ahead) rfl hm
  refine ⟨{ hquiet with level := rfl }, fun err herr => ?_⟩
  change (Evaluation.visitWithin (Evaluation.room m) e (m.atLevel .ahead)).1 = .error err at herr
  rw [herr] at hknown
  exact hknown

/-- In the initial environment `(print (f . x))` prints nothing ahead of time, and fails for the
improper list alone. -/
theorem visit_ahead_quiet_improper :
    let m := Machine.start .initial {} {}
    let e := Value.pair 2 (.symbol "print")
      (.pair 1 (.pair 0 (.symbol "f") (.symbol "x")) .nil)
    m.isStandard = true ∧ e.isStandard = true ∧
      m.Quiet (Eval.withLevel .ahead (Evaluation.visit e) m).2 ∧
      (Eval.withLevel .ahead (Evaluation.visit e) m).1 = .error (.malformedList "x") ∧
      (Error.malformedList "x").isUnknown = false := by
  intro m e
  have hm : m.isStandard = true := by
    simp [m, Machine.isStandard, Machine.start, initial_isStandard]
  have he : e.isStandard = true := by decide
  have hfails : (Eval.withLevel .ahead (Evaluation.visit e) m).1 =
      .error (.malformedList "x") := by rfl
  obtain ⟨hquiet, hknown⟩ := visit_ahead_quiet hm he
  exact ⟨hm, he, hquiet, hfails, hknown _ hfails⟩

end CurryLisp
