import CurryLisp.Proofs.Currying
import CurryLisp.Proofs.Detached
import CurryLisp.Proofs.Surroundings
import Mathlib.Data.List.Forall2

/-!
# The place of currying under dynamic scoping

With dynamic scoping a closure that receives its first arguments reduces its body in the environment
of the place where it receives them, and is called later in the environment of another place. The
first place decides about the names that have a value there: in the reduced body the value stands in
place of the name. Any other name stays, and so does one whose value would be taken for code; those are
looked up when the closure is called.

So the place of currying makes a difference through the names that the reduction knows
(`Machine.known?`), and of these only through the names that it asks for (`Value.asks`). Two reductions
are compared that run in lockstep (`Lockstep`), on machines with the same objects and types.

Statements:

* `curry_place`: where the same is known of the names that are asked for, the place of currying makes
  no difference.
* `curry_place_matters`: where a name that is asked for has two values, it does.
-/

namespace CurryLisp

open SpecialForm (Visit)

/-! ## What a reduction knows and asks for -/

/-- What a reduction ahead of time knows of a name: its value, unless that stands for code. -/
def Machine.known? (m : Machine) (name : String) : Option Value :=
  (m.lookup? name).filter fun v => !v.isResidual

namespace Value

/-- Whether a head is known to take its operands as they are written. -/
def isForm (known : String → Option Value) : Value → Bool
  | symbol name => (known name).any takesCode
  | v => v.takesCode

mutual

/-- The names that the reduction of an expression asks for. Quotes and the operands of special forms
are not reduced. -/
def asks (known : String → Option Value) : Value → List String
  | symbol name => [name]
  | pair _ car cdr =>
    if car.isNil then []
    else car.asks known ++ if car.isForm known then [] else cdr.operandsAsk known
  | _ => []

/-- The names that the reduction of operands asks for. -/
def operandsAsk (known : String → Option Value) : Value → List String
  | pair _ car cdr => car.asks known ++ cdr.operandsAsk known
  | _ => []

end

/-- The same is known twice of every name that the reduction of an expression asks for. -/
abbrev AsksAlike (known known' : String → Option Value) (e : Value) : Prop :=
  ∀ name ∈ e.asks known, known name = known' name

/-- What a reduction may answer: the functions in reach that are pure ignore names, and a head that is
known to be a form is found to be one. -/
structure Reduct (hosts : Array HostFunction) (known : String → Option Value) (e v : Value) :
    Prop where
  uses : v.UsesOnly (NativeFunction.IgnoresNames hosts)
  form : e.isForm known = true → v.takesCode = true

/-- Each operand asks for some of these names. -/
theorem asks_subset_operandsAsk {known : String → Option Value} {v e : Value} {operands : List Value}
    (h : v.toList? = some operands) (he : e ∈ operands) : e.asks known ⊆ v.operandsAsk known := by
  induction operands generalizing v with
  | nil => cases he
  | cons operand operands ih =>
    obtain ⟨stamp, cdr, rfl, hcdr⟩ := eq_pair_of_toList? h
    unfold operandsAsk
    rcases List.mem_cons.1 he with rfl | he
    · exact List.subset_append_left ..
    · exact List.Subset.trans (ih hcdr he) (List.subset_append_right ..)

end Value

namespace Evaluation

/-- A name ahead of time: it is what is known of it, or it stays. -/
theorem visitSymbol_known {name : String} {m : Machine} (hm : m.level = .ahead) :
    visitSymbol name m =
      (match m.known? name with
      | some (.type tag) => resolveType tag
      | some v => pure v
      | none => pure (.symbol name) : Eval Value) m := by
  unfold visitSymbol Machine.known?
  rw [Eval.bind_apply, Eval.get_apply]
  dsimp only
  rw [if_neg (by simp [hm])]
  cases m.lookup? name with
  | none => simp [hm]
  | some v =>
    dsimp only
    rw [Option.filter_some]
    cases hv : v.isResidual with
    | true => simp [hm]
    | false =>
      rw [if_neg (by simp), if_pos (by simp)]
      cases v <;> rfl

end Evaluation

/-! ## Machines in step -/

/-- Surroundings without a difference, in which only these functions are in reach. -/
def Surroundings.same (below : List Environment) (ok : NativeFunction → Prop)
    (hosts : Array HostFunction) : Surroundings := ⟨below, below, True, True, ok, hosts, .inl rfl⟩

/-- Two machines on which a reduction ahead of time can be compared: the objects and the types are the
same, `known` is what the first knows of names and `known'` what the second knows. The functions in
reach of the first that are pure ignore names. -/
structure Machine.InStep (hosts : Array HostFunction) (below : List Environment)
    (known known' : String → Option Value) (m m' : Machine) : Prop where
  reach : m.Alike (.same below (NativeFunction.IgnoresNames hosts) hosts) 1 m
  level : m.level = .ahead
  level' : m'.level = .ahead
  known : m.known? = known
  known' : m'.known? = known'
  types : m'.lookupType? = m.lookupType?
  maxDepth : m'.options.maxDepth = m.options.maxDepth
  placeholders : m'.placeholders = m.placeholders
  store : m'.store = m.store

/-- `x` answers the same on machines in step, and leaves them in step; of what it answers, `P` holds. -/
abbrev Lockstep {α : Type} (hosts : Array HostFunction) (below : List Environment)
    (known known' : String → Option Value) (P : α → Prop) (x : Eval α) : Prop :=
  Relates (Machine.InStep hosts below known known') P x

section InStep

variable {hosts : Array HostFunction} {below : List Environment}
  {known known' : String → Option Value} {m m' n n' : Machine}

/-- Notes and nesting make no difference. -/
theorem Machine.InStep.noted (h : m.InStep hosts below known known' m') (hm : m.Noted n)
    (hm' : m'.Noted n') : n.InStep hosts below known known' n' := by
  obtain ⟨depth, indent, events, rfl⟩ := hm
  obtain ⟨depth', indent', events', rfl⟩ := hm'
  exact { h with
    reach := { h.reach with
      depth := rfl, reports := fun _ => ⟨rfl, rfl, rfl⟩, changes := fun _ => ⟨rfl, rfl⟩ } }

namespace Lockstep

open Relates (pure throw imp bind get)

variable {α β : Type} {P : α → Prop} {Q : β → Prop}

theorem store {f : Store → Eval β} (hf : ∀ s, Lockstep hosts below known known' Q (f s)) :
    Lockstep hosts below known known' Q (Eval.store >>= f) :=
  get fun m _ h => ⟨by rw [h.store], hf m.store⟩

/-- Computations that are the same ahead of time. -/
theorem congr {x y : Eval α} (hxy : ∀ m : Machine, m.level = .ahead → x m = y m)
    (hy : Lockstep hosts below known known' P y) : Lockstep hosts below known known' P x := by
  intro m m' h
  rw [hxy m h.level, hxy m' h.level']
  exact hy m m' h

/-- A computation on objects does not see where the machines differ. -/
theorem detached {x : Eval α} (hx : Detached hosts x)
    (hstable : Stable (.same below (NativeFunction.IgnoresNames hosts) hosts) P x) :
    Lockstep hosts below known known' P x := by
  intro m m' h
  obtain ⟨-, hreach, hanswer⟩ := hstable 1 m m h.reach
  obtain ⟨d, -, hd⟩ := hx m.store m.placeholders h.reach.hosts
  rw [hd m rfl rfl] at hreach hanswer ⊢
  rw [hd m' h.store h.placeholders]
  exact ⟨rfl, { h with reach := hreach, placeholders := rfl, store := rfl }, hanswer⟩

/-- The operands of a function that takes them reduced stay ahead of time. -/
theorem withLevel {x : Eval α} (hx : Lockstep hosts below known known' P x) :
    Lockstep hosts below known known' P (Eval.withLevel .ahead x) := by
  intro m m' h
  obtain ⟨hsame, hstep, hanswer⟩ := hx m m' h
  rw [Evaluation.withLevel_eq h.level hstep.level, Evaluation.withLevel_eq h.level' hstep.level']
  exact ⟨hsame, hstep, hanswer⟩

/-! ### Steps -/

theorem resolveType (tag : TypeTag) :
    Lockstep hosts below known known' (Value.UsesOnly (NativeFunction.IgnoresNames hosts))
      (Evaluation.resolveType tag) := by
  refine get fun m m' h => ⟨by rw [h.types, h.level, h.level'], ?_⟩
  split
  · exact pure trivial
  · split
    · exact pure trivial
    · exact throw _

/-- A name that is asked for must be known alike. -/
theorem visitSymbol {name : String} (hname : known name = known' name) :
    Lockstep hosts below known known' ((Value.symbol name).Reduct hosts known)
      (Evaluation.visitSymbol name) := by
  intro m m' h
  have hresult : ∀ v, known name = some v → v.UsesOnly (NativeFunction.IgnoresNames hosts) := by
    intro v hv
    rw [← h.known] at hv
    exact h.reach.lookupUses (Option.eq_some_of_filter_eq_some hv)
  rw [Evaluation.visitSymbol_known h.level, Evaluation.visitSymbol_known h.level', h.known, h.known',
    ← hname]
  cases hv : known name with
  | none =>
    refine pure ⟨trivial, fun hform => ?_⟩ m m' h
    simp [Value.isForm, hv] at hform
  | some v =>
    have hreduct : (Value.symbol name).Reduct hosts known v :=
      ⟨hresult v hv, fun hform => by simpa [Value.isForm, hv] using hform⟩
    cases v with
    | type tag =>
      refine imp (fun v hvalue => ⟨hvalue, fun hform => ?_⟩) (resolveType tag) m m' h
      simp [Value.isForm, hv, Value.takesCode] at hform
    | _ => exact pure hreduct m m' h

theorem rebuild {head : Value} (hhead : head.UsesOnly (NativeFunction.IgnoresNames hosts))
    {args : List Value} (hargs : Value.AllUseOnly (NativeFunction.IgnoresNames hosts) args) :
    Lockstep hosts below known known' (Value.UsesOnly (NativeFunction.IgnoresNames hosts))
      (Evaluation.rebuild head args) :=
  detached (Detached.make fun s => .list _ s) (Stable.rebuild hhead hargs)

section Parts

variable {room : Nat}
  (hv : ∀ e : Value, e.UsesOnly (NativeFunction.IgnoresNames hosts) → e.AsksAlike known known' →
    Lockstep hosts below known known' (e.Reduct hosts known) (Evaluation.visitWithin room e))
include hv

theorem visitAll {es : List Value} (hes : Value.AllUseOnly (NativeFunction.IgnoresNames hosts) es)
    (hasks : ∀ e ∈ es, e.AsksAlike known known') :
    Lockstep hosts below known known' (Value.AllUseOnly (NativeFunction.IgnoresNames hosts))
      (Application.visitAll (Evaluation.visitWithin room) es) := by
  unfold Application.visitAll
  induction es with
  | nil => exact pure .nil
  | cons e es ih =>
    rw [List.mapM_cons]
    have he := hv e (hes e (List.mem_cons_self ..)) (hasks e (List.mem_cons_self ..))
    have hrest := ih (fun x hx => hes x (List.mem_cons_of_mem _ hx))
      fun x hx => hasks x (List.mem_cons_of_mem _ hx)
    refine bind he fun v hvalue => bind hrest fun vs hvs => pure fun found hfound => ?_
    rcases List.mem_cons.1 hfound with rfl | hfound
    · exact hvalue.uses
    · exact hvs found hfound

/-- An application is put together again, or it is the call of a pure native function. Operands are
reduced only if the head takes them so. -/
theorem applied {operands : List Value} {head : Value}
    (hhead : head.UsesOnly (NativeFunction.IgnoresNames hosts))
    (hoperands : Value.AllUseOnly (NativeFunction.IgnoresNames hosts) operands)
    (hasks : head.takesCode = false → ∀ e ∈ operands, e.AsksAlike known known') :
    Lockstep hosts below known known' (Value.UsesOnly (NativeFunction.IgnoresNames hosts))
      (Evaluation.applied (Evaluation.visitWithin room) operands head) := by
  refine store fun s => ?_
  split
  · next f hf =>
    refine get fun m m' h => ⟨by rw [h.level, h.level'], ?_⟩
    dsimp only
    rw [h.level]
    cases hcode : head.takesCode with
    | true =>
      rw [if_pos (by simpa using (Value.rank_lt_of_takesCode hf).2 hcode)]
      exact rebuild hhead hoperands
    | false =>
      have hlevel := Value.level_of_takesValues hf (by rw [Value.takesValues_eq hf, hcode]; rfl)
      rw [if_neg (by simp [hlevel]), hlevel]
      refine bind (withLevel (visitAll hv hoperands (hasks hcode))) fun args hargs => ?_
      split
      · exact rebuild hhead hargs
      · next hpure =>
        -- What is called ahead of time is pure, so it is a native function.
        cases f with
        | native g =>
          obtain rfl : head = .native g := by
            cases head with
            | native f =>
              cases hf
              rfl
            | _ => cases hf
          have hpure : g.isPure = true := by
            simp only [Callable.isPure, Bool.not_eq_true, Bool.and_eq_false_iff] at hpure
            simp_all
          have hcontext := hhead hpure hlevel
          refine bind (pure hargs) fun args hargs => ?_
          exact detached (Detached.apply _ hcontext args)
            (Stable.apply (fun e he => Stable.visitWithin room he) hhead hargs)
        | closure c => exact absurd rfl hpure
        | struct a => exact absurd rfl hpure
  · next hf =>
    refine get fun m m' h => ⟨by rw [h.level, h.level'], ?_⟩
    rw [if_pos h.level]
    refine bind (visitAll hv hoperands (hasks (Value.takesCode_of_not_callable hf))) ?_
    exact fun args hargs => rebuild hhead hargs

theorem visitPair {stamp : Nat} {car cdr : Value}
    (hcar : car.UsesOnly (NativeFunction.IgnoresNames hosts))
    (hcdr : cdr.UsesOnly (NativeFunction.IgnoresNames hosts))
    (hasks : (Value.pair stamp car cdr).AsksAlike known known') :
    Lockstep hosts below known known' (Value.UsesOnly (NativeFunction.IgnoresNames hosts))
      (Evaluation.visitPair (Evaluation.visitWithin room) (.pair stamp car cdr) car cdr) := by
  cases hnil : car.isNil with
  | true => exact congr (fun m _ => Evaluation.visitPair_nil _ _ hnil) (pure ⟨hcar, hcdr⟩)
  | false =>
    unfold Value.AsksAlike Value.asks at hasks
    rw [if_neg (by simp [hnil])] at hasks
    cases hlist : cdr.toList? with
    | none =>
      refine get fun m m' h => ⟨by rw [h.level, h.level'], ?_⟩
      rw [if_neg (by simp [h.level, hnil]), hlist]
      exact store fun s => throw _
    | some operands =>
      refine congr (fun m hm => Evaluation.visitPair_eq _ _ (by simp [hm]) hnil hlist) ?_
      refine bind (hv car hcar fun name hname => hasks name (List.mem_append_left _ hname)) ?_
      intro head hhead
      refine applied hv hhead.uses (fun v hmem => .of_mem_toList? hlist hcdr hmem) ?_
      -- The head takes its operands reduced, so it was not known to be a form.
      intro hcode operand hoperand name hname
      refine hasks name (List.mem_append_right _ ?_)
      rw [if_neg fun hform => by simp [hhead.form hform] at hcode]
      exact Value.asks_subset_operandsAsk hlist hoperand hname

theorem step {e : Value} (he : e.UsesOnly (NativeFunction.IgnoresNames hosts))
    (hasks : e.AsksAlike known known') :
    Lockstep hosts below known known' (e.Reduct hosts known)
      (Evaluation.step (Evaluation.visitWithin room) e) := by
  cases e with
  | pair stamp car cdr =>
    exact imp (fun v hvalue => ⟨hvalue, fun hform => by cases hform⟩) (visitPair hv he.1 he.2 hasks)
  | quoted inner =>
    refine congr (fun m hm => Evaluation.visitQuoted_ahead _ _ _ hm) (pure ⟨he, fun hform => ?_⟩)
    cases hform
  | symbol name => exact visitSymbol (hasks name (List.mem_singleton_self name))
  | type tag =>
    refine congr (fun m hm => Evaluation.step_type _ tag (by simp [hm])) ?_
    exact imp (fun v hvalue => ⟨hvalue, fun hform => by cases hform⟩) (resolveType tag)
  | _ => exact pure ⟨he, id⟩

end Parts

/-- **Reductions run in lockstep** where the same is known of every name that is asked for, by
induction on the steps that may still be nested. -/
theorem visitWithin (room : Nat) {e : Value} (he : e.UsesOnly (NativeFunction.IgnoresNames hosts))
    (hasks : e.AsksAlike known known') :
    Lockstep hosts below known known' (e.Reduct hosts known) (Evaluation.visitWithin room e) := by
  induction room generalizing e with
  | zero => exact get fun m m' h => ⟨by rw [h.maxDepth], throw _⟩
  | succ room ih =>
    intro m m' h
    obtain ⟨n, hvisit, hnoted⟩ := Evaluation.visitWithin_succ room e m
    obtain ⟨n', hvisit', hnoted'⟩ := Evaluation.visitWithin_succ room e m'
    obtain ⟨hsame, hstep, hanswer⟩ := step (fun e he hasks => ih he hasks) he hasks _ _
      (h.noted (Evaluation.inside_noted e m) (Evaluation.inside_noted e m'))
    rw [hvisit, hvisit']
    exact ⟨hsame, hstep.noted hnoted hnoted', hanswer⟩

end Lockstep

end InStep

/-! ## Machines that differ in the values of names -/

/-- Environments that differ in the values of names at most. -/
structure Environment.SameButValues (env env' : Environment) : Prop where
  types : env'.types = env.types
  structs : env'.structs = env.structs

/-- Machines that differ in the values of names at most. -/
structure Machine.SameButValues (m m' : Machine) : Prop where
  global : m.global.SameButValues m'.global
  frames : List.Forall₂ Environment.SameButValues m.frames m'.frames
  level : m'.level = m.level
  options : m'.options = m.options
  indent : m'.indent = m.indent
  depth : m'.depth = m.depth
  placeholders : m'.placeholders = m.placeholders
  store : m'.store = m.store
  printed : m'.printed = m.printed
  events : m'.events = m.events

theorem Machine.SameButValues.active {m m' : Machine} (h : m.SameButValues m') :
    m.active.SameButValues m'.active := by
  have hframes := h.frames
  unfold Machine.active
  cases hm : m.frames with
  | nil =>
    rw [hm, List.forall₂_nil_left_iff] at hframes
    rw [hframes]
    exact h.global
  | cons frame frames =>
    rw [hm, List.forall₂_cons_left_iff] at hframes
    obtain ⟨frame', frames', hframe, -, hm'⟩ := hframes
    rw [hm']
    exact hframe

/-! ## Names in the frames of a closure -/

namespace Closure

variable {c : Closure} {xs : List Value} {m : Machine} {name : String}

/-- The names that the frames of a closure bind: those bound before, and the parameters. -/
def locals (c : Closure) : List String := c.bound.map (·.1) ++ c.params

/-- With dynamic scoping a call starts from the environment of the caller. -/
theorem base_dynamic (hm : m.options.scoping = .dynamic) : c.base m = m.active := by
  unfold base
  rw [hm]

/-- What a closure binds hides the environments around it. -/
theorem lookup?_reducing_of_mem (hname : name ∈ c.locals) (hlength : xs.length ≤ c.params.length) :
    ∃ v, ∀ m, (c.reducing xs m).lookup? name = some v := by
  unfold locals at hname
  rw [← map_fst_reducing hlength] at hname
  obtain ⟨v, hv⟩ := Table.get?_insertAll_of_key hname
  refine ⟨v, fun m => ?_⟩
  rw [lookup?_reducing, hv]
  rfl

/-- Any other name is looked up where the closure is curried. -/
theorem lookup?_reducing_of_not_mem (hm : m.options.scoping = .dynamic) (hname : name ∉ c.locals)
    (hlength : xs.length ≤ c.params.length) :
    (c.reducing xs m).lookup? name = m.lookup? name := by
  unfold locals at hname
  rw [← map_fst_reducing hlength] at hname
  rw [lookup?_reducing, base_dynamic hm, Table.get?_insertAll_of_ne _ fun entry hentry heq =>
    hname (List.mem_map.2 ⟨entry, hentry, heq⟩)]
  rfl

/-- Any other name is looked up where the closure is called. -/
theorem lookup?_calling_of_not_mem (hm : m.options.scoping = .dynamic) (hname : name ∉ c.locals) :
    (c.calling xs m).lookup? name = m.lookup? name := by
  have hnone : ∀ entry ∈ c.bound ++ c.params.zip xs, entry.1 ≠ name := by
    rintro entry hentry rfl
    refine hname (List.mem_append.2 ?_)
    rcases List.mem_append.1 hentry with hentry | hentry
    · exact .inl (List.mem_map.2 ⟨entry, hentry, rfl⟩)
    · exact .inr (List.of_mem_zip hentry).1
  rw [lookup?_calling, base_dynamic hm, Table.get?_insertAll_of_ne _ hnone]
  rfl

/-- A closure that has received arguments binds the same names. -/
theorem locals_supplied (body : List Value) (hlength : xs.length ≤ c.params.length) :
    (c.supplied xs body).locals = c.locals := by
  unfold locals supplied
  rw [List.map_append, map_fst_zip_take hlength, List.append_assoc, List.take_append_drop]

/-! ## Reductions at two places -/

section Places

variable {m' : Machine} (hm : m.options.scoping = .dynamic) (hsame : m.SameButValues m')
include hm hsame

/-- The frames of a closure are in step where the places differ in the values of names only. -/
theorem inStep_reducing (hc : c.UsesOnly (NativeFunction.IgnoresNames m.store.hosts))
    (hactive : m.active.UsesOnly (NativeFunction.IgnoresNames m.store.hosts))
    (hglobal : m.global.UsesOnly (NativeFunction.IgnoresNames m.store.hosts))
    (hstore : m.store.UsesOnly (NativeFunction.IgnoresNames m.store.hosts))
    (hxs : Value.AllUseOnly (NativeFunction.IgnoresNames m.store.hosts) xs) :
    (c.reducing xs m).InStep m.store.hosts m.frames (c.reducing xs m).known? (c.reducing xs m').known?
      (c.reducing xs m') := by
  have hm' : m'.options.scoping = .dynamic := by rw [hsame.options, hm]
  have hbase : (c.base m).UsesOnly (NativeFunction.IgnoresNames m.store.hosts) := by rwa [base_dynamic hm]
  obtain ⟨-, hframe⟩ :=
    Stable.reducingFrame
      (c := .same m.frames (NativeFunction.IgnoresNames m.store.hosts) m.store.hosts) hbase hc hxs
  refine {
    reach := {
      frames := ⟨[_], rfl, rfl, rfl, fun frame hmem => by rwa [List.mem_singleton.1 hmem]⟩
      top := nofun
      global := rfl
      level := rfl
      scoping := rfl
      maxDepth := rfl
      depth := rfl
      placeholders := rfl
      store := rfl
      printed := rfl
      reports := fun _ => ⟨rfl, rfl, rfl⟩
      changes := fun _ => ⟨rfl, rfl⟩
      globalUses := hglobal
      storeUses := hstore
      hosts := rfl }
    level := rfl
    level' := rfl
    known := rfl
    known' := rfl
    types := funext fun name => ?_
    maxDepth := congrArg Options.maxDepth hsame.options
    placeholders := hsame.placeholders
    store := hsame.store }
  change ((c.base m').types.get? name <|> m'.global.types.get? name) =
    ((c.base m).types.get? name <|> m.global.types.get? name)
  rw [base_dynamic hm, base_dynamic hm', hsame.active.types, hsame.global.types]

end Places

end Closure

namespace Application

/-- Closures of the same content are applied alike. -/
theorem apply_closure_congr (visit : Visit) {m : Machine} {a b : Address}
    (h : m.store.closure a = m.store.closure b) {args : List Value} (hsome : args ≠ []) :
    apply visit (.closure a) args m = apply visit (.closure b) args m := by
  have hempty : args.isEmpty = false := by simpa using hsome
  rw [apply, apply, Eval.bind_apply, Eval.bind_apply, Eval.store_apply]
  dsimp only [Value.callable?]
  simp only [h, hempty, Bool.false_and, Bool.false_eq_true, if_false]

section Places

variable {m m' : Machine} {a : Address} {xs : List Value} {c : Closure}
  (hm : m.options.scoping = .dynamic) (hsame : m.SameButValues m')
  (hactive : m.active.UsesOnly (NativeFunction.IgnoresNames m.store.hosts))
  (hglobal : m.global.UsesOnly (NativeFunction.IgnoresNames m.store.hosts))
  (hstore : m.store.UsesOnly (NativeFunction.IgnoresNames m.store.hosts))
  (hxs : Value.AllUseOnly (NativeFunction.IgnoresNames m.store.hosts) xs)
include hm hsame hactive hglobal hstore hxs

/-- **A body is reduced alike at both places**, if the same is known there of the names that it asks
for and that the closure does not bind. -/
theorem visitAll_reducing_places (room : Nat) (hc : c.UsesOnly (NativeFunction.IgnoresNames m.store.hosts))
    (hlength : xs.length ≤ c.params.length)
    (hknown : ∀ e ∈ c.body, ∀ name ∈ e.asks (c.reducing xs m).known?, name ∉ c.locals →
      m'.known? name = m.known? name) :
    (visitAll (Evaluation.visitWithin room) c.body (c.reducing xs m')).1 =
        (visitAll (Evaluation.visitWithin room) c.body (c.reducing xs m)).1 ∧
      (visitAll (Evaluation.visitWithin room) c.body (c.reducing xs m')).2.store =
        (visitAll (Evaluation.visitWithin room) c.body (c.reducing xs m)).2.store := by
  have hm' : m'.options.scoping = .dynamic := by rw [hsame.options, hm]
  have hasks : ∀ e ∈ c.body,
      e.AsksAlike (c.reducing xs m).known? (c.reducing xs m').known? := by
    intro e he name hname
    unfold Machine.known?
    by_cases hlocal : name ∈ c.locals
    · obtain ⟨v, hv⟩ := Closure.lookup?_reducing_of_mem hlocal hlength
      rw [hv, hv]
    · rw [Closure.lookup?_reducing_of_not_mem hm hlocal hlength,
        Closure.lookup?_reducing_of_not_mem hm' hlocal hlength]
      exact (hknown e he name hname hlocal).symm
  obtain ⟨hresult, hstep, -⟩ :=
    Lockstep.visitAll (fun e he hasks => Lockstep.visitWithin room he hasks) hc.body hasks _ _
      (Closure.inStep_reducing hm hsame hc hactive hglobal hstore hxs)
  exact ⟨hresult, hstep.store⟩

/-- Currying ends alike at both places, and leaves the same objects. -/
theorem curryClosure_places (room : Nat) (hc : c.UsesOnly (NativeFunction.IgnoresNames m.store.hosts))
    (hlength : xs.length ≤ c.params.length)
    (hknown : ∀ e ∈ c.body, ∀ name ∈ e.asks (c.reducing xs m).known?, name ∉ c.locals →
      m'.known? name = m.known? name) :
    (curryClosure (Evaluation.visitWithin room) c xs m').1 =
        (curryClosure (Evaluation.visitWithin room) c xs m).1 ∧
      (curryClosure (Evaluation.visitWithin room) c xs m').2.store =
        (curryClosure (Evaluation.visitWithin room) c xs m).2.store := by
  obtain ⟨hresult, hafter⟩ :=
    visitAll_reducing_places hm hsame hactive hglobal hstore hxs room hc hlength hknown
  rcases hr : visitAll (Evaluation.visitWithin room) c.body (c.reducing xs m) with ⟨result, after⟩
  rcases hr' : visitAll (Evaluation.visitWithin room) c.body (c.reducing xs m') with
    ⟨result', after'⟩
  rw [hr, hr'] at hresult hafter
  obtain rfl : result' = result := hresult
  rw [curryClosure_reducing _ c hr, curryClosure_reducing _ c hr']
  dsimp only at hafter
  cases result' with
  | error e => exact ⟨rfl, hafter⟩
  | ok body => exact ⟨by simp only [hafter], by simp only [hafter]⟩

end Places

end Application

/-! ## The main statement -/

/-- **The place of currying makes no difference beyond what is known there.** Two places with dynamic
scoping differ in the values of names only, and of each name that the reduction of the body asks for
and that the closure does not bind, the same is known at both: it has the same value, or a value that
stands for code, or none. Functions that are declared pure are so. Then currying ends alike at both
places. The two closures do the same with any other arguments at one and the same later place, and
there every name that the first closure does not bind is looked up where they are called. -/
theorem curry_place {m m' : Machine} {a : Address} {xs : List Value} (room : Nat)
    (hm : m.options.scoping = .dynamic) (hsame : m.SameButValues m') (hsome : xs ≠ [])
    (hshort : xs.length < (m.store.closure a).params.length)
    (hactive : m.active.UsesOnly (NativeFunction.IgnoresNames m.store.hosts))
    (hglobal : m.global.UsesOnly (NativeFunction.IgnoresNames m.store.hosts))
    (hstore : m.store.UsesOnly (NativeFunction.IgnoresNames m.store.hosts))
    (hxs : Value.AllUseOnly (NativeFunction.IgnoresNames m.store.hosts) xs)
    (hknown : ∀ e ∈ (m.store.closure a).body,
      ∀ name ∈ e.asks ((m.store.closure a).reducing xs m).known?,
        name ∉ (m.store.closure a).locals → m'.known? name = m.known? name) :
    (Application.apply (Evaluation.visitWithin room) (.closure a) xs m').1 =
        (Application.apply (Evaluation.visitWithin room) (.closure a) xs m).1 ∧
      ∀ g g' n n',
        Application.apply (Evaluation.visitWithin room) (.closure a) xs m = (.ok g, n) →
        Application.apply (Evaluation.visitWithin room) (.closure a) xs m' = (.ok g', n') →
          ∃ b b', g = .closure b ∧ g' = .closure b' ∧
            ∀ later : Machine, later.options.scoping = .dynamic → ∀ i j,
              later.store.closure i = n.store.closure b →
              later.store.closure j = n'.store.closure b' →
                (∀ room ys, ys ≠ [] →
                  Application.apply (Evaluation.visitWithin room) (.closure j) ys later =
                    Application.apply (Evaluation.visitWithin room) (.closure i) ys later) ∧
                ∀ ys name, name ∉ (m.store.closure a).locals →
                  ((later.store.closure i).calling ys later).lookup? name = later.lookup? name := by
  have hshort' : xs.length < (m'.store.closure a).params.length := by rwa [hsame.store]
  obtain ⟨hresult, hafter⟩ := Application.curryClosure_places hm hsame hactive hglobal hstore hxs
    room (hstore.closure a) (Nat.le_of_lt hshort) hknown
  rw [Application.apply_curry _ hsome hshort, Application.apply_curry _ hsome hshort', hsame.store]
  refine ⟨hresult, fun g g' n n' hg hg' => ?_⟩
  rcases hr : Application.visitAll (Evaluation.visitWithin room) (m.store.closure a).body
    ((m.store.closure a).reducing xs m) with ⟨e | body, after⟩
  · rw [Application.curryClosure_reducing _ _ hr] at hg
    cases hg
  · have hcurried := hg
    rw [Application.curryClosure_reducing _ _ hr] at hcurried
    obtain ⟨hclosure, hn⟩ := Prod.mk.inj hcurried
    obtain rfl := Except.ok.inj hclosure
    rw [hg, hg'] at hresult hafter
    obtain rfl := Except.ok.inj hresult
    -- The new closure has the reduced body, which is the same at both places.
    have hcontent : n.store.closure after.store.closures.size =
        (m.store.closure a).supplied xs body := by
      rw [← hn]
      exact Store.closure_newClosure _ _
    refine ⟨_, _, rfl, rfl, fun later hlater i j hi hj => ⟨fun room ys hys => ?_, ?_⟩⟩
    · refine Application.apply_closure_congr _ ?_ hys
      rw [hi, hj]
      exact congrArg (Store.closure · _) hafter
    · intro ys name hname
      rw [hi, hcontent]
      refine Closure.lookup?_calling_of_not_mem hlater ?_
      rwa [Closure.locals_supplied _ (Nat.le_of_lt hshort)]

/-! ## A name with two values -/

/-- The function `(\ (a b) k)`. -/
def Closure.reading : Closure where
  params := ["a", "b"]
  body := [.symbol "k"]

/-- An initial machine with dynamic scoping and closures, in which `k` may have a value. -/
def Machine.reading (k : Option Value) (closures : Array Closure) : Machine :=
  .start (k.elim .initial (Environment.initial.put "k")) { scoping := .dynamic } { closures }

theorem Machine.sameButValues_reading (k k' : Option Value) (closures : Array Closure) :
    (reading k closures).SameButValues (reading k' closures) := by
  have hglobal : ∀ k : Option Value, Environment.initial.SameButValues
      (k.elim .initial (Environment.initial.put "k")) := by
    intro k
    cases k <;> exact ⟨rfl, rfl⟩
  refine ⟨⟨?_, ?_⟩, .nil, rfl, rfl, rfl, rfl, rfl, rfl, rfl, rfl⟩
  · exact (hglobal k').types.trans (hglobal k).types.symm
  · exact (hglobal k').structs.trans (hglobal k).structs.symm

/-- The function receives its first argument and becomes a closure with the reduced body. -/
theorem apply_reading {k : Option Value} {v : Value}
    (h : Application.visitAll (Evaluation.visitWithin 20000) Closure.reading.body
      (Closure.reading.reducing [.integer 0] (.reading k #[.reading])) =
        (.ok [v], Closure.reading.reducing [.integer 0] (.reading k #[.reading]))) :
    ∃ m, Session.apply (.closure 0) [.integer 0] (.reading k #[.reading]) =
        (.ok (.closure 1), m) ∧
      m.store.closure 1 = Closure.reading.supplied [.integer 0] [v] := by
  obtain ⟨event, hcurry⟩ := Application.curryClosure_apply _ Closure.reading h
  have hshort : [Value.integer 0].length <
      ((Machine.reading k #[.reading]).store.closure 0).params.length := Nat.lt_succ_self 1
  refine ⟨_, (Application.apply_curry _ (by simp) hshort).trans hcurry, ?_⟩
  exact Store.closure_newClosure _ _

/-- Where `k` has no value, and where its value is the code `'x`, `(\ (a b) k)` becomes the same
closure. At a later place where `k` is 7 its value is 7. -/
theorem curry_place_unknown :
    let m := Machine.reading none #[.reading]
    let m' := Machine.reading (some (.quoted (.symbol "x"))) #[.reading]
    m.options.scoping = .dynamic ∧ m.SameButValues m' ∧
      m.active.UsesOnly (NativeFunction.IgnoresNames m.store.hosts) ∧
      m.global.UsesOnly (NativeFunction.IgnoresNames m.store.hosts) ∧
      m.store.UsesOnly (NativeFunction.IgnoresNames m.store.hosts) ∧
      Value.AllUseOnly (NativeFunction.IgnoresNames m.store.hosts) [.integer 0] ∧
      [Value.integer 0].length < (m.store.closure 0).params.length ∧
      (∀ e ∈ (m.store.closure 0).body,
        ∀ name ∈ e.asks ((m.store.closure 0).reducing [.integer 0] m).known?,
          name ∉ (m.store.closure 0).locals → m'.known? name = m.known? name) ∧
      ∃ n n', Session.apply (.closure 0) [.integer 0] m = (.ok (.closure 1), n) ∧
        Session.apply (.closure 0) [.integer 0] m' = (.ok (.closure 1), n') ∧
        let later := Machine.reading (some (.integer 7))
          #[.reading, n.store.closure 1, n'.store.closure 1]
        Session.apply (.closure 2) [.integer 0] later = Session.apply (.closure 1) [.integer 0] later ∧
          (Session.apply (.closure 1) [.integer 0] later).1 = .ok (.integer 7) := by
  intro m m'
  have hsame : m.SameButValues m' := Machine.sameButValues_reading _ _ _
  have hglobal : m.global.UsesOnly (NativeFunction.IgnoresNames m.store.hosts) :=
    .initial (Builtin.ignoresNames _)
  have hstore : m.store.UsesOnly (NativeFunction.IgnoresNames m.store.hosts) := by
    refine ⟨nofun, nofun, fun c hc => ?_, nofun⟩
    obtain rfl : c = Closure.reading := by simpa [m, Machine.reading, Machine.start] using hc
    exact ⟨fun v hv => by rw [List.mem_singleton.1 hv]; exact trivial, .nil, .nil⟩
  have hargs : Value.AllUseOnly (NativeFunction.IgnoresNames m.store.hosts) [.integer 0] := by
    intro v hv
    rw [List.mem_singleton.1 hv]
    exact trivial
  have hknown : ∀ e ∈ (m.store.closure 0).body,
      ∀ name ∈ e.asks ((m.store.closure 0).reducing [.integer 0] m).known?,
        name ∉ (m.store.closure 0).locals → m'.known? name = m.known? name := by
    intro e he name hname _
    obtain rfl : e = .symbol "k" := List.mem_singleton.1 he
    obtain rfl : name = "k" := List.mem_singleton.1 hname
    rfl
  obtain ⟨n, hfirst, hcontent⟩ := apply_reading (k := none) (v := .symbol "k") rfl
  obtain ⟨n', hsecond, -⟩ :=
    apply_reading (k := some (.quoted (.symbol "x"))) (v := .symbol "k") rfl
  have hsome : [Value.integer 0] ≠ [] := by simp
  obtain ⟨-, hcurried⟩ := curry_place (a := 0) 20000 rfl hsame hsome (by decide) hglobal hglobal
    hstore hargs hknown
  obtain ⟨b, b', hb, hb', hlater⟩ := hcurried _ _ n n' hfirst hsecond
  obtain rfl : 1 = b := Value.closure.inj hb
  obtain rfl : 1 = b' := Value.closure.inj hb'
  let later := Machine.reading (some (.integer 7))
    #[.reading, n.store.closure 1, n'.store.closure 1]
  obtain ⟨halike, -⟩ := hlater later rfl 1 2 rfl rfl
  refine ⟨rfl, hsame, hglobal, hglobal, hstore, hargs, by decide, hknown, n, n', hfirst, hsecond,
    halike _ _ (by simp), ?_⟩
  rw [hcontent]
  change (Application.apply (Evaluation.visitWithin 20000) _ _ _).1 = _
  rw [Application.apply]
  rfl

/-- **Where a name that is asked for has two values, the place of currying matters.** Two places differ
in the value of `k` only. The closures that `(\ (a b) k)` becomes at these places give two results at
one and the same later place, where `k` has no value. -/
theorem curry_place_matters :
    let place n := Machine.reading (some (.integer n)) #[.reading]
    (place 1).options.scoping = .dynamic ∧ (place 1).SameButValues (place 2) ∧
      (∀ name, name ≠ "k" → (place 2).lookup? name = (place 1).lookup? name) ∧
      "k" ∉ Closure.reading.params ∧
      ∃ (m₁ m₂ : Machine),
        Session.apply (.closure 0) [.integer 0] (place 1) = (.ok (.closure 1), m₁) ∧
        Session.apply (.closure 0) [.integer 0] (place 2) = (.ok (.closure 1), m₂) ∧
        let later := Machine.reading none #[.reading, m₁.store.closure 1, m₂.store.closure 1]
        (Session.apply (.closure 1) [.integer 0] later).1 = .ok (.integer 1) ∧
          (Session.apply (.closure 2) [.integer 0] later).1 = .ok (.integer 2) := by
  intro place
  obtain ⟨m₁, hfirst, hcontent₁⟩ := apply_reading (k := some (.integer 1)) (v := .integer 1) rfl
  obtain ⟨m₂, hsecond, hcontent₂⟩ := apply_reading (k := some (.integer 2)) (v := .integer 2) rfl
  refine ⟨rfl, Machine.sameButValues_reading _ _ _, fun name hname => ?_, by decide, m₁, m₂, hfirst,
    hsecond, ?_, ?_⟩
  · have hlookup : ∀ n, (place n).lookup? name = Environment.initial.bindings.get? name := by
      intro n
      change ((Environment.initial.bindings.insert "k" _).get? name <|>
        (Environment.initial.bindings.insert "k" _).get? name) = _
      rw [Table.get?_insert_of_ne _ _ hname]
      cases Environment.initial.bindings.get? name <;> rfl
    rw [hlookup, hlookup]
  · rw [hcontent₁, hcontent₂]
    change (Application.apply (Evaluation.visitWithin 20000) _ _ _).1 = _
    rw [Application.apply]
    rfl
  · rw [hcontent₁, hcontent₂]
    change (Application.apply (Evaluation.visitWithin 20000) _ _ _).1 = _
    rw [Application.apply]
    rfl

end CurryLisp
