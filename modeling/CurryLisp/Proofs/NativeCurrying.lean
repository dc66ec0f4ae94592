import CurryLisp.Proofs.NativeCurrying.Waiting

/-!
# Currying a native function agrees with calling it

A builtin function that receives its arguments in groups ends as it does with all of them at once: with
the same value or the same error, and with the same changes to strings and vectors
(`SameEnd`). No argument is evaluated again on the way: what would be taken for code is bound to a
placeholder, and a type is looked up under its name.

Statements:

* `Closure.Awaits.same_end`: with the last group the function ends as it does with all arguments.
* `Session.applyGroups_native`: **the arguments in any number of groups**.
-/

namespace CurryLisp

open SpecialForm (Visit)

/-! ## The same end -/

/-- Two computations end in the same way: with the same error or the same value, and in machines that
have the same strings, vectors and structs, the same environments, options and output. Values are the
same if they differ in nothing but the stamps of pairs and the ancestors of types. -/
structure SameEnd (end₁ end₂ : Except Error Value × Machine) : Prop where
  result : end₂.1.map Value.bare = end₁.1.map Value.bare
  store : end₁.2.store.Alike end₂.2.store
  global : end₂.2.global = end₁.2.global
  frames : end₂.2.frames = end₁.2.frames
  level : end₂.2.level = end₁.2.level
  options : end₂.2.options = end₁.2.options
  printed : end₂.2.printed = end₁.2.printed

namespace SameEnd

theorem refl (e : Except Error Value × Machine) : SameEnd e e :=
  ⟨rfl, .refl _, rfl, rfl, rfl, rfl, rfl⟩

/-- Notes have no part in it. -/
theorem noted {e : Except Error Value × Machine} {r : Except Error Value} {m m' : Machine}
    (h : SameEnd e (r, m)) (hm : m.Noted m') : SameEnd e (r, m') := by
  obtain ⟨_, _, _, rfl⟩ := hm
  exact ⟨h.result, h.store, h.global, h.frames, h.level, h.options, h.printed⟩

/-- Operations with the same outcome end in the same way. -/
theorem onStore {m m' : Machine} (hm : m.Extended m') {q q' : Store → Outcome}
    (h : Outcome.Alike (q m.store) (q' m'.store)) :
    SameEnd (Eval.onStore q m) (Eval.onStore q' m') := by
  cases hq : q m.store with
  | error e =>
    rw [hq] at h
    cases hq' : q' m'.store with
    | error e' =>
      rw [hq'] at h
      cases h
      rw [Eval.onStore_of_error hq, Eval.onStore_of_error hq']
      exact ⟨rfl, hm.store.alike, hm.global, hm.frames, hm.level, hm.options, hm.printed⟩
    | ok made =>
      rw [hq'] at h
      cases h
  | ok made =>
    obtain ⟨v, s⟩ := made
    rw [hq] at h
    cases hq' : q' m'.store with
    | error e' =>
      rw [hq'] at h
      cases h
    | ok made' =>
      obtain ⟨v', s'⟩ := made'
      rw [hq'] at h
      obtain ⟨-⟩ | ⟨hvalue, hstore⟩ := h
      rw [Eval.onStore_of_ok hq, Eval.onStore_of_ok hq']
      exact ⟨congrArg Except.ok hvalue, hstore, hm.global, hm.frames, hm.level, hm.options, hm.printed⟩

end SameEnd

/-! ## A call of a native function -/

/-- What a native function does with the objects. -/
def NativeFunction.outcome (f : NativeFunction) (g : Store → List Value → Outcome) (args : List Value)
    (s : Store) : Outcome :=
  match (Callable.native f).checkArguments s args with
  | .error e => .error e
  | .ok () => g s args

/-- A native function with all its arguments does what its operation does, if they have their types. -/
theorem Application.apply_performed {visit : Visit} {f : NativeFunction}
    {g : Store → List Value → Outcome} {args : List Value}
    (hperform : perform visit f.operation args = Eval.onStore fun s => g s args)
    (hsome : args ≠ []) (hlength : args.length = f.arity) (m : Machine) :
    apply visit (.native f) args m = Eval.onStore (f.outcome g args) m := by
  cases hcheck : (Callable.native f).checkArguments m.store args with
  | error e =>
    have houtcome : f.outcome g args m.store = .error e := by
      rw [NativeFunction.outcome, hcheck]
    rw [apply, Eval.bind_apply, Eval.store_apply, Eval.onStore_of_error houtcome]
    dsimp only [Value.callable?]
    rw [if_neg (by simp [hsome]), if_neg (by simp [Callable.arity, hlength]),
      if_neg (by simp [Callable.arity, hlength]), Eval.bind_apply]
    unfold Eval.ask
    dsimp only
    rw [hcheck]
  | ok _ =>
    have houtcome : f.outcome g args m.store = g m.store args := by
      rw [NativeFunction.outcome, hcheck]
    rw [apply_native visit hsome hlength hcheck, hperform]
    unfold Eval.onStore
    rw [houtcome]

/-- A call of a native function whose operation is an effect on the objects. -/
theorem Application.apply_outcome (visit : Visit) {f : NativeFunction}
    {g : Store → List Value → Outcome} (hop : f.operation.effect = some g) {args : List Value}
    (hsome : args ≠ []) (hlength : args.length = f.arity) (m : Machine) :
    apply visit (.native f) args m = Eval.onStore (f.outcome g args) m :=
  apply_performed (Operation.perform_effect hop visit args) hsome hlength m

/-- **A native function has the same outcome after code was made, and for arguments of which types
were looked up again.** -/
theorem NativeFunction.alike_outcome {f : NativeFunction} {g : Store → List Value → Outcome}
    (hop : f.operation.effect = some g)
    (harity : f.arity = if f.operation = .setElement then 3 else 2) {s s' : Store} (hs : s.Valid)
    (hextended : s.Extended s') {args args' : List Value} (hargs : Value.AllValid s args)
    (hlength : args.length = f.arity) (hretagged : List.Forall₂ Value.Retagged args' args) :
    Outcome.Alike (f.outcome g args s) (f.outcome g args' s') := by
  have htypes : (args'.map fun arg => arg.typeTag s') = args.map fun arg => arg.typeTag s := by
    have hsame := hretagged.imp fun v' v hv =>
      (hv.typeTag s').trans (v.typeTag_of_structs hextended.structs)
    rw [← List.forall₂_eq_eq_eq, List.forall₂_map_left_iff, List.forall₂_map_right_iff]
    exact hsame
  unfold outcome
  rw [Callable.checkArguments_congr f htypes]
  cases (Callable.native f).checkArguments s args with
  | error e => exact .failed e
  | ok _ =>
    have hgrown := Operation.alike_effect_grown hop hs hextended.grows hextended.texts
      hextended.vectors hextended.structs hargs
    exact hgrown.trans
      (Operation.alike_effect_retagged hop s' (hlength.trans harity) hretagged)

/-- Currying fails where the body cannot be reduced. -/
theorem Application.curryClosure_error {visit : Visit} {c : Closure} {call : Value}
    {args : List Value} {m : Machine} {e : Error} (hbody : c.body = [call])
    (h : (visit call (c.reducing args m)).1 = .error e) :
    (curryClosure visit c args m).1 = .error e := by
  have hall : visitAll visit c.body (c.reducing args m) =
      (.error e, (visit call (c.reducing args m)).2) := by
    rw [hbody]
    unfold visitAll
    rw [List.mapM_cons, Eval.bind_apply, show visit call (c.reducing args m) = (.error e, _) from
      Prod.ext h rfl]
  rw [curryClosure_reducing visit c hall]

/-! ## Arguments in groups -/

/-- A builtin function of two or three arguments that evaluates none of them. -/
structure NativeFunction.Calculates (f : NativeFunction) (g : Store → List Value → Outcome) :
    Prop where
  level : f.level = .full
  effect : f.operation.effect = some g
  arity : f.arity = if f.operation = .setElement then 3 else 2

section Groups

variable {f : NativeFunction} {g : Store → List Value → Outcome} {m₀ m : Machine} {k : Address}
  {args : List Value}

namespace Closure.Awaits

/-- **With the last arguments the function ends as it does with all of them.** -/
theorem same_end (h : (m.store.closure k).Awaits f args) (hf : f.Calculates g)
    (hm₀ : m₀.Upholds .keyed) (hm : m.Upholds .keyed) (hextended : m₀.Extended m)
    {more : List Value} (hsome : more ≠ [])
    (hlength : more.length = (m.store.closure k).params.length)
    (hargs : Value.AllValid m₀.store (args ++ more))
    (htypes : ∀ tag, .type tag ∈ args ++ more → (m₀.global.types.get? tag.name).isSome = true)
    (hroom : 2 ≤ Evaluation.room m) :
    SameEnd (Session.apply (.native f) (args ++ more) m₀) (Session.apply (.closure k) more m) := by
  obtain ⟨room, hroom⟩ := Nat.exists_eq_add_of_le' hroom
  have hall : (args ++ more).length = f.arity := by
    rw [List.length_append, hlength]
    exact h.missing
  have htypes' : ∀ tag, .type tag ∈ args ++ more →
      (m.global.types.get? tag.name).isSome = true := by
    rw [hextended.global]
    exact htypes
  obtain ⟨all, m₁, m₂, hretagged, hm₁, hsequence, hm₂⟩ := h.called hf.level hm htypes' room hlength
  have hlength' : all.length = f.arity := hretagged.length_eq.trans hall
  have hsome' : all ≠ [] := by
    rintro rfl
    have hpos := List.length_pos_iff.2 hsome
    rw [List.length_nil] at hlength'
    rw [List.length_append] at hall
    omega
  have hvalid : Value.AllValid m.store more := fun v hv =>
    (hargs v (List.mem_append_right _ hv)).grows hextended.store.grows
  rw [Application.apply_outcome _ hf.effect hsome' hlength'] at hsequence hm₂
  have hdirect : Session.apply (.native f) (args ++ more) m₀ =
      Eval.onStore (f.outcome g (args ++ more)) m₀ :=
    Application.apply_outcome _ hf.effect (by simp [hsome]) hall m₀
  have hgrouped : Session.apply (.closure k) more m =
      ((Eval.onStore (f.outcome g all) m₁).1, m.returned m₂) := by
    change Application.apply (Evaluation.visitWithin (Evaluation.room m)) (.closure k) more m = _
    rw [Application.apply_call _ hm.toValid hvalid hlength, Application.callClosure_apply, hroom,
      hsequence]
  -- Without the frame of the call, the function runs in a machine that has grown from the first one.
  have hreturned : m.Noted (m.returned m₁) := by
    obtain ⟨_, _, _, rfl⟩ := hm₁
    exact ⟨_, _, _, rfl⟩
  have hends : (Eval.onStore (f.outcome g all) (m.returned m₁)) =
      ((Eval.onStore (f.outcome g all) m₁).1, m.returned (Eval.onStore (f.outcome g all) m₁).2) := by
    cases houtcome : f.outcome g all m₁.store with
    | error e =>
      rw [Eval.onStore_of_error (m := m.returned m₁) houtcome, Eval.onStore_of_error houtcome]
    | ok made =>
      rw [Eval.onStore_of_ok (m := m.returned m₁) houtcome, Eval.onStore_of_ok houtcome]
      rfl
  have hsame := SameEnd.onStore (hextended.trans hreturned.extended)
    (NativeFunction.alike_outcome hf.effect hf.arity hm₀.store
      (hextended.trans hreturned.extended).store hargs hall hretagged)
  rw [hends] at hsame
  rw [hdirect, hgrouped]
  refine hsame.noted ?_
  obtain ⟨_, _, _, rfl⟩ := hm₂
  exact ⟨_, _, _, rfl⟩

/-- With too little room a waiting closure fails, whether it receives all of the arguments or not. -/
theorem shallow (h : (m.store.closure k).Awaits f args) (hm : m.Valid) {more : List Value}
    (hsome : more ≠ []) (hlength : more.length ≤ (m.store.closure k).params.length)
    (hargs : Value.AllValid m.store more) (hroom : Evaluation.room m < 2) :
    ∃ limit, (Session.apply (.closure k) more m).1 = .error (.depthExceeded limit) := by
  obtain ⟨call, operands, hbody, hcall, -⟩ := h.body
  change ∃ limit, (Application.apply (Evaluation.visitWithin (Evaluation.room m)) (.closure k) more m).1 =
    _
  rcases Nat.lt_or_eq_of_le hlength with hshort | hlast
  · have hahead : ((m.store.closure k).reducing more m).level ≠ .asWritten := nofun
    obtain ⟨limit, hlimit⟩ := Evaluation.visitWithin_shallow hroom hcall rfl hahead
    refine ⟨limit, ?_⟩
    rw [Application.apply_curry _ hsome hshort]
    exact Application.curryClosure_error hbody hlimit
  · have hfull : ((m.store.closure k).calling more m).level ≠ .asWritten := nofun
    obtain ⟨limit, hlimit⟩ := Evaluation.visitWithin_shallow hroom hcall rfl hfull
    refine ⟨limit, ?_⟩
    rw [Application.apply_call _ hm hargs hlast, Application.callClosure_apply, hbody]
    exact hlimit

/-- A waiting closure that receives some of the arguments makes one that waits for the others. -/
theorem supply (h : (m.store.closure k).Awaits f args) (hfull : f.level = .full)
    (hm : m.Upholds .keyed) {more : List Value} (hsome : more ≠ [])
    (hshort : more.length < (m.store.closure k).params.length)
    (htypes : ∀ tag, .type tag ∈ args ++ more → (m.global.types.get? tag.name).isSome = true)
    (hroom : 2 ≤ Evaluation.room m) :
    ∃ k' m', Session.apply (.closure k) more m = (.ok (.closure k'), m') ∧ m.Extended m' ∧
      k' < m'.store.closures.size ∧ (m'.store.closure k').Awaits f (args ++ more) := by
  obtain ⟨room, hroom⟩ := Nat.exists_eq_add_of_le' hroom
  obtain ⟨body, after, hreduced, hextended, hawaits⟩ := h.supplied hfull hm htypes room hshort
  rw [← hroom] at hreduced
  obtain ⟨event, hcurry⟩ := Application.curryClosure_apply _ _ hreduced
  have hstore : m.store.Extended after.store := hextended.store
  refine ⟨after.store.closures.size, _, (Application.apply_curry _ hsome hshort).trans hcurry, ?_, ?_,
    ?_⟩
  · exact ⟨hextended.global, congrArg List.tail hextended.frames, rfl, hextended.options,
      hextended.printed, hstore.trans (.newClosure _ _)⟩
  · show _ < (Array.push _ _).size
    rw [Array.size_push]
    exact Nat.lt_succ_self _
  · dsimp only
    rw [Store.closure_newClosure]
    exact hawaits

end Closure.Awaits

/-- What an application leaves upholds what the machine upheld, and has the same room. -/
theorem Session.apply_keyed (hm : m.Upholds .keyed) {head v : Value} {m' : Machine}
    (hhead : head.Valid m.store) (hargs : Value.AllValid m.store args)
    (h : Session.apply head args m = (.ok v, m')) : m'.Upholds .keyed ∧ m'.depth = m.depth := by
  obtain ⟨-, hupholds, -⟩ := Session.keeps_apply hhead hargs m (.refl _) hm
  have hframed := Session.apply_framed head args m
  rw [h] at hupholds hframed
  exact ⟨hupholds, hframed.depth⟩

/-- A waiting closure that receives the other arguments in groups ends as the function does with all
arguments. -/
theorem Session.applyGroups_awaiting {groups : List (List Value)} (hf : f.Calculates g)
    (hm₀ : m₀.Upholds .keyed) (hm : m.Upholds .keyed) (hextended : m₀.Extended m)
    (hdepth : m.depth = m₀.depth) (hk : k < m.store.closures.size)
    (h : (m.store.closure k).Awaits f args) (hgroups : groups ≠ [])
    (hsome : ∀ group ∈ groups, group ≠ []) (hlength : (args ++ groups.flatten).length = f.arity)
    (hargs : Value.AllValid m₀.store (args ++ groups.flatten))
    (htypes : ∀ tag, .type tag ∈ args ++ groups.flatten →
      (m₀.global.types.get? tag.name).isSome = true) :
    SameEnd (apply (.native f) (args ++ groups.flatten) m₀) (applyGroups (.closure k) groups m) ∨
      Evaluation.room m₀ < 2 ∧
        ∃ limit, (applyGroups (.closure k) groups m).1 = .error (.depthExceeded limit) := by
  have hroom : Evaluation.room m = Evaluation.room m₀ := by
    unfold Evaluation.room
    rw [hextended.options, hdepth]
  have hmissing := h.missing
  induction groups generalizing m k args with
  | nil => exact absurd rfl hgroups
  | cons more groups ih =>
    have hmore := hsome more (List.mem_cons_self ..)
    have hvalid : Value.AllValid m.store more := fun v hv =>
      (hargs v (by simp [hv])).grows hextended.store.grows
    -- The last group calls the function; each other group makes another closure that waits.
    cases groups with
    | nil =>
      rw [List.flatten_singleton] at hlength hargs htypes ⊢
      rw [applyGroups_single]
      have hlast : more.length = (m.store.closure k).params.length := by
        rw [List.length_append] at hlength
        omega
      rcases Nat.lt_or_ge (Evaluation.room m) 2 with hshallow | henough
      · exact .inr ⟨hroom ▸ hshallow, h.shallow hm.toValid hmore (Nat.le_of_eq hlast) hvalid hshallow⟩
      · exact .inl (h.same_end hf hm₀ hm hextended hmore hlast hargs htypes henough)
    | cons next rest =>
      rw [List.flatten_cons, ← List.append_assoc] at hlength hargs htypes ⊢
      have hnext := List.length_pos_iff.2 (hsome next (by simp))
      have hshort : more.length < (m.store.closure k).params.length := by
        rw [List.length_append, List.length_append, List.flatten_cons, List.length_append] at hlength
        omega
      unfold applyGroups
      rw [Eval.bind_apply]
      rcases Nat.lt_or_ge (Evaluation.room m) 2 with hshallow | henough
      · obtain ⟨limit, hlimit⟩ := h.shallow hm.toValid hmore (Nat.le_of_lt hshort) hvalid hshallow
        refine .inr ⟨hroom ▸ hshallow, limit, ?_⟩
        rw [show apply (.closure k) more m = (.error _, _) from Prod.ext hlimit rfl]
      · have htypes' : ∀ tag, .type tag ∈ args ++ more →
            (m.global.types.get? tag.name).isSome = true := by
          rw [hextended.global]
          exact fun tag htag => htypes tag (List.mem_append_left _ htag)
        obtain ⟨k', m', happly, hextended', hk', hawaits⟩ :=
          h.supply hf.level hm hmore hshort htypes' henough
        have hclosure : (Value.closure k).Valid m.store := hk
        obtain ⟨hm', hdepth'⟩ := apply_keyed hm hclosure hvalid happly
        rw [happly]
        exact ih hm' (hextended.trans hextended') (hdepth'.trans hdepth) hk' hawaits (by simp)
          (fun group hgroup => hsome group (List.mem_cons_of_mem _ hgroup)) hlength hargs htypes
          (by unfold Evaluation.room at hroom ⊢; rw [hextended'.options, hdepth', hroom])
          hawaits.missing

/-- **Currying a native function agrees with calling it.** A builtin function that needs two arguments
or more, is no special form and evaluates nothing ends with its arguments in groups as it does with all
of them at once, unless not even two steps may be nested. -/
theorem Session.applyGroups_native (hm : m.Upholds .keyed) (hbuiltin : f ∈ Builtin.all)
    (hform : f.isSpecialForm = false) (heval : f.operation ≠ .evaluate)
    (happly : f.operation ≠ .apply) (harity : 2 ≤ f.arity) {groups : List (List Value)}
    (hsome : ∀ group ∈ groups, group ≠ []) (hlength : groups.flatten.length = f.arity)
    (hargs : Value.AllValid m.store groups.flatten)
    (htypes : ∀ tag, .type tag ∈ groups.flatten → (m.global.types.get? tag.name).isSome = true) :
    SameEnd (apply (.native f) groups.flatten m) (applyGroups (.native f) groups m) ∨
      Evaluation.room m < 2 ∧
        ∃ limit, (applyGroups (.native f) groups m).1 = .error (.depthExceeded limit) := by
  obtain ⟨hlevel, heffect, hthree⟩ :=
    Operation.effect_of_builtin f hbuiltin hform heval happly harity
  obtain ⟨g, heffect⟩ := Option.isSome_iff_exists.1 heffect
  -- With one group there is nothing to be curried.
  match groups with
  | [] =>
    rw [List.flatten_nil, List.length_nil] at hlength
    omega
  | [args] =>
    rw [applyGroups_single, List.flatten_singleton]
    exact .inl (.refl _)
  | args :: next :: rest =>
    have hargs' := hsome args (by simp)
    have hnext := List.length_pos_iff.2 (hsome next (by simp))
    rw [List.flatten_cons] at hlength hargs htypes ⊢
    have hshort : args.length < f.arity := by
      rw [List.length_append, List.flatten_cons, List.length_append] at hlength
      omega
    obtain ⟨m', hcurry, hextended, hk, hawaits⟩ :=
      Application.curryNative_awaits f m (Nat.le_of_lt hshort)
    have hfirst : apply (.native f) args m = (.ok (.closure m.store.closures.size), m') :=
      (Application.apply_curryNative _ hform hargs' hshort m).trans hcurry
    obtain ⟨hm', hdepth⟩ := apply_keyed hm (show (Value.native f).Valid m.store from trivial)
      (fun v hv => hargs v (List.mem_append_left _ hv)) hfirst
    unfold applyGroups
    rw [Eval.bind_apply, hfirst]
    exact applyGroups_awaiting ⟨hlevel, heffect, hthree⟩ hm hm' hextended hdepth hk hawaits
      (by simp) (fun group hgroup => hsome group (List.mem_cons_of_mem _ hgroup)) hlength hargs htypes

end Groups

/-- A symbol and a type that are supplied one after the other are paired as they are. -/
theorem Session.applyGroups_native_cons :
    let m := Machine.start .initial {} {}
    let cons := Builtin.function "cons" 2 false [] .cons
    let groups := [[Value.symbol "x"], [.type BaseType.int.tag]]
    m.Upholds .keyed ∧ cons ∈ Builtin.all ∧ groups.flatten.length = cons.arity ∧
      (SameEnd (apply (.native cons) groups.flatten m) (applyGroups (.native cons) groups m) ∨
        Evaluation.room m < 2 ∧
          ∃ limit, (applyGroups (.native cons) groups m).1 = .error (.depthExceeded limit)) := by
  intro m cons groups
  have hm : m.Upholds .keyed :=
    .start .empty ⟨fun _ _ => trivial, fun _ h => by simp at h⟩
  have hcons : cons ∈ Builtin.all := by decide
  have hlength : groups.flatten.length = cons.arity := rfl
  have htypes : ∀ tag, .type tag ∈ groups.flatten →
      (m.global.types.get? tag.name).isSome = true := by
    intro tag htag
    rcases List.mem_cons.1 htag with htag | htag
    · cases htag
    · cases List.eq_of_mem_singleton htag
      decide
  have hargs : Value.AllValid m.store groups.flatten := by
    intro v hv
    rcases List.mem_cons.1 hv with rfl | hv
    · trivial
    · rw [List.eq_of_mem_singleton hv]
      trivial
  exact ⟨hm, hcons, hlength, applyGroups_native hm hcons rfl (by decide) (by decide) (by decide)
    (by simp [groups]) hlength hargs htypes⟩

end CurryLisp
