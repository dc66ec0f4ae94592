import CurryLisp.Proofs.Currying.Holding
import CurryLisp.Proofs.References.Session

/-!
# Currying agrees with direct application

A closure that receives only its first arguments reduces its body ahead of time and becomes a closure
for the others. This closure does with the others what the first one does with all arguments at once, if
the reduction succeeds and what it found is still so when the body is evaluated
(`Closure.SupplyHolds`). Closures and pairs that are made later have other numbers, because the
reduction has taken some, and so have placeholders; a `Renaming` relates the objects.

Statements:

* `Session.apply_append`: the arguments in two groups.
* `Session.applyGroups_agrees`: **the arguments in any number of groups**.
* `Session.applyGroups_listing`: a body that makes a list of a supplied argument.
-/

namespace CurryLisp

open SpecialForm (Visit)

/-! ## Standard closures -/

/-- Whether every native function in a closure is standard. -/
def Closure.isStandard (c : Closure) : Bool :=
  c.body.all Value.isStandard && c.env.isStandard && c.bound.all fun entry => entry.2.isStandard

theorem Environment.isStandard_iff (env : Environment) :
    env.isStandard = true ↔ ∀ entry ∈ env.bindings.entries, entry.2.isStandard = true := by
  simp [isStandard, Table.values, List.all_eq_true]

theorem Environment.isStandard_putAll {env : Environment} (henv : env.isStandard = true)
    {entries : List (String × Value)} (hentries : ∀ entry ∈ entries, entry.2.isStandard = true) :
    (env.putAll entries).isStandard = true := by
  induction entries generalizing env with
  | nil => exact henv
  | cons entry rest ih =>
    obtain ⟨hentry, hrest⟩ := List.forall_mem_cons.1 hentries
    refine ih ((env.put entry.1 entry.2).isStandard_iff.2 fun other hother => ?_) hrest
    rcases Table.mem_insertEntry hother with rfl | hother
    · exact hentry
    · exact env.isStandard_iff.1 henv other hother

namespace Closure

variable {c : Closure} {xs body : List Value} {m : Machine}

theorem isStandard_iff (c : Closure) : c.isStandard = true ↔
    (∀ e ∈ c.body, e.isStandard = true) ∧ c.env.isStandard = true ∧
      ∀ entry ∈ c.bound, entry.2.isStandard = true := by
  simp [isStandard, and_assoc]

theorem isStandard_bound (hc : c.isStandard = true) (hxs : ∀ v ∈ xs, v.isStandard = true) :
    ∀ entry ∈ c.bound ++ (c.params.take xs.length).zip xs, entry.2.isStandard = true := by
  intro entry hentry
  rcases List.mem_append.1 hentry with hentry | hentry
  · exact (c.isStandard_iff.1 hc).2.2 entry hentry
  · exact hxs _ (List.of_mem_zip hentry).2

/-- The body of a standard closure is reduced in a standard machine. -/
theorem isStandard_reducing (hm : m.isStandard = true) (hc : c.isStandard = true)
    (hxs : ∀ v ∈ xs, v.isStandard = true) : (c.reducing xs m).isStandard = true := by
  have hbase : (c.base m).isStandard = true := by
    unfold base
    split
    · exact (c.isStandard_iff.1 hc).2.1
    · exact Machine.isStandard_active hm
  have hself : ∀ entry ∈ (c.params.drop xs.length).map fun name => (name, Value.symbol name),
      entry.2.isStandard = true := by
    intro entry hentry
    obtain ⟨name, -, rfl⟩ := List.mem_map.1 hentry
    rfl
  have hframe := Environment.isStandard_putAll
    (Environment.isStandard_putAll hbase (isStandard_bound hc hxs)) hself
  simp only [reducing, Machine.isStandard, List.all_cons, Bool.and_eq_true] at hm ⊢
  exact ⟨⟨hm.1.1, hframe, hm.1.2⟩, hm.2⟩

/-- It becomes a standard closure. -/
theorem isStandard_supplied (hc : c.isStandard = true) (hxs : ∀ v ∈ xs, v.isStandard = true)
    (hbody : ∀ e ∈ body, e.isStandard = true) : (c.supplied xs body).isStandard = true :=
  (c.supplied xs body).isStandard_iff.2
    ⟨hbody, (c.isStandard_iff.1 hc).2.1, isStandard_bound hc hxs⟩

end Closure

/-! ## The machine after currying -/

/-- A quiet reduction of the body leaves objects, placeholders and notes. -/
theorem Machine.Quiet.returned {c : Closure} {xs : List Value} {m z : Machine}
    (h : (c.reducing xs m).Quiet z) :
    m.returned z =
      { m with store := z.store, placeholders := z.placeholders, events := z.events } := by
  obtain ⟨hglobal, hframes, -, hoptions, hindent, hdepth, hprinted, -⟩ := h
  rcases z with ⟨_, _, _, _, _, _, _, _, _, _⟩
  cases hglobal
  cases hframes
  cases hoptions
  cases hindent
  cases hdepth
  cases hprinted
  rfl

/-- When a closure has become another one, both bodies begin beside each other. -/
theorem Beside.start {c d : Closure} {xs ys : List Value} {m z : Machine} (hm : m.Valid)
    (hc : c.Valid m.store) (hxs : Value.AllValid m.store xs) (hys : Value.AllValid m.store ys)
    (hstandard : (c.reducing xs m).isStandard = true) (hz : (c.reducing xs m).Quiet z)
    (hgrows : m.store.Grows (z.store.newClosure d).2) (events : List Event) :
    Beside (c.reducing xs m) z (.between m.store (z.store.newClosure d).2 hgrows) (c.reducing xs m)
      (c.calling ys m) { c.calling ys m with
        store := (z.store.newClosure d).2
        placeholders := z.placeholders
        events } where
  stage := ⟨Closure.reducing_valid hm hc hxs, rfl, hstandard, Closure.reducing_valid hm hc hxs, .refl _⟩
  before := hz.prepares
  level := rfl
  valid := Closure.calling_valid hm hc hys
  grows := .refl _
  renamed := (Closure.calling_valid hm hc hys).renamed hgrows hz.texts hz.vectors hz.structs events
  fixes := Renaming.fixes_between hgrows
  closures k hk := (Array.getElem?_push_lt hk).trans (Array.getElem?_eq_getElem hk).symm
  address := Renaming.avoids_moveUp (by simp [Store.newClosure])
  stamp := Renaming.avoids_moveUp (Nat.le_refl _)
  counted := (Nat.add_sub_cancel' hz.placeholders).symm
  waiting _ := rfl

/-- A call ends as its body does, in machines that were renamed when it began. -/
theorem Ended.returned {σ : Renaming} {m m' : Machine} {end₁ end₂ : Except Error Value × Machine}
    (hlevel : m'.level = m.level) (h : Ended σ (Value.rename σ) end₁ end₂) :
    Ended σ (Value.rename σ) (end₁.1, m.returned end₁.2) (end₂.1, m'.returned end₂.2) := by
  rcases h with hover | ⟨hresult, hm⟩
  · exact .inl hover
  · refine .inr ⟨hresult, { hm with frames := ?_, level := hlevel }⟩
    show end₂.2.frames.tail = end₁.2.frames.tail.map (Environment.rename σ)
    rw [hm.frames, List.map_tail]

/-- Runs that ended alike did so after another number of placeholders, too. -/
theorem Ended.counting {σ : Renaming} {end₁ end₂ : Except Error Value × Machine}
    (h : Ended σ (Value.rename σ) end₁ end₂) (n : Nat) :
    Ended σ (Value.rename σ) (end₁.1, end₁.2.counting n) (end₂.1, end₂.2.counting n) :=
  h.imp id fun ⟨hresult, hm⟩ => ⟨hresult, hm.counting n⟩

/-! ## Arguments in groups -/

/-- The body of `c` can be reduced with the arguments `xs`, and when `c` is called with `xs` and `ys`,
then what was found ahead of time is so when its turn comes. -/
def Closure.SupplyHolds (c : Closure) (xs ys : List Value) (m : Machine) : Prop :=
  ∃ body z, Application.visitAll (Evaluation.visitWithin (Evaluation.room m)) c.body
      (c.reducing xs m) = (.ok body, z) ∧
    Evaluation.AllHold (Evaluation.visitWithin (Evaluation.room m))
      (Evaluation.Holds z.placeholders (Evaluation.room m)) c.body (c.reducing xs m)
      (c.calling (xs ++ ys) m)

namespace Session

/-- Applies a value to the first group of arguments, what that answers to the next group, and so on. -/
def applyGroups (f : Value) : List (List Value) → Eval Value
  | [] => return f
  | group :: groups => do applyGroups (← apply f group) groups

theorem applyGroups_single (f : Value) (args : List Value) (m : Machine) :
    applyGroups f [args] m = apply f args m := by
  unfold applyGroups
  rw [Eval.bind_apply]
  rcases apply f args m with ⟨e | v, m'⟩
  · rfl
  · rfl

/-- Each time but the last that a group is supplied, it holds for a call with all the others. -/
def GroupsHold (k : Address) : List (List Value) → Machine → Prop
  | xs :: ys :: rest, m => (m.store.closure k).SupplyHolds xs (ys :: rest).flatten m ∧
      ∀ k' m', apply (.closure k) xs m = (.ok (.closure k'), m') → GroupsHold k' (ys :: rest) m'
  | _, _ => True

/-- In a machine whose native functions are standard, the closure `k` may be called with `args`. -/
structure Accepts (m : Machine) (k : Address) (args : List Value) : Prop where
  valid : m.Valid
  standard : m.isStandard = true
  known : k < m.store.closures.size
  closure : (m.store.closure k).isStandard = true
  references : Value.AllValid m.store args
  natives : ∀ v ∈ args, v.isStandard = true
  length : args.length = (m.store.closure k).params.length

/-- Supplying a closure with some of its arguments makes a closure, which does with the other arguments
what the first one does with all of them. -/
theorem apply_append {m : Machine} {k : Address} {xs ys : List Value} (h : Accepts m k (xs ++ ys))
    (hxs : xs ≠ []) (hys : ys ≠ []) (hholds : (m.store.closure k).SupplyHolds xs ys m) :
    ∃ (σ : Renaming) (k' : Address) (m' : Machine),
      apply (.closure k) xs m = (.ok (.closure k'), m') ∧ m.store.Grows m'.store ∧
      Accepts m' k' ys ∧ σ.Fixes m.store ∧
      Ended σ (Value.rename σ) (apply (.closure k) (xs ++ ys) m)
        ((apply (.closure k') ys m').1, (apply (.closure k') ys m').2.counting
          (apply (.closure k) (xs ++ ys) m).2.placeholders) := by
  have hvalidXs : Value.AllValid m.store xs := fun v hv => h.references v (List.mem_append_left _ hv)
  have hvalidYs : Value.AllValid m.store ys := fun v hv => h.references v (List.mem_append_right _ hv)
  have hstandardXs : ∀ v ∈ xs, v.isStandard = true :=
    fun v hv => h.natives v (List.mem_append_left _ hv)
  have hposYs := List.length_pos_iff.2 hys
  have hsplit : xs.length + ys.length = (m.store.closure k).params.length := by
    rw [← List.length_append]
    exact h.length
  have hc := h.valid.store.closure k
  obtain ⟨body, z, hreduces, hholds⟩ := hholds
  -- The reduction is quiet, so it leads back to `m` with other objects.
  have hstandard := Closure.isStandard_reducing h.standard h.closure hstandardXs
  obtain ⟨hbodyStandard, -⟩ := (Closure.isStandard_iff _).1 h.closure
  obtain ⟨hquiet, -, -, hbody⟩ := (Ahead.visitAll hbodyStandard
    fun _ he => Ahead.visitWithin (Evaluation.room m) he).ok rfl hstandard hreduces
  obtain ⟨event, hcurry⟩ := Application.curryClosure_apply _ _ hreduces
  rw [hquiet.returned] at hcurry
  have happly := (Application.apply_curry (Evaluation.visitWithin (Evaluation.room m)) hxs
    (show xs.length < (m.store.closure k).params.length by omega)).trans hcurry
  have hgrows : m.store.Grows (z.store.newClosure ((m.store.closure k).supplied xs body)).2 :=
    hquiet.prepares.grows.trans (.newClosure _ _)
  have hsupplied := z.store.closure_newClosure ((m.store.closure k).supplied xs body)
  obtain ⟨hvalid, hk'⟩ := apply_valid (f := .closure k) h.valid h.known hvalidXs happly
  have hlength : ys.length = ((z.store.newClosure ((m.store.closure k).supplied xs body)).2.closure
      z.store.closures.size).params.length := by
    rw [hsupplied]
    show _ = ((m.store.closure k).params.drop xs.length).length
    rw [List.length_drop]
    omega
  have hbeside := Beside.start h.valid hc hvalidXs h.references hstandard hquiet hgrows
    (event :: z.events)
  obtain ⟨-, τ, hτ, hended, -⟩ := Evaluation.sequence_reduced hbeside
    (fun e he => ⟨hc.body e he, hbodyStandard e he⟩) hholds hreduces
  refine ⟨τ, _, _, happly, hgrows, ⟨hvalid, ?_, hk', ?_, hvalidYs.grows hgrows, fun v hv =>
    h.natives v (List.mem_append_right _ hv), hlength⟩, hbeside.fixes.of_agrees hτ (.refl _), ?_⟩
  · show ((m.global :: m.frames).all _ && z.store.vectors.all _) = true
    rw [hquiet.vectors]
    exact h.standard
  · rw [hsupplied]
    exact Closure.isStandard_supplied h.closure hstandardXs hbody
  · -- Both calls end as their bodies do.
    have hdirect := Application.apply_call (Evaluation.visitWithin (Evaluation.room m)) h.valid
      h.references h.length
    have hother := Application.apply_call (Evaluation.visitWithin (Evaluation.room m)) hvalid
      (hvalidYs.grows hgrows) hlength
    rw [Application.callClosure_apply] at hdirect hother
    rw [hsupplied, Closure.calling_supplied _ _ _ _ _ (by omega)] at hother
    change Ended _ _ (Application.apply _ (.closure k) (xs ++ ys) m)
      ((Application.apply (Evaluation.visitWithin (Evaluation.room m)) (.closure _) ys _).1,
        (Application.apply (Evaluation.visitWithin (Evaluation.room m)) (.closure _) ys _).2.counting
          (Application.apply _ (.closure k) (xs ++ ys) m).2.placeholders)
    rw [hdirect, hother]
    exact hended.returned rfl

/-- **Currying agrees with direct application.** A closure that receives its arguments in groups ends
as it does with all of them at once: with the same result, the same output and the same changes, but
for the numbers of placeholders and of the closures and pairs that were made since. -/
theorem applyGroups_agrees {m : Machine} {k : Address} {groups : List (List Value)}
    (h : Accepts m k groups.flatten) (hgroups : groups ≠ []) (hsome : ∀ group ∈ groups, group ≠ [])
    (hholds : GroupsHold k groups m) :
    let direct := apply (.closure k) groups.flatten m
    let grouped := applyGroups (.closure k) groups m
    ∃ σ : Renaming, σ.Fixes m.store ∧ Ended σ (Value.rename σ) direct
      (grouped.1, grouped.2.counting direct.2.placeholders) := by
  induction groups generalizing m k with
  | nil => exact absurd rfl hgroups
  | cons xs groups ih =>
    cases groups with
    | nil =>
      refine ⟨.same, .same _, ?_⟩
      rw [applyGroups_single, List.flatten_cons, List.flatten_nil, List.append_nil]
      exact .refl _
    | cons ys rest =>
      obtain ⟨hsupply, hrest⟩ := hholds
      have hothers : (ys :: rest).flatten ≠ [] := by
        simp [hsome ys (by simp)]
      obtain ⟨σ, k', m', happly, hgrows, haccepts, hσ, hfirst⟩ :=
        apply_append h (hsome xs (by simp)) hothers hsupply
      obtain ⟨τ, hτ, hsecond⟩ := ih haccepts (by simp)
        (fun group hgroup => hsome group (List.mem_cons_of_mem _ hgroup)) (hrest _ _ happly)
      -- The first group shifts numbers once, and the other groups shift them again.
      refine ⟨σ.andThen τ, hσ.andThen hτ hgrows, ?_⟩
      unfold applyGroups
      rw [Eval.bind_apply, happly]
      exact hfirst.trans (hsecond.counting _)

end Session

/-! ## Two functions -/

/-- The expression `(+ a)`. -/
def Value.partialSum : Value := .pair 1 (.symbol "+") (.pair 0 (.symbol "a") .nil)

/-- The expression `((+ a) b)`. -/
def Value.sum : Value := .pair 3 .partialSum (.pair 2 (.symbol "b") .nil)

/-- The function `(\ (a b) ((+ a) b))`. -/
def Closure.sum : Closure where
  params := ["a", "b"]
  body := [.sum]
  env := .initial

/-- The expression `(list a)`. -/
def Value.listing : Value := .pair 1 (.symbol "list") (.pair 0 (.symbol "a") .nil)

/-- The function `(\ (a b) (list a))`. -/
def Closure.listing : Closure where
  params := ["a", "b"]
  body := [.listing]
  env := .initial

/-- An initial machine in which a function was made. -/
def Machine.holding (c : Closure) : Machine :=
  .start .initial { maxDepth := 8 } { closures := #[c], pairs := 4 }

theorem Session.accepts_holding {c : Closure}
    (hbody : ∀ e ∈ c.body, Evaluation.Given (.holding c) e) (henv : c.env = .initial)
    (hbound : c.bound = []) (hparams : c.params.length = 2) :
    Accepts (.holding c) 0 [.integer 1, .integer 2] := by
  have hc : c.Valid (Machine.holding c).store := by
    refine ⟨fun e he => (hbody e he).valid, ?_, ?_⟩
    · rw [henv]
      exact .initial
    · rw [hbound]
      exact .nil
  have hargs : ∀ v ∈ [Value.integer 1, .integer 2], ∃ n, v = .integer n := by simp
  refine ⟨.start ⟨fun _ h => ?_, fun _ h => ?_, fun c' h => ?_, fun _ h => ?_⟩, ?_, Nat.zero_lt_one,
    (Closure.isStandard_iff c).2 ⟨fun e he => (hbody e he).standard, ?_, ?_⟩, fun v hv => ?_,
    fun v hv => ?_, hparams.symm⟩
  · simp at h
  · simp at h
  · rw [List.mem_toArray, List.mem_singleton] at h
    rw [h]
    exact hc
  · simp at h
  · simp [Machine.isStandard, Machine.holding, Machine.start, initial_isStandard]
  · rw [henv]
    exact initial_isStandard
  · simp [hbound]
  · obtain ⟨n, rfl⟩ := hargs v hv
    exact trivial
  · obtain ⟨n, rfl⟩ := hargs v hv
    rfl

namespace Session

/-- The machine in which the body of `sum` is reduced when `a` is 1. -/
def sumReducing : Machine :=
  Evaluation.inside .sum (Closure.sum.reducing [.integer 1] (.holding .sum))

/-- The machine in which it is evaluated when `b` is 2. -/
def sumCalling : Machine :=
  Evaluation.inside .sum (Closure.sum.calling [.integer 1, .integer 2] (.holding .sum))

theorem apply_plus (room : Nat) (m : Machine) :
    let plus := Builtin.function "+" 2 false [.number, .number] .add
    Application.apply (Evaluation.visitWithin room) (.native plus) [.integer 1] m =
      (.ok (.closure m.store.closures.size), plus.supplied [.integer 1] m) := by
  intro plus
  rw [Application.apply_curryNative _ rfl (by simp) (by decide), Application.curryNative_settled _ rfl]

/-- `(+ a)` is a closure, ahead of time as in the call. -/
theorem visitWithin_partialSum {m : Machine} (hm : m = sumReducing ∨ m = sumCalling) :
    let plus := Builtin.function "+" 2 false [.number, .number] .add
    Evaluation.visitWithin 7 .partialSum m =
      (.ok (.closure 1), { plus.supplied [.integer 1] m with depth := 1 }) := by
  intro plus
  have hstep : Evaluation.visitWithin 7 .partialSum m =
      (fun r : Except Error Value × Machine => (r.1, { r.2 with depth := r.2.depth - 1 }))
        (Application.apply (Evaluation.visitWithin 6) (.native plus) [.integer 1]
          { m with depth := 2 }) := by
    rcases hm with rfl | rfl
    · rfl
    · rfl
  rw [hstep, apply_plus]
  rcases hm with rfl | rfl
  · rfl
  · rfl

/-- What is found of `(+ a)` when `a` is supplied holds when `b` is. -/
theorem holds_partialSum : Evaluation.Holds 1 7 .partialSum sumReducing sumCalling := by
  refine ⟨?_, fun r a hr hlast => ?_⟩
  · intro _ operands hoperands
    obtain rfl := Option.some.inj hoperands
    refine ⟨.symbol (.of_lookup? rfl rfl nofun) (Nat.le_refl _), fun known a hknown => ?_⟩
    cases hknown
    refine ⟨rfl, fun head m hhead _ args a hargs => ?_⟩
    cases hhead
    cases hargs
    refine ⟨nofun, fun _ => ⟨⟨.symbol (.of_lookup? rfl rfl nofun) (Nat.le_refl _),
      fun _ _ _ _ _ _ => trivial⟩, fun f hf _ => ⟨fun arg harg => ?_, fun v a vs m hv _ => ?_⟩⟩⟩
    · rw [List.eq_of_mem_singleton harg]
      exact ⟨rfl, nofun⟩
    · cases hf
      have happly := (apply_plus 6 (Evaluation.inside .partialSum sumReducing)).symm.trans hv
      cases happly
      exact ⟨⟨rfl, nofun⟩, trivial⟩
  · -- The placeholder that was made is the last one.
    obtain ⟨a', hvisit, _, _, _, rfl⟩ := Evaluation.visitWithin_of_step hr
    rw [visitWithin_partialSum (.inl rfl)] at hvisit
    have hcount : 1 = a.placeholders := congrArg (fun r => r.2.placeholders) hvisit
    omega

/-- What is found of `((+ a) b)` when `a` is supplied holds when `b` is. -/
theorem supplyHolds_sum : Closure.sum.SupplyHolds [.integer 1] [.integer 2] (.holding .sum) := by
  have hreducing := visitWithin_partialSum (.inl rfl)
  obtain ⟨r, z, hr, hz⟩ : ∃ r z, Evaluation.step (Evaluation.visitWithin 7) .sum sumReducing =
      (.ok r, z) ∧ z.placeholders = 1 := by
    change ∃ r z, Evaluation.visitPair _ .sum .partialSum (.pair 2 (.symbol "b") .nil) _ = (.ok r, z) ∧ _
    rw [Evaluation.visitPair_eq _ _ (by decide) rfl rfl, Eval.bind_apply, hreducing]
    exact ⟨_, _, rfl, rfl⟩
  obtain ⟨z', hvisit, _, _, _, rfl⟩ := Evaluation.visitWithin_of_step hr
  refine ⟨_, _, Evaluation.visitAll_cons_of_ok hvisit rfl, ?_⟩
  show Evaluation.AllHold _ (Evaluation.Holds z.placeholders 8) _ _ _
  rw [hz]
  refine ⟨⟨?_, fun r' a hr' hlast => ?_⟩, fun _ _ _ _ _ _ => trivial⟩
  · intro _ operands hoperands
    obtain rfl := Option.some.inj hoperands
    refine ⟨holds_partialSum, fun known a hknown => ?_⟩
    obtain ⟨hfound, rfl⟩ := Prod.mk.inj (hknown.symm.trans hreducing)
    cases hfound
    refine ⟨rfl, fun head m hhead _ args a hargs => ?_⟩
    obtain ⟨hfound, rfl⟩ := Prod.mk.inj (hhead.symm.trans (visitWithin_partialSum (.inr rfl)))
    cases hfound
    cases hargs
    refine ⟨nofun, fun _ => ⟨⟨.symbol (fun v hv hresidual => ?_) (Nat.le_refl _),
      fun _ _ _ _ _ _ => trivial⟩, nofun⟩⟩
    cases hv
    cases hresidual
  · obtain ⟨-, rfl⟩ := Prod.mk.inj (hr.symm.trans hr')
    omega

/-- `((+ a) b)` is the same if `a` is supplied before `b`. -/
theorem applyGroups_agrees_sum :
    Accepts (.holding .sum) 0 [[.integer 1], [.integer 2]].flatten ∧
    GroupsHold 0 [[.integer 1], [.integer 2]] (.holding .sum) ∧
    let direct := apply (.closure 0) [[.integer 1], [.integer 2]].flatten (.holding .sum)
    let grouped := applyGroups (.closure 0) [[.integer 1], [.integer 2]] (.holding .sum)
    ∃ σ : Renaming, σ.Fixes (Machine.holding .sum).store ∧ Ended σ (Value.rename σ) direct
      (grouped.1, grouped.2.counting direct.2.placeholders) := by
  have haccepts : Accepts (.holding .sum) 0 [[.integer 1], [.integer 2]].flatten := by
    refine accepts_holding (fun e he => ?_) rfl rfl rfl
    rw [List.eq_of_mem_singleton he]
    exact ⟨by simp [Value.Valid, Value.sum, Value.partialSum, Machine.holding, Machine.start], rfl⟩
  have hholds : GroupsHold 0 [[.integer 1], [.integer 2]] (.holding .sum) :=
    ⟨supplyHolds_sum, fun _ _ _ => trivial⟩
  exact ⟨haccepts, hholds, applyGroups_agrees haccepts (by simp) (by simp) hholds⟩

/-- `(list a)` is a list of one item, ahead of time as in the call. -/
theorem visitWithin_listing {m : Machine}
    (hm : m = Closure.listing.reducing [.integer 1] (.holding .listing) ∨
      m = Closure.listing.calling [.integer 1, .integer 2] (.holding .listing)) :
    Evaluation.visitWithin 8 .listing m =
      (.ok (.pair 4 (.integer 1) .nil), { m with store := { m.store with pairs := 5 } }) := by
  have happly : ∀ m, Application.apply (Evaluation.visitWithin 7)
      (.native (Builtin.function "list" 0 true [] .list)) [.integer 1] m =
        Eval.make (fun s => s.list [.integer 1]) m := by
    intro m
    rw [Application.apply_accepted _ (.inl (by simp)) (Nat.zero_le _) (.inr rfl) rfl]
    exact congrFun (Application.perform_run .list nofun nofun) m
  have hstep : Evaluation.visitWithin 8 .listing m =
      (fun r : Except Error Value × Machine => (r.1, { r.2 with depth := r.2.depth - 1 }))
        (Application.apply (Evaluation.visitWithin 7)
          (.native (Builtin.function "list" 0 true [] .list)) [.integer 1] { m with depth := 1 }) := by
    rcases hm with rfl | rfl
    · rfl
    · rfl
  rw [hstep, happly]
  rcases hm with rfl | rfl
  · rfl
  · rfl

/-- A list that was made ahead of time is run as code later: `(f 1 2)` is `(1)`, but `((f 1) 2)`
calls 1. -/
theorem applyGroups_listing :
    Accepts (.holding .listing) 0 [.integer 1, .integer 2] ∧
    (apply (.closure 0) [.integer 1, .integer 2] (.holding .listing)).1 =
      .ok (.pair 4 (.integer 1) .nil) ∧
    (applyGroups (.closure 0) [[.integer 1], [.integer 2]] (.holding .listing)).1 =
      .error (.notCallable "1") := by
  have haccepts : Accepts (.holding .listing) 0 [.integer 1, .integer 2] := by
    refine accepts_holding (fun e he => ?_) rfl rfl rfl
    rw [List.eq_of_mem_singleton he]
    exact ⟨by simp [Value.Valid, Value.listing, Machine.holding, Machine.start], rfl⟩
  refine ⟨haccepts, ?_, ?_⟩
  · change Prod.fst (Application.apply _ _ _ _) = _
    rw [Application.apply_call _ haccepts.valid haccepts.references rfl, Application.callClosure_apply]
    exact congrArg Prod.fst (visitWithin_listing (.inr rfl))
  · have hargs : ∀ s n, Value.AllValid s [.integer n] := by
      intro s n v hv
      rw [List.eq_of_mem_singleton hv]
      exact trivial
    have hreduces := Evaluation.visitAll_cons_of_ok (visitWithin_listing (.inl rfl))
      (rfl : Application.visitAll _ [] _ = (.ok [], _))
    obtain ⟨event, hcurry⟩ := Application.curryClosure_apply _ Closure.listing hreduces
    have hfirst : apply (.closure 0) [.integer 1] (.holding .listing) = _ :=
      (Application.apply_curry _ (by simp) (by decide)).trans hcurry
    obtain ⟨hvalid, -⟩ := apply_valid (f := .closure 0) haccepts.valid haccepts.known (hargs _ 1) hfirst
    have hlast := congrArg Prod.fst (Application.apply_call (Evaluation.visitWithin 8) hvalid
      (hargs _ 2) (rfl : 1 = ((Machine.store _).closure 1).params.length))
    rw [Application.callClosure_apply] at hlast
    unfold applyGroups
    rw [Eval.bind_apply, hfirst]
    dsimp only
    rw [applyGroups_single]
    exact hlast

end Session

end CurryLisp
