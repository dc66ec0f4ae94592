import CurryLisp.Proofs.References.Evaluation

/-!
# How values are applied

What an application does before the operation of a native function runs, or the body of a closure: it
counts the arguments, checks their types and builds the frame of the call.

Statements:

* `Application.apply_native_ok`: what a native function answers,
* `Application.apply_call`, `apply_curry`: how a closure is called and how it is curried,
* `Closure.calling_supplied`: with its last arguments, a closure that received the first ones before is
  called in the frame of a call with all of them.
-/

namespace CurryLisp

open SpecialForm (Visit)

/-! ## The frames of a call -/

/-- The environment that the frame of a call starts from. -/
def Closure.base (c : Closure) (m : Machine) : Environment :=
  match m.options.scoping with
  | .lexical => c.env
  | .dynamic => m.active

/-- The machine in which the body of a closure is reduced that receives its first arguments. -/
def Closure.reducing (c : Closure) (args : List Value) (m : Machine) : Machine :=
  let bound := c.bound ++ (c.params.take args.length).zip args
  let self := (c.params.drop args.length).map fun name => (name, .symbol name)
  { m with frames := ((c.base m).putAll bound).putAll self :: m.frames, level := .ahead }

/-- The machine in which the body of a closure is evaluated that receives all its arguments. -/
def Closure.calling (c : Closure) (args : List Value) (m : Machine) : Machine :=
  { m with
    frames := ((c.base m).putAll c.bound).putAll (c.params.zip args) :: m.frames
    level := .full }

/-- The machine after a call that ended in `after`. -/
def Machine.returned (m after : Machine) : Machine :=
  { after with frames := after.frames.tail, level := m.level }

/-- What a closure becomes when it receives its first arguments and its body was reduced. -/
def Closure.supplied (c : Closure) (args body : List Value) : Closure where
  params := c.params.drop args.length
  body := body
  env := c.env
  bound := c.bound ++ (c.params.take args.length).zip args

/-! ## Accepted arguments -/

/-- Arguments that have their types are accepted. -/
theorem Callable.checkArguments_ok {s : Store} {f : Callable} {args : List Value}
    (h : ∀ slot ∈ f.types.zip args, slot.2.hasType s slot.1 = true) :
    f.checkArguments s args = .ok () := by
  have hnone : ((f.types.zip args).take f.arity).findIdx?
      (fun slot => !slot.2.hasType s slot.1) = none := by
    rw [List.findIdx?_eq_none_iff]
    intro slot hslot
    rw [h slot (List.mem_of_mem_take hslot)]
    rfl
  unfold checkArguments
  rw [hnone]

/-- Arguments of the same types are accepted or refused alike. -/
theorem Callable.checkArguments_congr (f : NativeFunction) {s s' : Store} {args args' : List Value}
    (h : (args'.map fun arg => arg.typeTag s') = args.map fun arg => arg.typeTag s) :
    (Callable.native f).checkArguments s' args' = (Callable.native f).checkArguments s args := by
  -- What is checked, and what is told, is about the types of the arguments only.
  have hfirst : ∀ (s : Store) (args : List Value),
      ((f.types.zip args).take f.arity).findIdx? (fun slot => !slot.2.hasType s slot.1) =
        ((f.types.zip (args.map fun arg => arg.typeTag s)).take f.arity).findIdx?
          fun slot => !slot.1.isSupertypeOf slot.2 := by
    intro s args
    rw [List.zip_map_right, ← List.map_take, List.findIdx?_map]
    rfl
  have htold : ∀ (s : Store) (args : List Value), (args.map fun arg => (arg.typeTag s).name) =
      (args.map fun arg => arg.typeTag s).map (·.name) := fun s args => by
    rw [List.map_map]
    rfl
  unfold checkArguments
  simp only [types, arity, name]
  rw [hfirst, hfirst, htold, htold, h]

namespace Application

/-- With enough arguments, a native function refuses them or is performed. -/
theorem apply_enough (visit : Visit) {f : NativeFunction} {args : List Value}
    (hsome : args ≠ [] ∨ f.arity = 0) (harity : f.arity ≤ args.length) (m : Machine) :
    apply visit (.native f) args m =
      (if f.arity < args.length && !f.variadic then
        Eval.store >>= fun s => throw (.arity ((Callable.native f).name s) f.arity args.length)
      else (Eval.ask fun s => (Callable.native f).checkArguments s args) >>= fun _ =>
        perform visit f.operation args : Eval Value) m := by
  have hnone : ¬(args.isEmpty && 0 < (Callable.native f).arity) = true := by
    rcases hsome with hsome | hzero
    · simp [hsome]
    · simp [Callable.arity, hzero]
  rw [apply, Eval.bind_apply, Eval.store_apply]
  dsimp only [Value.callable?]
  rw [if_neg hnone, if_neg (by exact Nat.not_lt.2 harity)]
  rfl

/-- With as many arguments as it accepts, of the right types, a native function is performed. -/
theorem apply_accepted (visit : Visit) {f : NativeFunction} {args : List Value} {m : Machine}
    (hsome : args ≠ [] ∨ f.arity = 0) (harity : f.arity ≤ args.length)
    (hvariadic : args.length ≤ f.arity ∨ f.variadic = true)
    (hcheck : (Callable.native f).checkArguments m.store args = .ok ()) :
    apply visit (.native f) args m = perform visit f.operation args m := by
  have hmany : ¬((f.arity < args.length && !f.variadic) = true) := by
    rcases hvariadic with hlength | hvariadic
    · simp [Nat.not_lt.2 hlength]
    · simp [hvariadic]
  rw [apply_enough visit hsome harity, if_neg hmany, Eval.bind_apply]
  unfold Eval.ask
  dsimp only
  rw [hcheck]

/-- With as many arguments as it needs, of the right types, a native function is performed. -/
theorem apply_native (visit : Visit) {f : NativeFunction} {args : List Value} {m : Machine}
    (hsome : args ≠ []) (hlength : args.length = f.arity)
    (hcheck : (Callable.native f).checkArguments m.store args = .ok ()) :
    apply visit (.native f) args m = perform visit f.operation args m :=
  apply_accepted visit (.inl hsome) (Nat.le_of_eq hlength.symm) (.inl (Nat.le_of_eq hlength)) hcheck

/-- Without any argument, a native function that needs some is answered. -/
theorem apply_nothing (visit : Visit) {f : NativeFunction} (harity : 0 < f.arity) (m : Machine) :
    apply visit (.native f) [] m = (.ok (.native f), m) := by
  rw [apply, Eval.bind_apply, Eval.store_apply]
  dsimp only [Value.callable?]
  rw [if_pos (by exact decide_eq_true harity)]
  rfl

/-- With fewer arguments, but at least one, a native function is curried. -/
theorem apply_curryNative (visit : Visit) {f : NativeFunction} {args : List Value}
    (hform : f.isSpecialForm = false) (hsome : args ≠ []) (hshort : args.length < f.arity)
    (m : Machine) : apply visit (.native f) args m = curryNative f args m := by
  rw [apply, Eval.bind_apply, Eval.store_apply]
  dsimp only [Value.callable?]
  rw [if_neg (by simp [hsome]), if_pos (by exact hshort)]
  unfold curry
  dsimp only
  rw [if_neg (by simp [hform])]

/-- **What a native function answers** that is no special form: itself without any argument, a closure
with too few of them, and otherwise what its operation does. -/
theorem apply_native_ok {visit : Visit} {f : NativeFunction} {args : List Value} {v : Value}
    {m m' : Machine} (hform : f.isSpecialForm = false)
    (h : apply visit (.native f) args m = (.ok v, m')) :
    (args = [] ∧ 0 < f.arity ∧ v = .native f ∧ m' = m) ∨
    (args ≠ [] ∧ args.length < f.arity ∧ curryNative f args m = (.ok v, m')) ∨
    ((args ≠ [] ∨ f.arity = 0) ∧ f.arity ≤ args.length ∧
      (args.length ≤ f.arity ∨ f.variadic = true) ∧
      (Callable.native f).checkArguments m.store args = .ok () ∧
      perform visit f.operation args m = (.ok v, m')) := by
  by_cases hfew : args.length < f.arity
  · by_cases hsome : args = []
    · subst hsome
      rw [apply_nothing visit hfew] at h
      cases h
      exact .inl ⟨rfl, hfew, rfl, rfl⟩
    · rw [apply_curryNative visit hform hsome hfew] at h
      exact .inr (.inl ⟨hsome, hfew, h⟩)
  · have harity := Nat.le_of_not_lt hfew
    have hsome : args ≠ [] ∨ f.arity = 0 := by
      cases args with
      | nil => exact .inr (Nat.le_zero.1 harity)
      | cons arg args => exact .inl (by simp)
    rw [apply_enough visit hsome harity] at h
    split at h
    · cases h
    · next hmany =>
      obtain ⟨_, m₁, hask, hperform⟩ := Eval.bind_eq_ok h
      obtain ⟨hcheck, rfl⟩ := Prod.mk.inj hask
      refine .inr (.inr ⟨hsome, harity, ?_, hcheck, hperform⟩)
      simpa [Decidable.or_iff_not_imp_left] using hmany

theorem baseEnvironment_apply (c : Closure) (m : Machine) :
    baseEnvironment c m = (.ok (c.base m), m) := by
  unfold baseEnvironment Closure.base
  rw [Eval.bind_apply, Eval.get_apply]
  dsimp only
  cases m.options.scoping <;> rfl

section Closures

variable (visit : Visit) {k : Address} {args : List Value} {m : Machine}

/-- With as many arguments as it has parameters a closure is called. -/
theorem apply_call (hm : m.Valid) (hargs : Value.AllValid m.store args)
    (hlength : args.length = (m.store.closure k).params.length) :
    apply visit (.closure k) args m = callClosure visit (m.store.closure k) args m := by
  have hcheck : (Callable.closure (m.store.closure k)).checkArguments m.store args = .ok () := by
    refine Callable.checkArguments_ok fun slot hslot => ?_
    have hzip := List.of_mem_zip hslot
    obtain ⟨_, -, htype⟩ := List.mem_map.1 hzip.1
    rw [← htype]
    exact (hargs _ hzip.2).hasType_any hm.store
  rw [apply, Eval.bind_apply, Eval.store_apply]
  dsimp only [Value.callable?]
  rw [if_neg, if_neg, if_neg, Eval.bind_apply]
  · unfold Eval.ask
    dsimp only
    rw [hcheck]
  · simp [Callable.arity, hlength]
  · simp [Callable.arity, hlength]
  · cases args with
    | nil =>
      rw [List.length_nil] at hlength
      simp [Callable.arity, ← hlength]
    | cons arg args => simp

/-- With fewer arguments, but at least one, a closure is curried. -/
theorem apply_curry (hsome : args ≠ []) (hlength : args.length < (m.store.closure k).params.length) :
    apply visit (.closure k) args m = curryClosure visit (m.store.closure k) args m := by
  rw [apply, Eval.bind_apply, Eval.store_apply]
  dsimp only [Value.callable?]
  rw [if_neg (by simp [hsome]), if_pos (by simpa [Callable.arity] using hlength)]
  rfl

end Closures

/-- A call evaluates the body in a frame of its own. -/
theorem callClosure_apply (visit : Visit) (c : Closure) (args : List Value) (m : Machine) :
    callClosure visit c args m =
      ((SpecialForm.sequence visit c.body (c.calling args m)).1,
        m.returned (SpecialForm.sequence visit c.body (c.calling args m)).2) := by
  unfold callClosure
  rw [Eval.bind_apply, baseEnvironment_apply]
  rfl

/-- Currying reduces the body in a frame in which the missing parameters stand for themselves, and
fails where the reduction fails. -/
theorem curryClosure_reducing (visit : Visit) (c : Closure) {args : List Value}
    {result : Except Error (List Value)} {m after : Machine}
    (h : visitAll visit c.body (c.reducing args m) = (result, after)) :
    curryClosure visit c args m =
      match result with
      | .error e => (.error e, m.returned after)
      | .ok body => (.ok (.closure after.store.closures.size), { m.returned after with
          store := (after.store.newClosure (c.supplied args body)).2
          events := .closureCurried (c.params.take args.length).length
            (c.params.drop args.length).length :: after.events }) := by
  unfold curryClosure
  rw [Eval.bind_apply, baseEnvironment_apply]
  dsimp only
  rw [Eval.bind_apply]
  have hwith : Eval.withScope
      (((c.base m).putAll (c.bound ++ (c.params.take args.length).zip args)).putAll
        ((c.params.drop args.length).map fun name => (name, .symbol name)))
      (Eval.withLevel .ahead (visitAll visit c.body)) m = (result, m.returned after) := by
    change (Prod.fst (visitAll visit c.body (c.reducing args m)), m.returned
      (Prod.snd (visitAll visit c.body (c.reducing args m)))) = _
    rw [h]
  rw [hwith]
  cases result <;> rfl

/-- Currying makes a closure of the reduced body. -/
theorem curryClosure_apply (visit : Visit) (c : Closure) {args body : List Value} {m after : Machine}
    (h : visitAll visit c.body (c.reducing args m) = (.ok body, after)) :
    ∃ event, curryClosure visit c args m =
      (.ok (.closure after.store.closures.size),
        { m.returned after with
          store := (after.store.newClosure (c.supplied args body)).2
          events := event :: after.events }) := ⟨_, curryClosure_reducing visit c h⟩

end Application

/-! ## A call in two parts -/

theorem Environment.putAll_append (env : Environment) (xs ys : List (String × Value)) :
    env.putAll (xs ++ ys) = (env.putAll xs).putAll ys := by
  unfold Environment.putAll
  rw [Table.insertAll_append]

namespace Closure

variable {c : Closure} {xs ys body : List Value} {m : Machine}

/-- A closure that has received its first arguments is called in the frame in which it would have been
called with all of them. -/
theorem calling_supplied (body : List Value) (ys : List Value) (t : Store) (placeholders : Nat)
    (events : List Event) (hlength : xs.length ≤ c.params.length) :
    (c.supplied xs body).calling ys { m with store := t, placeholders, events } =
      { c.calling (xs ++ ys) m with store := t, placeholders, events } := by
  have hzip : c.params.zip (xs ++ ys) =
      (c.params.take xs.length).zip xs ++ (c.params.drop xs.length).zip ys := by
    have htake : (c.params.take xs.length).length = xs.length := by
      rw [List.length_take, Nat.min_eq_left hlength]
    rw [← List.zip_append htake, List.take_append_drop]
  have hframe : ((c.base m).putAll (c.bound ++ (c.params.take xs.length).zip xs)).putAll
      ((c.params.drop xs.length).zip ys) =
        ((c.base m).putAll c.bound).putAll (c.params.zip (xs ++ ys)) := by
    rw [hzip, Environment.putAll_append, Environment.putAll_append]
  unfold calling
  rw [← hframe]
  rfl

/-- In the frame of a call a name is looked up among what is bound, and then where the call starts. -/
theorem lookup?_calling (c : Closure) (xs : List Value) (m : Machine) (name : String) :
    (c.calling xs m).lookup? name =
      (((c.base m).bindings.insertAll (c.bound ++ c.params.zip xs)).get? name <|>
        m.global.bindings.get? name) := by
  unfold Machine.lookup?
  change (Table.get? ((((c.base m).putAll _).putAll _).bindings) name <|> _) = _
  rw [← Environment.putAll_append]
  rfl

/-- In the frame in which the body is reduced, the missing parameters are bound to themselves. -/
theorem lookup?_reducing (c : Closure) (xs : List Value) (m : Machine) (name : String) :
    (c.reducing xs m).lookup? name =
      (((c.base m).bindings.insertAll (c.bound ++ (c.params.take xs.length).zip xs ++
        (c.params.drop xs.length).map fun name => (name, .symbol name))).get? name <|>
          m.global.bindings.get? name) := by
  unfold Machine.lookup?
  change (Table.get? ((((c.base m).putAll _).putAll _).bindings) name <|> _) = _
  rw [← Environment.putAll_append]
  rfl

theorem map_fst_zip_take {params : List String} (h : xs.length ≤ params.length) :
    ((params.take xs.length).zip xs).map (·.1) = params.take xs.length := by
  rw [← List.unzip_fst, List.unzip_zip_left (by rw [List.length_take]; omega)]

/-- While its body is reduced a closure binds its parameters and what was bound before. -/
theorem map_fst_reducing (h : xs.length ≤ c.params.length) :
    (c.bound ++ (c.params.take xs.length).zip xs ++
      (c.params.drop xs.length).map fun name => (name, Value.symbol name)).map (·.1) =
        c.bound.map (·.1) ++ c.params := by
  have hself : (fun name : String => ((name, Value.symbol name) : String × Value).1) = id := rfl
  rw [List.map_append, List.map_append, map_fst_zip_take h, List.map_map, Function.comp_def, hself,
    List.map_id, List.append_assoc, List.take_append_drop]

theorem base_valid (hm : m.Valid) (hc : c.Valid m.store) : (c.base m).Valid m.store := by
  unfold base
  split
  · exact hc.env
  · exact hm.active

theorem calling_valid (hm : m.Valid) (hc : c.Valid m.store) (hxs : Value.AllValid m.store xs) :
    (c.calling xs m).Valid := by
  refine { hm with frames := fun frame hframe => ?_ }
  rcases List.mem_cons.1 hframe with rfl | hframe
  · exact ((base_valid hm hc).putAll hc.bound).putAll (Keeps.zip hxs c.params)
  · exact hm.frames frame hframe

theorem reducing_valid (hm : m.Valid) (hc : c.Valid m.store) (hxs : Value.AllValid m.store xs) :
    (c.reducing xs m).Valid := by
  refine { hm with frames := fun frame hframe => ?_ }
  rcases List.mem_cons.1 hframe with rfl | hframe
  · refine ((base_valid hm hc).putAll fun entry hentry => ?_).putAll fun entry hentry => ?_
    · rcases List.mem_append.1 hentry with hentry | hentry
      · exact hc.bound entry hentry
      · exact Keeps.zip hxs _ entry hentry
    · obtain ⟨name, -, rfl⟩ := List.mem_map.1 hentry
      exact trivial
  · exact hm.frames frame hframe

end Closure

end CurryLisp
