import CurryLisp.Proofs.Currying
import CurryLisp.Proofs.Surroundings

/-!
# Lexical calls do not see the caller

With lexical scoping a closure runs in a frame that is made from the environment it keeps. Whatever
its body does (calls, definitions, further currying, a change of the scoping mode), it consults that
frame and the global environment only. So the frames of the caller make no difference to an
application, and the application makes none to them.

Only a function of the host that is shown the number of frames could tell callers apart. No builtin
function and no function of the package of mathematics is shown it; of the functions of the host it is
assumed that they ignore it (`HostFunction.IgnoresFrames`).

Statement:

* `Session.apply_closure_frames`: an application of a closure gives the same in all frames, and leaves
  them as they were.
-/

namespace CurryLisp

open SpecialForm (Visit)

/-! ## Computations apart from frames -/

/-- `x` ends in the same way among other frames, and changes neither them nor the global
environment. -/
def Apart {α : Type} (frames' : List Environment) (x : Eval α) (m : Machine) : Prop :=
  x { m with frames := frames' } = ((x m).1, { (x m).2 with frames := frames' }) ∧
    (x m).2.frames = m.frames ∧ (x m).2.global = m.global

namespace Apart

variable {α β : Type} {frames' : List Environment} {m : Machine}

theorem pure (a : α) : Apart frames' (Pure.pure a) m := ⟨rfl, rfl, rfl⟩

theorem throw (e : Error) : Apart frames' (throw e : Eval α) m := ⟨rfl, rfl, rfl⟩

theorem note (e : Event) : Apart frames' (Eval.note e) m := ⟨rfl, rfl, rfl⟩

theorem make (f : Store → α × Store) : Apart frames' (Eval.make f) m := ⟨rfl, rfl, rfl⟩

theorem bind {x : Eval α} {f : α → Eval β} (hx : Apart frames' x m)
    (hf : ∀ a m', Apart frames' (f a) m') : Apart frames' (x >>= f) m := by
  obtain ⟨hsame, hframes, hglobal⟩ := hx
  unfold Apart
  rw [Eval.bind_apply, Eval.bind_apply, hsame]
  rcases hm : x m with ⟨e | a, m₁⟩
  · rw [hm] at hframes hglobal
    exact ⟨rfl, hframes, hglobal⟩
  · rw [hm] at hframes hglobal
    obtain ⟨hsame', hframes', hglobal'⟩ := hf a m₁
    exact ⟨hsame', hframes'.trans hframes, hglobal'.trans hglobal⟩

/-- What is asked of the objects is the same among other frames. -/
theorem store {f : Store → Eval β} (hf : Apart frames' (f m.store) m) :
    Apart frames' (Eval.store >>= f) m := hf

theorem ask {f : Store → Except Error α} {g : α → Eval β} (hg : ∀ a, Apart frames' (g a) m) :
    Apart frames' (Eval.ask f >>= g) m := by
  unfold Apart
  rw [Eval.bind_apply, Eval.bind_apply]
  unfold Eval.ask
  dsimp only
  cases f m.store with
  | error e => exact ⟨rfl, rfl, rfl⟩
  | ok a => exact hg a

/-- With lexical scoping a call starts from what the closure keeps. -/
theorem baseEnvironment {k : Closure} {f : Environment → Eval β}
    (hscoping : m.options.scoping = .lexical) (hf : Apart frames' (f k.env) m) :
    Apart frames' (Application.baseEnvironment k >>= f) m := by
  have hbase : ∀ m' : Machine, m'.options.scoping = .lexical →
      (Application.baseEnvironment k >>= f) m' = f k.env m' := by
    intro m' hm'
    rw [Eval.bind_apply, Application.baseEnvironment_apply]
    unfold Closure.base
    rw [hm']
  unfold Apart
  rw [hbase m hscoping, hbase { m with frames := frames' } hscoping]
  exact hf

/-! ### Calls -/

section Calls

variable {c : Surroundings} (hreports : c.reports) (hbelow : m.frames = c.below)
  (hglobal : m.global.UsesOnly c.ok) (hstore : m.store.UsesOnly c.ok)
  (hhosts : m.store.hosts = c.hosts)
include hreports hbelow hglobal hstore hhosts

/-- What runs in a frame of its own does not see the frames around. -/
theorem withScope {frame : Environment} (hframe : frame.UsesOnly c.ok) {P : α → Prop} {x : Eval α}
    (hx : Stable c P x) (hframed : Along Machine.Framed x) :
    Apart c.below' (Eval.withScope frame x) m := by
  -- Only the new frame is visible from inside, so one frame is shared and those below may differ.
  have hinside : Machine.Alike c 1 { m with frames := frame :: m.frames }
      { m with frames := frame :: c.below' } := {
    frames := ⟨[frame], rfl, congrArg (frame :: ·) hbelow, rfl, fun found hfound => by
      rw [List.mem_singleton.1 hfound]
      exact hframe⟩
    top := nofun
    global := rfl
    level := rfl
    scoping := rfl
    maxDepth := rfl
    depth := rfl
    placeholders := rfl
    store := rfl
    printed := rfl
    reports := fun _ => ⟨rfl, rfl, rfl⟩
    changes := fun _ => ⟨rfl, rfl⟩
    globalUses := hglobal
    storeUses := hstore
    hosts := hhosts }
  obtain ⟨hsame, halike, -⟩ := hx 1 _ _ hinside
  obtain ⟨htail, htail'⟩ := halike.tail_eq
  have hend := halike.eq_of_reports hreports
  refine ⟨Prod.ext hsame ?_, htail.trans hbelow.symm, (hframed _).global (List.cons_ne_nil _ _)⟩
  change { (x { m with frames := frame :: c.below' }).2 with
    frames := (x { m with frames := frame :: c.below' }).2.frames.tail } =
      { (x { m with frames := frame :: m.frames }).2 with frames := c.below' }
  rw [htail', hend]

variable {visit : Visit} (hscoping : m.options.scoping = .lexical)
  (hv : ∀ e, e.UsesOnly c.ok → Stable c (Value.UsesOnly c.ok) (visit e))
  (hframed : ∀ e, Along Machine.Framed (visit e))
  {k : Closure} (hk : k.UsesOnly c.ok) {args : List Value} (hargs : Value.AllUseOnly c.ok args)
include hscoping hv hframed hk hargs

theorem callClosure : Apart c.below' (Application.callClosure visit k args) m := by
  have hpolicy := Machine.Framed.policy
  refine baseEnvironment hscoping ?_
  exact withScope hreports hbelow hglobal hstore hhosts
    ((Environment.UsesOnly.putAll hk.env hk.bound).putAll (Stable.zip hargs k.params))
    (Stable.withLevel _ (Stable.sequence hv hk.body))
    (Along.withLevel hpolicy _ (hpolicy.pervasive.sequence hframed k.body))

theorem curryClosure : Apart c.below' (Application.curryClosure visit k args) m := by
  have hpolicy := Machine.Framed.policy
  obtain ⟨-, hframe⟩ := Stable.reducingFrame hk.env hk hargs
  refine baseEnvironment hscoping (bind ?_ fun body _ => bind (note _) fun _ _ => make _)
  exact withScope hreports hbelow hglobal hstore hhosts hframe
    (Stable.withLevel _ (Stable.visitAll hv hk.body))
    (Along.withLevel hpolicy _ (hpolicy.pervasive.visitAll hframed k.body))

end Calls

/-- **A lexical application of a closure is apart from the frames of its caller**, with any number of
arguments. -/
theorem apply {c : Surroundings} {visit : Visit}
    (hv : ∀ e, e.UsesOnly c.ok → Stable c (Value.UsesOnly c.ok) (visit e))
    (hframed : ∀ e, Along Machine.Framed (visit e)) (hreports : c.reports)
    (hbelow : m.frames = c.below) (hglobal : m.global.UsesOnly c.ok)
    (hstore : m.store.UsesOnly c.ok) (hhosts : m.store.hosts = c.hosts)
    (hscoping : m.options.scoping = .lexical) (a : Address) {args : List Value}
    (hargs : Value.AllUseOnly c.ok args) :
    Apart c.below' (Application.apply visit (.closure a) args) m := by
  have hk := hstore.closure a
  rw [Application.apply]
  refine store ?_
  dsimp only [Value.callable?]
  split
  · exact pure _
  · split
    · exact curryClosure hreports hbelow hglobal hstore hhosts hscoping hv hframed hk hargs
    · split
      · exact store (throw _)
      · refine ask fun _ => ?_
        exact callClosure hreports hbelow hglobal hstore hhosts hscoping hv hframed hk hargs

end Apart

/-! ## The main statement -/

namespace Session

/-- **A lexical call does not see its caller.** An application of a closure to any arguments has the
same result among other frames, prints the same and changes objects, options and placeholders in the
same way; it leaves the global environment and the frames themselves as they were. Functions of the
host, if there are any, are not to depend on the number of frames. -/
theorem apply_closure_frames {m : Machine} (hscoping : m.options.scoping = .lexical) (a : Address)
    (args : List Value) (frames' : List Environment)
    (hhosts : ∀ f ∈ m.store.hosts, f.IgnoresFrames) :
    apply (.closure a) args { m with frames := frames' } =
        ((apply (.closure a) args m).1,
          { (apply (.closure a) args m).2 with frames := frames' }) ∧
      (apply (.closure a) args m).2.frames = m.frames ∧
        (apply (.closure a) args m).2.global = m.global := by
  let c : Surroundings :=
    ⟨m.frames, frames', True, True, fun _ => True, m.store.hosts, .inr hhosts⟩
  have hall : ∀ v : Value, v.UsesOnly c.ok := .of_forall fun _ => trivial
  exact Apart.apply (c := c) (fun e he => Stable.visitWithin _ he)
    (Machine.Framed.policy.pervasive.visitWithin (Evaluation.room m)) trivial rfl
    (fun entry _ => hall entry.2) (.of_forall (fun _ => trivial) _) rfl hscoping a fun v _ => hall v

/-- A closure whose body is the name `x` fails at the top level, and also where its caller has bound
`x`. -/
theorem apply_closure_frames_unbound :
    let m : Machine := .start .initial {} { closures := #[{ params := [], body := [.symbol "x"] }] }
    let caller : Environment := Environment.put {} "x" (.integer 1)
    m.options.scoping = .lexical ∧ (∀ f ∈ m.store.hosts, f.IgnoresFrames) ∧
      (apply (.closure 0) [] m).1 = .error (.unboundSymbol "x") ∧
        (apply (.closure 0) [] { m with frames := [caller] }).1 = .error (.unboundSymbol "x") := by
  intro m caller
  have hhosts : ∀ f ∈ m.store.hosts, f.IgnoresFrames := nofun
  have hfails : (apply (.closure 0) [] m).1 = .error (.unboundSymbol "x") := by
    change (Application.apply (Evaluation.visitWithin m.options.maxDepth) (.closure 0) [] m).1 = _
    rw [Application.apply]
    rfl
  obtain ⟨hsame, -, -⟩ := apply_closure_frames (m := m) rfl 0 [] [caller] hhosts
  exact ⟨rfl, hhosts, hfails, by rw [hsame]; exact hfails⟩

end Session

end CurryLisp
