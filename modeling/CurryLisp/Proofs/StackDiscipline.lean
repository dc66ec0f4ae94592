import CurryLisp.Proofs.Effect

/-!
# Stack discipline

However an evaluation or application ends, the machine is back in the frame, at the level and at the
nesting where it began, and only the environment that was innermost can have changed
(`Machine.Framed`). Between the requests of a session a machine therefore rests at the top level.

Statements:

* `Machine.Framed.policy`: the discipline is a policy, so it holds along every evaluation.
* `Session.Resting.serveAll`: between the requests of a session a machine is at rest.
* `evaluation_framed`: **both, for every expression, value and session**.
-/

namespace CurryLisp

/-! ## Framed changes -/

/-- Only the innermost environment of `m` may differ in `m'`, besides what is in no frame. -/
structure Machine.Framed (m m' : Machine) : Prop where
  frames : m'.frames.length = m.frames.length
  below : m'.frames.tail = m.frames.tail
  global : m.frames ≠ [] → m'.global = m.global
  level : m'.level = m.level
  depth : m'.depth = m.depth
  indent : m'.indent = m.indent

namespace Machine.Framed

variable {m m₁ m₂ : Machine}

theorem refl (m : Machine) : Framed m m := ⟨rfl, rfl, fun _ => rfl, rfl, rfl, rfl⟩

theorem frames_ne_nil (h : Framed m m₁) (hm : m.frames ≠ []) : m₁.frames ≠ [] := by
  intro h₁
  have hlength := h.frames
  rw [h₁, List.length_nil] at hlength
  exact hm (List.length_eq_zero_iff.1 hlength.symm)

theorem trans (h : Framed m m₁) (h' : Framed m₁ m₂) : Framed m m₂ where
  frames := by rw [h'.frames, h.frames]
  below := by rw [h'.below, h.below]
  global := fun hm => by rw [h'.global (h.frames_ne_nil hm), h.global hm]
  level := by rw [h'.level, h.level]
  depth := by rw [h'.depth, h.depth]
  indent := by rw [h'.indent, h.indent]

/-- Changing the innermost environment changes no other one. -/
theorem updateActive (m : Machine) (f : Environment → Environment) :
    Framed m (m.updateActive f) := by
  unfold Machine.updateActive
  split
  · next hm =>
    refine ⟨rfl, rfl, ?_, rfl, rfl, rfl⟩
    intro hne
    exact absurd hm hne
  · next frame frames hm =>
    refine ⟨?_, ?_, fun _ => rfl, rfl, rfl, rfl⟩
    · rw [hm]
      rfl
    · rw [hm]
      rfl

/-- What was in the frames around a scope is there when the scope ends, the innermost of them
included. -/
theorem inScope {frame : Environment} (h : Framed { m with frames := frame :: m.frames } m₁) :
    Framed m { m₁ with frames := m₁.frames.tail } := by
  have htail : m₁.frames.tail = m.frames := h.below
  refine ⟨?_, ?_, fun _ => ?_, h.level, h.depth, h.indent⟩
  · rw [htail]
  · rw [htail]
  · exact h.global (List.cons_ne_nil _ _)

/-- **Every computation of the evaluator is framed.** -/
theorem policy : Policy Framed where
  refl := refl
  trans := trans
  grow := fun _ => ⟨rfl, rfl, fun _ => rfl, rfl, rfl, rfl⟩
  define := updateActive
  options := fun _ _ => ⟨rfl, rfl, fun _ => rfl, rfl, rfl, rfl⟩
  report := fun _ _ _ _ => ⟨rfl, rfl, fun _ => rfl, rfl, rfl, rfl⟩
  level := fun h => { h with level := rfl }
  scope := inScope
  nested := fun h => { h with depth := by rw [h.depth, Nat.add_sub_cancel] }
  noted := fun h => { h with indent := by rw [h.indent, Nat.add_sub_cancel] }

end Machine.Framed

/-! ## Sessions -/

/-- Where a machine stands between two requests at the top level. -/
structure Machine.TopLevel (m : Machine) : Prop where
  level : m.level = .full
  depth : m.depth = 0
  indent : m.indent = 0

theorem Machine.TopLevel.of_framed {m m' : Machine} (h : m.TopLevel) (hf : m.Framed m') :
    m'.TopLevel where
  level := by rw [hf.level, h.level]
  depth := by rw [hf.depth, h.depth]
  indent := by rw [hf.indent, h.indent]

namespace Session

/-- What becomes of the outcome of an evaluation that began in the machine `m`. -/
def concluded (m : Machine) (outcome : Except Error Value × Machine) :
    Except Error Value × Machine :=
  match outcome with
  | (.ok value, after) => (.ok value, after.atLevel m.level)
  | (.error err, after) =>
    (.error err, { after with
      events := .abandoned err :: after.events
      frames := after.frames.drop (after.frames.length - m.frames.length)
      options := { after.options with scoping := m.options.scoping }
      level := .full
      indent := 0
      depth := 0 })

theorem evaluate_eq (e : Value) (m : Machine) :
    evaluate e m =
      concluded m (Evaluation.visitWithin (Evaluation.room m) e (m.atLevel .full)) := by
  have hvisit : Eval.withLevel .full (Evaluation.visit e) m =
      ((Evaluation.visitWithin (Evaluation.room m) e (m.atLevel .full)).1,
        (Evaluation.visitWithin (Evaluation.room m) e (m.atLevel .full)).2.atLevel m.level) := rfl
  unfold evaluate
  rw [hvisit]
  rcases Evaluation.visitWithin (Evaluation.room m) e (m.atLevel .full) with ⟨_ | _, _⟩ <;> rfl

/-- An evaluation from the top level is framed also where it fails and the machine is put back. -/
theorem evaluate_framed {m : Machine} (hm : m.TopLevel) (e : Value) :
    m.Framed (evaluate e m).2 := by
  have h : m.Framed (Eval.withLevel .full (Evaluation.visit e) m).2 :=
    Along.withLevel Machine.Framed.policy .full (Machine.Framed.policy.pervasive.visit e) m
  unfold evaluate
  rcases hx : Eval.withLevel .full (Evaluation.visit e) m with ⟨_ | value, after⟩
  · rw [hx] at h
    have hdrop : after.frames.length - m.frames.length = 0 := by
      rw [h.frames, Nat.sub_self]
    dsimp only
    rw [hdrop, List.drop_zero]
    exact ⟨h.frames, h.below, h.global, hm.level.symm, hm.depth.symm, hm.indent.symm⟩
  · rw [hx] at h
    exact h

/-- A failure of an evaluation leaves the scoping mode that was in force. -/
theorem scoping_evaluate {m : Machine} {e : Value} {err : Error}
    (h : (evaluate e m).1 = .error err) :
    (evaluate e m).2.options.scoping = m.options.scoping := by
  unfold evaluate at h ⊢
  rcases hx : Eval.withLevel .full (Evaluation.visit e) m with ⟨_ | value, after⟩
  · rfl
  · rw [hx] at h
    cases h

theorem apply_framed (f : Value) (args : List Value) : Along Machine.Framed (apply f args) :=
  Along.bind Machine.Framed.policy (Along.get Machine.Framed.policy) fun m =>
    Machine.Framed.policy.pervasive.apply (Machine.Framed.policy.pervasive.visitWithin (Evaluation.room m))
      f args

theorem perform_framed (op : Operation) (args : List Value) :
    Along Machine.Framed (perform op args) :=
  Along.bind Machine.Framed.policy (Along.get Machine.Framed.policy) fun m =>
    Machine.Framed.policy.pervasive.perform
      (Machine.Framed.policy.pervasive.visitWithin (Evaluation.room m)) op args

theorem evaluateAll_framed {m : Machine} (hm : m.TopLevel) (es : List Value) :
    m.Framed (evaluateAll es m).2 := by
  induction es generalizing m with
  | nil => exact Machine.Framed.refl m
  | cons e es ih =>
    have h := evaluate_framed hm e
    exact h.trans (ih (hm.of_framed h))

theorem load_framed (d : Datum) : Along Machine.Framed (load d) :=
  fun _ => ⟨rfl, rfl, fun _ => rfl, rfl, rfl, rfl⟩

/-- Two computations in turn, of which the second starts where the first has succeeded. -/
theorem bind_framed {α β : Type} {m : Machine} {x : Eval α} {f : α → Eval β}
    (hx : m.Framed (x m).2)
    (hf : ∀ a m', x m = (.ok a, m') → m'.Framed (f a m').2) : m.Framed ((x >>= f) m).2 := by
  rw [Eval.bind_apply]
  rcases h : x m with ⟨e | a, m'⟩
  · rwa [h] at hx
  · rw [h] at hx
    exact hx.trans (hf a m' h)

theorem evaluateData_framed {m : Machine} (hm : m.TopLevel) (last : Value) (data : List Datum) :
    m.Framed (evaluateData last data m).2 := by
  induction data generalizing m last with
  | nil => exact Machine.Framed.refl m
  | cons d ds ih =>
    have hload := load_framed d m
    refine bind_framed hload fun e m₁ h₁ => ?_
    rw [h₁] at hload
    have hm₁ := hm.of_framed hload
    have heval := evaluate_framed hm₁ e
    refine bind_framed heval fun value m₂ h₂ => ?_
    rw [h₂] at heval
    exact ih (hm₁.of_framed heval) value

theorem evaluateText_framed {m : Machine} (hm : m.TopLevel) (text : String) :
    m.Framed (evaluateText text m).2 := by
  have hread : Along Machine.Framed (readAll text) := by
    unfold readAll
    split
    · exact Along.pure Machine.Framed.policy _
    · exact Along.throw Machine.Framed.policy _
  have h := hread m
  refine bind_framed h fun data m' hdata => ?_
  rw [hdata] at h
  exact evaluateData_framed (hm.of_framed h) .nil data

/-- What can be asked of a machine between two evaluations. -/
inductive Request where
  | evaluate (e : Value)
  | evaluateAll (es : List Value)
  | evaluateText (text : String)
  | apply (f : Value) (args : List Value)
  | perform (op : Operation) (args : List Value)
  | load (d : Datum)
  | newVector (items : Array Value)
  | reset
  | install (p : Package)
  | put (name : String) (value : Value)
  | remove (name : String)
  | putType (tag : TypeTag)
  | putStruct (name : String) (template : Address)
  | defineStruct (name : String) (specs : List FieldSpec)
  | deriveStruct (name parent : String) (specs : List FieldSpec)
  | instantiate (name : String) (inits : List (String × Value))
  | configure (options : Options)

/-- The machine after a request, whether it fails or not. -/
def Request.serve (m : Machine) : Request → Machine
  | evaluate e => (Session.evaluate e m).2
  | evaluateAll es => (Session.evaluateAll es m).2
  | evaluateText text => (Session.evaluateText text m).2
  | apply f args => (Session.apply f args m).2
  | perform op args => (Session.perform op args m).2
  | load d => (Session.load d m).2
  | newVector items => (Eval.make (Store.newVector items) m).2
  | reset => (Session.reset m).2
  | install p => (Session.install p m).2
  | put name value => m.updateActive (·.put name value)
  | remove name => m.updateActive (·.remove name)
  | putType tag => m.updateActive (·.putType tag)
  | putStruct name template => m.updateActive (·.putStruct name template)
  | defineStruct name specs => (Struct.defineTemplate name specs m).2
  | deriveStruct name parent specs => (Struct.deriveTemplate name parent specs m).2
  | instantiate name inits => (Struct.instantiate name inits m).2
  | configure options => { m with options }

/-- A machine between two requests: no scope is open. -/
structure Resting (m : Machine) : Prop extends m.TopLevel where
  scope : m.scopeDepth = 0

theorem Resting.of_framed {m m' : Machine} (h : Resting m) (hf : m.Framed m') : Resting m' where
  toTopLevel := h.toTopLevel.of_framed hf
  scope := by
    unfold Machine.scopeDepth
    rw [hf.frames]
    exact h.scope

theorem resting_start (global : Environment) (options : Options) (store : Store) :
    Resting (Machine.start global options store) :=
  { level := rfl, depth := rfl, indent := rfl, scope := rfl }

/-- Each request leads from rest to rest. -/
theorem Resting.serve {m : Machine} (h : Resting m) (request : Request) :
    Resting (request.serve m) := by
  have hpolicy := Machine.Framed.policy
  cases request with
  | evaluate e => exact h.of_framed (evaluate_framed h.toTopLevel e)
  | evaluateAll es => exact h.of_framed (evaluateAll_framed h.toTopLevel es)
  | evaluateText text => exact h.of_framed (evaluateText_framed h.toTopLevel text)
  | apply f args => exact h.of_framed (apply_framed f args m)
  | perform op args => exact h.of_framed (perform_framed op args m)
  | load d => exact h.of_framed (load_framed d m)
  | newVector items =>
    exact h.of_framed (Along.make hpolicy (fun s => Store.Grows.newVector items s) m)
  | reset => exact { level := rfl, depth := rfl, indent := rfl, scope := rfl }
  | install p => exact h.of_framed (Machine.Framed.updateActive m _)
  | put name value => exact h.of_framed (hpolicy.define m (·.put name value))
  | remove name => exact h.of_framed (hpolicy.define m (·.remove name))
  | putType tag => exact h.of_framed (hpolicy.define m (·.putType tag))
  | putStruct name template => exact h.of_framed (hpolicy.define m (·.putStruct name template))
  | defineStruct name specs => exact h.of_framed (hpolicy.pervasive.defineTemplate name specs m)
  | deriveStruct name parent specs =>
    exact h.of_framed (hpolicy.pervasive.deriveTemplate name parent specs m)
  | instantiate name inits => exact h.of_framed (hpolicy.pervasive.instantiateStruct name inits m)
  | configure options => exact h.of_framed (hpolicy.options m options)

/-- The machine after several requests in turn. -/
def serveAll (m : Machine) (requests : List Request) : Machine :=
  requests.foldl Request.serve m

/-- **Between requests a machine is at rest.** -/
theorem Resting.serveAll {m : Machine} (h : Resting m) (requests : List Request) :
    Resting (serveAll m requests) := by
  unfold Session.serveAll
  induction requests generalizing m with
  | nil => exact h
  | cons request requests ih => exact ih (h.serve request)

end Session

/-! ## The discipline -/

/-- **Stack discipline.** Every evaluation and application, whether it fails or not, leaves frames,
level and nesting as they were, and changes the innermost environment only. So do evaluations from
the top level, which put the scoping mode back if they fail, and after each request of a session the
machine is at rest. -/
theorem evaluation_framed :
    (∀ (m : Machine) e, m.Framed (Evaluation.visit e m).2) ∧
    (∀ (m : Machine) level e, m.Framed (Eval.withLevel level (Evaluation.visit e) m).2) ∧
    (∀ (m : Machine) f args, m.Framed (Session.apply f args m).2) ∧
    (∀ (m : Machine) e, m.TopLevel → m.Framed (Session.evaluate e m).2) ∧
    (∀ m e err, (Session.evaluate e m).1 = .error err →
      (Session.evaluate e m).2.options.scoping = m.options.scoping) ∧
    (∀ global options store requests,
      Session.Resting (Session.serveAll (Machine.start global options store) requests)) := by
  have hpolicy := Machine.Framed.policy
  refine ⟨?_, ?_, ?_, ?_, ?_, ?_⟩
  · intro m e
    exact hpolicy.pervasive.visit e m
  · intro m level e
    exact Along.withLevel hpolicy level (hpolicy.pervasive.visit e) m
  · intro m f args
    exact Session.apply_framed f args m
  · intro m e hm
    exact Session.evaluate_framed hm e
  · intro m e err h
    exact Session.scoping_evaluate h
  · intro global options store requests
    exact (Session.resting_start global options store).serveAll requests

/-- In the initial environment an unknown name fails, at the top level and framed. -/
theorem evaluation_framed_unknown :
    (Machine.start .initial {} {}).TopLevel ∧
    (Session.evaluate (.symbol "x") (Machine.start .initial {} {})).1 =
      .error (.unboundSymbol "x") ∧
    (Machine.start .initial {} {}).Framed
      (Session.evaluate (.symbol "x") (Machine.start .initial {} {})).2 ∧
    (Session.evaluate (.symbol "x") (Machine.start .initial {} {})).2.options.scoping =
      (Machine.start .initial {} {}).options.scoping := by
  have htop : (Machine.start .initial {} {}).TopLevel := ⟨rfl, rfl, rfl⟩
  have hfails : (Session.evaluate (.symbol "x") (Machine.start .initial {} {})).1 =
      .error (.unboundSymbol "x") := by rfl
  obtain ⟨-, -, -, hframed, hscoping, -⟩ := evaluation_framed
  exact ⟨htop, hfails, hframed _ _ htop, hscoping _ _ _ hfails⟩

end CurryLisp
