import CurryLisp.Proofs.Effect

/-!
# Notes and nesting

A step begins by noting itself and going down one level of nesting. Neither takes part in what it does:
`visitWithin_succ` says that an evaluation ends as its step does, in a machine that differs from the one
it was started in by notes and nesting only (`Machine.Noted`). The notes are notes on steps: what was
noted of a change in the machine stays (`Machine.Stepped`).
-/

namespace CurryLisp

/-- A look at the machine changes nothing. -/
theorem Eval.get_apply (m : Machine) : (get : Eval Machine) m = (.ok m, m) := rfl

/-- A look at the store changes nothing. -/
theorem Eval.store_apply (m : Machine) : Eval.store m = (.ok m.store, m) := rfl

/-- `m'` is `m` but for its nesting and what it has noted. -/
def Machine.Noted (m m' : Machine) : Prop :=
  ∃ depth indent events, m' = { m with depth, indent, events }

namespace Machine.Noted

variable {m m₁ m₂ : Machine}

theorem refl (m : Machine) : m.Noted m := ⟨m.depth, m.indent, m.events, rfl⟩

theorem trans (h : m.Noted m₁) (h' : m₁.Noted m₂) : m.Noted m₂ := by
  obtain ⟨_, _, _, rfl⟩ := h
  obtain ⟨depth, indent, events, rfl⟩ := h'
  exact ⟨depth, indent, events, rfl⟩

theorem symm (h : m.Noted m₁) : m₁.Noted m := by
  obtain ⟨_, _, _, rfl⟩ := h
  exact ⟨m.depth, m.indent, m.events, rfl⟩

theorem level (h : m.Noted m₁) : m₁.level = m.level := by
  obtain ⟨_, _, _, rfl⟩ := h
  rfl

theorem store (h : m.Noted m₁) : m₁.store = m.store := by
  obtain ⟨_, _, _, rfl⟩ := h
  rfl

theorem active (h : m.Noted m₁) : m₁.active = m.active := by
  obtain ⟨_, _, _, rfl⟩ := h
  rfl

theorem lookup? (h : m.Noted m₁) (name : String) : m₁.lookup? name = m.lookup? name := by
  obtain ⟨_, _, _, rfl⟩ := h
  rfl

theorem updateActive (h : m.Noted m₁) (f : Environment → Environment) :
    (m.updateActive f).Noted (m₁.updateActive f) := by
  obtain ⟨depth, indent, events, rfl⟩ := h
  refine ⟨depth, indent, events, ?_⟩
  unfold Machine.updateActive
  dsimp only
  split <;> rfl

end Machine.Noted

/-- The notes that tell of a change in the machine rather than of a step. -/
def Event.changes (events : List Event) : List Event := events.filter fun e => !e.isStep

theorem Event.changes_cons (e : Event) {events events' : List Event}
    (h : changes events' = changes events) : changes (e :: events') = changes (e :: events) := by
  unfold changes at h ⊢
  rw [List.filter_cons, List.filter_cons, h]

/-- `m'` is `m` but for its nesting and what it has noted of steps. -/
structure Machine.Stepped (m m' : Machine) : Prop where
  noted : m.Noted m'
  changes : Event.changes m'.events = Event.changes m.events

namespace Machine.Stepped

variable {m m₁ m₂ : Machine}

theorem refl (m : Machine) : m.Stepped m := ⟨.refl m, rfl⟩

theorem trans (h : m.Stepped m₁) (h' : m₁.Stepped m₂) : m.Stepped m₂ :=
  ⟨h.noted.trans h'.noted, h'.changes.trans h.changes⟩

theorem atLevel (h : m.Stepped m₁) (level : Level) : (m.atLevel level).Stepped (m₁.atLevel level) := by
  obtain ⟨depth, indent, events, rfl⟩ := h.noted
  exact ⟨⟨depth, indent, events, rfl⟩, h.changes⟩

end Machine.Stepped

theorem Event.changes_append (later earlier : List Event) :
    changes (later ++ earlier) = changes later ++ changes earlier :=
  List.filter_append ..

/-- The note on how a step ends. -/
def Event.outcome (indent : Nat) (s : Store) : Except Error Value → Event
  | .ok value => .leave indent (value.write s)
  | .error e => .raise indent e

theorem Event.source_outcome (indent : Nat) (s : Store) (result : Except Error Value) :
    (outcome indent s result).source = .trace := by
  cases result <;> rfl

namespace Evaluation

/-! ## Notes on a step -/

/-- What is noted of the beginning of a step, newest first. -/
def entryNotes (e : Value) (m : Machine) : List Event :=
  (if m.options.trace then [.enter m.indent (e.write m.store) m.level] else []) ++
    (if m.options.printAst then [.node m.indent e.kind] else [])

/-- What is noted of the end of a step, newest first. -/
def exitNotes (result : Except Error Value) (m : Machine) : List Event :=
  (if m.options.showEnv then [.environment m.indent
      (m.active.render m.store m.options.showBuiltins m.options.showTypes)] else []) ++
    (if m.options.trace then [.outcome m.indent m.store result] else [])

theorem noteEntry_apply (e : Value) (m : Machine) :
    noteEntry e m = (.ok (), { m with events := entryNotes e m ++ m.events }) := by
  obtain ⟨_, _, _, ⟨_, trace, printAst, _, _, _, _⟩, _, _, _, _, _, _⟩ := m
  cases trace <;> cases printAst <;> rfl

theorem noteExit_apply (result : Except Error Value) (m : Machine) :
    noteExit result m = (.ok (), { m with events := exitNotes result m ++ m.events }) := by
  obtain ⟨_, _, _, ⟨_, trace, _, showEnv, _, _, _⟩, _, _, _, _, _, _⟩ := m
  cases trace <;> cases showEnv <;> cases result <;> rfl

theorem changes_entryNotes (e : Value) (m : Machine) : Event.changes (entryNotes e m) = [] := by
  unfold entryNotes
  split <;> split <;> rfl

theorem changes_exitNotes (result : Except Error Value) (m : Machine) :
    Event.changes (exitNotes result m) = [] := by
  unfold exitNotes
  split <;> split <;> cases result <;> rfl

/-- The machine in which a step begins, after what is noted of its beginning. -/
def begun (e : Value) (m : Machine) : Machine :=
  if m.options.observes then { (noteEntry e m).2 with indent := m.indent + 1 } else m

theorem begun_of_observes {m : Machine} (hm : m.options.observes = true) (e : Value) :
    begun e m = { m with indent := m.indent + 1, events := entryNotes e m ++ m.events } := by
  rw [begun, if_pos hm, noteEntry_apply]

theorem begun_of_not {m : Machine} (hm : m.options.observes = false) (e : Value) : begun e m = m := by
  rw [begun, hm, if_neg Bool.false_ne_true]

theorem begun_eq (e : Value) (m : Machine) :
    ∃ events indent, begun e m = { m with events, indent } ∧
      Event.changes events = Event.changes m.events := by
  cases hm : m.options.observes with
  | true =>
    refine ⟨_, _, begun_of_observes hm e, ?_⟩
    rw [Event.changes_append, changes_entryNotes, List.nil_append]
  | false => exact ⟨m.events, m.indent, begun_of_not hm e, rfl⟩

/-- The machine after a step whose parts have left `m`, after what is noted of its end. -/
def ended (result : Except Error Value) (m : Machine) : Machine :=
  { m with
    indent := m.indent - 1
    events := exitNotes result { m with indent := m.indent - 1 } ++ m.events }

theorem observed_of_observes {m : Machine} (hm : m.options.observes = true) (e : Value)
    (x : Eval Value) :
    observed e x m = ((x (begun e m)).1, ended (x (begun e m)).1 (x (begun e m)).2) := by
  rw [begun_of_observes hm]
  have hcaught : ∀ m, (liftM (Eval.bracket (fun m => { m with indent := m.indent + 1 })
      (fun m => { m with indent := m.indent - 1 }) x).run : Eval (Except Error Value)) m =
      (.ok (x { m with indent := m.indent + 1 }).1,
        { (x { m with indent := m.indent + 1 }).2 with
          indent := (x { m with indent := m.indent + 1 }).2.indent - 1 }) :=
    fun m => rfl
  unfold observed
  rw [Eval.bind_apply, Eval.get_apply]
  dsimp only
  rw [if_pos hm, Eval.bind_apply, noteEntry_apply]
  dsimp only
  rw [Eval.bind_apply, hcaught]
  dsimp only
  rw [Eval.bind_apply, noteExit_apply]
  dsimp only
  rw [Eval.ofExcept_apply]
  rfl

theorem observed_of_not {m : Machine} (hm : m.options.observes = false) (e : Value)
    (x : Eval Value) : observed e x m = x m := by
  unfold observed
  rw [Eval.bind_apply, Eval.get_apply]
  dsimp only
  rw [hm, if_neg Bool.false_ne_true]

/-- What is noted of a step does not take part in it. -/
theorem observed_apply (e : Value) (x : Eval Value) (m : Machine) :
    ∃ events indent, observed e x m =
        ((x (begun e m)).1, { (x (begun e m)).2 with events, indent }) ∧
      Event.changes events = Event.changes (x (begun e m)).2.events := by
  cases hm : m.options.observes with
  | true =>
    refine ⟨_, _, observed_of_observes hm e x, ?_⟩
    rw [Event.changes_append, changes_exitNotes, List.nil_append]
  | false =>
    rw [observed_of_not hm, begun_of_not hm]
    exact ⟨(x m).2.events, (x m).2.indent, rfl, rfl⟩

/-! ## Nested steps -/

/-- The machine in which the parts of a step are evaluated. -/
def inside (e : Value) (m : Machine) : Machine := begun e { m with depth := m.depth + 1 }

theorem inside_stepped (e : Value) (m : Machine) : m.Stepped (inside e m) := by
  obtain ⟨events, indent, hbegun, hchanges⟩ := begun_eq e { m with depth := m.depth + 1 }
  unfold inside
  rw [hbegun]
  exact ⟨⟨m.depth + 1, indent, events, rfl⟩, hchanges⟩

theorem inside_noted (e : Value) (m : Machine) : m.Noted (inside e m) := (inside_stepped e m).noted

/-- A step ends as its parts do, inside, but for what is noted of it. -/
theorem visitWithin_stepped (room : Nat) (e : Value) (m : Machine) :
    ∃ m', visitWithin (room + 1) e m = ((step (visitWithin room) e (inside e m)).1, m') ∧
      (step (visitWithin room) e (inside e m)).2.Stepped m' := by
  obtain ⟨events, indent, hobserved, hchanges⟩ :=
    observed_apply e (step (visitWithin room) e) { m with depth := m.depth + 1 }
  rw [visitWithin, nested_eq, Eval.bracket_apply, hobserved]
  exact ⟨_, rfl, ⟨_, _, _, rfl⟩, hchanges⟩

/-- A step ends as its parts do, inside. -/
theorem visitWithin_succ (room : Nat) (e : Value) (m : Machine) :
    ∃ m', visitWithin (room + 1) e m = ((step (visitWithin room) e (inside e m)).1, m') ∧
      (step (visitWithin room) e (inside e m)).2.Noted m' := by
  obtain ⟨m', hvisit, hstepped⟩ := visitWithin_stepped room e m
  exact ⟨m', hvisit, hstepped.noted⟩

/-- An evaluation that succeeds is a step that succeeds. -/
theorem step_of_visitWithin {room : Nat} {e r : Value} {m m' : Machine}
    (h : visitWithin (room + 1) e m = (.ok r, m')) :
    ∃ m₁, step (visitWithin room) e (inside e m) = (.ok r, m₁) ∧ m₁.Noted m' := by
  obtain ⟨m₂, hvisit, hnoted⟩ := visitWithin_succ room e m
  rw [h] at hvisit
  obtain ⟨hresult, rfl⟩ := Prod.mk.inj hvisit
  exact ⟨(step (visitWithin room) e (inside e m)).2, Prod.ext hresult.symm rfl, hnoted⟩

/-- A step that succeeds is an evaluation that succeeds. -/
theorem visitWithin_of_step {room : Nat} {e r : Value} {m m₁ : Machine}
    (h : step (visitWithin room) e (inside e m) = (.ok r, m₁)) :
    ∃ m', visitWithin (room + 1) e m = (.ok r, m') ∧ m₁.Noted m' := by
  obtain ⟨m', hvisit, hnoted⟩ := visitWithin_succ room e m
  rw [h] at hvisit hnoted
  exact ⟨m', hvisit, hnoted⟩

end Evaluation

end CurryLisp
