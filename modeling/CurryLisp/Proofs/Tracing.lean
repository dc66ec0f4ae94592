import CurryLisp.Proofs.StackDiscipline
import CurryLisp.Proofs.Notes

/-!
# The trace

With the trace on, each step notes where it begins and how it ends, one level deeper than the step it is
nested in. Nothing but steps adds to the trace, and a step that begins also ends, whichever of its parts
fails; so the trace of an evaluation is balanced like brackets (`Event.Nested`), and its nesting is that
of the steps themselves (`Traced`).

An evaluation may turn the trace off. What it has done to an option is noted, so
`.optionChanged "trace" false ∉ new` says that it has not.

Statements:

* `Machine.Traces.discipline`: between two states of a computation there are whole steps only, as far as
  the trace goes.
* `Machine.Traces.visitWithin`: also where the computation is a step.
* `Traced.nested`, `Traced.at_enter`: such a trace is balanced, and between the beginning and the end of
  a step it lists the steps inside.
* `Session.evaluate_traced`: **the trace of an evaluation is well nested**.
-/

namespace CurryLisp

open SpecialForm (Visit)

namespace Evaluation

/-! ## Notes on a step that is traced -/

theorem exists_entryNotes {m : Machine} (hm : m.options.trace = true) (e : Value) :
    ∃ noted, (∀ x ∈ noted, Event.source x ≠ .trace) ∧
      entryNotes e m = .enter m.indent (e.write m.store) m.level :: noted := by
  refine ⟨if m.options.printAst then [.node m.indent e.kind] else [], ?_, ?_⟩
  · split <;> simp [Event.source]
  · rw [entryNotes, if_pos hm]
    rfl

theorem exists_exitNotes {m : Machine} (hm : m.options.trace = true)
    (result : Except Error Value) :
    ∃ noted, (∀ x ∈ noted, Event.source x ≠ .trace) ∧
      exitNotes result m = noted ++ [.outcome m.indent m.store result] := by
  refine ⟨if m.options.showEnv then [.environment m.indent (m.active.render m.store
    m.options.showBuiltins m.options.showTypes)] else [], ?_, ?_⟩
  · split <;> simp [Event.source]
  · rw [exitNotes, if_pos hm]

theorem inside_of_observes {m : Machine} (hm : m.options.observes = true) (e : Value) :
    inside e m = { m with
      depth := m.depth + 1
      indent := m.indent + 1
      events := entryNotes e m ++ m.events } :=
  begun_of_observes (m := { m with depth := m.depth + 1 }) hm e

theorem inside_of_not {m : Machine} (hm : m.options.observes = false) (e : Value) :
    inside e m = { m with depth := m.depth + 1 } :=
  begun_of_not (m := { m with depth := m.depth + 1 }) hm e

/-- Where the parts of a step have added `new` to the notes. -/
theorem ended_of_begun {e : Value} {m after : Machine} {new : List Event}
    (result : Except Error Value) (hindent : after.indent = m.indent + 1)
    (hnew : after.events = new ++ (entryNotes e m ++ m.events)) :
    (ended result after).indent = m.indent ∧
      (ended result after).events =
        (exitNotes result { after with indent := m.indent } ++ new ++ entryNotes e m) ++ m.events := by
  have hback : after.indent - 1 = m.indent := by rw [hindent, Nat.add_sub_cancel]
  refine ⟨hback, ?_⟩
  show exitNotes _ _ ++ after.events = _
  rw [hback, hnew]
  simp only [List.append_assoc]

theorem visitWithin_of_observes {m : Machine} (hm : m.options.observes = true) (room : Nat)
    (e : Value) :
    visitWithin (room + 1) e m =
      ((step (visitWithin room) e (inside e m)).1,
        { ended (step (visitWithin room) e (inside e m)).1
            (step (visitWithin room) e (inside e m)).2 with
          depth := (step (visitWithin room) e (inside e m)).2.depth - 1 }) := by
  rw [visitWithin, nested_eq, Eval.bracket_apply,
    observed_of_observes (m := { m with depth := m.depth + 1 }) hm]
  rfl

theorem visitWithin_of_not {m : Machine} (hm : m.options.observes = false) (room : Nat) (e : Value) :
    visitWithin (room + 1) e m =
      ((step (visitWithin room) e (inside e m)).1,
        { (step (visitWithin room) e (inside e m)).2 with
          depth := (step (visitWithin room) e (inside e m)).2.depth - 1 }) := by
  rw [visitWithin, nested_eq, Eval.bracket_apply,
    observed_of_not (m := { m with depth := m.depth + 1 }) hm, inside_of_not hm]

end Evaluation

/-! ## Balanced traces -/

/-- The nesting of the step that an event belongs to. -/
def Event.nesting : Event → Nat
  | node indent _ | enter indent .. | leave indent _ | raise indent _ | environment indent _ => indent
  | _ => 0

/-- An event that ends a step at this indentation. -/
inductive Event.Ends (indent : Nat) : Event → Prop
  | leave (written : String) : Ends indent (.leave indent written)
  | raise (e : Error) : Ends indent (.raise indent e)

theorem Event.ends_outcome (indent : Nat) (s : Store) (result : Except Error Value) :
    Ends indent (outcome indent s result) := by
  cases result with
  | ok value => exact .leave _
  | error e => exact .raise e

theorem Event.Ends.nesting_eq {indent : Nat} {x : Event} (h : x.Ends indent) : x.nesting = indent := by
  cases h <;> rfl

/-- A balanced trace: at this indentation steps begin and end in turn, each before the next begins, and
what is traced in between is balanced one level deeper. -/
inductive Event.Nested : Nat → List Event → Prop
  | nil (indent : Nat) : Nested indent []
  | step {indent : Nat} {written : String} {level : Level} {inner rest : List Event} {ending : Event}
    (hinner : Nested (indent + 1) inner) (hending : ending.Ends indent)
    (hrest : Nested indent rest) :
    Nested indent (.enter indent written level :: (inner ++ ending :: rest))

namespace Event.Nested

variable {indent : Nat} {trace trace' : List Event}

theorem append (h : Nested indent trace) (h' : Nested indent trace') :
    Nested indent (trace ++ trace') := by
  induction h with
  | nil => exact h'
  | step hinner hending _ _ ih =>
    rw [List.cons_append, List.append_assoc, List.cons_append]
    exact .step hinner hending (ih h')

theorem single {inner : List Event} {ending : Event} (hinner : Nested (indent + 1) inner)
    (hending : ending.Ends indent) (written : String) (level : Level) :
    Nested indent (.enter indent written level :: (inner ++ [ending])) :=
  .step hinner hending (.nil indent)

theorem le_nesting (h : Nested indent trace) : ∀ x ∈ trace, indent ≤ x.nesting := by
  induction h with
  | nil => simp
  | step _ hending _ ihInner ihRest =>
    intro x hx
    rcases List.mem_cons.1 hx with rfl | hx
    · exact Nat.le_refl _
    rcases List.mem_append.1 hx with hx | hx
    · exact Nat.le_of_succ_le (ihInner x hx)
    rcases List.mem_cons.1 hx with rfl | hx
    · exact Nat.le_of_eq hending.nesting_eq.symm
    · exact ihRest x hx

end Event.Nested

/-! ## Traced runs -/

/-- The events of the trace among notes that are newest first; they are listed oldest first. -/
def Event.traced (events : List Event) : List Event :=
  (events.filter fun x => x.source = .trace).reverse

theorem Event.traced_append (later earlier : List Event) :
    traced (later ++ earlier) = traced earlier ++ traced later := by
  simp [traced]

theorem Event.traced_cons {x : Event} (hx : x.source = .trace) (events : List Event) :
    traced (x :: events) = traced events ++ [x] := by
  simp [traced, hx]

theorem Event.traced_cons_of_ne {x : Event} (hx : x.source ≠ .trace) (events : List Event) :
    traced (x :: events) = traced events := by
  simp [traced, hx]

theorem Event.traced_of_silent {events : List Event} (h : ∀ x ∈ events, x.source ≠ .trace) :
    traced events = [] := by
  simpa [traced] using h

/-- What is noted between `before` and `after` are whole steps at this indentation, and notes that are
not of the trace. `trace` lists what the trace says of the steps: where each begins, what it says of the
steps inside, which are one deeper, and how the step ends. -/
inductive Traced : Nat → List Event → List Event → List Event → Prop
  | none (indent : Nat) (before : List Event) : Traced indent before before []
  | note {indent : Nat} {before after trace : List Event} (h : Traced indent before after trace)
    {x : Event} (hx : x.source ≠ .trace) : Traced indent before (x :: after) trace
  | step {before trace middle inner : List Event} {room : Nat} {e : Value} {m m' : Machine}
    {result : Except Error Value} {noted noted' : List Event}
    (hbefore : Traced m.indent before m.events trace)
    (hvisit : Evaluation.visitWithin (room + 1) e m = (result, m'))
    (hnoted : ∀ x ∈ noted, x.source ≠ .trace)
    (hinner : Traced (m.indent + 1)
      (.enter m.indent (e.write m.store) m.level :: (noted ++ m.events)) middle inner)
    (hnoted' : ∀ x ∈ noted', x.source ≠ .trace)
    (hafter : m'.events = noted' ++ .outcome m.indent m'.store result :: middle) :
    Traced m.indent before m'.events (trace ++ .enter m.indent (e.write m.store) m.level ::
      (inner ++ [.outcome m.indent m'.store result]))

namespace Traced

variable {indent : Nat} {before middle after trace trace' : List Event}

theorem trans (h : Traced indent before middle trace) (h' : Traced indent middle after trace') :
    Traced indent before after (trace ++ trace') := by
  induction h' with
  | none => rwa [List.append_nil]
  | note _ hx ih => exact (ih h).note hx
  | step _ hvisit hnoted hinner hnoted' hafter ih =>
    rw [← List.append_assoc]
    exact .step (ih h) hvisit hnoted hinner hnoted' hafter

/-- The trace is what the trace says between the two. -/
theorem traced_eq (h : Traced indent before after trace) :
    Event.traced after = Event.traced before ++ trace := by
  induction h with
  | none => exact (List.append_nil _).symm
  | note _ hx ih => rw [Event.traced_cons_of_ne hx, ih]
  | step _ _ hnoted _ hnoted' hafter ih ihInner =>
    rw [hafter, Event.traced_append, Event.traced_of_silent hnoted', List.append_nil,
      Event.traced_cons (Event.source_outcome ..), ihInner, Event.traced_cons rfl,
      Event.traced_append, Event.traced_of_silent hnoted, ih]
    simp

theorem nested (h : Traced indent before after trace) : Event.Nested indent trace := by
  induction h with
  | none => exact .nil _
  | note _ _ ih => exact ih
  | step _ _ _ _ _ _ ih ihInner => exact ih.append (ihInner.single (Event.ends_outcome ..) _ _)

end Traced

/-- After a trace that said `told` there was a step. The trace said that it began, then `inner` of the
steps inside it, and then, with `ending`, its value or its error. -/
structure Evaluation.TracedStep (told : List Event) (indent : Nat) (written : String) (level : Level)
    (inner : List Event) (ending : Event) : Prop where
  nested : Event.Nested (indent + 1) inner
  deeper : ∀ x ∈ inner, indent < x.nesting
  ran : ∃ room e m m' result, Evaluation.visitWithin (room + 1) e m = (result, m') ∧
    m.indent = indent ∧ e.write m.store = written ∧ m.level = level ∧
    ending = .outcome indent m'.store result ∧ Event.traced m.events = told ∧
    Event.traced m'.events = told ++ .enter indent written level :: (inner ++ [ending])

namespace Traced

variable {before after trace : List Event}

/-- A step begins in one of two traces, one after the other. -/
theorem enter_mem_append {x : Event} {a b c d : List Event} (h : a ++ b = c ++ x :: d) :
    (∃ a', a = c ++ x :: a' ∧ d = a' ++ b) ∨ ∃ c', c = a ++ c' ∧ b = c' ++ x :: d := by
  rcases List.append_eq_append_iff.1 h with ⟨c', hc, hb⟩ | ⟨a', ha, hd⟩
  · exact .inr ⟨c', hc, hb⟩
  · cases a' with
    | nil => exact .inr ⟨[], by simpa using ha.symm, hd.symm⟩
    | cons y a' =>
      obtain ⟨rfl, rfl⟩ := List.cons.inj hd
      exact .inl ⟨a', ha, rfl⟩

/-- Wherever a step begins in the trace, what comes next is its trace up to its end. -/
theorem at_enter {indent : Nat} (h : Traced indent before after trace) :
    ∀ {earlier later : List Event} {depth : Nat} {written : String} {level : Level},
      trace = earlier ++ .enter depth written level :: later →
      ∃ inner ending rest, later = inner ++ ending :: rest ∧
        Evaluation.TracedStep (Event.traced before ++ earlier) depth written level inner ending := by
  induction h with
  | none =>
    intro earlier later depth written level htrace
    simp at htrace
  | note _ _ ih => exact ih
  | @step before trace middle inner room e m m' result noted noted' hbefore hvisit hnoted hinner
      hnoted' hafter ih ihInner =>
    intro earlier later depth written level htrace
    have htraced := (Traced.none m.indent m.events).step hvisit hnoted hinner hnoted' hafter
    -- The entry stands before the last step, begins it, or stands inside of it; it is not its end.
    rcases enter_mem_append htrace with ⟨trace', hearlier, rfl⟩ | ⟨earlier', rfl, hhere⟩
    · obtain ⟨inner', ending, rest, rfl, hstep⟩ := ih hearlier
      exact ⟨inner', ending, _, by rw [List.append_assoc, List.cons_append], hstep⟩
    cases earlier' with
    | nil =>
      obtain ⟨hentry, rfl⟩ := List.cons.inj hhere
      obtain ⟨rfl, rfl, rfl⟩ := Event.enter.inj hentry
      refine ⟨inner, _, [], rfl, hinner.nested, hinner.nested.le_nesting, room, e, m, m', result,
        hvisit, rfl, rfl, rfl, rfl, ?_, ?_⟩
      · rw [hbefore.traced_eq, List.append_nil]
      · rw [htraced.traced_eq, hbefore.traced_eq, List.append_nil]
        rfl
    | cons y earlier' =>
      obtain ⟨rfl, hrest⟩ := List.cons.inj ((List.cons_append ..) ▸ hhere)
      rcases enter_mem_append hrest with ⟨inner', hinside, rfl⟩ | ⟨earlier'', -, hending⟩
      · obtain ⟨inner₁, ending, rest, rfl, hstep⟩ := ihInner hinside
        refine ⟨inner₁, ending, _, by rw [List.append_assoc, List.cons_append], ?_⟩
        rw [Event.traced_cons rfl, Event.traced_append, Event.traced_of_silent hnoted,
          List.append_nil, hbefore.traced_eq] at hstep
        simpa only [List.append_assoc, List.cons_append, List.nil_append] using hstep
      · cases earlier'' with
        | nil => cases result <;> cases hending
        | cons y earlier'' => simp at hending

end Traced

/-- From `m` to `m'` whole steps are noted, if the trace was on and nothing has turned it off. -/
structure Machine.Traces (m m' : Machine) : Prop where
  indent : m'.indent = m.indent
  events : ∃ new, m'.events = new ++ m.events ∧
    (.optionChanged "trace" false ∉ new → m.options.trace = true →
      m'.options.trace = true ∧ ∃ trace, Traced m.indent m.events m'.events trace)

namespace Machine.Traces

variable {m m₁ m₂ : Machine}

theorem refl (m : Machine) : Traces m m :=
  ⟨rfl, [], rfl, fun _ htrace => ⟨htrace, [], .none _ _⟩⟩

theorem trans (h : Traces m m₁) (h' : Traces m₁ m₂) : Traces m m₂ := by
  obtain ⟨hindent, new, hnew, hon⟩ := h
  obtain ⟨hindent', new', hnew', hon'⟩ := h'
  refine ⟨hindent'.trans hindent, new' ++ new, by rw [hnew', hnew, List.append_assoc], ?_⟩
  intro hkept htrace
  simp only [List.mem_append, not_or] at hkept
  obtain ⟨htrace₁, trace, htraced⟩ := hon hkept.2 htrace
  obtain ⟨htrace₂, trace', htraced'⟩ := hon' hkept.1 htrace₁
  rw [hindent] at htraced'
  exact ⟨htrace₂, trace ++ trace', htraced.trans htraced'⟩

/-- Nothing is noted. -/
theorem silent (hindent : m₁.indent = m.indent) (hevents : m₁.events = m.events)
    (hoptions : m₁.options = m.options) : Traces m m₁ :=
  ⟨hindent, [], hevents, fun _ htrace => by
    rw [hoptions, hevents]
    exact ⟨htrace, [], .none _ _⟩⟩

/-- One note that is not of a step. -/
theorem noted {x : Event} (hx : x.source ≠ .trace) (hindent : m₁.indent = m.indent)
    (hevents : m₁.events = x :: m.events)
    (hoptions : x ≠ .optionChanged "trace" false → m.options.trace = true →
      m₁.options.trace = true) :
    Traces m m₁ := by
  refine ⟨hindent, [x], hevents, fun hkept htrace => ⟨hoptions ?_ htrace, [], ?_⟩⟩
  · rintro rfl
    exact hkept (List.mem_singleton.2 rfl)
  · rw [hevents]
    exact (Traced.none _ _).note hx

/-- An option that is set leaves the trace on, unless it is the trace that is turned off. -/
theorem trace_of_set {o o' : Options} {name : String} {enabled : Bool}
    (h : o.set name enabled = .ok o')
    (hkept : Event.optionChanged name enabled ≠ .optionChanged "trace" false)
    (htrace : o.trace = true) : o'.trace = true := by
  unfold Options.set at h
  by_cases hname : name = "trace"
  · subst hname
    cases enabled with
    | true =>
      cases h
      rfl
    | false => exact absurd rfl hkept
  · rw [if_neg hname] at h
    repeat' split at h
    all_goals first | (cases h; exact htrace) | cases h

theorem discipline : Discipline Traces where
  refl := refl
  trans := trans
  grow _ := silent rfl rfl rfl
  define m f := by
    unfold Machine.updateActive
    split <;> exact silent rfl rfl rfl
  setOption hset := noted (by simp [Event.source]) rfl rfl (trace_of_set hset)
  note m x hx := by
    refine noted (fun hsource => ?_) rfl rfl fun _ htrace => htrace
    simp [Event.isStep, hsource] at hx
  print _ _ := silent rfl rfl rfl
  count _ _ := silent rfl rfl rfl
  level h := ⟨h.indent, h.events⟩
  scope h := ⟨h.indent, h.events⟩

/-- A step that begins while the trace is on begins and ends the trace of its parts. -/
theorem of_step {room : Nat} (hparts : ∀ e, Along Traces (Evaluation.visitWithin room e)) {e : Value}
    {m m' : Machine} {result : Except Error Value} (htrace : m.options.trace = true)
    (hvisit : Evaluation.visitWithin (room + 1) e m = (result, m')) :
    m'.indent = m.indent ∧ ∃ new, m'.events = new ++ m.events ∧
      (.optionChanged "trace" false ∉ new → m'.options.trace = true ∧ ∃ begun after inner,
        Traced (m.indent + 1) begun after inner ∧
        Traced m.indent m.events m'.events (.enter m.indent (e.write m.store) m.level ::
          (inner ++ [.outcome m.indent m'.store result]))) := by
  -- Between the two notes on the step stand those of its parts, for which this holds by `hparts`.
  have hobserves : m.options.observes = true := by simp [Options.observes, htrace]
  have hsucc := Evaluation.visitWithin_of_observes hobserves room e
  have hstep := discipline.closed.step hparts e (Evaluation.inside e m)
  rcases hrun : Evaluation.step (Evaluation.visitWithin room) e (Evaluation.inside e m) with
    ⟨result', after⟩
  rw [hrun] at hsucc hstep
  obtain ⟨rfl, rfl⟩ := Prod.mk.inj (hvisit.symm.trans hsucc)
  obtain ⟨hindent, new, hnew, hon⟩ := hstep
  rw [Evaluation.inside_of_observes hobserves] at hindent hnew hon
  obtain ⟨hback, hevents⟩ := Evaluation.ended_of_begun result hindent hnew
  refine ⟨hback, _, hevents, fun hkept => ?_⟩
  have hkept : .optionChanged "trace" false ∉ new := fun hmem =>
    hkept (List.mem_append_left _ (List.mem_append_right _ hmem))
  obtain ⟨htrace', inner, hinner⟩ := hon hkept htrace
  have hinner : Traced (m.indent + 1) (Evaluation.entryNotes e m ++ m.events) after.events inner :=
    hinner
  obtain ⟨noted, hnoted, hentry⟩ := Evaluation.exists_entryNotes htrace e
  obtain ⟨noted', hnoted', hexit⟩ := Evaluation.exists_exitNotes
    (m := { after with indent := m.indent }) htrace' result
  rw [hentry, List.cons_append] at hinner
  refine ⟨htrace', _, _, inner, hinner, .step (.none _ _) hvisit hnoted hinner hnoted' ?_⟩
  show (Evaluation.ended result after).events = _
  rw [hevents, hexit, List.append_assoc, List.append_assoc, ← hnew, List.append_assoc]
  rfl

/-- A step that begins while the trace is off adds to the notes. -/
theorem of_step_not_traced {room : Nat}
    (hparts : ∀ e, Along Traces (Evaluation.visitWithin room e)) (e : Value) {m : Machine}
    (htrace : m.options.trace = false) : Traces m (Evaluation.visitWithin (room + 1) e m).2 := by
  have hoff : m.options.trace ≠ true := by rw [htrace]; exact Bool.false_ne_true
  have hstep := discipline.closed.step hparts e (Evaluation.inside e m)
  rcases hrun : Evaluation.step (Evaluation.visitWithin room) e (Evaluation.inside e m) with
    ⟨result, after⟩
  rw [hrun] at hstep
  obtain ⟨hindent, new, hnew, -⟩ := hstep
  cases hobserves : m.options.observes with
  | true =>
    rw [Evaluation.visitWithin_of_observes hobserves, hrun]
    rw [Evaluation.inside_of_observes hobserves] at hindent hnew
    obtain ⟨hback, hevents⟩ := Evaluation.ended_of_begun result hindent hnew
    exact ⟨hback, _, hevents, fun _ hon => absurd hon hoff⟩
  | false =>
    rw [Evaluation.visitWithin_of_not hobserves, hrun]
    rw [Evaluation.inside_of_not hobserves] at hindent hnew
    exact ⟨hindent, new, hnew, fun _ hon => absurd hon hoff⟩

/-- **The trace of a step consists of whole steps**, whether it fails or not. -/
theorem visitWithin (room : Nat) (e : Value) : Along Traces (Evaluation.visitWithin room e) := by
  induction room generalizing e with
  | zero => exact Along.bind discipline (Along.get discipline) fun m => Along.throw discipline _
  | succ room ih =>
    intro m
    cases htrace : m.options.trace with
    | true =>
      obtain ⟨hindent, new, hnew, hon⟩ := of_step ih htrace (e := e) rfl
      refine ⟨hindent, new, hnew, fun hkept _ => ?_⟩
      obtain ⟨htrace', _, _, _, -, htraced⟩ := hon hkept
      exact ⟨htrace', _, htraced⟩
    | false => exact of_step_not_traced ih e htrace

end Machine.Traces

namespace Session

/-- An evaluation is a step, and its failure is noted on top of the trace. -/
theorem evaluate_step {m : Machine} (hm : m.TopLevel) (hdepth : 0 < m.options.maxDepth) (e : Value) :
    ∃ room after noted, Evaluation.visitWithin (room + 1) e m = ((evaluate e m).1, after) ∧
      (evaluate e m).2.store = after.store ∧ (evaluate e m).2.events = noted ++ after.events ∧
      ∀ x ∈ noted, Event.source x = .evaluator := by
  have hroom : Evaluation.room m = m.options.maxDepth - 1 + 1 := by
    rw [Evaluation.room, hm.depth]
    omega
  have hlevel : m.atLevel .full = m := by
    rw [← hm.level]
    rfl
  rw [evaluate_eq, hroom, hlevel]
  rcases hrun : Evaluation.visitWithin (m.options.maxDepth - 1 + 1) e m with ⟨_ | _, after⟩
  · refine ⟨_, after, [.abandoned _], hrun, rfl, rfl, ?_⟩
    simp [Event.source]
  · exact ⟨_, after, [], hrun, rfl, rfl, by simp⟩

/-- **The trace of an evaluation is well nested.** If the trace is on and nothing turns it off, then what
the trace says of an evaluation is balanced, and wherever it says that a step begins, it goes on with the
steps inside, all of them deeper, and then with the value or the error of this very step. It begins with
the expression and ends with the result of the evaluation, be it a value or an error. -/
theorem evaluate_traced {m : Machine} (hm : m.TopLevel) (hdepth : 0 < m.options.maxDepth)
    (htrace : m.options.trace = true) (e : Value) :
    ∃ new, (evaluate e m).2.events = new ++ m.events ∧
      (.optionChanged "trace" false ∉ new →
        Event.Nested 0 (Event.traced new) ∧
        (∀ earlier later indent written level,
          Event.traced new = earlier ++ .enter indent written level :: later →
          ∃ inner ending rest, later = inner ++ ending :: rest ∧
            Evaluation.TracedStep (Event.traced m.events ++ earlier) indent written level inner
              ending) ∧
        ∃ inner, (∀ x ∈ inner, 0 < x.nesting) ∧
          Event.traced new = .enter 0 (e.write m.store) .full ::
            (inner ++ [.outcome 0 (evaluate e m).2.store (evaluate e m).1])) := by
  obtain ⟨room, after, noted, hvisit, hstore, hevents, hnoted⟩ := evaluate_step hm hdepth e
  obtain ⟨-, new, hnew, hon⟩ :=
    Machine.Traces.of_step (Machine.Traces.visitWithin room) htrace hvisit
  refine ⟨noted ++ new, by rw [hevents, hnew, List.append_assoc], fun hkept => ?_⟩
  have hkept : .optionChanged "trace" false ∉ new := fun hmem =>
    hkept (List.mem_append_right _ hmem)
  obtain ⟨-, _, _, inner, hinner, htraced⟩ := hon hkept
  -- What is noted after the last step is no part of the trace.
  have hsilent : ∀ x ∈ noted, x.source ≠ .trace := fun x hx => by
    rw [hnoted x hx]
    exact Event.Source.noConfusion
  have hsame : Event.traced (noted ++ new) = .enter m.indent (e.write m.store) m.level ::
      (inner ++ [.outcome m.indent after.store (evaluate e m).1]) := by
    have htold := htraced.traced_eq
    rw [hnew, Event.traced_append, List.append_cancel_left_eq] at htold
    rw [Event.traced_append, Event.traced_of_silent hsilent, List.append_nil, htold]
  rw [hsame, hstore]
  refine ⟨hm.indent ▸ htraced.nested, ?_, inner, ?_, by rw [hm.indent, hm.level]⟩
  · intro earlier later indent written level hhere
    exact htraced.at_enter hhere
  · have hdeeper := hinner.nested.le_nesting
    rw [hm.indent] at hdeeper
    exact hdeeper

/-- The head of an application is looked at in a second step, which fails and with which the first
fails. -/
theorem evaluate_traced_unbound :
    (Machine.start .initial { trace := true } {}).TopLevel ∧
    0 < (Machine.start .initial { trace := true } {}).options.maxDepth ∧
    (Machine.start .initial { trace := true } {}).options.trace = true ∧
    ∃ new, (evaluate (.pair 0 (.symbol "f") .nil)
        (Machine.start .initial { trace := true } {})).2.events = new ∧
      .optionChanged "trace" false ∉ new ∧ Event.Nested 0 (Event.traced new) ∧
      Event.traced new = [.enter 0 "(f)" .full, .enter 1 "f" .full, .raise 1 (.unboundSymbol "f"),
        .raise 0 (.unboundSymbol "f")] := by
  have htop : (Machine.start .initial { trace := true } {}).TopLevel := ⟨rfl, rfl, rfl⟩
  obtain ⟨new, hnew, htraced⟩ := evaluate_traced htop (by decide) rfl (.pair 0 (.symbol "f") .nil)
  have hnotes : new = [.abandoned (.unboundSymbol "f"), .raise 0 (.unboundSymbol "f"),
      .raise 1 (.unboundSymbol "f"), .enter 1 "f" .full, .enter 0 "(f)" .full] := by
    rw [← List.append_nil new]
    exact hnew.symm
  have hkept : .optionChanged "trace" false ∉ new := by
    rw [hnotes]
    simp
  refine ⟨htop, by decide, rfl, new, hnew.trans (List.append_nil new), hkept, (htraced hkept).1, ?_⟩
  rw [hnotes]
  rfl

end Session

end CurryLisp
