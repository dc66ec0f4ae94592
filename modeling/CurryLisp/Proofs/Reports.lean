import CurryLisp.Proofs.Surroundings

/-!
# Reports do not change evaluation

Tracing and the other notes of a machine are for its reader. Two machines that differ only in what they
report evaluate every expression to the same value or error, print the same and stay the same in all
other respects, also where the program itself changes what is reported.

Statement:

* `Session.evaluateAll_reporting`: the outcome of a session does not depend on what is reported.
-/

namespace CurryLisp

/-- What a machine reports: which notes are asked for, the nesting of the next one, and those that
were made. -/
structure Reports where
  trace : Bool
  printAst : Bool
  showEnv : Bool
  showBuiltins : Bool
  showTypes : Bool
  indent : Nat
  events : List Event

/-- The machine with other reports. -/
def Machine.reporting (r : Reports) (m : Machine) : Machine :=
  { m with
    options := { m.options with
      trace := r.trace
      printAst := r.printAst
      showEnv := r.showEnv
      showBuiltins := r.showBuiltins
      showTypes := r.showTypes }
    indent := r.indent
    events := r.events }

/-- Surroundings in which runs share all frames and functions and may report differently. -/
def Surroundings.reporting (hosts : Array HostFunction) : Surroundings where
  below := []
  below' := []
  reports := False
  changes := False
  ok := fun _ => True
  hosts
  blind := .inl rfl

theorem Machine.alike_reporting (r : Reports) (m : Machine) :
    m.Alike (.reporting m.store.hosts) m.frames.length (m.reporting r) where
  frames := ⟨m.frames, rfl, (List.append_nil _).symm, (List.append_nil _).symm,
    fun _ _ entry _ => .of_forall (fun _ => trivial) entry.2⟩
  top := fun _ => ⟨rfl, rfl⟩
  global := rfl
  level := rfl
  scoping := rfl
  maxDepth := rfl
  depth := rfl
  placeholders := rfl
  store := rfl
  printed := rfl
  reports := False.elim
  changes := False.elim
  globalUses := fun entry _ => .of_forall (fun _ => trivial) entry.2
  storeUses := .of_forall (fun _ => trivial) m.store
  hosts := rfl

/-- Machines that are alike but for reports differ in reports only. -/
theorem Machine.Alike.eq_reporting {hosts : Array HostFunction} {n : Nat} {m m' : Machine}
    (h : m.Alike (.reporting hosts) n m') : ∃ r, m' = m.reporting r := by
  obtain ⟨own, -, hm, hm', -⟩ := h.frames
  refine ⟨⟨m'.options.trace, m'.options.printAst, m'.options.showEnv, m'.options.showBuiltins,
    m'.options.showTypes, m'.indent, m'.events⟩, ?_⟩
  unfold Machine.reporting
  dsimp only
  rw [← h.global, hm.trans hm'.symm, ← h.level, ← h.scoping, ← h.maxDepth, ← h.depth,
    ← h.placeholders, ← h.store, ← h.printed]

namespace Session

variable {hosts : Array HostFunction}

/-- A failure puts back the same in both runs. -/
theorem evaluate_stable (e : Value) :
    Stable (.reporting hosts) (fun _ => True) (evaluate e) := by
  intro n m m' h
  have hvisit : Stable (.reporting hosts) _ (Eval.withLevel .full (Evaluation.visit e)) :=
    Stable.withLevel .full (Stable.visit (.of_forall (fun _ => trivial) e))
  obtain ⟨hsame, halike, -⟩ := hvisit n m m' h
  unfold evaluate
  rcases hm : Eval.withLevel .full (Evaluation.visit e) m with ⟨result, after⟩
  rcases hm' : Eval.withLevel .full (Evaluation.visit e) m' with ⟨result', after'⟩
  rw [hm, hm'] at hsame halike
  obtain rfl : result' = result := hsame
  cases result' with
  | ok value => exact ⟨rfl, halike, fun _ _ => trivial⟩
  | error err =>
    -- Frames are shared by the two runs, so none is left over when the failure puts them back.
    have hdrop : ∀ {p p' q q' : Machine}, p.Alike (.reporting hosts) n p' →
        q.Alike (.reporting hosts) n q' → q.frames.drop (q.frames.length - p.frames.length) = q.frames ∧
          q'.frames.drop (q'.frames.length - p'.frames.length) = q'.frames := by
      intro p p' q q' hp hq
      obtain ⟨own, hown, hp, hp', -⟩ := hp.frames
      obtain ⟨own', hown', hq, hq', -⟩ := hq.frames
      simp [hp, hp', hq, hq', hown, hown', Surroundings.reporting]
    dsimp only
    rw [(hdrop h halike).1, (hdrop h halike).2]
    exact ⟨rfl, { halike with
      level := rfl, scoping := h.scoping, depth := rfl, reports := False.elim,
      changes := False.elim },
      fun _ _ => trivial⟩

/-- Each result is the same, by induction on the expressions. -/
theorem evaluateAll_alike (es : List Value) {n : Nat} {m m' : Machine}
    (h : m.Alike (.reporting hosts) n m') :
    (evaluateAll es m').1 = (evaluateAll es m).1 ∧
      (evaluateAll es m).2.Alike (.reporting hosts) n (evaluateAll es m').2 := by
  induction es generalizing m m' with
  | nil => exact ⟨rfl, h⟩
  | cons e es ih =>
    obtain ⟨hfirst, halike, -⟩ := evaluate_stable e n m m' h
    obtain ⟨hrest, hafter⟩ := ih halike
    refine ⟨?_, hafter⟩
    change (evaluate e m').1 :: (evaluateAll es (evaluate e m').2).1 =
      (evaluate e m).1 :: (evaluateAll es (evaluate e m).2).1
    rw [hfirst, hrest]

/-- **Reports do not change evaluation.** Whatever two machines report, the same expressions have the
same results in turn, values or errors, and the machines differ again in their reports only. -/
theorem evaluateAll_reporting (es : List Value) (r : Reports) (m : Machine) :
    ∃ r', evaluateAll es (m.reporting r) =
      ((evaluateAll es m).1, (evaluateAll es m).2.reporting r') := by
  obtain ⟨hsame, hafter⟩ := evaluateAll_alike es (m.alike_reporting r)
  obtain ⟨r', hr'⟩ := hafter.eq_reporting
  exact ⟨r', Prod.ext hsame hr'⟩

end Session

end CurryLisp
