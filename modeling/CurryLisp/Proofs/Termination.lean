import CurryLisp.Proofs.DepthLimit

/-!
# Every evaluation ends

The evaluation of an expression is a tree of steps: a step asks for the values of finitely many other
expressions, each in a step of its own that is nested in it. `Finishes` builds that tree from below,
without a bound on its height: whether a step is refused is decided by the nesting and the limit that
the machine has when the step begins. Inside of one step nothing is unbounded, since applications are
continued by applications to smaller arguments.

Statements:

* `Evaluation.visit_eq`: an evaluation is a step whose parts are evaluations, refused at the limit,
* `Evaluation.visit_finishes`: every evaluation has a finite tree,
* `Finishes.nesting_le`: no tree is higher than the limit on nesting leaves room for,
* `Finishes.outcome_eq`: the outcome at the root of a tree is the only one,
* `Session.evaluate_finishes`: every evaluation of an expression from outside ends, after finitely many
  steps of which never more than the limit are nested.
-/

namespace CurryLisp

open SpecialForm (Visit)

/-! ## What a dialogue asks for -/

namespace Dialogue

variable {α : Type}

/-- The expressions that are asked for when `visit` answers, each with the machine it is asked in. -/
def asked (visit : Visit) : Dialogue α → Nat → Nat → List (Value × Machine)
  | ends _ _, _, _ => []
  | asks e m _ next, depth, limit =>
    (e, m.bounded depth limit) ::
      match visit e (m.bounded depth limit) with
      | (.ok v, m') => (next v m'.unbounded).asked visit m'.depth m'.options.maxDepth
      | (.error _, _) => []

/-- Only the answers that are asked for matter. -/
theorem run_congr {visit visit' : Visit} (d : Dialogue α) (depth limit : Nat)
    (h : ∀ q ∈ d.asked visit depth limit, visit' q.1 q.2 = visit q.1 q.2) :
    d.run visit' depth limit = d.run visit depth limit := by
  induction d generalizing depth limit with
  | ends result m => rfl
  | asks e m restore next ih =>
    simp only [asked, List.mem_cons, forall_eq_or_imp] at h
    obtain ⟨hfirst, hrest⟩ := h
    simp only [run, hfirst]
    rcases hanswer : visit e (m.bounded depth limit) with ⟨err | v, m'⟩
    · rfl
    · rw [hanswer] at hrest
      exact ih v m'.unbounded m'.depth m'.options.maxDepth hrest

/-- Everything is asked for at the same nesting and below the same limit. -/
theorem bounds_of_mem_asked {visit : Visit} (hv : KeepsBounds visit) (d : Dialogue α)
    (depth limit : Nat) {q : Value × Machine} (hq : q ∈ d.asked visit depth limit) :
    q.2.depth = depth ∧ q.2.options.maxDepth = limit := by
  induction d generalizing depth limit with
  | ends result m => cases hq
  | asks e m restore next ih =>
    simp only [asked, List.mem_cons] at hq
    rcases hq with rfl | hq
    · exact ⟨rfl, rfl⟩
    · obtain ⟨hdepth, hlimit⟩ := hv e (m.bounded depth limit)
      rcases hanswer : visit e (m.bounded depth limit) with ⟨err | v, m'⟩
      · rw [hanswer] at hq
        cases hq
      · rw [hanswer] at hq hdepth hlimit
        obtain ⟨hdepth', hlimit'⟩ := ih v m'.unbounded m'.depth m'.options.maxDepth hq
        exact ⟨hdepth'.trans hdepth, hlimit'.trans hlimit⟩

end Dialogue

/-! ## The recursion of an evaluation -/

namespace Evaluation

/-- The machine in which a nested step begins. -/
def deeper (m : Machine) : Machine := { m with depth := m.depth + 1 }

/-- One step, with its parts evaluated by `visit`. -/
def stepOnce (visit : Visit) (e : Value) (m : Machine) : Except Error Value × Machine :=
  outside (observed e (step visit e) (deeper m))

theorem visitWithin_succ_eq (room : Nat) (e : Value) (m : Machine) :
    visitWithin (room + 1) e m = stepOnce (visitWithin room) e m := by
  rw [visitWithin, nested_eq, Eval.bracket_apply]
  rfl

/-- A step asks for finitely many values; all that is known of `visit` elsewhere does not matter. -/
theorem stepOnce_congr {visit : Visit} (hv : KeepsBounds visit) (e : Value) (m : Machine) :
    ∃ asked : List (Value × Machine),
      (∀ q ∈ asked, q.2.depth = m.depth + 1 ∧ q.2.options.maxDepth = m.options.maxDepth) ∧
      ∀ visit' : Visit, (∀ q ∈ asked, visit' q.1 q.2 = visit q.1 q.2) →
        stepOnce visit' e m = stepOnce visit e m := by
  obtain ⟨d, hd⟩ := exists_dialogue e m
  have hstep : ∀ visit, stepOnce visit e m =
      outside (d.run visit (m.depth + 1) m.options.maxDepth) := fun visit => by
    rw [← hd]
    rfl
  refine ⟨d.asked visit (m.depth + 1) m.options.maxDepth, fun q hq => ?_, fun visit' hsame => ?_⟩
  · exact d.bounds_of_mem_asked hv _ _ hq
  · rw [hstep, hstep, d.run_congr _ _ hsame]

/-- At the limit a step is refused. -/
theorem visit_refused {e : Value} {m : Machine} (h : m.options.maxDepth ≤ m.depth) :
    visit e m = (.error (.depthExceeded m.options.maxDepth), m) := by
  change visitWithin (m.options.maxDepth - m.depth) e m = _
  rw [Nat.sub_eq_zero_of_le h]
  rfl

/-- Below the limit a step runs, and its parts are evaluations. -/
theorem visit_stepOnce {e : Value} {m : Machine} (h : m.depth < m.options.maxDepth) :
    visit e m = stepOnce visit e m := by
  obtain ⟨room, hroom⟩ := Nat.exists_eq_add_of_lt h
  have hvisit : visit e m = visitWithin (room + 1) e m := by
    change visitWithin (m.options.maxDepth - m.depth) e m = _
    congr 1
    omega
  obtain ⟨asked, hbounds, hcongr⟩ := stepOnce_congr (visitWithin_bounds room) e m
  rw [hvisit, visitWithin_succ_eq]
  refine (hcongr visit fun q hq => ?_).symm
  obtain ⟨hdepth, hlimit⟩ := hbounds q hq
  change visitWithin (q.2.options.maxDepth - q.2.depth) q.1 q.2 = _
  congr 1
  omega

/-- **The recursion of an evaluation**: a step is refused at the limit, and otherwise it evaluates its
parts in the same way, one level deeper. -/
theorem visit_eq (e : Value) (m : Machine) :
    visit e m =
      if m.options.maxDepth ≤ m.depth then (.error (.depthExceeded m.options.maxDepth), m)
      else stepOnce visit e m := by
  split
  · next h => exact visit_refused h
  · next h => exact visit_stepOnce (Nat.lt_of_not_le h)

/-- An evaluation keeps nesting and limit. -/
theorem visit_bounds : KeepsBounds visit := fun e m => visitWithin_bounds (room m) e m

end Evaluation

/-! ## Trees of steps -/

/-- A part of a step: the expression, the machine before it, what came of it, and the size and height
of the tree below. -/
structure Part where
  e : Value
  before : Machine
  outcome : Except Error Value × Machine
  steps : Nat
  nesting : Nat

namespace Part

/-- Steps in the trees of all parts. -/
def totalSteps : List Part → Nat
  | [] => 0
  | p :: ps => p.steps + totalSteps ps

/-- Steps that are nested in the highest tree. -/
def highest : List Part → Nat
  | [] => 0
  | p :: ps => Nat.max p.nesting (highest ps)

theorem highest_le {ps : List Part} {n : Nat} (h : ∀ p ∈ ps, p.nesting ≤ n) : highest ps ≤ n := by
  induction ps with
  | nil => exact Nat.zero_le n
  | cons p ps ih =>
    obtain ⟨hp, hps⟩ := List.forall_mem_cons.1 h
    exact Nat.max_le.2 ⟨hp, ih hps⟩

end Part

/-- The evaluation of an expression in a machine has this outcome, by a tree of so many steps of which
so many are nested. -/
inductive Finishes : Value → Machine → Except Error Value × Machine → Nat → Nat → Prop where
  /-- At the limit a step is refused. -/
  | refused {e : Value} {m : Machine} (hlimit : m.options.maxDepth ≤ m.depth) :
    Finishes e m (.error (.depthExceeded m.options.maxDepth), m) 1 0
  /-- A step has finitely many parts that finish, one level deeper and below the same limit, and what
  comes of them decides what comes of the step. -/
  | step {e : Value} {m : Machine} {outcome : Except Error Value × Machine} (parts : List Part)
    (hlimit : m.depth < m.options.maxDepth)
    (hbounds : ∀ p ∈ parts,
      p.before.depth = m.depth + 1 ∧ p.before.options.maxDepth = m.options.maxDepth)
    (hparts : ∀ p ∈ parts, Finishes p.e p.before p.outcome p.steps p.nesting)
    (houtcome : ∀ visit : Visit, (∀ p ∈ parts, visit p.e p.before = p.outcome) →
      Evaluation.stepOnce visit e m = outcome) :
    Finishes e m outcome (Part.totalSteps parts + 1) (Part.highest parts + 1)

namespace Finishes

variable {e : Value} {m : Machine} {outcome : Except Error Value × Machine} {steps nesting : Nat}

/-- No more steps are nested than the limit leaves room for. -/
theorem nesting_le (h : Finishes e m outcome steps nesting) :
    nesting ≤ m.options.maxDepth - m.depth := by
  induction h with
  | refused hlimit => exact Nat.zero_le _
  | @step e m outcome parts hlimit hbounds _ _ ih =>
    have hhighest : Part.highest parts ≤ m.options.maxDepth - (m.depth + 1) := by
      refine Part.highest_le fun p hp => ?_
      have hroom := ih p hp
      rwa [(hbounds p hp).1, (hbounds p hp).2] at hroom
    omega

/-- The outcome of a tree is that of the evaluation. -/
theorem outcome_eq (h : Finishes e m outcome steps nesting) : outcome = Evaluation.visit e m := by
  induction h with
  | refused hlimit => exact (Evaluation.visit_refused hlimit).symm
  | step parts hlimit _ _ houtcome ih =>
    rw [Evaluation.visit_stepOnce hlimit]
    exact (houtcome Evaluation.visit fun p hp => (ih p hp).symm).symm

end Finishes

/-- **Every evaluation has a finite tree of steps.** -/
theorem Evaluation.visit_finishes (e : Value) (m : Machine) :
    ∃ steps nesting, Finishes e m (visit e m) steps nesting := by
  induction hroom : room m generalizing e m with
  | zero =>
    have hlimit : m.options.maxDepth ≤ m.depth := Nat.le_of_sub_eq_zero hroom
    rw [visit_refused hlimit]
    exact ⟨1, 0, .refused hlimit⟩
  | succ room ih =>
    have hlimit : m.depth < m.options.maxDepth := by
      unfold Evaluation.room at hroom
      omega
    -- The step depends on finitely many evaluations, each with less room: their trees are its parts.
    obtain ⟨asked, hbounds, hcongr⟩ := stepOnce_congr visit_bounds e m
    have hroom : ∀ q ∈ asked, Evaluation.room q.2 = room := fun q hq => by
      obtain ⟨hdepth, hmax⟩ := hbounds q hq
      unfold Evaluation.room at hroom ⊢
      omega
    choose! steps nesting htree using ih
    let parts := asked.map fun q =>
      Part.mk q.1 q.2 (visit q.1 q.2) (steps q.1 q.2) (nesting q.1 q.2)
    refine ⟨_, _, .step parts hlimit ?_ ?_ ?_⟩
    · intro p hp
      obtain ⟨q, hq, rfl⟩ := List.mem_map.1 hp
      exact hbounds q hq
    · intro p hp
      obtain ⟨q, hq, rfl⟩ := List.mem_map.1 hp
      exact htree q.1 q.2 (hroom q hq)
    · intro visit' hanswers
      rw [visit_stepOnce hlimit]
      refine hcongr visit' fun q hq => ?_
      exact hanswers _ (List.mem_map_of_mem hq)

namespace Session

/-- **Every evaluation of an expression ends**, whatever the machine and its limit are: the result is made
of the outcome of a finite tree of steps, of which no more are nested than the limit leaves room for.
There is no other outcome, and no tree that is higher. -/
theorem evaluate_finishes (e : Value) (m : Machine) :
    ∃ outcome steps nesting,
      Finishes e (m.atLevel .full) outcome steps nesting ∧
      nesting ≤ m.options.maxDepth - m.depth ∧
      evaluate e m = concluded m outcome ∧
      ∀ outcome' steps' nesting', Finishes e (m.atLevel .full) outcome' steps' nesting' →
        outcome' = outcome ∧ nesting' ≤ m.options.maxDepth - m.depth := by
  obtain ⟨steps, nesting, htree⟩ := Evaluation.visit_finishes e (m.atLevel .full)
  refine ⟨_, steps, nesting, htree, htree.nesting_le, evaluate_eq e m, ?_⟩
  intro outcome' steps' nesting' htree'
  exact ⟨htree'.outcome_eq, htree'.nesting_le⟩

end Session

end CurryLisp
