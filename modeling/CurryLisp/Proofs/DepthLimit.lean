import CurryLisp.Proofs.Dialogue
import CurryLisp.Proofs.StackDiscipline

/-!
# The limit on nesting

The limit on nested steps decides whether an evaluation is cut off, and nothing else. A step asks the
same questions below every limit, so by induction on the steps that may still be nested, an evaluation
that ends within a limit ends in the same way within any higher one.

Statements:

* `Evaluation.visitWithin_bounds`: an evaluation keeps nesting and limit,
* `Dialogue.run_outlasts`: a dialogue that ends within a limit ends in the same way within a higher one,
  if this is so for the answers to it,
* `Evaluation.apply_outlasts`: so does an application,
* `Session.evaluate_limited`: an evaluation that is not cut off answers the same below a higher limit,
  and leaves the same machine but for the limit.
-/

namespace CurryLisp

open SpecialForm (Visit)

/-- The machine with this limit on nesting. -/
def Machine.limited (limit : Nat) (m : Machine) : Machine := m.bounded m.depth limit

/-! ## Nesting and limit are kept -/

/-- Evaluations by `visit` keep nesting and limit. -/
def KeepsBounds (visit : Visit) : Prop :=
  ∀ e m, (visit e m).2.depth = m.depth ∧ (visit e m).2.options.maxDepth = m.options.maxDepth

/-- A dialogue keeps nesting and limit if the answers to it do. -/
theorem Dialogue.run_bounds {α : Type} {visit : Visit} (hv : KeepsBounds visit) (d : Dialogue α)
    (depth limit : Nat) :
    (d.run visit depth limit).2.depth = depth ∧
      (d.run visit depth limit).2.options.maxDepth = limit := by
  induction d generalizing depth limit with
  | ends result m => exact ⟨rfl, rfl⟩
  | asks e m restore next ih =>
    obtain ⟨hdepth, hlimit⟩ := hv e (m.bounded depth limit)
    simp only [Dialogue.run]
    rcases hanswer : visit e (m.bounded depth limit) with ⟨err | v, m'⟩
    · rw [hanswer] at hdepth hlimit
      exact ⟨hdepth, hlimit⟩
    · rw [hanswer] at hdepth hlimit
      obtain ⟨hdepth', hlimit'⟩ := ih v m'.unbounded m'.depth m'.options.maxDepth
      exact ⟨hdepth'.trans hdepth, hlimit'.trans hlimit⟩

namespace Evaluation

/-- The outcome of a step, outside of it. -/
def outside {α : Type} (outcome : α × Machine) : α × Machine :=
  (outcome.1, { outcome.2 with depth := outcome.2.depth - 1 })

/-- **What a step asks for does not depend on the steps that may be nested in it**, nor on the nesting
and the limit. -/
theorem exists_dialogue (e : Value) (m : Machine) :
    ∃ d : Dialogue Value, ∀ visit depth limit,
      observed e (step visit e) (m.bounded depth limit) = d.run visit depth limit :=
  (Converses.step e).observed e m

theorem visitWithin_dialogue {e : Value} {m : Machine} {d : Dialogue Value}
    (hd : ∀ visit depth limit,
      observed e (step visit e) (m.bounded depth limit) = d.run visit depth limit)
    (room depth limit : Nat) :
    visitWithin (room + 1) e (m.bounded depth limit) =
      outside (d.run (visitWithin room) (depth + 1) limit) := by
  rw [visitWithin, nested_eq, Eval.bracket_apply, ← hd]
  rfl

/-- An evaluation keeps nesting and limit, also if it is cut off. -/
theorem visitWithin_bounds (room : Nat) : KeepsBounds (visitWithin room) := by
  induction room with
  | zero => exact fun e m => ⟨rfl, rfl⟩
  | succ room ih =>
    intro e m
    obtain ⟨d, hd⟩ := exists_dialogue e m
    obtain ⟨hdepth, hlimit⟩ := d.run_bounds ih (m.depth + 1) m.options.maxDepth
    have hvisit := visitWithin_dialogue hd room m.depth m.options.maxDepth
    rw [m.bounded_self] at hvisit
    rw [hvisit]
    refine ⟨?_, hlimit⟩
    change (d.run (visitWithin room) (m.depth + 1) m.options.maxDepth).2.depth - 1 = m.depth
    rw [hdepth, Nat.add_sub_cancel]

end Evaluation

/-! ## A higher limit -/

/-- Whether a result says that the limit was reached. -/
def CutOff {α : Type} (result : Except Error α) : Prop :=
  ∃ limit, result = .error (.depthExceeded limit)

theorem not_cutOff_ok {α : Type} (a : α) : ¬ CutOff (.ok a : Except Error α) := by
  rintro ⟨limit, h⟩
  cases h

/-- An error cuts off one computation if it cuts off another. -/
theorem CutOff.of_error {α β : Type} {err : Error} (h : CutOff (.error err : Except Error α)) :
    CutOff (.error err : Except Error β) := by
  obtain ⟨limit, h⟩ := h
  cases h
  exact ⟨limit, rfl⟩

/-- Where `visit` is not cut off below a limit `k`, `visit'` does the same below `k'`, at any
nesting. -/
def Outlasts (k k' : Nat) (visit visit' : Visit) : Prop :=
  ∀ e (m : Machine) depth ⦃depth' : Nat⦄, ¬ CutOff (visit e (m.bounded depth k)).1 →
    visit' e (m.bounded depth' k') =
      ((visit e (m.bounded depth k)).1, (visit e (m.bounded depth k)).2.bounded depth' k')

/-- An error of an answer is the error of the dialogue, so one that is not cut off got no answer that
is. -/
theorem Dialogue.run_outlasts {α : Type} {k k' : Nat} {visit visit' : Visit}
    (hv : KeepsBounds visit) (houtlasts : Outlasts k k' visit visit') (d : Dialogue α)
    (depth depth' : Nat) (h : ¬ CutOff (d.run visit depth k).1) :
    d.run visit' depth' k' =
      ((d.run visit depth k).1, (d.run visit depth k).2.bounded depth' k') := by
  induction d with
  | ends result m => rfl
  | asks e m restore next ih =>
    have hbounds := hv e (m.bounded depth k)
    have hsame := @houtlasts e m depth depth'
    simp only [Dialogue.run] at h ⊢
    rcases hanswer : visit e (m.bounded depth k) with ⟨err | v, m'⟩
    · rw [hanswer] at h hsame
      rw [hsame fun hcut => h hcut.of_error]
      rfl
    · rw [hanswer] at h hsame hbounds
      obtain ⟨hdepth, hlimit⟩ := hbounds
      dsimp only [Machine.depth_bounded, Machine.maxDepth_bounded] at h hdepth hlimit ⊢
      rw [hdepth, hlimit] at h ⊢
      rw [hsame (not_cutOff_ok v)]
      exact ih v m'.unbounded h

namespace Evaluation

/-- Within more room an evaluation that is not cut off does the same, below any other limit and at any
nesting. -/
theorem visitWithin_outlasts {room room' : Nat} (hle : room ≤ room') (k k' : Nat) :
    Outlasts k k' (visitWithin room) (visitWithin room') := by
  induction room generalizing room' with
  | zero => exact fun _ m _ _ h => absurd ⟨_, rfl⟩ h
  | succ room ih =>
    obtain ⟨room', rfl⟩ := Nat.exists_eq_add_of_le' hle
    rw [← Nat.add_assoc]
    intro e m depth depth' h
    obtain ⟨d, hd⟩ := exists_dialogue e m
    have hparts : Outlasts k k' (visitWithin room) (visitWithin (room' + room)) := ih (by omega)
    rw [visitWithin_dialogue hd] at h ⊢
    rw [visitWithin_dialogue hd]
    have hsame := d.run_outlasts (visitWithin_bounds room) hparts (depth + 1) (depth' + 1) h
    rw [hsame]
    rfl

/-- So does an application, which keeps the limit. -/
theorem apply_outlasts {room room' : Nat} (hle : room ≤ room') (k k' : Nat) (f : Value)
    (args : List Value) (m : Machine) (depth depth' : Nat)
    (h : ¬ CutOff (Application.apply (visitWithin room) f args (m.bounded depth k)).1) :
    Application.apply (visitWithin room') f args (m.bounded depth' k') =
        ((Application.apply (visitWithin room) f args (m.bounded depth k)).1,
          (Application.apply (visitWithin room) f args (m.bounded depth k)).2.bounded depth' k') ∧
      (Application.apply (visitWithin room) f args (m.bounded depth k)).2.options.maxDepth = k := by
  obtain ⟨d, hd⟩ := Converses.apply f args m
  dsimp only at hd
  rw [hd] at h ⊢
  rw [hd]
  have hbounds := visitWithin_bounds room
  exact ⟨d.run_outlasts hbounds (visitWithin_outlasts hle k k') depth depth' h,
    (d.run_bounds hbounds depth k).2⟩

end Evaluation

namespace Session

theorem evaluate_limited_eq (limit : Nat) (e : Value) (m : Machine) :
    evaluate e (m.limited limit) = concluded (m.limited limit)
      (Evaluation.visitWithin (limit - m.depth) e ((m.atLevel .full).bounded m.depth limit)) :=
  evaluate_eq e (m.limited limit)

/-- **A higher limit on nesting is harmless.** An evaluation that is not cut off below a limit ends with
the same value or error below a higher one, and leaves the same machine, what was printed and noted
included, but for the limit itself. -/
theorem evaluate_limited {k k' : Nat} (hle : k ≤ k') (e : Value) (m : Machine)
    (h : ∀ limit, (evaluate e (m.limited k)).1 ≠ .error (.depthExceeded limit)) :
    evaluate e (m.limited k') =
      ((evaluate e (m.limited k)).1, (evaluate e (m.limited k)).2.limited k') := by
  have hsame := Evaluation.visitWithin_outlasts (Nat.sub_le_sub_right hle m.depth) k k' e
    (m.atLevel .full) m.depth
  have hbounds := Evaluation.visitWithin_bounds (k - m.depth) e ((m.atLevel .full).bounded m.depth k)
  rw [evaluate_limited_eq k] at h ⊢
  rw [evaluate_limited_eq k']
  rcases houtcome : Evaluation.visitWithin (k - m.depth) e ((m.atLevel .full).bounded m.depth k) with
    ⟨err | value, after⟩
  · rw [houtcome] at hsame h
    rw [hsame (not_exists.2 h)]
    rfl
  · rw [houtcome] at hsame hbounds
    rw [hsame (not_cutOff_ok value)]
    have hdepth : after.depth = m.depth := hbounds.1
    simp only [concluded, Machine.limited, ← hdepth]
    rfl

/-- A quoted name is looked at in a second, nested step. Two steps are enough for it, so three are. -/
theorem evaluate_limited_quote :
    2 ≤ 3 ∧
    (∀ limit, (evaluate (.quoted (.symbol "x")) ((Machine.start .initial {} {}).limited 2)).1 ≠
      .error (.depthExceeded limit)) ∧
    evaluate (.quoted (.symbol "x")) ((Machine.start .initial {} {}).limited 3) =
      ((evaluate (.quoted (.symbol "x")) ((Machine.start .initial {} {}).limited 2)).1,
        (evaluate (.quoted (.symbol "x")) ((Machine.start .initial {} {}).limited 2)).2.limited 3) := by
  have hends : (evaluate (.quoted (.symbol "x")) ((Machine.start .initial {} {}).limited 2)).1 =
      .ok (.symbol "x") := rfl
  have hnot : ∀ limit, (evaluate (.quoted (.symbol "x"))
      ((Machine.start .initial {} {}).limited 2)).1 ≠ .error (.depthExceeded limit) := by
    intro limit
    rw [hends]
    exact nofun
  exact ⟨by decide, hnot, evaluate_limited (by decide) _ _ hnot⟩

/-- One step is not enough. -/
example : (evaluate (.quoted (.symbol "x")) ((Machine.start .initial {} {}).limited 1)).1 =
    .error (.depthExceeded 1) := rfl

end Session

end CurryLisp
