import CurryLisp.Proofs.Effect

/-!
# The number of placeholders

How many placeholders were made shows in the name of the next one and nowhere else. So a computation
that makes none does the same whatever their number is (`Counts`).

Statements:

* `Counts.pervasive`: **evaluation sees the number of placeholders only where it makes one.**
* `Counts.rerun`: a computation that makes none, run again with another number.
-/

namespace CurryLisp

/-- Placeholders are never taken back, and if `x` makes none, it does the same whatever their number
is. -/
def Counts {α : Type} (x : Eval α) : Prop :=
  ∀ m : Machine, m.placeholders ≤ (x m).2.placeholders ∧
    ((x m).2.placeholders = m.placeholders → ∀ n, x (m.counting n) = ((x m).1, (x m).2.counting n))

namespace Counts

variable {α β : Type}

theorem pure (a : α) : Counts (Pure.pure a : Eval α) := fun _ => ⟨Nat.le_refl _, fun _ _ => rfl⟩

theorem throw (e : Error) : Counts (MonadExcept.throw e : Eval α) :=
  fun _ => ⟨Nat.le_refl _, fun _ _ => rfl⟩

theorem bind {x : Eval α} {f : α → Eval β} (hx : Counts x) (hf : ∀ a, Counts (f a)) :
    Counts (x >>= f) := by
  intro m
  obtain ⟨hle, hsame⟩ := hx m
  rw [Eval.bind_apply]
  rcases hxm : x m with ⟨e | a, m₁⟩
  · rw [hxm] at hle hsame
    refine ⟨hle, fun hnone n => ?_⟩
    rw [Eval.bind_apply, hsame hnone n]
  · rw [hxm] at hle hsame
    obtain ⟨hle', hsame'⟩ := hf a m₁
    refine ⟨Nat.le_trans hle hle', fun hnone n => ?_⟩
    -- What makes no placeholder makes none in either part.
    have hfirst : m₁.placeholders = m.placeholders :=
      Nat.le_antisymm (Nat.le_trans hle' (Nat.le_of_eq hnone)) hle
    rw [Eval.bind_apply, hsame hfirst n]
    exact hsame' (hnone.trans hfirst.symm) n

theorem onStore (f : Store → Except Error (α × Store)) : Counts (Eval.onStore f) := by
  intro m
  unfold Eval.onStore
  dsimp only [Machine.counting]
  split
  · exact ⟨Nat.le_refl _, fun _ _ => rfl⟩
  · exact ⟨Nat.le_refl _, fun _ _ => rfl⟩

theorem updateActive (f : Environment → Environment) : Counts (Eval.updateActive f) := by
  intro m
  change m.placeholders ≤ (m.updateActive f).placeholders ∧ ((m.updateActive f).placeholders =
    m.placeholders → ∀ n, (Except.ok (), (m.counting n).updateActive f) =
      ((Except.ok (), (m.updateActive f).counting n) : Except Error Unit × Machine))
  unfold Machine.updateActive
  dsimp only [Machine.counting]
  split
  · exact ⟨Nat.le_refl _, fun _ _ => rfl⟩
  · exact ⟨Nat.le_refl _, fun _ _ => rfl⟩

theorem get {f : Machine → Eval β} (hsame : ∀ n m, f (m.counting n) = f m)
    (hf : ∀ m, Counts (f m)) : Counts (MonadState.get >>= f) := by
  intro m
  obtain ⟨hle, hrun⟩ := hf m m
  refine ⟨hle, fun hnone n => ?_⟩
  change f (m.counting n) (m.counting n) = _
  rw [hsame]
  exact hrun hnone n

/-- A bracket that has nothing to do with placeholders. -/
theorem bracket {enter leave : Machine → Machine} {x : Eval α} (hx : Counts x)
    (henter : ∀ m, (enter m).placeholders = m.placeholders ∧
      ∀ n, enter (m.counting n) = (enter m).counting n)
    (hleave : ∀ m, (leave m).placeholders = m.placeholders ∧
      ∀ n, leave (m.counting n) = (leave m).counting n) : Counts (Eval.bracket enter leave x) := by
  intro m
  obtain ⟨hle, hsame⟩ := hx (enter m)
  obtain ⟨hcount, hentered⟩ := henter m
  obtain ⟨hcount', hleft⟩ := hleave (x (enter m)).2
  rw [hcount] at hle hsame
  rw [Eval.bracket_apply]
  dsimp only
  rw [hcount']
  refine ⟨hle, fun hnone n => ?_⟩
  rw [Eval.bracket_apply, hentered, hsame hnone, hleft]

/-- **Evaluation sees the number of placeholders only where it makes one.** -/
theorem pervasive : Pervasive Counts where
  pure := pure
  throw := throw
  bind := bind
  get := get
  ask f m := ⟨Nat.le_refl _, fun _ _ => rfl⟩
  make _ m := ⟨Nat.le_refl _, fun _ _ => rfl⟩
  onStore _ := onStore _
  updateActive := updateActive
  changeOption name enabled a := by
    refine get (fun _ _ => rfl) fun m => bind ?_ fun options => ?_
    · cases m.options.set name enabled with
      | error e => exact throw e
      | ok options => exact pure options
    · exact fun m => ⟨Nat.le_refl _, fun _ _ => rfl⟩
  write text m := ⟨Nat.le_refl _, fun _ _ => rfl⟩
  note _ m := ⟨Nat.le_refl _, fun _ _ => rfl⟩
  placeholder m := ⟨Nat.le_succ _, fun hnone => absurd hnone (Nat.succ_ne_self _)⟩
  withLevel level x hx := get (fun _ _ => rfl) fun m =>
    hx.bracket (fun _ => ⟨rfl, fun _ => rfl⟩) fun _ => ⟨rfl, fun _ => rfl⟩
  withScope frame x hx := hx.bracket (fun _ => ⟨rfl, fun _ => rfl⟩) fun _ => ⟨rfl, fun _ => rfl⟩
  report e m := ⟨Nat.le_refl _, fun _ _ => rfl⟩
  indented hx m := by
    have hbracket : Counts (Eval.bracket (fun m => { m with indent := m.indent + 1 })
        (fun m => { m with indent := m.indent - 1 }) _) :=
      hx.bracket (fun _ => ⟨rfl, fun _ => rfl⟩) fun _ => ⟨rfl, fun _ => rfl⟩
    obtain ⟨hle, hsame⟩ := hbracket m
    refine ⟨hle, fun hnone n => ?_⟩
    exact congrArg (fun r : Except Error Value × Machine => (Except.ok r.1, r.2)) (hsame hnone n)
  nested room x hx := by
    rw [Evaluation.nested_eq]
    exact hx.bracket (fun _ => ⟨rfl, fun _ => rfl⟩) fun _ => ⟨rfl, fun _ => rfl⟩

/-- A computation that makes no placeholder, after another number of them. -/
theorem rerun {x : Eval α} (hx : Counts x) {m : Machine} {n : Nat}
    (h : (x (m.counting n)).2.placeholders = n) :
    x m = ((x (m.counting n)).1, (x (m.counting n)).2.counting m.placeholders) :=
  (hx (m.counting n)).2 h m.placeholders

end Counts

end CurryLisp
