import CurryLisp.Value.Equality
import Mathlib.Order.WellFounded

/-!
# Steps of a comparison

The comparison of values takes one pair after another from its list. `Compares` says what it does with
one: it finds two atoms equal, takes two values as equal that are one object or have been opened before,
or puts the parts of both on the list. Each step leaves a smaller comparison (`Comparison.Later`), so
there is no endless one.

Statements:

* `Value.equalFrom_cons`: a comparison succeeds if its first step does and what is left then succeeds.
* `Value.Comparison.later_wellFounded`: a comparison ends.
* `Value.equalFrom_of_compares`: it succeeds where every pair that it meets allows a step.
-/

namespace CurryLisp

variable {s : Store} {opened opened' : List Opened} {x y : Value} {work parts : List (Value × Value)}

namespace Value

/-- The comparisons inside two vectors. -/
def insideVectors (s : Store) (a b : Address) : Option (List (Value × Value)) :=
  s.vectors[a]?.bind fun xs => s.vectors[b]?.bind fun ys => pairUp xs.toList ys.toList

/-- The comparisons inside two structs. -/
def insideStructs (s : Store) (a b : Address) : Option (List (Value × Value)) :=
  s.structs[a]?.bind fun x => s.structs[b]?.bind fun y => pairFields x y

/-- The comparisons inside two closures. -/
def insideClosures (s : Store) (a b : Address) : Option (List (Value × Value)) :=
  s.closures[a]?.bind fun x => s.closures[b]?.bind fun y => pairClosures x y

end Value

/-! ## Two objects under comparison -/

namespace Opened

/-- The object on the left. -/
def left : Opened → Value
  | vectors a _ => .vector a
  | structs a _ => .struct a
  | closures a _ => .closure a

/-- The object on the right. -/
def right : Opened → Value
  | vectors _ b => .vector b
  | structs _ b => .struct b
  | closures _ b => .closure b

/-- What must be equal for the objects to be equal. -/
def inside (s : Store) : Opened → Option (List (Value × Value))
  | vectors a b => Value.insideVectors s a b
  | structs a b => Value.insideStructs s a b
  | closures a b => Value.insideClosures s a b

/-- Only objects that exist are opened. -/
theorem mem_pairsOf {o : Opened} (h : o.inside s = some parts) : o ∈ pairsOf s := by
  cases o with
  | vectors a b =>
    simp only [Opened.inside, Value.insideVectors, Option.bind_eq_some_iff] at h
    obtain ⟨xs, ha, ys, hb, -⟩ := h
    exact vectors_mem_pairsOf ha hb
  | structs a b =>
    simp only [Opened.inside, Value.insideStructs, Option.bind_eq_some_iff] at h
    obtain ⟨x, ha, y, hb, -⟩ := h
    exact structs_mem_pairsOf ha hb
  | closures a b =>
    simp only [Opened.inside, Value.insideClosures, Option.bind_eq_some_iff] at h
    obtain ⟨x, ha, y, hb, -⟩ := h
    exact closures_mem_pairsOf ha hb

end Opened

namespace Value

/-- Values of different kinds are not equal. -/
theorem equalFrom_of_kind_ne {x y : Value} (h : x.kind ≠ y.kind) (s : Store)
    (opened : List Opened) (work : List (Value × Value)) :
    equalFrom s opened ((x, y) :: work) = false := by
  unfold equalFrom
  split <;> simp_all [kind]

/-- The comparison of two objects. -/
theorem equalFrom_object (s : Store) (opened : List Opened) (o : Opened)
    (work : List (Value × Value)) :
    equalFrom s opened ((o.left, o.right) :: work) = true ↔
      (o.left = o.right ∨ o ∈ opened) ∧ equalFrom s opened work = true ∨
      ¬(o.left = o.right ∨ o ∈ opened) ∧ ∃ inside, o.inside s = some inside ∧
        equalFrom s (o :: opened) (inside ++ work) = true := by
  cases o with
  | vectors a b =>
    simp only [Opened.left, Opened.right, Opened.inside, insideVectors, vector.injEq]
    rw [equalFrom]
    split
    · next hknown => simp [hknown]
    · next hnew => cases s.vectors[a]? <;> cases s.vectors[b]? <;> grind
  | structs a b =>
    simp only [Opened.left, Opened.right, Opened.inside, insideStructs, struct.injEq]
    rw [equalFrom]
    split
    · next hknown => simp [hknown]
    · next hnew => cases s.structs[a]? <;> cases s.structs[b]? <;> grind
  | closures a b =>
    simp only [Opened.left, Opened.right, Opened.inside, insideClosures, closure.injEq]
    rw [equalFrom]
    split
    · next hknown => simp [hknown]
    · next hnew => cases s.closures[a]? <;> cases s.closures[b]? <;> grind

/-! ## One step -/

/-- `Compares s opened x y opened' parts`: the comparison of `x` and `y` finds no difference, if there is
none between the values in `parts`. -/
inductive Compares (s : Store) (opened : List Opened) :
    Value → Value → List Opened → List (Value × Value) → Prop
  | nil : Compares s opened .nil .nil opened []
  | truth : Compares s opened .truth .truth opened []
  | integer (n : Int64) : Compares s opened (.integer n) (.integer n) opened []
  | float {x y : Float} (h : (x == y) = true) : Compares s opened (.float x) (.float y) opened []
  | char (c : Char) : Compares s opened (.char c) (.char c) opened []
  | symbol (name : String) : Compares s opened (.symbol name) (.symbol name) opened []
  | type {t u : TypeTag} (h : t.name = u.name) : Compares s opened (.type t) (.type u) opened []
  | native {f g : NativeFunction} (h : f.name = g.name) :
    Compares s opened (.native f) (.native g) opened []
  | string {a b : Address} (h : s.text a = s.text b) :
    Compares s opened (.string a) (.string b) opened []
  | quoted (x y : Value) : Compares s opened (.quoted x) (.quoted y) opened [(x, y)]
  /-- A pair is equal to itself. -/
  | samePair (p : Nat) (a b c d : Value) : Compares s opened (.pair p a b) (.pair p c d) opened []
  | pair {p q : Nat} (a b c d : Value) (h : p ≠ q) :
    Compares s opened (.pair p a b) (.pair q c d) opened [(a, c), (b, d)]
  /-- Objects that are one, or that were opened before. -/
  | known (o : Opened) (h : o.left = o.right ∨ o ∈ opened) :
    Compares s opened o.left o.right opened []
  /-- Objects that are opened now. -/
  | opens (o : Opened) (h : ¬(o.left = o.right ∨ o ∈ opened)) {inside : List (Value × Value)}
    (hinside : o.inside s = some inside) : Compares s opened o.left o.right (o :: opened) inside

/-- The comparison succeeds if its first step does and what is left then succeeds. -/
theorem equalFrom_cons (s : Store) (opened : List Opened) (x y : Value)
    (work : List (Value × Value)) :
    equalFrom s opened ((x, y) :: work) = true ↔
      ∃ opened' inside, Compares s opened x y opened' inside ∧
        equalFrom s opened' (inside ++ work) = true := by
  constructor
  · intro h
    have hobject : ∀ o : Opened, x = o.left → y = o.right → ∃ opened' inside,
        Compares s opened x y opened' inside ∧ equalFrom s opened' (inside ++ work) = true := by
      rintro o rfl rfl
      rcases (equalFrom_object s opened o work).1 h with ⟨hknown, h⟩ | ⟨hnew, inside, hinside, h⟩
      · exact ⟨opened, [], .known o hknown, h⟩
      · exact ⟨o :: opened, inside, .opens o hnew hinside, h⟩
    by_cases hkind : x.kind = y.kind
    · cases x <;> cases y <;> simp [kind] at hkind
      case nil.nil => exact ⟨opened, [], .nil, by simpa [equalFrom] using h⟩
      case truth.truth => exact ⟨opened, [], .truth, by simpa [equalFrom] using h⟩
      case integer.integer m n =>
        simp only [equalFrom, Bool.and_eq_true, beq_iff_eq] at h
        obtain ⟨rfl, h⟩ := h
        exact ⟨opened, [], .integer m, h⟩
      case float.float x y =>
        simp only [equalFrom, Bool.and_eq_true] at h
        obtain ⟨hxy, h⟩ := h
        exact ⟨opened, [], .float hxy, h⟩
      case char.char c d =>
        simp only [equalFrom, Bool.and_eq_true, beq_iff_eq] at h
        obtain ⟨rfl, h⟩ := h
        exact ⟨opened, [], .char c, h⟩
      case symbol.symbol m n =>
        simp only [equalFrom, Bool.and_eq_true, beq_iff_eq] at h
        obtain ⟨rfl, h⟩ := h
        exact ⟨opened, [], .symbol m, h⟩
      case type.type t u =>
        simp only [equalFrom, TypeTag.same, Bool.and_eq_true, decide_eq_true_eq] at h
        obtain ⟨htype, h⟩ := h
        exact ⟨opened, [], .type htype, h⟩
      case native.native f g =>
        simp only [equalFrom, Bool.and_eq_true, beq_iff_eq] at h
        obtain ⟨hname, h⟩ := h
        exact ⟨opened, [], .native hname, h⟩
      case string.string a b =>
        simp only [equalFrom, Bool.and_eq_true, Bool.or_eq_true, beq_iff_eq] at h
        obtain ⟨htext, h⟩ := h
        exact ⟨opened, [], .string (htext.elim (congrArg s.text) id), h⟩
      case quoted.quoted x y =>
        exact ⟨opened, [(x, y)], .quoted x y, by simpa [equalFrom] using h⟩
      case pair.pair p a b q c d =>
        by_cases hpq : p = q
        · subst hpq
          exact ⟨opened, [], .samePair p a b c d, by simpa [equalFrom] using h⟩
        · exact ⟨opened, [(a, c), (b, d)], .pair a b c d hpq, by simpa [equalFrom, hpq] using h⟩
      case vector.vector a b => exact hobject (.vectors a b) rfl rfl
      case struct.struct a b => exact hobject (.structs a b) rfl rfl
      case closure.closure a b => exact hobject (.closures a b) rfl rfl
    · rw [equalFrom_of_kind_ne hkind] at h
      cases h
  · rintro ⟨opened', inside, hstep, h⟩
    cases hstep with
    | known o hknown => exact (equalFrom_object s opened o work).2 (.inl ⟨hknown, h⟩)
    | opens o hnew hinside =>
      exact (equalFrom_object s opened o work).2 (.inr ⟨hnew, inside, hinside, h⟩)
    | string htext => simp_all [equalFrom]
    | pair a b c d hne => simpa [equalFrom, hne] using h
    | samePair p a b c d => simpa [equalFrom] using h
    | type htype => simp_all [equalFrom, TypeTag.same]
    | quoted x y => simp_all [equalFrom]
    | _ => simp_all [equalFrom]

/-! ## The comparison ends -/

/-- A comparison that is under way: the objects opened so far, and what is still to be compared. -/
abbrev Comparison := List Opened × List (Value × Value)

/-- One step of a comparison. -/
inductive Comparison.Later (s : Store) : Comparison → Comparison → Prop
  | step {opened opened' : List Opened} {x y : Value} {parts : List (Value × Value)}
    (h : Compares s opened x y opened' parts) (work : List (Value × Value)) :
    Later s (opened', parts ++ work) (opened, (x, y) :: work)

/-- A step opens a pair of objects for the first time, or opens none and leaves less to compare. -/
theorem Compares.decreases (h : Compares s opened x y opened' parts) (work : List (Value × Value)) :
    unseen (Opened.pairsOf s) opened' < unseen (Opened.pairsOf s) opened ∨
      opened' = opened ∧ workSize (parts ++ work) < workSize ((x, y) :: work) := by
  have hx := x.size_pos
  cases h with
  | opens o hnew hparts =>
    left
    exact unseen_cons_lt (Opened.mem_pairsOf hparts) fun h => hnew (.inr h)
  | _ =>
    refine .inr ⟨rfl, ?_⟩
    simp only [List.nil_append, List.cons_append, workSize_cons, size] at hx ⊢
    omega

/-- **A comparison has no endless run.** -/
theorem Comparison.later_wellFounded (s : Store) : WellFounded (Later s) := by
  refine Subrelation.wf ?_ (InvImage.wf
    (fun c : Comparison => (unseen (Opened.pairsOf s) c.1, workSize c.2))
    (Prod.lex Nat.lt_wfRel Nat.lt_wfRel).wf)
  rintro - - ⟨h, work⟩
  rcases h.decreases work with hopened | ⟨rfl, hwork⟩
  · exact .left _ _ hopened
  · exact .right _ hwork

/-- What holds of the empty comparison, and of each comparison of which it holds one step later, holds
of all. -/
theorem comparison_induction (s : Store) {P : List Opened → List (Value × Value) → Prop}
    (hdone : ∀ opened, P opened [])
    (hstep : ∀ opened x y work, (∀ opened' parts, Compares s opened x y opened' parts →
      P opened' (parts ++ work)) → P opened ((x, y) :: work))
    (opened : List Opened) (work : List (Value × Value)) : P opened work := by
  induction h : (opened, work) using (Comparison.later_wellFounded s).induction
    generalizing opened work with
  | h c ih =>
    subst h
    obtain _ | ⟨⟨x, y⟩, work⟩ := work
    · exact hdone opened
    · refine hstep opened x y work fun opened' parts h => ?_
      exact ih (opened', parts ++ work) (.step h work) opened' (parts ++ work) rfl

/-- A comparison succeeds if each pair allows a step, and so do the pairs that the step leaves. -/
theorem equalFrom_of_compares {B : Value → Value → Prop}
    (hstep : ∀ opened x y, B x y → ∃ opened' parts, Compares s opened x y opened' parts ∧
      ∀ p ∈ parts, B p.1 p.2)
    (hwork : ∀ p ∈ work, B p.1 p.2) : equalFrom s opened work = true := by
  induction opened, work using comparison_induction s with
  | hdone opened => rw [equalFrom]
  | hstep opened x y work ih =>
    obtain ⟨hxy, hwork⟩ := List.forall_mem_cons.1 hwork
    obtain ⟨opened', parts, hcompares, hparts⟩ := hstep opened x y hxy
    have hrest := ih opened' parts hcompares (List.forall_mem_append.2 ⟨hparts, hwork⟩)
    exact (equalFrom_cons s opened x y work).2 ⟨opened', parts, hcompares, hrest⟩

end Value

end CurryLisp
