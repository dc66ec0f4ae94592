import CurryLisp.Proofs.Arithmetic
import CurryLisp.Proofs.Doubles.Nearest

/-!
# Comparison of numbers

Two integers are compared exactly, and so are two finite floats. An integer and a float are compared as
floats: the integer is rounded first. If it is rounded to the very float that it is compared with,
though it is another number, the two pass for equal (`Number.Blurred`). In every other case the answer
is that of the exact numbers, because rounding keeps the order.

Where no integer blurs into a float, equality is an equivalence and the order is strict and total.

Statements:

* `Number.order_eq_cmp`: rounding an integer keeps its place among the floats, unless it blurs.
* `Session.comparison`: the comparisons are right unless the operands blur, and then they are wrong.
-/

namespace CurryLisp

open Decimal Decimal.Binary

namespace Number

/-! ## Exact numbers -/

/-- A number as a value. -/
def toValue : Number → Value
  | integer n => .integer n
  | float x => .float x

/-- Whether the number is an integer or a finite float. -/
def IsFinite : Number → Prop
  | integer _ => True
  | float x => x.isFinite = true

/-- The number that is denoted. -/
def exact : Number → ℚ
  | integer n => n.toInt
  | float x => (ofFloat x).value

/-- One is an integer that is rounded to the other, which is a different number. -/
def Blurred : Number → Number → Prop
  | integer n, float x | float x, integer n =>
    (ofFloat (nearestFloat n)).value = (ofFloat x).value ∧ (n.toInt : ℚ) ≠ (ofFloat x).value
  | _, _ => False

theorem Blurred.symm {a b : Number} (h : Blurred a b) : Blurred b a := by
  cases a with
  | integer m =>
    cases b with
    | integer n => exact h
    | float x => exact h
  | float x =>
    cases b with
    | integer n => exact h
    | float y => exact h

/-- Integers of at most 53 digits are not rounded. -/
theorem not_blurred_of_le {n : Int64} (hn : n.toInt.natAbs ≤ 2 ^ 53) (x : Float) :
    ¬Blurred (integer n) (float x) := by
  rintro ⟨hsame, hne⟩
  rw [value_nearestFloat hn] at hsame
  exact hne hsame

/-! ## Rounding and order -/

/-- A number that is rounded keeps its place among the doubles, unless it is rounded to the double that
it is compared with. -/
theorem cmp_of_rounds {x y : ℚ} (h : Rounds x y) {c : Binary} (hc : c.IsCanonical)
    (hsharp : y = c.value → x = c.value) : cmp y c.value = cmp x c.value := by
  obtain ⟨hbelow, habove⟩ := h c hc
  rcases lt_trichotomy x c.value with hlt | heq | hgt
  · have hne : y ≠ c.value := fun hy => hlt.ne (hsharp hy)
    rw [(cmp_eq_lt_iff _ _).2 hlt, (cmp_eq_lt_iff _ _).2 (lt_of_le_of_ne (habove hlt.le) hne)]
  · have hy : y = c.value := le_antisymm (habove heq.le) (hbelow heq.ge)
    rw [heq, hy]
  · have hne : c.value ≠ y := fun hy => hgt.ne (hsharp hy.symm).symm
    rw [(cmp_eq_gt_iff _ _).2 hgt, (cmp_eq_gt_iff _ _).2 (lt_of_le_of_ne (hbelow hgt.le) hne)]

theorem IsFinite.toFloat {a : Number} (ha : a.IsFinite) : a.toFloat.isFinite = true := by
  cases a with
  | integer n => exact isFinite_nearestFloat n
  | float x => exact ha

/-- How two numbers compare: integers exactly, and otherwise as floats. -/
def order : Number → Number → Ordering
  | integer m, integer n => cmp (m.toInt : ℚ) n.toInt
  | a, b => cmp (ofFloat a.toFloat).value (ofFloat b.toFloat).value

/-- **Numbers that do not blur compare as the exact numbers.** -/
theorem order_eq_cmp {a b : Number} (ha : a.IsFinite) (hb : b.IsFinite) (hsharp : ¬Blurred a b) :
    order a b = cmp a.exact b.exact := by
  have hrounded : ∀ {n : Int64} {x : Float}, x.isFinite = true →
      ¬Blurred (integer n) (float x) →
      cmp (ofFloat (nearestFloat n)).value (ofFloat x).value =
        cmp (n.toInt : ℚ) (ofFloat x).value := by
    intro n x hx hsharp
    refine cmp_of_rounds (rounds_nearestFloat n) (isCanonical_ofFloat hx) fun hsame => ?_
    by_contra hne
    exact hsharp ⟨hsame, hne⟩
  cases a with
  | integer m =>
    cases b with
    | integer n => rfl
    | float x => exact hrounded hb hsharp
  | float x =>
    cases b with
    | integer n =>
      -- The case above, with the operands exchanged.
      show cmp (ofFloat x).value (ofFloat (nearestFloat n)).value = cmp (ofFloat x).value _
      rw [← cmp_swap, hrounded ha hsharp, cmp_swap]
      rfl
    | float y => rfl

/-- Numbers that blur pass for equal, and are not. -/
theorem order_of_blurred {a b : Number} (h : Blurred a b) : order a b = .eq ∧ a.exact ≠ b.exact := by
  cases a with
  | integer m =>
    cases b with
    | integer n => cases h
    | float x => exact ⟨(cmp_eq_eq_iff _ _).2 h.1, h.2⟩
  | float x =>
    cases b with
    | integer n => exact ⟨(cmp_eq_eq_iff _ _).2 h.1.symm, h.2.symm⟩
    | float y => cases h

/-! ## The comparisons -/

section Outcomes

variable (s : Store) {a b : Number} (ha : a.IsFinite) (hb : b.IsFinite)

include ha hb

theorem equal_order : ∃ p : Bool, equal s [a.toValue, b.toValue] = .ok (.ofBool p) ∧
    (p = true ↔ order a b = .eq) := by
  have hfloats : (a.toFloat == b.toFloat) = true ↔
      cmp (ofFloat a.toFloat).value (ofFloat b.toFloat).value = .eq := by
    rw [cmp_eq_eq_iff]
    exact beq_iff_value ha.toFloat hb.toFloat
  cases a with
  | integer m =>
    cases b with
    | integer n =>
      refine ⟨m == n, rfl, ?_⟩
      rw [order, cmp_eq_eq_iff, Int.cast_inj, Int64.toInt_inj]
      exact beq_iff_eq
    | float x => exact ⟨_, rfl, hfloats⟩
  | float x =>
    cases b with
    | integer n => exact ⟨_, rfl, hfloats⟩
    | float y => exact ⟨_, rfl, hfloats⟩

/-- A comparison answers whether the numbers have an order, if it tells that of integers and floats. -/
theorem compare_order (name : String) {integers : Int64 → Int64 → Bool}
    {floats : Float → Float → Bool} {o : Ordering}
    (hintegers : ∀ m n, integers m n = true ↔ cmp (m.toInt : ℚ) n.toInt = o)
    (hfloats : ∀ {x y : Float}, x.isFinite = true → y.isFinite = true →
      (floats x y = true ↔ cmp (ofFloat x).value (ofFloat y).value = o)) :
    ∃ p : Bool, compare s name integers floats [a.toValue, b.toValue] = .ok (.ofBool p) ∧
      (p = true ↔ order a b = o) := by
  have hconverted := hfloats ha.toFloat hb.toFloat
  cases a with
  | integer m =>
    cases b with
    | integer n => exact ⟨integers m n, rfl, hintegers m n⟩
    | float x => exact ⟨_, rfl, hconverted⟩
  | float x =>
    cases b with
    | integer n => exact ⟨_, rfl, hconverted⟩
    | float y => exact ⟨_, rfl, hconverted⟩

theorem less_order : ∃ p : Bool, less s [a.toValue, b.toValue] = .ok (.ofBool p) ∧
    (p = true ↔ order a b = .lt) := by
  refine compare_order s ha hb "<" (fun m n => ?_) fun hx hy => ?_
  · rw [decide_eq_true_iff, cmp_eq_lt_iff, Int.cast_lt]
    exact Int64.lt_iff_toInt_lt
  · rw [decide_eq_true_iff, cmp_eq_lt_iff]
    exact lt_iff_value hx hy

theorem greater_order : ∃ p : Bool, greater s [a.toValue, b.toValue] = .ok (.ofBool p) ∧
    (p = true ↔ order a b = .gt) := by
  refine compare_order s ha hb ">" (fun m n => ?_) fun hx hy => ?_
  · rw [decide_eq_true_iff, cmp_eq_gt_iff, Int.cast_lt]
    exact Int64.lt_iff_toInt_lt
  · rw [decide_eq_true_iff, cmp_eq_gt_iff]
    exact lt_iff_value hy hx

end Outcomes

end Number

namespace Session

/-- A builtin function answers whether `P` holds, and changes nothing. -/
def Decides (m : Machine) (name : String) (a b : Number) (P : Prop) : Prop :=
  ∃ p : Bool, apply (Builtin.named name) [a.toValue, b.toValue] m = (.ok (.ofBool p), m) ∧
    (p = true ↔ P)

/-- A builtin function answers that two numbers are related. -/
def Says (m : Machine) (name : String) (a b : Number) : Prop :=
  (apply (Builtin.named name) [a.toValue, b.toValue] m).1 = .ok .truth

/-- The comparisons of two numbers are right. -/
structure Compares (m : Machine) (a b : Number) : Prop where
  equal : Decides m "=" a b (a.exact = b.exact)
  less : Decides m "<" a b (a.exact < b.exact)
  greater : Decides m ">" a b (b.exact < a.exact)

theorem Decides.says_iff {m : Machine} {name : String} {a b : Number} {P : Prop}
    (h : Decides m name a b P) : Says m name a b ↔ P := by
  obtain ⟨p, hrun, hp⟩ := h
  rw [Says, hrun, ← hp]
  cases p <;> simp [Value.ofBool]

/-- What the comparisons answer. -/
theorem decides_order (m : Machine) {a b : Number} (ha : a.IsFinite) (hb : b.IsFinite) :
    Decides m "=" a b (a.order b = .eq) ∧ Decides m "<" a b (a.order b = .lt) ∧
      Decides m ">" a b (a.order b = .gt) := by
  have hequal : Builtin.find? "=" = some (Builtin.function "=" 2 false [] .equal) := by decide
  have hless : Builtin.find? "<" =
      some (Builtin.function "<" 2 false [.primitive, .primitive] .less) := by decide
  have hgreater : Builtin.find? ">" =
      some (Builtin.function ">" 2 false [.primitive, .primitive] .greater) := by decide
  refine ⟨?_, ?_, ?_⟩
  · obtain ⟨p, hp, hiff⟩ := Number.equal_order m.store ha hb
    refine ⟨p, ?_, hiff⟩
    rw [apply_question hequal rfl (List.cons_ne_nil _ _) rfl rfl, hp]
  · obtain ⟨p, hp, hiff⟩ := Number.less_order m.store ha hb
    refine ⟨p, ?_, hiff⟩
    rw [apply_question hless rfl (List.cons_ne_nil _ _) rfl (by cases a <;> cases b <;> rfl), hp]
  · obtain ⟨p, hp, hiff⟩ := Number.greater_order m.store ha hb
    refine ⟨p, ?_, hiff⟩
    rw [apply_question hgreater rfl (List.cons_ne_nil _ _) rfl (by cases a <;> cases b <;> rfl), hp]

theorem compares_iff (m : Machine) {a b : Number} (ha : a.IsFinite) (hb : b.IsFinite) :
    Compares m a b ↔ ¬a.Blurred b := by
  obtain ⟨hequal, hless, hgreater⟩ := decides_order m ha hb
  constructor
  · rintro hcompares hblurred
    obtain ⟨heq, hne⟩ := Number.order_of_blurred hblurred
    exact hne (hcompares.equal.says_iff.1 (hequal.says_iff.2 heq))
  · intro hsharp
    have horder := Number.order_eq_cmp ha hb hsharp
    rw [horder, cmp_eq_eq_iff] at hequal
    rw [horder, cmp_eq_lt_iff] at hless
    rw [horder, cmp_eq_gt_iff] at hgreater
    exact ⟨hequal, hless, hgreater⟩

/-- **Numbers compare by value, unless an integer blurs into a float.** For every two numbers the three
comparisons are right if and only if the two do not blur. Among numbers of which no two blur, `=` is an
equivalence, and `<` a strict order that is total: of two numbers that are not equal one is smaller. -/
theorem comparison (m : Machine) :
    (∀ a b : Number, a.IsFinite → b.IsFinite → (Compares m a b ↔ ¬a.Blurred b)) ∧
    ∀ S : Set Number, (∀ a ∈ S, a.IsFinite) → (∀ a ∈ S, ∀ b ∈ S, ¬a.Blurred b) →
      Equivalence (fun a b : S => Says m "=" a b) ∧
      (∀ a b c : S, Says m "<" a b → Says m "<" b c → Says m "<" a c) ∧
      ∀ a b : S, (Says m "<" a b ↔ ¬Says m "=" a b ∧ ¬Says m "<" b a) := by
  refine ⟨fun a b ha hb => compares_iff m ha hb, fun S hfinite hsharp => ?_⟩
  have hcompares : ∀ a b : S, Compares m a b := fun a b =>
    (compares_iff m (hfinite a a.2) (hfinite b b.2)).2 (hsharp a a.2 b b.2)
  have hequal : ∀ a b : S, Says m "=" a b ↔ a.1.exact = b.1.exact := fun a b =>
    (hcompares a b).equal.says_iff
  have hless : ∀ a b : S, Says m "<" a b ↔ a.1.exact < b.1.exact := fun a b =>
    (hcompares a b).less.says_iff
  refine ⟨⟨fun a => ?_, fun {a b} h => ?_, fun {a b c} h h' => ?_⟩, fun a b c h h' => ?_, fun a b => ?_⟩
  · rw [hequal]
  · rw [hequal] at h ⊢
    exact h.symm
  · rw [hequal] at h h' ⊢
    exact h.trans h'
  · rw [hless] at h h' ⊢
    exact h.trans h'
  · rw [hless, hless, hequal, lt_iff_le_and_ne, not_lt, and_comm]

/-- An integer and a float that is not one. -/
theorem comparison_small :
    Number.IsFinite (.integer 2) ∧ Number.IsFinite (.float 2.5) ∧
    ¬Number.Blurred (.integer 2) (.float 2.5) ∧
    Compares (.start .initial {} {}) (.integer 2) (.float 2.5) ∧
    Equivalence fun a b : ({.integer 2, .float 2.5} : Set Number) =>
      Says (.start .initial {} {}) "=" a b := by
  have hinteger : Number.IsFinite (.integer 2) := trivial
  have hfloat : Number.IsFinite (.float 2.5) := by
    show (2.5 : Float).isFinite = true
    decide +kernel
  have hsharp : ¬Number.Blurred (.integer 2) (.float 2.5) :=
    Number.not_blurred_of_le (by decide) _
  obtain ⟨hiff, hlaws⟩ := comparison (.start .initial {} {})
  refine ⟨hinteger, hfloat, hsharp, (hiff _ _ hinteger hfloat).2 hsharp, ?_⟩
  refine (hlaws {.integer 2, .float 2.5} ?_ ?_).1
  · rintro a (rfl | rfl)
    · exact hinteger
    · exact hfloat
  · rintro a (rfl | rfl) b (rfl | rfl)
    · exact id
    · exact hsharp
    · exact fun h => hsharp h.symm
    · exact id

/-- The integer `2 ^ 53 + 1` and the float `2 ^ 53` are different numbers and pass for equal. -/
theorem not_comparison_blurred :
    Number.IsFinite (.float 9007199254740992.0) ∧
    Number.exact (.integer 9007199254740993) ≠ Number.exact (.float 9007199254740992.0) ∧
    Says (.start .initial {} {}) "=" (.integer 9007199254740993) (.float 9007199254740992.0) := by
  have hfinite : (9007199254740992.0 : Float).isFinite = true := by decide +kernel
  have hparts : ofFloat 9007199254740992.0 = ⟨false, 2 ^ 52, 1⟩ := by decide +kernel
  have hsame : ofFloat (Number.nearestFloat 9007199254740993) = ⟨false, 2 ^ 52, 1⟩ := by
    decide +kernel
  have hblurred : Number.Blurred (.integer 9007199254740993) (.float 9007199254740992.0) := by
    refine ⟨by rw [hsame, hparts], ?_⟩
    rw [hparts, show (9007199254740993 : Int64).toInt = 9007199254740993 by decide]
    norm_num [value, size]
  obtain ⟨horder, hne⟩ := Number.order_of_blurred hblurred
  obtain ⟨hequal, -, -⟩ := decides_order (.start .initial {} {})
    (a := .integer 9007199254740993) (b := .float 9007199254740992.0) trivial hfinite
  exact ⟨hfinite, hne, hequal.says_iff.2 horder⟩

end Session

end CurryLisp
