import CurryLisp.Proofs.Currying
import CurryLisp.Proofs.Lexical

/-!
# Arithmetic on integers

An operation on two integers of 64 bits gives the integer that is its result, or it fails: where there
is no result, and where the result does not fit. What the results are is said by relations on the
integers (`arithmetic`); for the remainder by the equation that it solves.

The remainder is computed beside the quotient, and refused where the quotient does not fit. That is so
in one case, the least integer divided by `-1`, whose remainder is zero.

Statements:

* `Answers`: an operation gives the one value that satisfies a predicate, and fails if there is none.
* `Session.apply_arithmetic`: what the operations on two integers give.
-/

namespace CurryLisp

open Decimal

/-! ## Answers -/

/-- The outcome is the value made of the `a` that satisfies `P`, and a failure if there is none. -/
structure Answers {α : Type} (make : α → Value) (P : α → Prop) (outcome : Except Error Value) :
    Prop where
  ok_iff : ∀ a, outcome = .ok (make a) ↔ P a
  failure : (∀ a, ¬P a) → ∃ text, outcome = .error (.failure text)

namespace Answers

variable {α : Type} {make : α → Value} {P Q : α → Prop} {outcome : Except Error Value}

theorem congr (h : Answers make P outcome) (hPQ : ∀ a, P a ↔ Q a) : Answers make Q outcome where
  ok_iff a := (h.ok_iff a).trans (hPQ a)
  failure hnone := h.failure fun a ha => hnone a ((hPQ a).1 ha)

/-- A failure answers what nothing satisfies. -/
theorem failed (text : String) (hnone : ∀ a, ¬P a) :
    Answers make P (.error (.failure text)) where
  ok_iff a := ⟨nofun, fun h => absurd h (hnone a)⟩
  failure _ := ⟨text, rfl⟩

/-- What is found is the answer, and a failure if nothing is found. -/
theorem ofOption (hmake : Function.Injective make) (found : Option α)
    (hfound : ∀ a, found = some a ↔ P a) (hsome : ∀ a, found = some a → outcome = .ok (make a))
    (hnone : found = none → ∃ text, outcome = .error (.failure text)) :
    Answers make P outcome := by
  cases found with
  | none =>
    obtain ⟨text, rfl⟩ := hnone rfl
    exact failed text fun a ha => by cases (hfound a).2 ha
  | some b =>
    rw [hsome b rfl]
    refine ⟨fun a => ⟨fun h => ?_, fun h => ?_⟩, fun h => absurd ((hfound b).1 rfl) (h b)⟩
    · obtain rfl : b = a := hmake (Except.ok.inj h)
      exact (hfound b).1 rfl
    · obtain rfl : b = a := Option.some.inj ((hfound a).2 h)
      rfl

end Answers

theorem Value.integer_injective : Function.Injective Value.integer := by
  intro a b h
  cases h
  rfl

/-- The integers of 64 bits are their values. -/
theorem Decimal.int64?_eq_some_iff {z : ℤ} {n : Int64} : int64? z = some n ↔ n.toInt = z := by
  constructor
  · exact toInt_of_int64?
  · rintro rfl
    exact int64?_toInt n

/-- An integer in range is one of 64 bits. -/
theorem Decimal.exists_int64? {z : ℤ} (hmin : -2 ^ 63 ≤ z) (hmax : z < 2 ^ 63) :
    ∃ n, int64? z = some n := by
  rw [int64?, if_pos]
  · exact ⟨_, rfl⟩
  · rw [Int64.toInt_minValue, Int64.toInt_maxValue]
    omega

/-! ## Questions -/

/-- The builtin function of this name, as a value. -/
def Builtin.named (name : String) : Value :=
  match Builtin.find? name with
  | some f => .native f
  | none => .nil

theorem Builtin.named_eq {name : String} {f : NativeFunction} (h : Builtin.find? name = some f) :
    Builtin.named name = .native f := by
  rw [named, h]

/-- What an operation on numbers asks about the shared objects; it needs them to tell errors. -/
def Operation.question? : Operation → Option (Store → List Value → Except Error Value)
  | .add => some Number.add
  | .subtract => some Number.subtract
  | .multiply => some Number.multiply
  | .divide => some Number.divide
  | .modulo => some fun _ => Number.modulo
  | .equal => some Number.equal
  | .less => some Number.less
  | .greater => some Number.greater
  | .toInteger => some Number.toInteger
  | .toCharacter => some Number.toCharacter
  | _ => none

theorem Operation.perform_question {op : Operation} {q : Store → List Value → Except Error Value}
    (hop : op.question? = some q) (visit : SpecialForm.Visit) (args : List Value) :
    Application.perform visit op args = Eval.ask fun s => q s args := by
  cases op with
  | add | subtract | multiply | divide | modulo | equal | less | greater | toInteger
  | toCharacter =>
    cases hop
    rw [Application.perform_run _ (by simp) (by simp)]
    rfl
  | _ => cases hop

/-- A question is answered and changes nothing. -/
theorem Session.apply_question {name : String} {f : NativeFunction}
    {q : Store → List Value → Except Error Value} {args : List Value} {m : Machine}
    (hf : Builtin.find? name = some f) (hop : f.operation.question? = some q) (hsome : args ≠ [])
    (hlength : args.length = f.arity)
    (hcheck : (Callable.native f).checkArguments m.store args = .ok ()) :
    Session.apply (Builtin.named name) args m = (q m.store args, m) := by
  unfold Session.apply
  rw [Builtin.named_eq hf, Eval.bind_apply, Eval.get_apply]
  dsimp only
  rw [Application.apply_native _ hsome hlength hcheck, Operation.perform_question hop]
  rfl

/-! ## The results -/

/-- Which integer is the result of an operation on two integers. -/
def arithmetic : List (String × (ℤ → ℤ → ℤ → Prop)) :=
  [ ("+", fun a b r => r = a + b),
    ("-", fun a b r => r = a - b),
    ("*", fun a b r => r = a * b),
    ("/", fun a b r => b ≠ 0 ∧ r = a.tdiv b),
    ("mod", fun a b r => 0 ≤ r ∧ r < |b| ∧ b ∣ a - r) ]

/-- The remainder is the one that Euclidean division leaves. -/
theorem isRemainder_iff (a b r : ℤ) :
    (0 ≤ r ∧ r < |b| ∧ b ∣ a - r) ↔ b ≠ 0 ∧ r = a.emod b := by
  constructor
  · rintro ⟨hnonneg, hlt, hdvd⟩
    have hb : b ≠ 0 := by
      rintro rfl
      rw [abs_zero] at hlt
      omega
    have hsame : a % b = r % b :=
      Int.emod_eq_emod_iff_emod_sub_eq_zero.2 (Int.emod_eq_zero_of_dvd hdvd)
    have hself : r % b = r := by
      rw [← Int.emod_abs]
      exact Int.emod_eq_of_lt hnonneg hlt
    exact ⟨hb, (hsame.trans hself).symm⟩
  · rintro ⟨hb, rfl⟩
    exact ⟨Int.emod_nonneg a hb, Int.emod_lt_abs a hb, Int.dvd_self_sub_emod⟩

/-- The remainder of two integers of 64 bits fits. -/
theorem fits_remainder (a : ℤ) {b : Int64} (hb : b.toInt ≠ 0) :
    ∃ n, int64? (a.emod b.toInt) = some n := by
  have hnonneg := Int.emod_nonneg a hb
  have hlt := Int.emod_lt_abs a hb
  have habs : |b.toInt| ≤ 2 ^ 63 := abs_le.2 ⟨b.le_toInt, b.toInt_lt.le⟩
  exact exists_int64? (le_trans (by norm_num) hnonneg) (lt_of_lt_of_le hlt habs)

/-- The quotient of two integers of 64 bits fits, except that of the least one by `-1`. -/
theorem fits_quotient (a b : Int64) :
    (∃ n, int64? (a.toInt.tdiv b.toInt) = some n) ↔ ¬(a = Int64.minValue ∧ b = -1) := by
  have hmin := a.le_toInt
  have hmax := a.toInt_lt
  constructor
  · rintro ⟨n, hn⟩ ⟨rfl, rfl⟩
    rw [show int64? (Int64.minValue.toInt.tdiv (-1 : Int64).toInt) = none by decide] at hn
    cases hn
  · intro hne
    -- Only the magnitude of the least integer is out of range, and only as that of a positive number.
    have hle := Int.natAbs_tdiv_le_natAbs a.toInt b.toInt
    have hfits : a.toInt.tdiv b.toInt ≠ 2 ^ 63 := by
      intro hquotient
      have ha : a.toInt = -2 ^ 63 := by
        rw [hquotient] at hle
        omega
      have hmagnitude : 2 ^ 63 = 2 ^ 63 / b.toInt.natAbs := by
        have h := Int.natAbs_tdiv a.toInt b.toInt
        rwa [hquotient, ha] at h
      have hone : b.toInt.natAbs = 1 := by
        have hmul := Nat.div_mul_le_self (2 ^ 63) b.toInt.natAbs
        rw [← hmagnitude] at hmul
        have hzero : b.toInt.natAbs ≠ 0 := by
          intro h
          rw [h] at hmagnitude
          cases hmagnitude
        omega
      have hb : b.toInt = -1 := by
        rcases Int.natAbs_eq_iff.1 hone with hb | hb
        · rw [ha, hb] at hquotient
          cases hquotient
        · exact hb
      exact hne ⟨Int64.toInt_inj.1 ha, Int64.toInt_inj.1 hb⟩
    exact exists_int64? (by omega) (by omega)

/-! ## What the operations give -/

namespace Number

variable (s : Store) (a b : Int64)

/-- The operations that are exact unless the result does not fit. -/
theorem answers_combine (name : String) (exact : ℤ → ℤ → ℤ) (floats : Float → Float → Float) :
    Answers .integer (fun n : Int64 => n.toInt = exact a.toInt b.toInt)
      (combine s name exact floats [.integer a, .integer b]) := by
  have hcombine : combine s name exact floats [.integer a, .integer b] =
      (int64? (exact a.toInt b.toInt)).elim
        (.error (.failure ("integer overflow in " ++ name))) fun n => .ok (.integer n) := by
    have hoperands : operands s name ofValue? [.integer a, .integer b] =
        .ok (.integer a, .integer b) := rfl
    rw [combine, hoperands]
    change Except.bind (.ok _) _ = _
    simp only [Except.bind]
    cases int64? (exact a.toInt b.toInt) <;> rfl
  refine .ofOption Value.integer_injective _ (fun n => int64?_eq_some_iff) (fun n hn => ?_)
    fun hnone => ?_
  · rw [hcombine, hn, Option.elim_some]
  · rw [hcombine, hnone]
    exact ⟨_, rfl⟩

theorem answers_divide :
    Answers .integer (fun n : Int64 => b.toInt ≠ 0 ∧ n.toInt = a.toInt.tdiv b.toInt)
      (divide s [.integer a, .integer b]) := by
  by_cases hb : b = 0
  · subst hb
    exact .failed "division by zero" fun n h => h.1 rfl
  · have hzero : b.toInt ≠ 0 := fun h => hb (Int64.toInt_inj.1 h)
    have hdivide : divide s [.integer a, .integer b] =
        combine s "/" Int.tdiv (· / ·) [.integer a, .integer b] := by
      unfold divide
      split
      · next h =>
        cases h
        exact absurd rfl hb
      · rfl
    rw [hdivide]
    exact (answers_combine s a b "/" Int.tdiv (· / ·)).congr fun n => (and_iff_right hzero).symm

/-- The remainder is refused where the quotient does not fit. -/
theorem answers_modulo :
    Answers .integer (fun n : Int64 =>
        (0 ≤ n.toInt ∧ n.toInt < |b.toInt| ∧ b.toInt ∣ a.toInt - n.toInt) ∧
          ¬(a = Int64.minValue ∧ b = -1))
      (modulo [.integer a, .integer b]) := by
  by_cases hb : b = 0
  · subst hb
    refine .failed "division by zero" fun n h => ?_
    exact ((isRemainder_iff ..).1 h.1).1 rfl
  · have hzero : b.toInt ≠ 0 := fun h => hb (Int64.toInt_inj.1 h)
    have hmodulo : modulo [.integer a, .integer b] =
        (int64? (a.toInt.tdiv b.toInt)).elim (.error (.failure "integer overflow in mod")) fun _ =>
          (int64? (a.toInt.emod b.toInt)).elim (.error (.failure "integer overflow in mod")) fun n =>
            .ok (.integer n) := by
      unfold modulo
      split
      · next h =>
        cases h
        exact absurd rfl hb
      · next h =>
        cases h
        cases int64? (a.toInt.tdiv b.toInt) <;> cases int64? (a.toInt.emod b.toInt) <;> rfl
      · next h => exact absurd rfl (h a b)
    -- The remainder always fits, so the check of the quotient alone decides.
    obtain ⟨r, hr⟩ := fits_remainder a.toInt hzero
    cases hquotient : int64? (a.toInt.tdiv b.toInt) with
    | none =>
      rw [hmodulo, hquotient, Option.elim_none]
      refine .failed "integer overflow in mod" fun n h => ?_
      obtain ⟨q, hq⟩ := (fits_quotient a b).2 h.2
      rw [hquotient] at hq
      cases hq
    | some q =>
      rw [hmodulo, hquotient, hr, Option.elim_some, Option.elim_some]
      have hfits := (fits_quotient a b).1 ⟨q, hquotient⟩
      refine .ofOption Value.integer_injective (some r) (fun n => ?_) (fun n hn => ?_)
        fun h => by cases h
      · rw [and_iff_left hfits, isRemainder_iff, ← hr, int64?_eq_some_iff]
        exact (and_iff_right hzero).symm
      · rw [Option.some.inj hn]

end Number

namespace Session

/-- **Arithmetic on two integers is exact or fails.** Each operation answers the integer that is the
result, and a failure where there is none or where it does not fit; nothing is changed. Only the
remainder of the least integer divided by `-1` is refused though it exists. -/
theorem apply_arithmetic :
    ∀ row ∈ arithmetic, ∀ (a b : Int64) (m : Machine),
      ∃ outcome, apply (Builtin.named row.1) [.integer a, .integer b] m = (outcome, m) ∧
        Answers .integer (fun n : Int64 => row.2 a.toInt b.toInt n.toInt ∧
          ¬(row.1 = "mod" ∧ a = Int64.minValue ∧ b = -1)) outcome := by
  intro row hrow a b m
  simp only [arithmetic, List.mem_cons, List.not_mem_nil, or_false] at hrow
  rcases hrow with rfl | rfl | rfl | rfl | rfl
  · let f := Builtin.function "+" 2 false [.number, .number] .add
    have hf : Builtin.find? "+" = some f := by decide
    refine ⟨_, apply_question hf rfl (List.cons_ne_nil _ _) rfl rfl, ?_⟩
    exact (Number.answers_combine m.store a b "+" (· + ·) (· + ·)).congr fun n => by simp
  · let f := Builtin.function "-" 2 false [.number, .number] .subtract
    have hf : Builtin.find? "-" = some f := by decide
    refine ⟨_, apply_question hf rfl (List.cons_ne_nil _ _) rfl rfl, ?_⟩
    exact (Number.answers_combine m.store a b "-" (· - ·) (· - ·)).congr fun n => by simp
  · let f := Builtin.function "*" 2 false [.number, .number] .multiply
    have hf : Builtin.find? "*" = some f := by decide
    refine ⟨_, apply_question hf rfl (List.cons_ne_nil _ _) rfl rfl, ?_⟩
    exact (Number.answers_combine m.store a b "*" (· * ·) (· * ·)).congr fun n => by simp
  · let f := Builtin.function "/" 2 false [.number, .number] .divide
    have hf : Builtin.find? "/" = some f := by decide
    refine ⟨_, apply_question hf rfl (List.cons_ne_nil _ _) rfl rfl, ?_⟩
    exact (Number.answers_divide m.store a b).congr fun n => by simp
  · let f := Builtin.function "mod" 2 false [.int, .int] .modulo
    have hf : Builtin.find? "mod" = some f := by decide
    refine ⟨_, apply_question hf rfl (List.cons_ne_nil _ _) rfl rfl, ?_⟩
    exact (Number.answers_modulo a b).congr fun n => by simp

/-- A quotient is rounded toward zero. -/
theorem apply_arithmetic_quotient :
    ("/", fun a b r : ℤ => b ≠ 0 ∧ r = a.tdiv b) ∈ arithmetic ∧
    (apply (Builtin.named "/") [.integer (-7), .integer 2] (.start .initial {} {})).1 =
      .ok (.integer (-3)) := by
  have hrow : ("/", fun a b r : ℤ => b ≠ 0 ∧ r = a.tdiv b) ∈ arithmetic := by simp [arithmetic]
  obtain ⟨outcome, hrun, hanswers⟩ := apply_arithmetic _ hrow (-7) 2 (.start .initial {} {})
  refine ⟨hrow, ?_⟩
  rw [hrun]
  exact (hanswers.ok_iff (-3)).2 ⟨⟨by decide, by decide⟩, fun h => absurd h.1 (by decide)⟩

/-- The remainder of the least integer divided by `-1` is zero, and it is refused. -/
theorem apply_arithmetic_refused :
    ∃ row ∈ arithmetic, row.1 = "mod" ∧
      row.2 Int64.minValue.toInt (-1 : Int64).toInt (0 : Int64).toInt ∧
      (apply (Builtin.named "mod") [.integer Int64.minValue, .integer (-1)]
        (.start .initial {} {})).1 = .error (.failure "integer overflow in mod") := by
  have hf : Builtin.find? "mod" = some (Builtin.function "mod" 2 false [.int, .int] .modulo) := by
    decide
  have hrun : apply (Builtin.named "mod") [.integer Int64.minValue, .integer (-1)]
      (.start .initial {} {}) = _ :=
    apply_question hf rfl (List.cons_ne_nil _ _) rfl rfl
  refine ⟨("mod", fun a b r => 0 ≤ r ∧ r < |b| ∧ b ∣ a - r), by simp [arithmetic], rfl, ?_, ?_⟩
  · exact ⟨by decide, by decide, by decide⟩
  · rw [hrun]
    rfl

end Session

end CurryLisp
