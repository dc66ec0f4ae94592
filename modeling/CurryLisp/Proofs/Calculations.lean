import CurryLisp.Application

/-!
# Calculations

Most pure functions make a plain value of their arguments: a number, a character or a truth value,
which has no parts, refers to no object and stands for no code. If one of them fails, it complains of
its arguments and not of an unknown name.
-/

namespace CurryLisp

/-- Whether a value is a number, a character or a truth value. -/
def Value.isPlain : Value → Bool
  | nil | truth | integer _ | float _ | char _ => true
  | _ => false

theorem Value.isPlain_ofBool (b : Bool) : (Value.ofBool b).isPlain = true := by
  cases b <;> rfl

/-- Whether an error complains of a name or of the head of an application. -/
def Error.isUnknown : Error → Bool
  | unboundSymbol _ | unboundType _ | notCallable _ => true
  | _ => false

/-- The outcome satisfies `P`, or it is an error that complains of no unknown name. -/
def Known {α : Type} (P : α → Prop) : Except Error α → Prop
  | .ok a => P a
  | .error e => e.isUnknown = false

/-- The outcome is a plain value, or an error that complains of no unknown name. -/
abbrev Calculated : Except Error Value → Prop := Known (·.isPlain = true)

section Calculations

variable {s : Store} {args : List Value}

theorem known_bind {α β : Type} {P : α → Prop} {Q : β → Prop} {r : Except Error α}
    {f : α → Except Error β} (hr : Known P r) (hf : ∀ a, P a → Known Q (f a)) :
    Known Q (r >>= f) := by
  cases r with
  | error e => exact hr
  | ok a => exact hf a hr

theorem Known.imp {α : Type} {P Q : α → Prop} {r : Except Error α} (h : Known P r)
    (hPQ : ∀ a, P a → Q a) : Known Q r := by
  cases r with
  | error e => exact h
  | ok a => exact hPQ a h

theorem Known.of_ok {α : Type} {P : α → Prop} {r : Except Error α} {a : α} (h : Known P r)
    (hr : r = .ok a) : P a := by
  rw [hr] at h
  exact h

theorem known_operands (name : String) (number? : Value → Option Number) :
    Known (fun _ => True) (Number.operands s name number? args) := by
  unfold Number.operands
  split
  · split
    · exact trivial
    · rfl
  · rfl

theorem calculated_combine (name : String) (exact : Int → Int → Int)
    (floats : Float → Float → Float) : Calculated (Number.combine s name exact floats args) := by
  refine known_bind (known_operands name _) fun numbers _ => ?_
  split
  · split
    · rfl
    · rfl
  · rfl

theorem calculated_divide : Calculated (Number.divide s args) := by
  unfold Number.divide
  split
  · rfl
  · exact calculated_combine _ _ _

theorem calculated_modulo : Calculated (Number.modulo args) := by
  unfold Number.modulo
  split
  · rfl
  · split
    · rfl
    · rfl
  · rfl

theorem calculated_compare (name : String) (integers : Int64 → Int64 → Bool)
    (floats : Float → Float → Bool) :
    Calculated (Number.compare s name integers floats args) := by
  refine known_bind (known_operands name _) fun numbers _ => ?_
  split
  · exact Value.isPlain_ofBool _
  · exact Value.isPlain_ofBool _

theorem calculated_equal : Calculated (Number.equal s args) := by
  unfold Number.equal
  split
  · split
    · exact Value.isPlain_ofBool _
    · exact Value.isPlain_ofBool _
    · exact Value.isPlain_ofBool _
  · rfl

theorem calculated_toInteger : Calculated (Number.toInteger s args) := by
  unfold Number.toInteger
  split
  · rfl
  · rfl
  · rfl
  · split
    · split
      · rfl
      · rfl
    · rfl

theorem calculated_toReal : Calculated (Number.toReal args) := by
  unfold Number.toReal
  split
  · split
    · rfl
    · rfl
  · rfl

theorem calculated_charOfInteger (v : Value) : Calculated (Number.charOfInteger s v) := by
  unfold Number.charOfInteger
  split
  · split
    · rfl
    · rfl
  · rfl

theorem calculated_toCharacter : Calculated (Number.toCharacter s args) := by
  unfold Number.toCharacter
  split
  · rfl
  · rfl
  · exact known_bind calculated_toInteger fun v _ => calculated_charOfInteger v
  · exact calculated_charOfInteger _

theorem calculated_applyFunction (f : MathFunction) :
    Calculated (Number.applyFunction f args) := by
  unfold Number.applyFunction
  split
  · split
    · split
      · rfl
      · rfl
    · rfl
  · rfl
  · rfl

theorem calculated_negate : Calculated (Builtin.negate args) := by
  unfold Builtin.negate
  split
  · exact Value.isPlain_ofBool _
  · rfl

/-- What holds of every type holds of the type of a value. -/
theorem known_typeOf {P : Value → Prop} (htype : ∀ tag, P (.type tag)) :
    Known P (Builtin.typeOf s args) := by
  unfold Builtin.typeOf
  split
  · exact htype _
  · rfl

theorem calculated_isType : Calculated (Builtin.isType s args) := by
  unfold Builtin.isType
  split
  · exact Value.isPlain_ofBool _
  · rfl

theorem calculated_length : Calculated (Builtin.length s args) := by
  unfold Builtin.length
  split
  · dsimp only
    split
    · split
      · refine known_bind (P := fun _ => True) trivial fun n _ => ?_
        split <;> rfl
      · rfl
    · split
      · refine known_bind (P := fun _ => True) trivial fun n _ => ?_
        split <;> rfl
      · rfl
    · refine known_bind (P := fun _ => True) trivial fun n _ => ?_
      split <;> rfl
    · refine known_bind (P := fun _ => True) trivial fun n _ => ?_
      split <;> rfl
    · rfl
  · rfl

theorem known_arrayIndex (name : String) (index : Value) (length : Nat) :
    Known (fun _ => True) (Builtin.arrayIndex name index length) := by
  unfold Builtin.arrayIndex
  split
  · split
    · exact trivial
    · rfl
  · rfl

theorem isPlain_isNil (args : List Value) : (Builtin.isNil args).isPlain = true := by
  unfold Builtin.isNil
  split
  · exact Value.isPlain_ofBool _
  · rfl

/-- What holds of plain values and of the elements of vectors holds of an element of an array. -/
theorem known_elementAt {P : Value → Prop} (hplain : ∀ v, v.isPlain = true → P v)
    (hs : ∀ a, ∀ v ∈ s.vector a, P v) : Known P (Builtin.elementAt s args) := by
  unfold Builtin.elementAt
  split
  · split
    · next a =>
      refine known_bind (known_arrayIndex _ _ _) fun i _ => ?_
      show P ((s.vector a).getD i .nil)
      rw [Array.getD_eq_getD_getElem?]
      cases hfound : (s.vector a)[i]? with
      | none => exact hplain .nil rfl
      | some v => exact hs a v (Array.mem_of_getElem? hfound)
    · exact known_bind (known_arrayIndex _ _ _) fun i _ => hplain _ rfl
    · rfl
  · rfl

/-- What holds of `nil` and of all arguments holds of the last one. -/
theorem holds_last {P : Value → Prop} (hnil : P .nil) (hargs : ∀ v ∈ args, P v) :
    P (Builtin.last args) := by
  unfold Builtin.last
  cases hlast : args.getLast? with
  | none => exact hnil
  | some v => exact hargs v (List.mem_of_getLast? hlast)

/-- The argument at a position is one of the arguments, or `nil`. -/
theorem holds_getD {P : Value → Prop} (hnil : P .nil) (hargs : ∀ v ∈ args, P v) (position : Nat) :
    P (args.getD position .nil) := by
  rw [List.getD_eq_getElem?_getD]
  cases hv : args[position]? with
  | none => exact hnil
  | some v => exact hargs v (List.mem_of_getElem? hv)

end Calculations

/-! ## Operations that ask -/

/-- Whether an operation looks at its arguments and at objects only. -/
def Operation.isQuestion : Operation → Bool
  | length | add | subtract | multiply | divide | modulo | equal | less | greater | negate
  | toInteger | toFloat | toCharacter | typeOf | isType | elementAt | math _ => true
  | _ => false

/-- The answer to a question is a plain value, a type or an item of a vector, however expressions are
evaluated. -/
theorem Operation.exists_ask {op : Operation} (h : op.isQuestion = true) (args : List Value) :
    ∃ f : Store → Except Error Value, (∀ visit, op.run visit args = Eval.ask f) ∧
      ∀ (P : Value → Prop) (s : Store), (∀ v, v.isPlain = true → P v) → (∀ tag, P (.type tag)) →
        (∀ a, ∀ v ∈ s.vector a, P v) → Known P (f s) := by
  cases op
  -- Questions are the operations that are left, and each of them asks by definition.
  all_goals cases h
  all_goals refine ⟨_, fun _ => by rw [Operation.run], fun P s hplain htype hvector => ?_⟩
  case length => exact calculated_length.imp hplain
  case add | subtract | multiply => exact (calculated_combine _ _ _).imp hplain
  case divide => exact calculated_divide.imp hplain
  case modulo => exact calculated_modulo.imp hplain
  case equal => exact calculated_equal.imp hplain
  case less | greater => exact (calculated_compare _ _ _).imp hplain
  case negate => exact calculated_negate.imp hplain
  case toInteger => exact calculated_toInteger.imp hplain
  case toFloat => exact calculated_toReal.imp hplain
  case toCharacter => exact calculated_toCharacter.imp hplain
  case isType => exact calculated_isType.imp hplain
  case math f => exact (calculated_applyFunction f).imp hplain
  case typeOf => exact known_typeOf htype
  case elementAt => exact known_elementAt hplain hvector

end CurryLisp
