import CurryLisp.Proofs.Currying
import CurryLisp.Proofs.Dialogue
import CurryLisp.Proofs.StructTypes

/-!
# What the check of arguments promises

A type stands for certain representations of a value (`BaseType.represents`), but the check compares
names only. A quote passes for what it quotes, and a struct passes for every type that is named like the
struct or like one that it descends from. There is nothing else: an argument that passes the check is,
below its quotes, represented as the declared type says, or it is such a struct.

Statements:

* `Invariant.named`: the ancestry of every struct is made of the names of structs, and evaluation keeps
  that so,
* `Value.hasType_iff`: which values have a base type,
* `Application.perform_misfit`: what a builtin function answers where it has no rule for an argument,
* `Session.checked_arguments`: in every state of a session, arguments that pass the check are represented
  as declared or are quotes or structs, and only these come to where a function has no rule.
-/

namespace CurryLisp

open SpecialForm (Visit)

/-! ## Representations -/

/-- What is quoted, below all quotes. -/
def Value.unquoted : Value → Value
  | .quoted inner => inner.unquoted
  | v => v

theorem Value.typeTag_unquoted (s : Store) (v : Value) : v.unquoted.typeTag s = v.typeTag s := by
  induction v with
  | quoted inner ih => exact ih
  | _ => rfl

theorem Value.unquoted_eq_or (v : Value) : v.unquoted = v ∨ ∃ inner, v = .quoted inner := by
  cases v with
  | quoted inner => exact .inr ⟨inner, rfl⟩
  | _ => exact .inl rfl

theorem Value.unquoted_ne_quoted (v inner : Value) : v.unquoted ≠ .quoted inner := by
  induction v with
  | quoted inner ih => exact ih
  | _ => exact nofun

theorem Value.Valid.unquoted {s : Store} {v : Value} (h : v.Valid s) : v.unquoted.Valid s := by
  induction v with
  | quoted inner ih => exact ih h
  | _ => exact h

namespace BaseType

/-- Whether a type stands for this representation of a value. -/
def represents : BaseType → Value → Bool
  | any, _ => true
  | atom, .truth | atom, .symbol _ | atom, .type _ | atom, .closure _ | atom, .native _ => true
  | atom, .integer _ | atom, .float _ | atom, .char _ | atom, .string _ | atom, .vector _ => true
  | cons, .nil | cons, .pair .. => true
  | nil, .nil => true
  | truth, .truth => true
  | symbol, .symbol _ => true
  | type, .type _ => true
  | function, .closure _ | function, .native _ => true
  | primitive, .integer _ | primitive, .float _ | primitive, .char _ => true
  | number, .integer _ | number, .float _ => true
  | int, .integer _ => true
  | float, .float _ => true
  | char, .char _ => true
  | array, .string _ | array, .vector _ => true
  | string, .string _ => true
  | vector, .vector _ => true
  | struct, .struct _ => true
  | _, _ => false

theorem name_injective {b c : BaseType} (h : b.name = c.name) : b = c := by
  cases b <;> cases c <;> first | rfl | exact absurd h (by decide)

/-- Among base types the check is about the tree of types. -/
theorem isSupertypeOf_tag (b c : BaseType) :
    b.tag.isSupertypeOf c.tag = (b == c || c.ancestors.contains b) := by
  cases b <;> cases c <;> rfl

/-- A value that is no quote and no struct has exactly the base types that stand for it. -/
theorem hasType_plain (s : Store) (b : BaseType) {v : Value} (hquoted : ∀ inner, v ≠ .quoted inner)
    (hstruct : ∀ a, v ≠ .struct a) : v.hasType s b.tag = b.represents v := by
  unfold Value.hasType
  cases v with
  | quoted inner => exact absurd rfl (hquoted inner)
  | struct a => exact absurd rfl (hstruct a)
  | _ =>
    simp only [Value.typeTag, isSupertypeOf_tag]
    cases b <;> rfl

end BaseType

/-! ## Ancestries of structs -/

/-- The struct descends from structs of these names, nearest first. -/
def Struct.Descends (struct : Struct) (names : List String) : Prop :=
  struct.tag.chain = (struct.name :: names).map Struct.typeName ++
    [BaseType.struct.name, BaseType.any.name]

/-- The ancestry of the struct is made of the names of structs. -/
def Struct.Named (struct : Struct) : Prop := ∃ names, struct.Descends names

/-- The ancestry of every struct is made of the names of structs. -/
def Store.Named (s : Store) : Prop := ∀ struct ∈ s.structs, struct.Named

namespace Struct

variable {s s' : Store} {name : String} {specs : List FieldSpec} {struct : Struct}

theorem define_named (h : define s name specs = .ok struct) : struct.Named := by
  obtain ⟨fields, -, rfl⟩ := define_ok h
  exact ⟨[], rfl⟩

/-- Copies keep the names of what they are copied from. -/
theorem CopyRun.named {source made made' : Array Struct} {path : List Address}
    {entries copied : List (String × Field)} (h : CopyRun source path made entries copied made')
    (hsource : ∀ struct ∈ source, struct.Named) (hmade : ∀ struct ∈ made, struct.Named) :
    ∀ struct ∈ made', struct.Named := by
  induction h with
  | nil => exact hmade
  | keep _ _ ih => exact ih hmade
  | copy _ _ ha _ _ ihFields ihRest =>
    have hinner := hsource _ (Array.mem_of_getElem? ha)
    refine ihRest fun struct h => ?_
    rcases Array.mem_push.1 h with h | rfl
    · exact ihFields hmade struct h
    · exact hinner

end Struct

namespace Store.Named

variable {s s' : Store} (hs : s.Named)
include hs

theorem copyFields (struct : Struct) : (s.copyFields struct).2.Named :=
  (Struct.copyRun_copyFields s.structs [] s.structs struct.fields.entries).named hs hs

theorem copyStruct {struct : Struct} (hstruct : struct.Named) : (s.copyStruct struct).2.Named := by
  intro found hfound
  rcases Array.mem_push.1 hfound with hfound | rfl
  · exact hs.copyFields struct found hfound
  · exact hstruct

/-- A struct below another one descends from it and its ancestors. -/
theorem derive {name : String} {parent struct : Struct} {specs : List FieldSpec}
    (hparent : parent.Named) (h : Struct.derive s name parent specs = .ok (struct, s')) :
    s'.Named ∧ struct.Named := by
  obtain ⟨rfl, fields, -, rfl⟩ := Struct.derive_ok h
  obtain ⟨names, hnames⟩ := hparent
  refine ⟨hs.copyFields parent, parent.name :: names, ?_⟩
  exact congrArg (Struct.typeName name :: ·) hnames

theorem setField {a : Address} {name : String} {value v : Value}
    (h : s.setField a name value = .ok (v, s')) : s'.Named := by
  obtain ⟨-, rfl, -⟩ := Store.setField_ok h
  intro found hfound
  simp only [Store.setFieldValue] at hfound
  rcases Store.Valid.mem_modify hfound with hfound | ⟨old, hold, rfl⟩
  · exact hs found hfound
  · split
    · exact hs old hold
    · exact hs old hold

end Store.Named

/-- The ancestry of every struct is made of the names of structs. -/
def Invariant.named : Invariant where
  environment := fun _ => True
  struct := fun _ => Struct.Named

instance Invariant.named_lawful : Invariant.named.Lawful where
  empty := trivial
  put := fun _ _ _ => trivial
  remove := fun _ _ => trivial
  putType := fun _ _ => trivial
  putStruct := fun _ _ _ => trivial
  grows := fun _ _ hstruct => hstruct
  define := Struct.define_named
  derive := fun _ hobjects _ hparent _ h => by
    obtain ⟨hnamed, hstruct⟩ := Store.Named.derive hobjects.structs hparent h
    exact ⟨⟨hnamed, fun _ _ => trivial⟩, hstruct⟩
  copy := fun _ hobjects _ hstruct =>
    ⟨Store.Named.copyStruct hobjects.structs hstruct, fun _ _ => trivial⟩
  setField := fun _ hobjects _ h => ⟨Store.Named.setField hobjects.structs h, fun _ _ => trivial⟩

/-- A struct whose own name, or that of a struct it descends from, reads like the base type. -/
def Struct.Resembles (struct : Struct) (b : BaseType) : Prop :=
  ∃ names, struct.Descends names ∧ ∃ name ∈ struct.name :: names, Struct.typeName name = b.name

/-- A struct has the type of all structs, that of all values, and those that it resembles. -/
theorem Struct.Named.isSupertypeOf_iff {struct : Struct} (h : struct.Named) (b : BaseType) :
    b.tag.isSupertypeOf struct.tag = true ↔
      b = .struct ∨ b = .any ∨ struct.Resembles b := by
  have hchain : b.tag.isSupertypeOf struct.tag = true ↔ b.name ∈ struct.tag.chain := by
    simp [TypeTag.isSupertypeOf, BaseType.tag]
  rw [hchain]
  constructor
  · obtain ⟨names, hnames⟩ := h
    rw [hnames]
    intro hmem
    rcases List.mem_append.1 hmem with hname | hbase
    · exact .inr (.inr ⟨names, hnames, List.mem_map.1 hname⟩)
    · rcases List.mem_cons.1 hbase with hbase | hbase
      · exact .inl (BaseType.name_injective hbase)
      · exact .inr (.inl (BaseType.name_injective (List.mem_singleton.1 hbase)))
  · rintro (rfl | rfl | ⟨names, hnames, hname⟩)
    · obtain ⟨names, hnames⟩ := h
      rw [hnames]
      simp
    · obtain ⟨names, hnames⟩ := h
      rw [hnames]
      simp
    · rw [hnames]
      exact List.mem_append_left _ (List.mem_map.2 hname)

/-- **What has a base type**: below its quotes, what the type stands for, or a struct that resembles
it. -/
theorem Value.hasType_iff {s : Store} (hs : s.Named) (b : BaseType) {v : Value} (hv : v.Valid s) :
    v.hasType s b.tag = true ↔ b.represents v.unquoted = true ∨
      ∃ a, v.unquoted = .struct a ∧ (s.struct a).Resembles b := by
  have hunquoted : v.hasType s b.tag = v.unquoted.hasType s b.tag := by
    unfold Value.hasType
    rw [Value.typeTag_unquoted]
  rw [hunquoted]
  by_cases hstruct : ∃ a, v.unquoted = .struct a
  · obtain ⟨a, ha⟩ := hstruct
    have hsize : a < s.structs.size := by simpa [ha, Value.Valid] using hv.unquoted
    have hnamed : (s.struct a).Named := hs _ (by simp [Store.struct, Array.getD_eq_getD_getElem?, hsize])
    rw [ha]
    refine (hnamed.isSupertypeOf_iff b).trans ?_
    have hrepresents : b.represents (.struct a) = true ↔ b = .struct ∨ b = .any := by
      cases b <;> simp [BaseType.represents]
    rw [hrepresents, or_assoc]
    simp
  · rw [BaseType.hasType_plain s b v.unquoted_ne_quoted (not_exists.1 hstruct)]
    refine ⟨.inl, ?_⟩
    rintro (h | ⟨a, ha, -⟩)
    · exact h
    · exact absurd ⟨a, ha⟩ hstruct

/-! ## Where a function has no rule -/

namespace Operation

/-- The refusal of operands that are no numbers. -/
def notNumbers (s : Store) (name : String) (x y : Value) : Except Error Value :=
  .error (.failure (name ++ ": expected numbers, got " ++ x.write s ++ " and " ++ y.write s))

/-- What an operation answers where it has no rule for the representation of an argument whose type it
declares. -/
def misfit? (s : Store) : Operation → List Value → Option (Except Error Value)
  | .car, [v] | .cdr, [v] => if BaseType.cons.represents v then none else some (.ok .nil)
  | .add, [x, y] => numbers .number "+" x y
  | .subtract, [x, y] => numbers .number "-" x y
  | .multiply, [x, y] => numbers .number "*" x y
  | .divide, [x, y] => numbers .number "/" x y
  | .less, [x, y] => numbers .primitive "<" x y
  | .greater, [x, y] => numbers .primitive ">" x y
  | .modulo, [x, y] =>
    if BaseType.int.represents x && BaseType.int.represents y then none
    else some (.error (.failure "mod: expected two integers"))
  | .toInteger, [v] =>
    if BaseType.primitive.represents v then none
    else some (.error (.failure ("int: cannot convert " ++ v.write s)))
  | .toFloat, [v] =>
    if BaseType.primitive.represents v then none
    else some (.error (.failure "float: expected a primitive value"))
  | .toCharacter, [v] =>
    if BaseType.primitive.represents v then none
    else some (.error (.failure ("char: cannot convert " ++ v.write s)))
  | .isType, [t, _] =>
    if BaseType.type.represents t then none
    else some (.error (.failure "is?: expected a type and a value"))
  | .elementAt, [array, index] => array? "aref" array index
  | .setElement, [array, index, value] =>
    -- What a string cannot hold is refused before the index is looked at.
    if BaseType.string.represents array && !BaseType.char.represents value then none
    else array? "aset" array index
  | .append, [array, _] =>
    if BaseType.array.represents array then none
    else some (.error (Builtin.notAnArray s "append!" array))
  | .apply, [_, items] =>
    if BaseType.cons.represents items then none
    else some (.error (.malformedList (items.write s)))
  | _, _ => none
where
  /-- Two operands of this type. -/
  numbers (b : BaseType) (name : String) (x y : Value) : Option (Except Error Value) :=
    if b.represents x && b.represents y then none else some (notNumbers s name x y)
  /-- An array and an index into it. -/
  array? (name : String) (array index : Value) : Option (Except Error Value) :=
    if !BaseType.array.represents array then some (.error (Builtin.notAnArray s name array))
    else if !BaseType.int.represents index then
      some (.error (.failure (name ++ ": index must be an integer")))
    else none

/-- The types that an operation relies on. -/
def operandTypes : Operation → List BaseType
  | .car | .cdr => [.cons]
  | .add | .subtract | .multiply | .divide => [.number, .number]
  | .modulo => [.int, .int]
  | .less | .greater => [.primitive, .primitive]
  | .toInteger | .toFloat | .toCharacter => [.primitive]
  | .isType => [.type, .any]
  | .elementAt => [.array, .int]
  | .setElement => [.array, .int, .any]
  | .append => [.array, .any]
  | .apply => [.any, .cons]
  | _ => []

section Misfits

variable {s : Store} {args : List Value} {r x : Except Error Value}

/-- A condition that rules out an answer has failed where that answer is given. -/
theorem unless_eq_some {fits : Bool} (h : (if fits then none else some x) = some r) :
    fits = false ∧ x = r := by
  cases fits with
  | true => cases h
  | false => exact ⟨rfl, Option.some.inj h⟩

theorem numbers_eq_some {b : BaseType} {name : String} {x y : Value}
    (h : misfit?.numbers s b name x y = some r) :
    (b.represents x = false ∨ b.represents y = false) ∧ notNumbers s name x y = r := by
  obtain ⟨hfits, hr⟩ := unless_eq_some h
  exact ⟨Bool.and_eq_false_iff.1 hfits, hr⟩

theorem array?_eq_some {name : String} {array index : Value}
    (h : misfit?.array? s name array index = some r) :
    (BaseType.array.represents array = false ∧ .error (Builtin.notAnArray s name array) = r) ∨
      BaseType.array.represents array = true ∧ BaseType.int.represents index = false ∧
        .error (.failure (name ++ ": index must be an integer")) = r := by
  unfold misfit?.array? at h
  cases harray : BaseType.array.represents array with
  | false =>
    rw [harray] at h
    exact .inl ⟨rfl, Option.some.inj h⟩
  | true =>
    cases hindex : BaseType.int.represents index with
    | false =>
      rw [harray, hindex] at h
      exact .inr ⟨rfl, rfl, Option.some.inj h⟩
    | true =>
      rw [harray, hindex] at h
      cases h

/-- An operation has no rule for an argument only if that is not represented as its type says. -/
theorem exists_of_misfit {op : Operation} (h : op.misfit? s args = some r) :
    ∃ (i : Nat) (b : BaseType) (v : Value),
      op.operandTypes[i]? = some b ∧ args[i]? = some v ∧ b.represents v = false := by
  unfold misfit? at h
  split at h
  case h_1 | h_2 | h_10 | h_11 | h_12 | h_13 | h_16 =>
    exact ⟨0, _, _, rfl, rfl, (unless_eq_some h).1⟩
  case h_3 | h_4 | h_5 | h_6 | h_7 | h_8 =>
    rcases (numbers_eq_some h).1 with hx | hy
    · exact ⟨0, _, _, rfl, rfl, hx⟩
    · exact ⟨1, _, _, rfl, rfl, hy⟩
  case h_9 =>
    rcases Bool.and_eq_false_iff.1 (unless_eq_some h).1 with hx | hy
    · exact ⟨0, _, _, rfl, rfl, hx⟩
    · exact ⟨1, _, _, rfl, rfl, hy⟩
  case h_14 =>
    rcases array?_eq_some h with ⟨harray, -⟩ | ⟨-, hindex, -⟩
    · exact ⟨0, _, _, rfl, rfl, harray⟩
    · exact ⟨1, _, _, rfl, rfl, hindex⟩
  case h_15 =>
    split at h
    · cases h
    · rcases array?_eq_some h with ⟨harray, -⟩ | ⟨-, hindex, -⟩
      · exact ⟨0, _, _, rfl, rfl, harray⟩
      · exact ⟨1, _, _, rfl, rfl, hindex⟩
  case h_17 => exact ⟨1, _, _, rfl, rfl, (unless_eq_some h).1⟩
  case h_18 => cases h

end Misfits

end Operation

namespace Number

variable {s : Store} {name : String} {x y : Value}

theorem ofValue?_eq_none (h : BaseType.number.represents x = false) : ofValue? x = none := by
  cases x <;> first | rfl | cases h

theorem ofPrimitive?_eq_none (h : BaseType.primitive.represents x = false) :
    ofPrimitive? x = none := by
  cases x <;> first | rfl | cases h

theorem operands_misfit {number? : Value → Option Number} (h : number? x = none ∨ number? y = none) :
    operands s name number? [x, y] = .error (.failure
      (name ++ ": expected numbers, got " ++ x.write s ++ " and " ++ y.write s)) := by
  unfold operands
  cases hx : number? x with
  | none => simp only [hx]
  | some a =>
    rcases h with h | h
    · cases hx.symm.trans h
    · simp only [hx, h]

theorem combine_misfit (exact : Int → Int → Int) (floats : Float → Float → Float)
    (h : BaseType.number.represents x = false ∨ BaseType.number.represents y = false) :
    combine s name exact floats [x, y] = Operation.notNumbers s name x y := by
  unfold combine
  rw [operands_misfit (h.imp ofValue?_eq_none ofValue?_eq_none)]
  rfl

theorem divide_misfit
    (h : BaseType.number.represents x = false ∨ BaseType.number.represents y = false) :
    divide s [x, y] = Operation.notNumbers s "/" x y := by
  unfold divide
  split
  · next hargs =>
    simp only [List.cons.injEq] at hargs
    obtain ⟨rfl, rfl, -⟩ := hargs
    rcases h with h | h <;> cases h
  · exact combine_misfit _ _ h

theorem compare_misfit (integers : Int64 → Int64 → Bool) (floats : Float → Float → Bool)
    (h : BaseType.primitive.represents x = false ∨ BaseType.primitive.represents y = false) :
    compare s name integers floats [x, y] = Operation.notNumbers s name x y := by
  unfold compare
  rw [operands_misfit (h.imp ofPrimitive?_eq_none ofPrimitive?_eq_none)]
  rfl

theorem modulo_misfit (h : BaseType.int.represents x = false ∨ BaseType.int.represents y = false) :
    modulo [x, y] = .error (.failure "mod: expected two integers") := by
  unfold modulo
  split
  · next hargs =>
    simp only [List.cons.injEq] at hargs
    obtain ⟨rfl, rfl, -⟩ := hargs
    rcases h with h | h <;> cases h
  · next hargs =>
    simp only [List.cons.injEq] at hargs
    obtain ⟨rfl, rfl, -⟩ := hargs
    rcases h with h | h <;> cases h
  · rfl

end Number

namespace Builtin

variable {s : Store} {array index value : Value}

theorem arrayIndex_misfit (name : String) (length : Nat) (h : BaseType.int.represents index = false) :
    arrayIndex name index length = .error (.failure (name ++ ": index must be an integer")) := by
  cases index <;> first | rfl | cases h

theorem elementAt_misfit {r : Except Error Value}
    (h : Operation.misfit?.array? s "aref" array index = some r) : elementAt s [array, index] = r := by
  rcases Operation.array?_eq_some h with ⟨harray, rfl⟩ | ⟨harray, hindex, rfl⟩
  · cases array <;> first | rfl | cases harray
  · cases array with
    | vector a => exact congrArg (· >>= _) (arrayIndex_misfit "aref" _ hindex)
    | string a => exact congrArg (· >>= _) (arrayIndex_misfit "aref" _ hindex)
    | _ => cases harray

theorem setElement_misfit {r : Except Error Value}
    (hstring : (BaseType.string.represents array && !BaseType.char.represents value) = false)
    (h : Operation.misfit?.array? s "aset" array index = some r) :
    ∃ e, r = .error e ∧ setElement s [array, index, value] = .error e := by
  rcases Operation.array?_eq_some h with ⟨harray, rfl⟩ | ⟨harray, hindex, rfl⟩
  · refine ⟨_, rfl, ?_⟩
    cases array <;> first | rfl | cases harray
  · refine ⟨_, rfl, ?_⟩
    cases array with
    | vector a => exact congrArg (· >>= _) (arrayIndex_misfit "aset" _ hindex)
    | string a =>
      cases value with
      | char c => exact congrArg (· >>= _) (arrayIndex_misfit "aset" _ hindex)
      | _ => cases hstring
    | _ => cases harray

/-- Every builtin function declares the types that its operation relies on. -/
theorem types_eq : ∀ f ∈ all,
    f.types = f.operation.operandTypes.map BaseType.tag ∧ f.types.length ≤ f.arity := by
  decide

end Builtin

/-- Where an operation that applies nothing has no rule for an argument, it answers this and changes
nothing. -/
theorem Operation.run_misfit (visit : Visit) {op : Operation} (hop : op ≠ .apply)
    {args : List Value} {m : Machine} {r : Except Error Value}
    (h : op.misfit? m.store args = some r) : op.run visit args m = (r, m) := by
  -- One case for each rule, in the order in which they are listed, and one where there is none.
  unfold misfit? at h
  split at h
  case h_1 v | h_2 v | h_10 v | h_11 v | h_12 v =>
    obtain ⟨hfits, rfl⟩ := unless_eq_some h
    cases v <;> first | rfl | cases hfits
  case h_3 | h_4 | h_5 =>
    obtain ⟨hfits, rfl⟩ := numbers_eq_some h
    exact congrArg (·, m) (Number.combine_misfit _ _ hfits)
  case h_6 =>
    obtain ⟨hfits, rfl⟩ := numbers_eq_some h
    exact congrArg (·, m) (Number.divide_misfit hfits)
  case h_7 | h_8 =>
    obtain ⟨hfits, rfl⟩ := numbers_eq_some h
    exact congrArg (·, m) (Number.compare_misfit _ _ hfits)
  case h_9 =>
    obtain ⟨hfits, rfl⟩ := unless_eq_some h
    exact congrArg (·, m) (Number.modulo_misfit (Bool.and_eq_false_iff.1 hfits))
  case h_13 t v =>
    obtain ⟨hfits, rfl⟩ := unless_eq_some h
    cases t <;> first | rfl | cases hfits
  case h_14 => exact congrArg (·, m) (Builtin.elementAt_misfit h)
  case h_15 =>
    split at h
    · cases h
    · next hstring =>
      obtain ⟨e, rfl, hset⟩ := Builtin.setElement_misfit (Bool.eq_false_iff.2 hstring) h
      simp only [run, Eval.onStore, hset]
  case h_16 array value =>
    obtain ⟨hfits, rfl⟩ := unless_eq_some h
    have happend : Builtin.append m.store [array, value] =
        .error (Builtin.notAnArray m.store "append!" array) := by
      cases array <;> first | rfl | cases hfits
    simp only [run, Eval.onStore, happend]
  case h_17 => exact absurd rfl hop
  case h_18 => cases h

/-- So does every operation. -/
theorem Application.perform_misfit (visit : Visit) {op : Operation} {args : List Value} {m : Machine}
    {r : Except Error Value} (h : op.misfit? m.store args = some r) :
    perform visit op args m = (r, m) := by
  by_cases hop : op = .apply
  · subst hop
    rcases args with _ | ⟨f, _ | ⟨items, _ | _⟩⟩
    · cases h
    · cases h
    · obtain ⟨hfits, rfl⟩ := Operation.unless_eq_some h
      have himproper : items.toList? = none := by
        cases items <;> first | rfl | cases hfits
      rw [perform_improper himproper, Eval.bind_apply, Eval.store_apply]
      rfl
    · cases h
  · have hhost : ∀ slot, op ≠ .host slot := by
      rintro slot rfl
      cases h
    rw [perform_run op hop hhost]
    exact Operation.run_misfit visit hop h

/-! ## Arguments that pass the check -/

/-- Arguments that pass the check have the types that are declared for their places. -/
theorem Callable.hasType_of_checked {s : Store} {f : NativeFunction} {args : List Value}
    (htypes : f.types.length ≤ f.arity) (h : (Callable.native f).checkArguments s args = .ok ())
    {i : Nat} {tag : TypeTag} {v : Value} (htag : f.types[i]? = some tag) (hv : args[i]? = some v) :
    v.hasType s tag = true := by
  have hi : i < f.arity := Nat.lt_of_lt_of_le (List.getElem?_eq_some_iff.1 htag).1 htypes
  have hslot : (tag, v) ∈ (f.types.zip args).take f.arity := by
    refine List.mem_of_getElem? (i := i) ?_
    rw [List.getElem?_take_of_lt hi, List.getElem?_zip_eq_some]
    exact ⟨htag, hv⟩
  unfold Callable.checkArguments at h
  split at h
  · next hnone =>
    have hall := List.findIdx?_eq_none_iff.1 hnone (tag, v) hslot
    simpa using hall
  · cases h

namespace Session

/-- **What the check of arguments promises**, in every state of a session and for every builtin function.
An argument that passes is represented as the declared type says, below its quotes, or it is a struct
that resembles the type. Where the function has no rule for an argument that passed, one of the checked
arguments is a quote or a struct. -/
theorem checked_arguments {m : Machine} (hm : m.Valid) (hnamed : m.store.Named) {acts : List Act}
    (h : ActsValid m acts) {f : NativeFunction} (hf : f ∈ Builtin.all) {args : List Value}
    (hargs : Value.AllValid (after m acts).store args)
    (hcheck : (Callable.native f).checkArguments (after m acts).store args = .ok ()) :
    (∀ (i : Nat) (b : BaseType) (v : Value), f.types[i]? = some b.tag → args[i]? = some v →
      b.represents v.unquoted = true ∨
        ∃ a, v.unquoted = .struct a ∧ ((after m acts).store.struct a).Resembles b) ∧
    ∀ r, f.operation.misfit? (after m acts).store args = some r →
      (∀ visit, Application.perform visit f.operation args (after m acts) = (r, after m acts)) ∧
      ∃ (i : Nat) (b : BaseType) (v : Value), f.types[i]? = some b.tag ∧ args[i]? = some v ∧
        ((∃ inner, v = .quoted inner) ∨ ∃ a, v = .struct a) := by
  have hupholds : m.Upholds .named :=
    { hm with
      objects := ⟨hnamed, fun _ _ => trivial⟩
      outermost := trivial
      scopes := fun _ _ => trivial }
  have hstructs : (after m acts).store.Named := (after_upholds hupholds h).2.objects.structs
  obtain ⟨htypes, hchecked⟩ := Builtin.types_eq f hf
  have hrepresented : ∀ (i : Nat) (b : BaseType) (v : Value), f.types[i]? = some b.tag →
      args[i]? = some v → b.represents v.unquoted = true ∨
        ∃ a, v.unquoted = .struct a ∧ ((after m acts).store.struct a).Resembles b := by
    intro i b v htag hv
    have htype := Callable.hasType_of_checked hchecked hcheck htag hv
    exact (Value.hasType_iff hstructs b (hargs v (List.mem_of_getElem? hv))).1 htype
  refine ⟨hrepresented, fun r hr => ⟨fun visit => Application.perform_misfit visit hr, ?_⟩⟩
  obtain ⟨i, b, v, hb, hv, hmisfit⟩ := Operation.exists_of_misfit hr
  have htag : f.types[i]? = some b.tag := by rw [htypes, List.getElem?_map, hb]; rfl
  refine ⟨i, b, v, htag, hv, ?_⟩
  -- Without a quote, the argument that has no rule is no value of its type, so it passed as a struct.
  rcases v.unquoted_eq_or with hplain | hquoted
  · rcases hrepresented i b v htag hv with hrepresents | ⟨a, ha, -⟩
    · rw [hplain, hmisfit] at hrepresents
      cases hrepresents
    · exact .inr ⟨a, hplain.symm.trans ha⟩
  · exact .inl hquoted

/-- A quoted number passes for a number, and so does a struct that is called `number`. -/
theorem checked_arguments_sum :
    let m := after (.start .initial {} {}) [.define "number" []]
    let sum := Builtin.function "+" 2 false [.number, .number] .add
    sum ∈ Builtin.all ∧
    (Callable.native sum).checkArguments m.store [.quoted (.integer 1), .struct 0] = .ok () ∧
    (∀ (i : Nat) (b : BaseType) (v : Value), sum.types[i]? = some b.tag →
      [Value.quoted (.integer 1), .struct 0][i]? = some v →
      b.represents v.unquoted = true ∨
        ∃ a, v.unquoted = .struct a ∧ (m.store.struct a).Resembles b) ∧
    ∃ (i : Nat) (b : BaseType) (v : Value), sum.types[i]? = some b.tag ∧
      [Value.quoted (.integer 1), .struct 0][i]? = some v ∧
        ((∃ inner, v = .quoted inner) ∨ ∃ a, v = .struct a) := by
  intro m sum
  have hsum : sum ∈ Builtin.all := by decide
  have hnamed : (Machine.start .initial {} {}).store.Named := fun _ h => by
    simp [Machine.start] at h
  have hacts : ActsValid (.start .initial {} {}) [.define "number" []] :=
    ⟨fun _ h => absurd h List.not_mem_nil, trivial⟩
  have hargs : Value.AllValid m.store [.quoted (.integer 1), .struct 0] := by
    intro v hv
    rcases List.mem_cons.1 hv with rfl | hv
    · trivial
    · rw [List.mem_singleton.1 hv]
      exact Nat.zero_lt_one
  have hcheck : (Callable.native sum).checkArguments m.store [.quoted (.integer 1), .struct 0] =
      .ok () := rfl
  have hmisfit : sum.operation.misfit? m.store [.quoted (.integer 1), .struct 0] =
      some (.error (.failure "+: expected numbers, got '1 and #<struct number>")) := rfl
  obtain ⟨hrepresented, hrule⟩ := checked_arguments (.start .empty) hnamed hacts hsum hargs hcheck
  exact ⟨hsum, hcheck, hrepresented, (hrule _ hmisfit).2⟩

/-- Neither of the two is a number, and only the function itself refuses to add them. -/
theorem checked_arguments_refused :
    let m := after (.start .initial {} {}) [.define "number" []]
    let sum := Builtin.function "+" 2 false [.number, .number] .add
    sum ∈ Builtin.all ∧ [Value.quoted (.integer 1), .struct 0].length = sum.arity ∧
    (Callable.native sum).checkArguments m.store [.quoted (.integer 1), .struct 0] = .ok () ∧
    BaseType.number.represents (.quoted (.integer 1)) = false ∧
    BaseType.number.represents (.struct 0) = false ∧
    (perform sum.operation [.quoted (.integer 1), .struct 0] m).1 =
      .error (.failure "+: expected numbers, got '1 and #<struct number>") := by
  intro m sum
  refine ⟨by decide, rfl, rfl, rfl, rfl, ?_⟩
  have hmisfit : sum.operation.misfit? m.store [.quoted (.integer 1), .struct 0] =
      some (.error (.failure "+: expected numbers, got '1 and #<struct number>")) := rfl
  exact congrArg Prod.fst (Application.perform_misfit _ hmisfit)

end Session

end CurryLisp
