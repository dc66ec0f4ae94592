import CurryLisp.Decimal.Reading
import CurryLisp.Error
import CurryLisp.Value.Spelling

/-!
# Arrays

Strings and vectors are arrays: they have a length, an element at each index below it, and they grow
at their end. The elements of a string are its characters. Every operation that fails leaves the store
as it was.
-/

namespace CurryLisp.Builtin

/-- The index that an argument of the function `name` gives into an array of this length. -/
def arrayIndex (name : String) (index : Value) (length : Nat) : Except Error Nat :=
  match index with
  | .integer n =>
    if 0 ≤ n.toInt ∧ n.toInt < length then .ok n.toInt.toNat
    else .error (.failure (name ++ ": index " ++ toString n.toInt ++ " out of range for length " ++
      toString length))
  | _ => .error (.failure (name ++ ": index must be an integer"))

/-- The refusal of an argument that is no array. -/
def notAnArray (s : Store) (name : String) (v : Value) : Error :=
  .failure (name ++ ": " ++ v.write s ++ " is not an array")

/-- The element at an index. -/
def elementAt (s : Store) : List Value → Except Error Value
  | [array, index] =>
    match array with
    | .vector a => do
      let items := s.vector a
      let i ← arrayIndex "aref" index items.size
      return items.getD i .nil
    | .string a => do
      let text := (s.text a).toList
      let i ← arrayIndex "aref" index text.length
      return .char (text.getD i default)
    | _ => .error (notAnArray s "aref" array)
  | args => .error (.arity "aref" 2 args.length)

/-- Replaces the element at an index. -/
def setElement (s : Store) : List Value → Except Error (Value × Store)
  | [array, index, value] =>
    match array with
    | .vector a => do
      let i ← arrayIndex "aset" index (s.vector a).size
      return (value, s.setItem a i value)
    | .string a =>
      match value with
      | .char c => do
        let text := (s.text a).toList
        let i ← arrayIndex "aset" index text.length
        return (value, s.setText a (String.ofList (text.set i c)))
      | _ => .error (.failure ("aset: " ++ value.write s ++ " is not a character"))
    | _ => .error (notAnArray s "aset" array)
  | args => .error (.arity "aset" 3 args.length)

/-- Puts an element at the end; a string also takes the characters of a string. -/
def append (s : Store) : List Value → Except Error (Value × Store)
  | [array, value] =>
    match array, value with
    | .vector a, _ => .ok (array, s.pushItem a value)
    | .string a, .char c => .ok (array, s.setText a ((s.text a).push c))
    | .string a, .string b => .ok (array, s.setText a (s.text a ++ s.text b))
    | .string _, _ =>
      .error (.failure ("append!: cannot append " ++ value.write s ++ " to a string"))
    | _, _ => .error (notAnArray s "append!" array)
  | args => .error (.arity "append!" 2 args.length)

/-- The text of a string or character. -/
def textOf? (s : Store) : Value → Option String
  | .string a => some (s.text a)
  | .char c => some c.toString
  | _ => none

/-- A new string of the texts of all arguments. -/
def joinText (s : Store) (args : List Value) : Except Error (Value × Store) :=
  match args.findIdx? fun v => (textOf? s v).isNone with
  | some position => .error (.typeMismatch "string-append" position
      (args.map fun _ => BaseType.string.name) (args.map fun v => (v.typeTag s).name))
  | none => .ok (s.newText (String.join (args.filterMap (textOf? s))))

/-- Number of elements of an array or items of a list. -/
def length (s : Store) : List Value → Except Error Value
  | [v] => do
    let n ← match v with
      | .nil | .pair .. =>
        match v.toList? with
        | some items => pure items.length
        | none => throw (.malformedList (v.write s))
      | .string a => pure (s.text a).length
      | .vector a => pure (s.vector a).size
      | _ => throw (.failure
          ("length: expected a list or array, got " ++ (v.typeTag s).name))
    match Decimal.int64? n with
    | some n => return .integer n
    | none => throw (.failure (toString n ++ " does not fit in an integer"))
  | args => .error (.arity "length" 1 args.length)

/-! ## What is written and made -/

section Made

variable {s s' : Store} {args : List Value} {v : Value}

/-- An element is written into a vector, or a character into a string. -/
theorem setElement_cases (h : setElement s args = .ok (v, s')) :
    (∃ a index i, args = [.vector a, index, v] ∧
        arrayIndex "aset" index (s.vector a).size = .ok i ∧ s' = s.setItem a i v) ∨
      ∃ a index i c, args = [.string a, index, .char c] ∧ v = .char c ∧
        arrayIndex "aset" index (s.text a).toList.length = .ok i ∧
        s' = s.setText a (String.ofList ((s.text a).toList.set i c)) := by
  unfold setElement at h
  split at h
  · next array index value =>
    split at h
    · next a =>
      obtain ⟨i, hi, h⟩ := exists_of_bind_eq_ok h
      cases h
      exact .inl ⟨a, index, i, rfl, hi, rfl⟩
    · next a =>
      split at h
      · next c =>
        obtain ⟨i, hi, h⟩ := exists_of_bind_eq_ok h
        cases h
        exact .inr ⟨a, index, i, c, rfl, rfl, hi, rfl⟩
      · cases h
    · cases h
  · cases h

/-- An element is put behind those of a vector, or text behind that of a string. -/
theorem append_cases (h : append s args = .ok (v, s')) :
    (∃ a value, args = [.vector a, value] ∧ v = .vector a ∧ s' = s.pushItem a value) ∨
      ∃ a value text, args = [.string a, value] ∧ v = .string a ∧ s' = s.setText a text := by
  unfold append at h
  split at h
  · next value =>
    split at h
    · next a =>
      cases h
      exact .inl ⟨a, value, rfl, rfl, rfl⟩
    · next a c =>
      cases h
      exact .inr ⟨a, .char c, _, rfl, rfl, rfl⟩
    · next a b =>
      cases h
      exact .inr ⟨a, .string b, _, rfl, rfl, rfl⟩
    · cases h
    · cases h
  · cases h

theorem joinText_ok (h : joinText s args = .ok (v, s')) :
    ∃ text, v = (s.newText text).1 ∧ s' = (s.newText text).2 := by
  unfold joinText at h
  split at h
  · cases h
  · cases h
    exact ⟨_, rfl, rfl⟩

end Made

end CurryLisp.Builtin
