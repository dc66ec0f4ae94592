import CurryLisp.Error
import CurryLisp.Struct.Copy
import CurryLisp.Value.Spelling

/-!
# Lists, types and copies

The builtin functions on pairs, the tests on types, and the copying of objects.
-/

namespace CurryLisp.Builtin

/-- A new pair. -/
def cons (s : Store) : List Value → Except Error (Value × Store)
  | [car, cdr] => .ok (s.cons car cdr)
  | args => .error (.arity "cons" 2 args.length)

/-- The first half of a pair; `nil` for anything else. -/
def car : List Value → Value
  | .pair _ car _ :: _ => car
  | _ => .nil

/-- The second half of a pair; `nil` for anything else. -/
def cdr : List Value → Value
  | .pair _ _ cdr :: _ => cdr
  | _ => .nil

/-- Whether the first argument is `nil`. -/
def isNil : List Value → Value
  | v :: _ => .ofBool v.isNil
  | [] => .nil

/-- Whether the argument is `nil`; no other number of arguments is accepted. -/
def negate : List Value → Except Error Value
  | [v] => .ok (.ofBool v.isNil)
  | args => .error (.arity "not" 1 args.length)

/-- The last argument. -/
def last (args : List Value) : Value := args.getLast?.getD .nil

/-- The type of a value. -/
def typeOf (s : Store) : List Value → Except Error Value
  | [v] => .ok (.type (v.typeTag s))
  | args => .error (.arity "typeof" 1 args.length)

/-- Whether a value has a type. -/
def isType (s : Store) : List Value → Except Error Value
  | [.type tag, v] => .ok (.ofBool (v.hasType s tag))
  | _ => .error (.failure "is?: expected a type and a value")

/-- A copy of a struct or an array. Anything else is shared. -/
def copy (s : Store) : List Value → Except Error (Value × Store)
  | [.struct a] =>
    let (a, s) := s.copyStruct (s.struct a)
    .ok (.struct a, s)
  | [.string a] => .ok (s.newText (s.text a))
  | [.vector a] => .ok (s.newVector (s.vector a))
  | [v] => .ok (v, s)
  | args => .error (.arity "copy" 1 args.length)

/-! ## What is made -/

section Made

variable {s s' : Store} {args : List Value} {v : Value}

theorem cons_ok (h : cons s args = .ok (v, s')) :
    ∃ car cdr, args = [car, cdr] ∧ v = (s.cons car cdr).1 ∧ s' = (s.cons car cdr).2 := by
  unfold cons at h
  split at h
  · next car cdr =>
    cases h
    exact ⟨car, cdr, rfl, rfl, rfl⟩
  · cases h

/-- A struct, a string or a vector is copied; any other value is what it was. -/
theorem copy_cases (h : copy s args = .ok (v, s')) :
    (∃ a, args = [.struct a] ∧ v = .struct (s.copyStruct (s.struct a)).1 ∧
        s' = (s.copyStruct (s.struct a)).2) ∨
      (∃ a, args = [.string a] ∧ v = (s.newText (s.text a)).1 ∧ s' = (s.newText (s.text a)).2) ∨
      (∃ a, args = [.vector a] ∧ v = (s.newVector (s.vector a)).1 ∧
        s' = (s.newVector (s.vector a)).2) ∨
      args = [v] ∧ s' = s := by
  unfold copy at h
  split at h
  · next a =>
    cases h
    exact .inl ⟨a, rfl, rfl, rfl⟩
  · next a =>
    cases h
    exact .inr (.inl ⟨a, rfl, rfl, rfl⟩)
  · next a =>
    cases h
    exact .inr (.inr (.inl ⟨a, rfl, rfl, rfl⟩))
  · cases h
    exact .inr (.inr (.inr ⟨rfl, rfl⟩))
  · cases h

end Made

end CurryLisp.Builtin
