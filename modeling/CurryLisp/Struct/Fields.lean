import CurryLisp.Error
import CurryLisp.Struct.Copy
import CurryLisp.Value.Spelling

/-!
# Fields of structs

A struct is declared by a list of fields, on its own or below a parent, whose fields it inherits. Each
declaration gives a field a type and a default; the default must have the type, unless it is `nil`. A
value that is put into a field later must have the type.
-/

namespace CurryLisp

/-- A field as it is declared. -/
structure FieldSpec where
  name : String
  tag : TypeTag := BaseType.any.tag
  default : Value := .nil

namespace Struct

/-- The name of the type of a struct. -/
def typeName (name : String) : String := ":" ++ name

/-- The refusal of a value that does not have the type of its field. -/
def fieldMismatch (s : Store) (struct : String) (tag : TypeTag) (value : Value) : Error :=
  .typeMismatch struct 1 [BaseType.symbol.name, tag.name]
    [BaseType.symbol.name, (value.typeTag s).name]

/-- Puts declared fields behind or in the place of `fields`. -/
def declare (s : Store) (struct : String) (fields : Table Field) :
    List FieldSpec → Except Error (Table Field)
  | [] => .ok fields
  | spec :: specs =>
    if spec.default.isNil || spec.default.hasType s spec.tag then
      declare s struct (fields.insert spec.name ⟨spec.tag, spec.default⟩) specs
    else .error (fieldMismatch s struct spec.tag spec.default)

/-- A struct with these fields, directly below the type of all structs. -/
def define (s : Store) (name : String) (specs : List FieldSpec) : Except Error Struct := do
  let fields ← declare s name {} specs
  return { name, tag := .define (typeName name) (some BaseType.struct.tag), fields }

/-- A struct below `parent`, with copies of the parent's fields, and the store with what was copied. -/
def derive (s : Store) (name : String) (parent : Struct) (specs : List FieldSpec) :
    Except Error (Struct × Store) := do
  let (inherited, s) := s.copyFields parent
  let fields ← declare s name inherited specs
  return ({ name, tag := .define (typeName name) (some parent.tag), fields }, s)

/-- The refusal of a name that is no field. -/
def noSuchField (struct name : String) : Error :=
  .failure ("struct " ++ struct ++ " has no field " ++ name)

/-- The value of a field. -/
def read (struct : Struct) (name : String) : Except Error Value :=
  match struct.fields.get? name with
  | some field => .ok field.value
  | none => .error (noSuchField struct.name name)

section Made

variable {s s' : Store} {name : String} {specs : List FieldSpec} {parent struct : Struct}

/-- What holds of the fields at first holds of the declared ones, if each declaration whose default fits
keeps it. -/
theorem declare_induction {P : Table Field → Prop} {fields fields' : Table Field}
    (h : declare s name fields specs = .ok fields') (hfields : P fields)
    (hspec : ∀ spec ∈ specs, (spec.default.isNil || spec.default.hasType s spec.tag) = true →
      ∀ t, P t → P (t.insert spec.name ⟨spec.tag, spec.default⟩)) : P fields' := by
  induction specs generalizing fields with
  | nil =>
    cases h
    exact hfields
  | cons spec specs ih =>
    unfold declare at h
    split at h
    · next hfits =>
      refine ih h ?_ fun other hother => hspec other (List.mem_cons_of_mem _ hother)
      exact hspec spec (List.mem_cons_self ..) hfits fields hfields
    · cases h

/-- A struct that is defined has the declared fields. -/
theorem define_ok (h : define s name specs = .ok struct) :
    ∃ fields, declare s name {} specs = .ok fields ∧
      struct = { name, tag := .define (typeName name) (some BaseType.struct.tag), fields } := by
  obtain ⟨fields, hdeclared, h⟩ := exists_of_bind_eq_ok h
  cases h
  exact ⟨fields, hdeclared, rfl⟩

/-- A struct below another one has copies of its fields, and the declared ones. -/
theorem derive_ok (h : derive s name parent specs = .ok (struct, s')) :
    s' = (s.copyFields parent).2 ∧
      ∃ fields, declare s' name (s.copyFields parent).1 specs = .ok fields ∧
        struct = { name, tag := .define (typeName name) (some parent.tag), fields } := by
  obtain ⟨fields, hdeclared, h⟩ := exists_of_bind_eq_ok h
  cases h
  exact ⟨rfl, fields, hdeclared, rfl⟩

theorem read_ok {v : Value} (h : struct.read name = .ok v) :
    ∃ field, struct.fields.get? name = some field ∧ v = field.value := by
  unfold read at h
  cases hfield : struct.fields.get? name with
  | none =>
    rw [hfield] at h
    cases h
  | some field =>
    rw [hfield] at h
    cases h
    exact ⟨field, rfl, rfl⟩

end Made

end Struct

namespace Store

/-- Puts a value into a field and answers the value. -/
def setField (s : Store) (a : Address) (name : String) (value : Value) :
    Except Error (Value × Store) :=
  let struct := s.struct a
  match struct.fields.get? name with
  | none => .error (Struct.noSuchField struct.name name)
  | some field =>
    if value.hasType s field.tag then .ok (value, s.setFieldValue a name value)
    else .error (Struct.fieldMismatch s struct.name field.tag value)

/-- Puts values into fields, in turn. -/
def setFields (s : Store) (a : Address) : List (String × Value) → Except Error Store
  | [] => .ok s
  | (name, value) :: rest => do
    let (_, s) ← s.setField a name value
    setFields s a rest

section Written

variable {s s' : Store} {a : Address}

/-- What is written into a field has its type. -/
theorem setField_ok {name : String} {value v : Value} (h : s.setField a name value = .ok (v, s')) :
    v = value ∧ s' = s.setFieldValue a name value ∧
      ∃ field, (s.struct a).fields.get? name = some field ∧ value.hasType s field.tag = true := by
  unfold setField at h
  dsimp only at h
  split at h
  · cases h
  · next field hfield =>
    split at h
    · next htype =>
      cases h
      exact ⟨rfl, rfl, field, hfield, htype⟩
    · cases h

/-- What holds at first holds after several fields were written, if writing one of them keeps it. -/
theorem setFields_induction {P : Store → Prop} {entries : List (String × Value)}
    (h : s.setFields a entries = .ok s') (hs : P s)
    (hset : ∀ entry ∈ entries, ∀ s₁ v s₂, P s₁ →
      s₁.setField a entry.1 entry.2 = .ok (v, s₂) → P s₂) : P s' := by
  induction entries generalizing s with
  | nil =>
    cases h
    exact hs
  | cons entry rest ih =>
    obtain ⟨made, hfirst, hrest⟩ := exists_of_bind_eq_ok h
    refine ih hrest ?_ fun other hother => hset other (List.mem_cons_of_mem _ hother)
    exact hset entry (List.mem_cons_self ..) s made.1 made.2 hs hfirst

end Written

end Store

end CurryLisp
