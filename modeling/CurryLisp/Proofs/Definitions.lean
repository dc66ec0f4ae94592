import CurryLisp.Proofs.Effect
import CurryLisp.Proofs.Growth

/-!
# Definitions of structs

A definition makes a struct and registers it together with its type. `Definition.build` is the struct
that it makes, `Machine.register` what registering does to the machine, and a definition is both of them
or, if it fails, nothing (`Definition.perform_eq`).
-/

namespace CurryLisp

namespace Struct

theorem typeName_injective : Function.Injective typeName :=
  fun _ _ h => (String.append_right_inj _).1 h

/-- The template of a name is looked up; nothing changes. -/
theorem template_apply (name : String) (m : Machine) :
    template name m = match m.lookupStruct? name with
      | some a => (.ok a, m)
      | none => (.error (.unboundType (typeName name)), m) := by
  have hget : (get : Eval Machine) m = (.ok m, m) := rfl
  unfold template
  rw [Eval.bind_apply, hget]
  simp only
  cases m.lookupStruct? name <;> rfl

/-- An instance is a copy of the template that the name stands for, with values written into fields. -/
theorem instantiate_ok {name : String} {inits : List (String × Value)} {m m' : Machine} {v : Value}
    (h : instantiate name inits m = (.ok v, m')) :
    ∃ a, m.lookupStruct? name = some a ∧ v = .struct (m.store.copyStruct (m.store.struct a)).1 ∧
      (m.store.copyStruct (m.store.struct a)).2.setFields
        (m.store.copyStruct (m.store.struct a)).1 inits = .ok m'.store ∧
      m' = { m with store := m'.store } := by
  unfold instantiate at h
  rw [Eval.bind_apply, template_apply] at h
  cases ha : m.lookupStruct? name with
  | none =>
    rw [ha] at h
    cases h
  | some a =>
    simp only [ha, Eval.onStore] at h
    cases hset : (m.store.copyStruct (m.store.struct a)).2.setFields
        (m.store.copyStruct (m.store.struct a)).1 inits with
    | error e =>
      simp only [hset] at h
      cases h
    | ok s =>
      simp only [hset] at h
      cases h
      exact ⟨a, rfl, rfl, hset, rfl⟩

/-- A definition of a struct, on its own or below a registered one. -/
structure Definition where
  name : String
  parent : Option String := none
  specs : List FieldSpec := []

namespace Definition

/-- Makes the struct and registers it. -/
def perform (d : Definition) : Eval Value :=
  match d.parent with
  | none => defineTemplate d.name d.specs
  | some parent => deriveTemplate d.name parent d.specs

/-- The struct that is registered, and the store with what was copied for it. -/
def build (d : Definition) (m : Machine) : Except Error (Struct × Store) :=
  match d.parent with
  | none => (define m.store d.name d.specs).map fun struct => (struct, m.store)
  | some parent =>
    match m.lookupStruct? parent with
    | some a => derive m.store d.name (m.store.struct a) d.specs
    | none => .error (.unboundType (typeName parent))

/-- The type right above the one that is defined. -/
def parentTag (d : Definition) (m : Machine) : Option TypeTag :=
  match d.parent with
  | none => some BaseType.struct.tag
  | some parent => (m.lookupStruct? parent).map fun a => (m.store.struct a).tag

end Definition

end Struct

/-- The machine after `struct` was made behind the objects of `s` and registered. -/
def Machine.register (m : Machine) (struct : Struct) (s : Store) : Machine :=
  { m with
    events := .structRegistered struct.name struct.tag.name :: m.events
    store := (s.newStruct struct).2 }.updateActive fun env =>
      (env.putType struct.tag).putStruct struct.name s.structs.size

theorem Machine.store_register (m : Machine) (struct : Struct) (s : Store) :
    (m.register struct s).store = (s.newStruct struct).2 := by
  unfold register updateActive
  split <;> rfl

/-- A registration is noted. -/
theorem Machine.events_register (m : Machine) (struct : Struct) (s : Store) :
    (m.register struct s).events = .structRegistered struct.name struct.tag.name :: m.events := by
  unfold register updateActive
  split <;> rfl

namespace Struct.Definition

variable {d : Definition} {m : Machine} {struct : Struct} {s : Store}

/-- A definition that fails leaves the machine as it was. -/
theorem perform_eq (d : Definition) (m : Machine) :
    d.perform m = match d.build m with
      | .error e => (.error e, m)
      | .ok (struct, s) => (.ok (.struct s.structs.size), m.register struct s) := by
  obtain ⟨name, parent, specs⟩ := d
  cases parent with
  | none =>
    simp only [perform, build, defineTemplate]
    rw [Eval.bind_apply, Eval.ask]
    cases define m.store name specs <;> rfl
  | some parent =>
    simp only [perform, build, deriveTemplate]
    rw [Eval.bind_apply, template_apply]
    cases m.lookupStruct? parent with
    | none => rfl
    | some a =>
      simp only
      rw [Eval.bind_apply, Eval.onStore]
      cases derive m.store name (m.store.struct a) specs <;> rfl

/-- What is made has the name that is given, and its type is right below the parent's. -/
theorem build_ok (h : d.build m = .ok (struct, s)) :
    struct.name = d.name ∧ m.store.Grows s ∧ ∃ parent, d.parentTag m = some parent ∧
      struct.tag = .define (typeName d.name) (some parent) := by
  obtain ⟨name, parent, specs⟩ := d
  cases parent with
  | none =>
    obtain ⟨made, hdefined, h⟩ := exists_of_bind_eq_ok h
    cases h
    obtain ⟨fields, -, rfl⟩ := define_ok hdefined
    exact ⟨rfl, .refl _, _, rfl, rfl⟩
  | some parent =>
    simp only [build] at h
    split at h
    · next a ha =>
      have hgrows := Store.Grows.derive h
      obtain ⟨-, fields, -, rfl⟩ := derive_ok h
      exact ⟨rfl, hgrows, _, by simp [parentTag, ha], rfl⟩
    · cases h

end Struct.Definition

end CurryLisp
