import CurryLisp.Proofs.Subtyping

/-!
# Inheritance

A struct that is derived has copies of its parent's fields, with its own declarations behind them or in
their place. Where no default is a struct the copies are the fields themselves, so along a chain of
derivations all declarations are put into one table, in turn.

Statements:

* `Struct.Lineage`, `Struct.InstanceOf`: chains of derivations, and the objects made of a struct.
* `Struct.Lineage.fields_eq`: the fields are the declarations of the whole chain, in turn.
* `Struct.Lineage.chain_eq`: the chain of the type has the names of the structs.
* `Struct.Lineage.flattens`: **inheritance flattens to the most specific declaration.**
-/

namespace CurryLisp

/-- The field of a declaration, under its name. -/
def FieldSpec.entry (spec : FieldSpec) : String × Field := (spec.name, ⟨spec.tag, spec.default⟩)

namespace Struct

/-! ## Fields -/

section Fields

variable {s : Store} {name : String} {fields fields' : Table Field} {specs : List FieldSpec}
  {struct : Struct}

/-- Declared fields are put into the table in turn. -/
theorem declare_ok (h : declare s name fields specs = .ok fields') :
    fields' = fields.insertAll (specs.map FieldSpec.entry) := by
  induction specs generalizing fields with
  | nil =>
    cases h
    rfl
  | cons spec specs ih =>
    unfold declare at h
    split at h
    · exact ih h
    · cases h

/-- No field holds a struct, so nothing is copied. -/
def Plain (struct : Struct) : Prop := ∀ a, ¬Field.Holds struct.fields.entries a

/-- Fields that hold no structs are kept. -/
theorem CopyRun.kept {source : Array Struct} {path : List Address} {made made' : Array Struct}
    {entries copied : List (String × Field)} (h : CopyRun source path made entries copied made')
    (hplain : ∀ a, ¬Field.Holds entries a) : copied = entries ∧ made' = made := by
  induction h with
  | nil => exact ⟨rfl, rfl⟩
  | keep _ _ ih =>
    obtain ⟨rfl, rfl⟩ := ih fun a ha => hplain a (Field.holds_cons.2 (.inr ha))
    exact ⟨rfl, rfl⟩
  | copy hvalue => exact absurd (Field.holds_cons.2 (.inl hvalue)) (hplain _)

theorem Plain.copyFields_eq (h : struct.Plain) (s : Store) : s.copyFields struct = (struct.fields, s) := by
  have hrun := copyRun_copyFields s.structs [] s.structs struct.fields.entries
  unfold Store.copyFields
  obtain ⟨hfields, hstructs⟩ := hrun.kept h
  simp only [hfields, hstructs]

end Fields

/-! ## Chains of derivations -/

/-- The struct is made by the last of several derivations. The fields that are declared on the way are
`declared`, first ones first; the structs that it descends from are `ancestors`, nearest first. -/
inductive Lineage : List FieldSpec → Struct → List Struct → Prop
  | defined {s : Store} {name : String} {specs : List FieldSpec} {struct : Struct}
    (h : define s name specs = .ok struct) : Lineage specs struct []
  | derived {s s' : Store} {name : String} {declared specs : List FieldSpec} {parent struct : Struct}
    {ancestors : List Struct} (hparent : Lineage declared parent ancestors)
    (h : derive s name parent specs = .ok (struct, s')) :
    Lineage (declared ++ specs) struct (parent :: ancestors)

/-- The object at this address is the struct or an instance: it was made of the struct or of a copy of
such an object, in this or an earlier state. -/
inductive InstanceOf (struct : Struct) : Store → Address → Prop
  | template (s : Store) : InstanceOf struct (s.newStruct struct).2 (s.newStruct struct).1
  | made (s : Store) : InstanceOf struct (s.copyStruct struct).2 (s.copyStruct struct).1
  | copy {s : Store} {a : Address} (h : InstanceOf struct s a) :
    InstanceOf struct (s.copyStruct (s.struct a)).2 (s.copyStruct (s.struct a)).1
  | later {s s' : Store} {a : Address} (h : InstanceOf struct s a) (hgrows : s.Grows s') :
    InstanceOf struct s' a

namespace InstanceOf

variable {struct : Struct} {s : Store} {a : Address}

/-- An instance has the type of the struct at all times. -/
theorem tag_eq (h : InstanceOf struct s a) : a < s.structs.size ∧ (s.struct a).tag = struct.tag := by
  induction h with
  | template s =>
    refine ⟨(Array.size_push ..).symm ▸ Nat.lt_succ_self _, ?_⟩
    exact congrArg Struct.tag (s.struct_newStruct struct)
  | made s =>
    obtain ⟨-, -, hnew, fields, hcopy, -⟩ := s.copied_copyStruct struct
    exact ⟨hnew, by rw [hcopy]⟩
  | @copy s a _ ih =>
    obtain ⟨-, -, hnew, fields, hcopy, -⟩ := s.copied_copyStruct (s.struct a)
    exact ⟨hnew, by rw [hcopy, ih.2]⟩
  | later _ hgrows ih => exact ⟨Nat.lt_of_lt_of_le ih.1 hgrows.structs, (hgrows.tag ih.1).trans ih.2⟩

/-- What is made of a registered template is an instance. -/
theorem instantiate {name : String} {inits : List (String × Value)} {m m' : Machine} {v : Value}
    (h : Struct.instantiate name inits m = (.ok v, m')) (ha : m.lookupStruct? name = some a)
    (htemplate : InstanceOf struct m.store a) : ∃ b, v = .struct b ∧ InstanceOf struct m'.store b := by
  obtain ⟨a', ha', rfl, hset, -⟩ := instantiate_ok h
  obtain rfl : a = a' := Option.some.inj (ha.symm.trans ha')
  exact ⟨_, rfl, htemplate.copy.later (Store.Grows.setFields hset)⟩

end InstanceOf

namespace Lineage

variable {declared : List FieldSpec} {struct : Struct} {ancestors : List Struct}

/-- **The fields are the declarations of the whole chain**, put into a table in turn. -/
theorem fields_eq (h : Lineage declared struct ancestors)
    (hdefaults : ∀ spec ∈ declared, ∀ a, spec.default ≠ .struct a) :
    struct.fields = Table.insertAll {} (declared.map FieldSpec.entry) := by
  induction h with
  | defined h =>
    obtain ⟨fields, hdeclare, rfl⟩ := define_ok h
    exact declare_ok hdeclare
  | @derived s _ _ declared specs parent _ _ _ h ih =>
    have hparent := ih fun spec hspec => hdefaults spec (List.mem_append_left _ hspec)
    -- The values of the parent's fields are defaults, so none is a struct.
    have hplain : parent.Plain := by
      rintro a ⟨entry, hentry, hvalue⟩
      rw [hparent] at hentry
      rcases Table.mem_insertAll hentry with hentry | hentry
      · cases hentry
      · obtain ⟨spec, hspec, rfl⟩ := List.mem_map.1 hentry
        exact hdefaults spec (List.mem_append_left _ hspec) a hvalue
    obtain ⟨-, fields, hdeclare, rfl⟩ := derive_ok h
    rw [hplain.copyFields_eq, hparent] at hdeclare
    rw [List.map_append, Table.insertAll_append]
    exact declare_ok hdeclare

/-- **The chain of a type has the names of the structs**, above that the types of all structs. -/
theorem chain_eq (h : Lineage declared struct ancestors) :
    struct.tag.chain = ((struct :: ancestors).map (·.name) ++ ["struct", "any"]).map typeName := by
  induction h with
  | defined h =>
    obtain ⟨fields, -, rfl⟩ := define_ok h
    rfl
  | derived _ h ih =>
    obtain ⟨-, fields, -, rfl⟩ := derive_ok h
    exact congrArg (typeName _ :: ·) ih

theorem tag_name (h : Lineage declared struct ancestors) : struct.tag.name = typeName struct.name :=
  (List.cons.inj h.chain_eq).1

/-- Each struct of a chain is made by a chain of its own. -/
theorem of_suffix (h : Lineage declared struct ancestors) {member : Struct} {earlier : List Struct}
    (hsuffix : member :: earlier <:+ struct :: ancestors) :
    ∃ declared', Lineage declared' member earlier := by
  induction h with
  | defined h =>
    rcases List.suffix_cons_iff.1 hsuffix with heq | hsuffix
    · cases heq
      exact ⟨_, .defined h⟩
    · cases List.suffix_nil.1 hsuffix
  | derived hparent h ih =>
    rcases List.suffix_cons_iff.1 hsuffix with heq | hsuffix
    · cases heq
      exact ⟨_, .derived hparent h⟩
    · exact ih hsuffix

end Lineage

/-- An instance of a struct of a chain has the type `t` exactly if that is in the chain of the struct. -/
theorem InstanceOf.hasType_iff {struct : Struct} {s : Store} {a : Address} (h : InstanceOf struct s a)
    (t : TypeTag) : (Value.struct a).hasType s t = true ↔ t.name ∈ struct.tag.chain := by
  rw [← h.tag_eq.2]
  exact TypeTag.isSupertypeOf_iff

/-- **Inheritance flattens to the most specific declaration.** The fields of a struct are those that its
chain declares, in the order of their first declaration and with the type and the value of the last one.
Its instances have the types of all structs of the chain; an instance of one of these has its type exactly
if that has the name of this one or an earlier one, or of the types of all structs. -/
theorem Lineage.flattens {declared : List FieldSpec} {struct : Struct} {ancestors : List Struct}
    (h : Lineage declared struct ancestors)
    (hdefaults : ∀ spec ∈ declared, ∀ a, spec.default ≠ .struct a) :
    struct.fields.keys = (declared.map (·.name)).eraseDups ∧
    (∀ name, struct.fields.get? name =
      (declared.reverse.find? (·.name = name)).map fun spec => ⟨spec.tag, spec.default⟩) ∧
    (∀ member ∈ struct :: ancestors, ∀ s a, InstanceOf struct s a →
      (Value.struct a).hasType s member.tag = true) ∧
    ∀ member earlier, member :: earlier <:+ struct :: ancestors → ∀ s a, InstanceOf member s a →
      ((Value.struct a).hasType s struct.tag = true ↔
        (∃ ancestor ∈ member :: earlier, struct.name = ancestor.name) ∨
          struct.name = "struct" ∨ struct.name = "any") := by
  have hfields := h.fields_eq hdefaults
  -- A struct of the chain was made by a lineage of its own, the rest of the chain from it on.
  refine ⟨?_, fun name => ?_, fun member hmember s a ha => ?_, fun member earlier hsuffix s a ha => ?_⟩
  · rw [hfields, Table.keys_insertAll, List.map_map]
    simp [Table.keys, List.removeAll, Function.comp_def, FieldSpec.entry]
  · rw [hfields, Table.get?_insertAll, Table.get?_empty, Option.or_none, ← List.map_reverse,
      List.find?_map, Option.map_map]
    rfl
  · obtain ⟨later, earlier, heq⟩ := List.append_of_mem hmember
    obtain ⟨_, hmade⟩ := h.of_suffix ⟨later, heq.symm⟩
    rw [ha.hasType_iff, h.chain_eq, hmade.tag_name, List.mem_map_of_injective typeName_injective]
    exact List.mem_append_left _ (List.mem_map_of_mem hmember)
  · obtain ⟨_, hmade⟩ := h.of_suffix hsuffix
    rw [ha.hasType_iff, hmade.chain_eq, h.tag_name, List.mem_map_of_injective typeName_injective]
    simp [or_assoc, eq_comm]

/-- A point in a color: the ordinate is declared again, in its place. A point is no such point. -/
theorem Lineage.flattens_pixel :
    let xy : List FieldSpec := [{ name := "x", default := .integer 0 }, { name := "y" }]
    let more : List FieldSpec :=
      [{ name := "y", tag := BaseType.int.tag, default := .integer 9 }, { name := "color" }]
    let point : Struct :=
      { name := "point", tag := .define ":point" (some BaseType.struct.tag),
        fields := ⟨xy.map FieldSpec.entry⟩ }
    let pixel : Struct :=
      { name := "pixel", tag := .define ":pixel" (some point.tag),
        fields := ⟨[("x", ⟨BaseType.any.tag, .integer 0⟩), ("y", ⟨BaseType.int.tag, .integer 9⟩),
          ("color", ⟨BaseType.any.tag, .nil⟩)]⟩ }
    Lineage (xy ++ more) pixel [point] ∧
      (∀ spec ∈ xy ++ more, ∀ a, spec.default ≠ .struct a) ∧
      pixel.fields.keys = ["x", "y", "color"] ∧
      pixel.fields.get? "y" = some ⟨BaseType.int.tag, .integer 9⟩ ∧
      (∀ s a, InstanceOf pixel s a → (Value.struct a).hasType s point.tag = true) ∧
      ∀ s a, InstanceOf point s a → (Value.struct a).hasType s pixel.tag = false := by
  intro xy more point pixel
  have hpoint : define {} "point" xy = .ok point := rfl
  have hpixel : derive {} "pixel" point more = .ok (pixel, {}) := by cbv
  have hlineage : Lineage (xy ++ more) pixel [point] := .derived (.defined hpoint) hpixel
  have hdefaults : ∀ spec ∈ xy ++ more, ∀ a, spec.default ≠ .struct a := by simp [xy, more]
  obtain ⟨hkeys, hfields, habove, hbelow⟩ := hlineage.flattens hdefaults
  refine ⟨hlineage, hdefaults, hkeys.trans (by decide), (hfields "y").trans rfl,
    habove point (by simp), fun s a ha => ?_⟩
  have hother := (hbelow point [] (List.suffix_cons _ _) s a ha).not.2 (by decide)
  exact Bool.eq_false_iff.2 hother

end Struct

end CurryLisp
