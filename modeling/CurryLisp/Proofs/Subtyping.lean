import CurryLisp.Proofs.ArgumentTypes
import CurryLisp.Proofs.Copies
import CurryLisp.Proofs.Definitions

/-!
# The order of types

A type descends from the types that its chain names, and the chain of a defined type is made when the
type is defined. Types can be defined again. Chains that were made before then need not agree with what
their names stand for: two types may come to descend from each other, and a type need not descend from
an ancestor of its ancestor.

`Definition.Fits` says when that does not happen: the parent does not descend from the type that is
defined, and the types that descend from this one already descend from all ancestors of the parent.

Statements:

* `Machine.Registers`: what holds of the registered types and templates in all states of a history.
* `Definition.ordered_register_iff`: a definition keeps subtyping an order exactly if it fits.
* `History.ordered_iff_fits`: **subtyping is an order in all states of a history exactly if each of its
  definitions fits**, and an instance has every type that its registered type descends from.
-/

namespace CurryLisp

open Struct (Definition typeName)

/-! ## Registered types -/

theorem TypeTag.isSupertypeOf_iff {t u : TypeTag} : t.isSupertypeOf u = true ↔ t.name ∈ u.chain := by
  simp [isSupertypeOf]

/-- The type is registered. -/
def Environment.HasType (env : Environment) (t : TypeTag) : Prop :=
  ∃ name, env.types.get? name = some t

/-- Subtyping of registered types is an order, up to names. -/
structure Environment.Ordered (env : Environment) : Prop where
  refl : ∀ t, env.HasType t → t.isSupertypeOf t = true
  trans : ∀ t u v, env.HasType t → env.HasType u → env.HasType v →
    t.isSupertypeOf u = true → u.isSupertypeOf v = true → t.isSupertypeOf v = true
  antisymm : ∀ t u, env.HasType t → env.HasType u →
    t.isSupertypeOf u = true → u.isSupertypeOf t = true → t.name = u.name

/-- Two registered types that descend from each other have one name. -/
theorem Environment.Ordered.name_eq {env : Environment} (h : env.Ordered) {t u : TypeTag}
    (ht : env.HasType t) (hu : env.HasType u) (htu : t.name ∈ u.chain) (hut : u.name ∈ t.chain) :
    t.name = u.name :=
  h.antisymm t u ht hu (TypeTag.isSupertypeOf_iff.2 htu) (TypeTag.isSupertypeOf_iff.2 hut)

theorem Environment.Ordered.of_types {env env' : Environment} (h : env'.types = env.types)
    (hord : env.Ordered) : env'.Ordered := by
  have htypes : ∀ {t}, env'.HasType t → env.HasType t := by
    intro t ht
    unfold HasType at ht ⊢
    rwa [h] at ht
  constructor
  · exact fun t ht => hord.refl t (htypes ht)
  · exact fun t u v ht hu hv => hord.trans t u v (htypes ht) (htypes hu) (htypes hv)
  · exact fun t u ht hu => hord.antisymm t u (htypes ht) (htypes hu)

/-- The type descends from that of all structs. -/
structure TypeTag.OfStruct (t : TypeTag) : Prop where
  struct : BaseType.struct.name ∈ t.ancestors
  any : BaseType.any.name ∈ t.ancestors

/-- The type descends from that of all structs, and what it descends from otherwise are registered types
of structs. -/
structure Environment.Traces (env : Environment) (t : TypeTag) : Prop extends t.OfStruct where
  names : ∀ name ∈ t.chain, name = BaseType.struct.name ∨ name = BaseType.any.name ∨
    ∃ u, env.types.get? name = some u ∧ u.OfStruct

/-- What holds of registered types and templates: types are registered under their names, a type is a
base type or descends from that of structs, and the type of a template is the one that is registered. -/
structure Machine.Registers (m : Machine) : Prop where
  outermost : m.frames = []
  named : ∀ {name t}, m.global.types.get? name = some t → t.name = name
  base : ∀ b : BaseType, ∃ t, m.global.types.get? b.name = some t
  types : ∀ {t}, m.global.HasType t → (∃ b : BaseType, t = b.tag) ∨ m.global.Traces t
  templates : ∀ {name a}, m.global.structs.get? name = some a → a < m.store.structs.size ∧
    (m.store.struct a).tag.OfStruct ∧
    m.global.types.get? (typeName name) = some (m.store.struct a).tag

namespace BaseType

theorem name_mem_chain {b : BaseType} {name : String} :
    name ∈ b.tag.chain ↔ ∃ c ∈ b :: b.ancestors, c.name = name := by
  simp only [TypeTag.chain, tag, List.mem_cons, List.mem_map, exists_eq_or_imp]
  exact or_congr_left eq_comm

/-- What is above an ancestor is above the type. -/
theorem ancestors_trans {a b c : BaseType} (hab : a ∈ b :: b.ancestors)
    (hbc : b ∈ c :: c.ancestors) : a ∈ c :: c.ancestors := by
  have h : ∀ c ∈ all, ∀ b ∈ c :: c.ancestors, ∀ a ∈ b :: b.ancestors, a ∈ c :: c.ancestors := by
    decide
  exact h c (by cases c <;> decide) b hbc a hab

theorem ancestors_antisymm {a b : BaseType} (hab : a ∈ b :: b.ancestors)
    (hba : b ∈ a :: a.ancestors) : a = b := by
  have h : ∀ b ∈ all, ∀ a ∈ b :: b.ancestors, b ∈ a :: a.ancestors → a = b := by
    decide
  exact h b (by cases b <;> decide) a hab hba

theorem not_ofStruct (b : BaseType) : ¬b.tag.OfStruct := by
  rintro ⟨hstruct, -⟩
  have h : ∀ b ∈ all, BaseType.struct.name ∉ b.tag.ancestors := by decide
  exact h b (by cases b <;> decide) hstruct

end BaseType

/-- What is registered first: the base types, and no template. -/
theorem Environment.registered_initial :
    Environment.initial.types = ⟨BaseType.all.map fun b => (b.name, b.tag)⟩ ∧
      Environment.initial.structs = {} := by
  have hkept : ∀ (functions : List NativeFunction) (env : Environment),
      (functions.foldl (fun env f => env.put f.name (.native f)) env).types = env.types ∧
      (functions.foldl (fun env f => env.put f.name (.native f)) env).structs = env.structs := by
    intro functions
    induction functions with
    | nil => exact fun env => ⟨rfl, rfl⟩
    | cons f rest ih => exact fun env => ih (env.put f.name (.native f))
  exact ⟨(hkept _ _).1.trans rfl, (hkept _ _).2.trans rfl⟩

theorem Environment.get?_types_initial {name : String} {t : TypeTag} :
    Environment.initial.types.get? name = some t ↔ ∃ b : BaseType, b.name = name ∧ t = b.tag := by
  rw [registered_initial.1]
  constructor
  · intro h
    obtain ⟨b, -, heq⟩ := List.mem_map.1 (Table.mem_of_lookup h)
    cases heq
    exact ⟨b, rfl, rfl⟩
  · rintro ⟨b, rfl, rfl⟩
    cases b <;> rfl

/-- The base types are ordered. -/
theorem Environment.initial_ordered : Environment.initial.Ordered := by
  have hbase : ∀ t, Environment.initial.HasType t → ∃ b : BaseType, t = b.tag := by
    rintro t ⟨name, h⟩
    obtain ⟨b, -, rfl⟩ := get?_types_initial.1 h
    exact ⟨b, rfl⟩
  have hiff : ∀ b c : BaseType, b.tag.isSupertypeOf c.tag = true ↔ b ∈ c :: c.ancestors := by
    intro b c
    rw [TypeTag.isSupertypeOf_iff, BaseType.name_mem_chain]
    constructor
    · rintro ⟨d, hd, hname⟩
      exact BaseType.name_injective hname ▸ hd
    · exact fun h => ⟨b, h, rfl⟩
  refine ⟨fun t _ => t.isSupertypeOf_refl, fun t u v ht hu hv htu huv => ?_,
    fun t u ht hu htu hut => ?_⟩
  · obtain ⟨a, rfl⟩ := hbase t ht
    obtain ⟨b, rfl⟩ := hbase u hu
    obtain ⟨c, rfl⟩ := hbase v hv
    exact (hiff a c).2 (BaseType.ancestors_trans ((hiff a b).1 htu) ((hiff b c).1 huv))
  · obtain ⟨a, rfl⟩ := hbase t ht
    obtain ⟨b, rfl⟩ := hbase u hu
    exact congrArg BaseType.name
      (BaseType.ancestors_antisymm ((hiff a b).1 htu) ((hiff b a).1 hut))

namespace Machine.Registers

variable {m : Machine} (hm : m.Registers)
include hm

/-- A registered type is registered under its name. -/
theorem get?_name {t : TypeTag} (ht : m.global.HasType t) :
    m.global.types.get? t.name = some t := by
  obtain ⟨name, h⟩ := ht
  rwa [hm.named h]

/-- What a registered type descends from is registered. -/
theorem exists_of_mem_chain {t : TypeTag} (ht : m.global.HasType t) {name : String}
    (hname : name ∈ t.chain) : ∃ u, m.global.HasType u ∧ u.name = name := by
  have hfound : ∀ u, m.global.types.get? name = some u → ∃ u, m.global.HasType u ∧ u.name = name :=
    fun u h => ⟨u, ⟨name, h⟩, hm.named h⟩
  have hbase : ∀ b : BaseType, b.name = name → ∃ u, m.global.HasType u ∧ u.name = name := by
    rintro b rfl
    obtain ⟨u, hu⟩ := hm.base b
    exact hfound u hu
  rcases hm.types ht with ⟨b, rfl⟩ | htraces
  · obtain ⟨c, -, hc⟩ := BaseType.name_mem_chain.1 hname
    exact hbase c hc
  · rcases htraces.names name hname with rfl | rfl | ⟨u, hu, -⟩
    · exact hbase .struct rfl
    · exact hbase .any rfl
    · exact hfound u hu

section Ordered

variable (hord : m.global.Ordered)
include hord

/-- Descending is transitive by names. -/
theorem mem_chain_trans {u v : TypeTag} (hu : m.global.HasType u) (hv : m.global.HasType v)
    {name : String} (hname : name ∈ u.chain) (huv : u.name ∈ v.chain) : name ∈ v.chain := by
  obtain ⟨t, ht, rfl⟩ := hm.exists_of_mem_chain hu hname
  exact TypeTag.isSupertypeOf_iff.1 (hord.trans t u v ht hu hv (TypeTag.isSupertypeOf_iff.2 hname)
    (TypeTag.isSupertypeOf_iff.2 huv))

/-- In an order, what is registered as the type of all structs is below that of all values only. -/
theorem mem_chain_struct {t : TypeTag} (ht : m.global.HasType t)
    (hname : t.name = BaseType.struct.name) {name : String} :
    name ∈ t.chain ↔ name ∈ BaseType.struct.tag.chain := by
  have hmem : name ∈ BaseType.struct.tag.chain ↔
      name = BaseType.struct.name ∨ name = BaseType.any.name := by
    simp [TypeTag.chain, BaseType.tag, BaseType.ancestors]
  rw [hmem]
  rcases hm.types ht with ⟨b, rfl⟩ | htraces
  · obtain rfl := BaseType.name_injective hname
    exact hmem
  · constructor
    · intro h
      rcases htraces.names name h with rfl | rfl | ⟨u, hu, hstruct, -⟩
      · exact .inl rfl
      · exact .inr rfl
      · -- Another type of structs is below that of all structs, so it cannot be above.
        have hu' : u.name = name := hm.named hu
        subst hu'
        refine .inl ((hord.name_eq ⟨_, hu⟩ ht h ?_).trans hname)
        rw [hname]
        exact List.mem_cons_of_mem _ hstruct
    · rintro (rfl | rfl)
      · exact hname ▸ List.mem_cons_self ..
      · exact List.mem_cons_of_mem _ htraces.any

end Ordered

end Machine.Registers

/-! ## What a definition does to them -/

section Register

variable {m : Machine} {d : Definition} {struct : Struct} {s : Store} (hm : m.Registers)
include hm

/-- At the outermost scope the registered templates are those of the global environment. -/
theorem Machine.Registers.lookupStruct?_eq (name : String) :
    m.lookupStruct? name = m.global.structs.get? name := by
  simp only [Machine.lookupStruct?, Machine.active, hm.outermost]
  cases m.global.structs.get? name <;> rfl

theorem Machine.Registers.types_register (name : String) :
    (m.register struct s).global.types.get? name =
      if name = struct.tag.name then some struct.tag else m.global.types.get? name := by
  simp only [Machine.register, Machine.updateActive, hm.outermost]
  exact Table.get?_insert _ _ _ _

theorem Machine.Registers.structs_register (name : String) :
    (m.register struct s).global.structs.get? name =
      if name = struct.name then some s.structs.size else m.global.structs.get? name := by
  simp only [Machine.register, Machine.updateActive, hm.outermost]
  exact Table.get?_insert _ _ _ _

/-- A type is registered afterwards if it is the defined one, or was registered under another name. -/
theorem Machine.Registers.hasType_register {t : TypeTag} :
    (m.register struct s).global.HasType t ↔
      t = struct.tag ∨ m.global.HasType t ∧ t.name ≠ struct.tag.name := by
  constructor
  · rintro ⟨name, h⟩
    rw [hm.types_register] at h
    split at h
    · exact .inl (Option.some.inj h).symm
    · next hne => exact .inr ⟨⟨name, h⟩, hm.named h ▸ hne⟩
  · rintro (rfl | ⟨ht, hne⟩)
    · exact ⟨_, (hm.types_register _).trans (if_pos rfl)⟩
    · exact ⟨t.name, (hm.types_register _).trans ((if_neg hne).trans (hm.get?_name ht))⟩

/-- The parent is the type of all structs, or a registered one. -/
theorem Struct.Definition.parentTag_cases {parent : TypeTag} (h : d.parentTag m = some parent) :
    parent = BaseType.struct.tag ∨ m.global.HasType parent ∧ parent.OfStruct := by
  unfold parentTag at h
  split at h
  · exact .inl (Option.some.inj h).symm
  · next name =>
    rw [hm.lookupStruct?_eq, Option.map_eq_some_iff] at h
    obtain ⟨a, ha, rfl⟩ := h
    obtain ⟨-, hstruct, htype⟩ := hm.templates ha
    exact .inr ⟨⟨_, htype⟩, hstruct⟩

/-- In an order, the parent has the ancestors of a registered type of its name. -/
theorem Struct.Definition.parentTag_registered (hord : m.global.Ordered) {parent : TypeTag}
    (h : d.parentTag m = some parent) :
    ∃ t, m.global.HasType t ∧ t.name = parent.name ∧ ∀ name, name ∈ t.chain ↔ name ∈ parent.chain := by
  rcases d.parentTag_cases hm h with rfl | ⟨hparent, -⟩
  · obtain ⟨t, ht⟩ := hm.base .struct
    have hname : t.name = BaseType.struct.name := hm.named ht
    exact ⟨t, ⟨_, ht⟩, hname, fun name => hm.mem_chain_struct hord ⟨_, ht⟩ hname⟩
  · exact ⟨parent, hparent, rfl, fun _ => .rfl⟩

omit hm in
/-- The type that is defined has the ancestors of its parent, the parent included. -/
theorem Struct.Definition.tag_build (h : d.build m = .ok (struct, s)) {parent : TypeTag}
    (hparent : d.parentTag m = some parent) :
    struct.tag.name = typeName d.name ∧
      ∀ name, name ∈ struct.tag.chain ↔ name = typeName d.name ∨ name ∈ parent.chain := by
  obtain ⟨-, -, parent', hparent', htag⟩ := d.build_ok h
  obtain rfl : parent = parent' := Option.some.inj (hparent.symm.trans hparent')
  rw [htag]
  exact ⟨rfl, fun _ => List.mem_cons⟩

/-! ### Registered types and templates -/

/-- A type that is defined descends from that of structs. -/
theorem Struct.Definition.ofStruct_build (h : d.build m = .ok (struct, s)) :
    struct.tag.OfStruct := by
  obtain ⟨-, -, parent, hparent, htag⟩ := d.build_ok h
  rw [htag]
  rcases d.parentTag_cases hm hparent with rfl | ⟨-, hparent⟩
  · constructor <;> simp [TypeTag.define, TypeTag.chain, BaseType.tag, BaseType.ancestors]
  · exact ⟨List.mem_cons_of_mem _ hparent.struct, List.mem_cons_of_mem _ hparent.any⟩

/-- A name that stood for a type of structs still does. -/
theorem Machine.Registers.traces_register (hstruct : struct.tag.OfStruct) {t : TypeTag}
    (ht : m.global.Traces t) : (m.register struct s).global.Traces t := by
  refine ⟨ht.toOfStruct, fun name hname => ?_⟩
  rcases ht.names name hname with hname | hname | ⟨u, hu, hofStruct⟩
  · exact .inl hname
  · exact .inr (.inl hname)
  · refine .inr (.inr ?_)
    rw [hm.types_register]
    split
    · exact ⟨_, rfl, hstruct⟩
    · exact ⟨u, hu, hofStruct⟩

/-- What the defined type descends from is registered with it. -/
theorem Machine.Registers.traces_build (h : d.build m = .ok (struct, s)) :
    (m.register struct s).global.Traces struct.tag := by
  have hstruct := d.ofStruct_build hm h
  obtain ⟨-, -, parent, hparent, -⟩ := d.build_ok h
  obtain ⟨hname, hchain⟩ := d.tag_build h hparent
  refine ⟨hstruct, fun name hmem => ?_⟩
  rcases (hchain name).1 hmem with hself | hmem
  · exact .inr (.inr ⟨_, (hm.types_register _).trans (if_pos (hself.trans hname.symm)), hstruct⟩)
  · rcases d.parentTag_cases hm hparent with rfl | ⟨hregistered, hofStruct⟩
    · simp only [TypeTag.chain, BaseType.tag, BaseType.ancestors] at hmem
      simpa [or_assoc] using Or.inl hmem
    · rcases hm.types hregistered with ⟨b, rfl⟩ | hparentTraces
      · exact absurd hofStruct b.not_ofStruct
      · exact (hm.traces_register hstruct hparentTraces).names name hmem

/-- **A definition keeps what holds of registered types and templates.** -/
theorem Machine.Registers.register (h : d.build m = .ok (struct, s)) :
    (m.register struct s).Registers := by
  have hstruct := d.ofStruct_build hm h
  obtain ⟨hname, hgrows, parent, hparent, -⟩ := d.build_ok h
  have htagname : struct.tag.name = typeName struct.name := by
    rw [hname]
    exact (d.tag_build h hparent).1
  -- What is registered now is the new type and template, or was registered before.
  constructor
  · simp only [Machine.register, Machine.updateActive, hm.outermost]
  · intro name t ht
    rw [hm.types_register] at ht
    split at ht
    · next heq => exact Option.some.inj ht ▸ heq.symm
    · exact hm.named ht
  · intro b
    rw [hm.types_register]
    split
    · exact ⟨_, rfl⟩
    · exact hm.base b
  · intro t ht
    rcases hm.hasType_register.1 ht with rfl | ⟨ht, -⟩
    · exact .inr (hm.traces_build h)
    · exact (hm.types ht).imp_right (hm.traces_register hstruct)
  · intro name a ha
    rw [hm.structs_register] at ha
    rw [hm.types_register, htagname, m.store_register]
    have hgrows' := hgrows.trans (Store.Grows.newStruct struct s)
    split at ha
    · next heq =>
      obtain rfl := Option.some.inj ha
      rw [s.struct_newStruct, heq]
      exact ⟨by simp [Store.newStruct], hstruct, if_pos rfl⟩
    · next hne =>
      obtain ⟨hlt, hofStruct, htype⟩ := hm.templates ha
      rw [hgrows'.tag hlt, if_neg fun heq => hne (Struct.typeName_injective heq)]
      exact ⟨Nat.lt_of_lt_of_le hlt hgrows'.structs, hofStruct, htype⟩

/-! ### Orders -/

/-- The definition of a type fits if the parent does not descend from the type, unless it is the type,
and the types that descend from it already descend from all that the parent descends from. -/
structure Struct.Definition.FitsBelow (d : Definition) (m : Machine) (parent : TypeTag) : Prop where
  above : parent.name = typeName d.name ∨ typeName d.name ∉ parent.chain
  below : ∀ t, m.global.HasType t → t.name ≠ typeName d.name → typeName d.name ∈ t.chain →
    ∀ name ∈ parent.chain, name ∈ t.chain

section Ordered

variable (hord : m.global.Ordered) (h : d.build m = .ok (struct, s)) {parent : TypeTag}
  (hparent : d.parentTag m = some parent)
include hord hparent

/-- What descends from something below the parent is below the parent. -/
theorem Struct.Definition.mem_chain_parent {u : TypeTag} (hu : m.global.HasType u)
    (hmem : u.name ∈ parent.chain) {name : String} (hname : name ∈ u.chain) :
    name ∈ parent.chain := by
  obtain ⟨p, hp, -, hpchain⟩ := d.parentTag_registered hm hord hparent
  exact (hpchain name).1 (hm.mem_chain_trans hord hu hp hname ((hpchain _).2 hmem))

include h

/-- A definition after which subtyping is an order fits. -/
theorem Struct.Definition.fitsBelow_of_ordered (hord' : (m.register struct s).global.Ordered) :
    d.FitsBelow m parent := by
  have hm' := hm.register h
  obtain ⟨p, hp, hpname, hpchain⟩ := d.parentTag_registered hm hord hparent
  obtain ⟨hname, hchain⟩ := d.tag_build h hparent
  have hdefined : (m.register struct s).global.HasType struct.tag := hm.hasType_register.2 (.inl rfl)
  have hold : ∀ {t}, m.global.HasType t → t.name ≠ typeName d.name →
      (m.register struct s).global.HasType t :=
    fun ht hne => hm.hasType_register.2 (.inr ⟨ht, hname ▸ hne⟩)
  constructor
  · by_cases hself : parent.name = typeName d.name
    · exact .inl hself
    · refine .inr fun hmem => hself ?_
      have hp' := hold hp (hpname ▸ hself)
      have heq := hord'.name_eq hp' hdefined ?_ ?_
      · rw [← hpname, heq, hname]
      · exact (hchain _).2 (.inr ((hpchain _).1 (List.mem_cons_self ..)))
      · rw [hname]
        exact (hpchain _).2 hmem
  · intro t ht hne hbelow name hmem
    exact hm'.mem_chain_trans hord' hdefined (hold ht hne) ((hchain _).2 (.inr hmem))
      (hname ▸ hbelow)

/-- After a definition that fits subtyping is an order. -/
theorem Struct.Definition.FitsBelow.ordered (hfits : d.FitsBelow m parent) :
    (m.register struct s).global.Ordered := by
  obtain ⟨p, hp, hpname, hpchain⟩ := d.parentTag_registered hm hord hparent
  obtain ⟨hname, hchain⟩ := d.tag_build h hparent
  refine ⟨fun t _ => t.isSupertypeOf_refl, fun t u v ht hu hv htu huv => ?_,
    fun t u ht hu htu hut => ?_⟩
  · rw [TypeTag.isSupertypeOf_iff] at htu huv ⊢
    rcases hm.hasType_register.1 hv with rfl | ⟨hv, hvne⟩
    · rcases hm.hasType_register.1 hu with rfl | ⟨hu, hune⟩
      · exact htu
      · have hmem := ((hchain _).1 huv).resolve_left (hname ▸ hune)
        exact (hchain _).2 (.inr (d.mem_chain_parent hm hord hparent hu hmem htu))
    · rcases hm.hasType_register.1 hu with rfl | ⟨hu, hune⟩
      · rcases (hchain _).1 htu with heq | hmem
        · rwa [heq, ← hname]
        · exact hfits.below v hv (hname ▸ hvne) (hname ▸ huv) _ hmem
      · exact hm.mem_chain_trans hord hu hv htu huv
  · rw [TypeTag.isSupertypeOf_iff] at htu hut
    -- An old type that the defined one and its parent are below of and above.
    have hboth : ∀ u, m.global.HasType u → u.name ≠ struct.tag.name →
        struct.tag.name ∈ u.chain → u.name ∈ struct.tag.chain → u.name = struct.tag.name := by
      intro u hu hne hmem hmem'
      have hbelow := ((hchain _).1 hmem').resolve_left (hname ▸ hne)
      rw [hname] at hmem ⊢
      rcases hfits.above with heq | hnot
      · rw [← heq, ← hpname] at hmem ⊢
        exact hord.name_eq hu hp ((hpchain _).2 hbelow) hmem
      · exact absurd (d.mem_chain_parent hm hord hparent hu hbelow hmem) hnot
    rcases hm.hasType_register.1 ht with rfl | ⟨ht, htne⟩
    · rcases hm.hasType_register.1 hu with rfl | ⟨hu, hune⟩
      · rfl
      · exact (hboth u hu hune htu hut).symm
    · rcases hm.hasType_register.1 hu with rfl | ⟨hu, hune⟩
      · exact hboth t ht htne hut htu
      · exact hord.name_eq ht hu htu hut

/-- **A definition keeps subtyping an order exactly if it fits.** -/
theorem Struct.Definition.ordered_register_iff :
    (m.register struct s).global.Ordered ↔ d.FitsBelow m parent :=
  ⟨d.fitsBelow_of_ordered hm hord h hparent, fun hfits => hfits.ordered hm hord h hparent⟩

end Ordered

/-- A definition under a name that is not registered fits. -/
theorem Struct.Definition.fitsBelow_of_new (hord : m.global.Ordered) {parent : TypeTag}
    (hparent : d.parentTag m = some parent) (hnew : m.global.types.get? (typeName d.name) = none) :
    d.FitsBelow m parent := by
  have hnone : ∀ {t}, m.global.HasType t → typeName d.name ∉ t.chain := by
    intro t ht hmem
    obtain ⟨u, hu, hname⟩ := hm.exists_of_mem_chain ht hmem
    rw [← hname, hm.get?_name hu] at hnew
    cases hnew
  obtain ⟨p, hp, -, hpchain⟩ := d.parentTag_registered hm hord hparent
  constructor
  · exact .inr fun hmem => hnone hp ((hpchain _).2 hmem)
  · exact fun t ht _ hmem => absurd hmem (hnone ht)

/-- A definition of a type right below the parent that it has already fits. -/
theorem Struct.Definition.fitsBelow_of_same (hord : m.global.Ordered) {parent : TypeTag}
    (hparent : d.parentTag m = some parent)
    (hsame : m.global.HasType (.define (typeName d.name) (some parent))) :
    d.FitsBelow m parent := by
  obtain ⟨p, hp, hpname, hpchain⟩ := d.parentTag_registered hm hord hparent
  constructor
  · by_cases hmem : typeName d.name ∈ parent.chain
    · refine .inl (hpname ▸ hord.name_eq hp hsame ?_ ((hpchain _).2 hmem))
      exact List.mem_cons_of_mem _ ((hpchain _).1 (List.mem_cons_self ..))
    · exact .inr hmem
  · intro t ht _ hbelow name hmem
    exact hm.mem_chain_trans hord hsame ht (List.mem_cons_of_mem _ hmem) hbelow

end Register

/-! ## Histories of definitions -/

/-- Work that registers nothing at the outermost scope, leaves no scope open and removes no object. -/
structure Machine.Idle (m m' : Machine) : Prop where
  types : m'.global.types = m.global.types
  structs : m'.global.structs = m.global.structs
  frames : m'.frames = m.frames
  grows : m.store.Grows m'.store

theorem Machine.Registers.idle {m m' : Machine} (hm : m.Registers) (h : m.Idle m') :
    m'.Registers where
  outermost := h.frames.trans hm.outermost
  named := by
    rw [h.types]
    exact hm.named
  base := by
    rw [h.types]
    exact hm.base
  types := by
    intro t ht
    unfold Environment.HasType at ht
    rw [h.types] at ht
    refine (hm.types ht).imp_right fun htraces => ⟨htraces.toOfStruct, ?_⟩
    rw [h.types]
    exact htraces.names
  templates := by
    intro name a ha
    rw [h.structs] at ha
    obtain ⟨hlt, hofStruct, htype⟩ := hm.templates ha
    rw [h.grows.tag hlt, h.types]
    exact ⟨Nat.lt_of_lt_of_le hlt h.grows.structs, hofStruct, htype⟩

/-- If the definition succeeds, it fits. -/
def Struct.Definition.Fits (d : Definition) (m : Machine) : Prop :=
  ∀ struct s parent, d.build m = .ok (struct, s) → d.parentTag m = some parent →
    d.FitsBelow m parent

/-- A definition under a name that is not registered fits. -/
theorem Machine.Registers.fits_of_new {m : Machine} (hm : m.Registers) (hord : m.global.Ordered)
    {d : Definition} (hnew : m.global.types.get? (typeName d.name) = none) : d.Fits m :=
  fun _ _ _ _ hparent => d.fitsBelow_of_new hm hord hparent hnew

/-- A definition of a type right below the parent that it has already fits. -/
theorem Machine.Registers.fits_of_same {m : Machine} (hm : m.Registers) (hord : m.global.Ordered)
    {d : Definition} (hsame : ∀ parent, d.parentTag m = some parent →
      m.global.HasType (.define (typeName d.name) (some parent))) : d.Fits m :=
  fun _ _ parent _ hparent => d.fitsBelow_of_same hm hord hparent (hsame parent hparent)

/-- `History past m`: after the definitions in `past`, newest first, the machine `m` is reached, with
other work in between. With each definition stands the machine that it was made on. -/
inductive Struct.History (m₀ : Machine) : List (Machine × Definition) → Machine → Prop
  | start : History m₀ [] m₀
  | define {past : List (Machine × Definition)} {m : Machine} (h : History m₀ past m)
    (d : Definition) : History m₀ ((m, d) :: past) (d.perform m).2
  | work {past : List (Machine × Definition)} {m m' : Machine} (h : History m₀ past m)
    (hidle : m.Idle m') : History m₀ past m'

/-- What is registered at the start. -/
theorem Machine.Registers.start (options : Options) (s : Store) :
    (Machine.start .initial options s).Registers where
  outermost := rfl
  named := fun h => by
    obtain ⟨b, rfl, rfl⟩ := Environment.get?_types_initial.1 h
    rfl
  base := fun b => ⟨b.tag, Environment.get?_types_initial.2 ⟨b, rfl, rfl⟩⟩
  types := by
    rintro t ⟨name, h⟩
    obtain ⟨b, -, rfl⟩ := Environment.get?_types_initial.1 h
    exact .inl ⟨b, rfl⟩
  templates := by
    intro name a h
    rw [Machine.start, Environment.registered_initial.2] at h
    cases h

namespace Struct

theorem Definition.registers_perform {m : Machine} (hm : m.Registers) (d : Definition) :
    (d.perform m).2.Registers := by
  rw [d.perform_eq]
  cases h : d.build m with
  | error e => exact hm
  | ok made => exact hm.register h

/-- A definition keeps subtyping an order exactly if it fits, whether it succeeds or not. -/
theorem Definition.ordered_perform_iff {m : Machine} (hm : m.Registers) (hord : m.global.Ordered)
    (d : Definition) : (d.perform m).2.global.Ordered ↔ d.Fits m := by
  rw [d.perform_eq]
  cases h : d.build m with
  | error e =>
    refine iff_of_true hord ?_
    rintro struct s parent h' -
    rw [h] at h'
    cases h'
  | ok made =>
    obtain ⟨struct, s⟩ := made
    obtain ⟨-, -, parent, hparent, -⟩ := d.build_ok h
    refine (d.ordered_register_iff hm hord h hparent).trans ⟨?_, ?_⟩
    · rintro hfits - - parent' - hparent'
      obtain rfl : parent = parent' := Option.some.inj (hparent.symm.trans hparent')
      exact hfits
    · exact fun hfits => hfits struct s parent h hparent

namespace History

variable {m₀ m : Machine} {past : List (Machine × Definition)}

theorem registers_and_ordered_iff (h : History m₀ past m) (hm₀ : m₀.Registers)
    (hord : m₀.global.Ordered) :
    m.Registers ∧ ((∀ e ∈ past, e.1.global.Ordered) ∧ m.global.Ordered ↔
      ∀ e ∈ past, e.2.Fits e.1) := by
  induction h with
  | start => exact ⟨hm₀, by simp [hord]⟩
  | @define past m h d ih =>
    obtain ⟨hm, ih⟩ := ih
    rw [List.forall_mem_cons, List.forall_mem_cons, ← ih]
    refine ⟨d.registers_perform hm, ?_, ?_⟩
    · rintro ⟨⟨hordered, hpast⟩, hnow⟩
      exact ⟨(d.ordered_perform_iff hm hordered).1 hnow, hpast, hordered⟩
    · rintro ⟨hfits, hpast, hordered⟩
      exact ⟨⟨hordered, hpast⟩, (d.ordered_perform_iff hm hordered).2 hfits⟩
  | @work past m m' h hidle ih =>
    obtain ⟨hm, ih⟩ := ih
    refine ⟨hm.idle hidle, ?_⟩
    rw [← ih]
    refine and_congr_right' ⟨.of_types hidle.types.symm, .of_types hidle.types⟩

/-- An instance of a registered struct has every type that its registered type descends from. -/
theorem hasType_instance (hm : m.Registers) {name : String} {inits : List (String × Value)}
    {v : Value} {m' : Machine} (h : instantiate name inits m = (.ok v, m')) :
    ∃ t, m.global.types.get? (typeName name) = some t ∧
      ∀ u : TypeTag, u.isSupertypeOf t = true → v.hasType m'.store u = true := by
  obtain ⟨a, ha, rfl, hset, -⟩ := instantiate_ok h
  rw [hm.lookupStruct?_eq] at ha
  obtain ⟨-, -, htype⟩ := hm.templates ha
  refine ⟨_, htype, fun u hu => ?_⟩
  have hcopied := m.store.copied_copyStruct (m.store.struct a)
  generalize m.store.copyStruct (m.store.struct a) = made at hset hcopied
  obtain ⟨fields, hcopy, -⟩ := hcopied.copy
  have htag : (m'.store.struct made.1).tag = (m.store.struct a).tag := by
    rw [(Store.Grows.setFields hset).tag hcopied.new, hcopy]
  rw [Value.hasType, Value.typeTag, htag]
  exact hu

/-- **Subtyping is an order in all states of a history exactly if each definition fits.** It is reflexive
in any case, and an instance has every type that its registered type descends from. -/
theorem ordered_iff_fits {options : Options} {s : Store}
    (h : History (Machine.start .initial options s) past m) :
    ((∀ e ∈ past, e.1.global.Ordered) ∧ m.global.Ordered ↔ ∀ e ∈ past, e.2.Fits e.1) ∧
    (∀ t, m.global.HasType t → t.isSupertypeOf t = true) ∧
    ∀ name inits v m', instantiate name inits m = (.ok v, m') →
      ∃ t, m.global.types.get? (typeName name) = some t ∧
        ∀ u : TypeTag, u.isSupertypeOf t = true → v.hasType m'.store u = true := by
  obtain ⟨hm, hiff⟩ := h.registers_and_ordered_iff (.start options s)
    Environment.initial_ordered
  exact ⟨hiff, fun t _ => t.isSupertypeOf_refl, fun _ _ _ _ => hasType_instance hm⟩

/-! ### Structs without fields -/

/-- A struct without fields below these, nearest first. -/
def bare (name : String) (above : List String) : Struct :=
  { name, tag := ⟨typeName name, above.map typeName ++ BaseType.struct.tag.chain⟩, fields := {} }

/-- A struct without fields is defined on its own. -/
theorem define_bare (h : History m₀ past m) (name : String) :
    History m₀ ((m, { name }) :: past) (m.register (bare name []) m.store) := by
  have hdefined := h.define { name }
  rwa [Definition.perform_eq] at hdefined

/-- A struct without fields is defined below another one. -/
theorem derive_bare (h : History m₀ past m) (name parent : String) (above : List String)
    {a : Address} (ha : m.lookupStruct? parent = some a)
    (hstruct : m.store.struct a = bare parent above) :
    History m₀ ((m, { name, parent }) :: past) (m.register (bare name (parent :: above)) m.store) := by
  have hdefined := h.define { name, parent }
  have hcopies : m.store.copyFields (bare parent above) = ({}, m.store) := by
    simp [Store.copyFields, bare, Struct.copyFields]
  simp only [Definition.perform_eq, Definition.build, ha, hstruct, derive, hcopies] at hdefined
  exact hdefined

/-- The machine after `a` was defined. -/
def first : Machine := Machine.register (.start .initial {} {}) (bare "a" []) {}

/-- The machine after `b` was defined below `a`. -/
def second : Machine := first.register (bare "b" ["a"]) first.store

theorem history_second :
    History (.start .initial {} {})
      [(first, { name := "b", parent := "a" }), (.start .initial {} {}, { name := "a" })] second :=
  (History.start.define_bare "a").derive_bare "b" "a" [] (a := 0) rfl rfl

/-- A type can be defined again below the parent that it has. -/
theorem ordered_iff_fits_again :
    History (.start .initial {} {})
      [(second, { name := "b", parent := "a" }), (first, { name := "b", parent := "a" }),
        (.start .initial {} {}, { name := "a" })]
      (second.register (bare "b" ["a"]) second.store) ∧
    (second.register (bare "b" ["a"]) second.store).global.Ordered := by
  have hhistory := history_second.derive_bare "b" "a" [] (a := 0) rfl rfl
  refine ⟨hhistory, ((ordered_iff_fits hhistory).1.2 ?_).2⟩
  have hstart := Machine.Registers.start {} {}
  have hfits : Definition.Fits { name := "a" } (.start .initial {} {}) :=
    hstart.fits_of_new Environment.initial_ordered (by decide +kernel)
  have hdefined : History (.start .initial {} {}) _ first := History.start.define_bare "a"
  obtain ⟨hfirst, hiff⟩ :=
    hdefined.registers_and_ordered_iff hstart Environment.initial_ordered
  have hfits' : Definition.Fits { name := "b", parent := "a" } first :=
    hfirst.fits_of_new (hiff.2 (by simpa using hfits)).2 (by decide +kernel)
  obtain ⟨hsecond, hiff⟩ :=
    history_second.registers_and_ordered_iff hstart Environment.initial_ordered
  have hfits'' : Definition.Fits { name := "b", parent := "a" } second := by
    refine hsecond.fits_of_same (hiff.2 (by simp [hfits, hfits'])).2 fun parent hparent => ?_
    cases hparent
    exact ⟨":b", by decide +kernel⟩
  simp [hfits, hfits', hfits'']

/-- Types that are defined again can descend from each other, and need not descend from what is above
the types that they descend from. -/
theorem not_ordered_redefined :
    (∃ past m, History (.start .initial {} {}) past m ∧ ∃ t u, m.global.HasType t ∧
      m.global.HasType u ∧ t.isSupertypeOf u = true ∧ u.isSupertypeOf t = true ∧
      t.name ≠ u.name) ∧
    ∃ past m, History (.start .initial {} {}) past m ∧ ∃ t u v, m.global.HasType t ∧
      m.global.HasType u ∧ m.global.HasType v ∧ t.isSupertypeOf u = true ∧
      u.isSupertypeOf v = true ∧ t.isSupertypeOf v = false := by
  constructor
  · -- `a` is defined again, below `b`.
    refine ⟨_, _, history_second.derive_bare "a" "b" ["a"] (a := 1) rfl rfl,
      (bare "a" ["b", "a"]).tag, (bare "b" ["a"]).tag, ⟨":a", ?_⟩, ⟨":b", ?_⟩, ?_⟩
    all_goals decide +kernel
  · -- `a` is defined again, below `c`. Now `c` is above `a`, and `a` above `b`.
    have hhistory := (history_second.define_bare "c").derive_bare "a" "c" [] (a := 2) rfl rfl
    refine ⟨_, _, hhistory, (bare "c" []).tag, (bare "a" ["c"]).tag, (bare "b" ["a"]).tag,
      ⟨":c", ?_⟩, ⟨":a", ?_⟩, ⟨":b", ?_⟩, ?_⟩
    all_goals decide +kernel

end History

end Struct

end CurryLisp
