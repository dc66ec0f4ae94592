import CurryLisp.Proofs.Copies
import CurryLisp.Proofs.Definitions

/-!
# Structs that nothing refers to

The structs of a template are looked up by the name of the template when it is copied. If nothing else
refers to them, no computation can come by a reference to one of them, and none can write to them.

`Avoids P` says of values that they refer to none of the structs `P`, and `Store.Spares P` of a store
that none of its objects does, apart from the structs `P` themselves. These hold structs among them in
their fields, and none leads back to itself: so a copy of one has copies in their place.

What evaluation does to a store is a list of changes (`Store.Change`). Objects are made, texts and
vectors are changed, fields of structs are written.

Statements:

* `Store.Turns.struct_eq`: changes that spare a struct leave it as it is.
* `Struct.CopyRun.avoid`: a copy refers to none of the structs `P`.
* `Store.Spares`: each operation on objects is a list of changes that spare `P`, and keeps this.
-/

namespace CurryLisp

/-! ## Changes of stores -/

/-- What evaluation does to a store at a time: it makes an object, or changes one. -/
inductive Store.Change where
  | newText (text : String)
  | newVector (items : Array Value)
  | newStruct (struct : Struct)
  | newClosure (closure : Closure)
  | newPair
  | setText (a : Address) (text : String)
  | setItem (a : Address) (i : Nat) (value : Value)
  | pushItem (a : Address) (value : Value)
  | setField (a : Address) (name : String) (value : Value)

namespace Store

/-- The store after a change. -/
def Change.apply (s : Store) : Change → Store
  | newText text => (s.newText text).2
  | newVector items => (s.newVector items).2
  | newStruct struct => (s.newStruct struct).2
  | newClosure closure => (s.newClosure closure).2
  | newPair => (s.cons .nil .nil).2
  | setText a text => s.setText a text
  | setItem a i value => s.setItem a i value
  | pushItem a value => s.pushItem a value
  | setField a name value => s.setFieldValue a name value

/-- The store after several changes. -/
def changed (s : Store) (changes : List Change) : Store := changes.foldl Change.apply s

/-- The change writes to none of the structs `P`. -/
def Change.Spares (P : Address → Prop) : Change → Prop
  | setField a _ _ => ¬P a
  | _ => True

/-- Changes that write to none of the structs `P` lead from `s` to `s'`. -/
def Turns (P : Address → Prop) (s s' : Store) : Prop :=
  ∃ changes : List Change, s' = s.changed changes ∧ ∀ c ∈ changes, c.Spares P

variable {P : Address → Prop} {s s₁ s₂ : Store}

namespace Turns

theorem refl (s : Store) : Turns P s s := ⟨[], rfl, by simp⟩

theorem trans (h : Turns P s s₁) (h' : Turns P s₁ s₂) : Turns P s s₂ := by
  obtain ⟨changes, rfl, hspares⟩ := h
  obtain ⟨changes', rfl, hspares'⟩ := h'
  refine ⟨changes ++ changes', (List.foldl_append ..).symm, ?_⟩
  exact List.forall_mem_append.2 ⟨hspares, hspares'⟩

theorem single (c : Change) (hc : c.Spares P) : Turns P s (c.apply s) :=
  ⟨[c], rfl, by simpa using hc⟩

theorem chain (items : List Value) (tail : Value) (s : Store) : Turns P s (s.chain items tail).2 := by
  induction items with
  | nil => exact refl s
  | cons item rest ih => exact ih.trans (single .newPair trivial)

theorem appendStructs (s : Store) (new : List Struct) :
    Turns P s { s with structs := s.structs ++ new.toArray } := by
  induction new generalizing s with
  | nil => simpa using refl s
  | cons struct rest ih =>
    have hrest := ih (s.newStruct struct).2
    simp only [newStruct, Array.push_eq_append, Array.append_assoc] at hrest
    refine (single (.newStruct struct) trivial).trans ?_
    simpa [Change.apply, newStruct] using hrest

end Turns

theorem Change.grows (c : Change) (s : Store) : s.Grows (c.apply s) := by
  cases c with
  | newText text => exact .newText text s
  | newVector items => exact .newVector items s
  | newStruct struct => exact .newStruct struct s
  | newClosure closure => exact .newClosure closure s
  | newPair => exact .cons s _ _
  | setText a text => exact .setText a text s
  | setItem a i value => exact .setItem a i value s
  | pushItem a value => exact .pushItem a value s
  | setField a name value => exact .setFieldValue a name value s

theorem grows_changed (s : Store) (changes : List Change) : s.Grows (s.changed changes) := by
  induction changes generalizing s with
  | nil => exact .refl s
  | cons c rest ih => exact (c.grows s).trans (ih (c.apply s))

theorem Turns.grows (h : Turns P s s₁) : s.Grows s₁ := by
  obtain ⟨changes, rfl, -⟩ := h
  exact s.grows_changed changes

/-- A change leaves a struct as it is that it does not write to. -/
theorem Change.struct_apply {c : Change} (hc : c.Spares P) {a : Address} (ha : P a)
    (hlt : a < s.structs.size) : (c.apply s).struct a = s.struct a := by
  cases c with
  | newStruct struct => exact s.struct_newStruct_of_ne struct (Nat.ne_of_lt hlt)
  | setField b name value =>
    have hne : b ≠ a := fun heq => hc (heq ▸ ha)
    simp [Change.apply, setFieldValue, Store.struct, Array.getD_eq_getD_getElem?,
      Array.getElem?_modify, hne]
  | _ => rfl

theorem struct_changed {changes : List Change} (hspares : ∀ c ∈ changes, c.Spares P) {a : Address}
    (ha : P a) (hlt : a < s.structs.size) : (s.changed changes).struct a = s.struct a := by
  induction changes generalizing s with
  | nil => rfl
  | cons c rest ih =>
    obtain ⟨hc, hrest⟩ := List.forall_mem_cons.1 hspares
    have hlt' := Nat.lt_of_lt_of_le hlt (c.grows s).structs
    exact (ih hrest hlt').trans (c.struct_apply hc ha hlt)

/-- **Changes that spare a struct leave it as it is.** -/
theorem Turns.struct_eq (h : Turns P s s₁) {a : Address} (ha : P a) (hlt : a < s.structs.size) :
    s₁.struct a = s.struct a := by
  obtain ⟨changes, rfl, hspares⟩ := h
  exact struct_changed hspares ha hlt

end Store

/-! ## Values that refer to none of the structs -/

section Avoiding

variable {P : Address → Prop}

/-- No struct in a tree is one of `P`. -/
def Value.Avoids (P : Address → Prop) : Value → Prop
  | struct a => ¬P a
  | quoted inner => inner.Avoids P
  | pair _ car cdr => car.Avoids P ∧ cdr.Avoids P
  | _ => True

/-- Several values refer to none of `P`. -/
abbrev Value.AllAvoid (P : Address → Prop) (vs : List Value) : Prop := ∀ v ∈ vs, v.Avoids P

/-- The values that names are bound to refer to none of `P`. -/
abbrev Bound.Avoid (P : Address → Prop) (entries : List (String × Value)) : Prop :=
  ∀ entry ∈ entries, entry.2.Avoids P

/-- The values in an environment refer to none of `P`. Of its templates nothing is said. -/
abbrev Environment.Avoids (P : Address → Prop) (env : Environment) : Prop :=
  Bound.Avoid P env.bindings.entries

/-- A closure refers to none of `P`. -/
structure Closure.Avoids (P : Address → Prop) (c : Closure) : Prop where
  body : Value.AllAvoid P c.body
  env : c.env.Avoids P
  bound : Bound.Avoid P c.bound

/-- The values in fields refer to none of `P`. -/
abbrev Field.AllAvoid (P : Address → Prop) (fields : List (String × Field)) : Prop :=
  ∀ entry ∈ fields, entry.2.value.Avoids P

/-- The values in the fields of a struct refer to none of `P`. -/
abbrev Struct.Avoids (P : Address → Prop) (struct : Struct) : Prop :=
  Field.AllAvoid P struct.fields.entries

/-- The defaults of declared fields refer to none of `P`. -/
abbrev FieldSpec.AllAvoid (P : Address → Prop) (specs : List FieldSpec) : Prop :=
  ∀ spec ∈ specs, spec.default.Avoids P

theorem Value.AllAvoid.nil : Value.AllAvoid P [] := fun _ h => by cases h

theorem Bound.Avoid.nil : Bound.Avoid P [] := fun _ h => by cases h

namespace Value.Avoids

theorem of_isPlain {v : Value} (hv : v.isPlain = true) : v.Avoids P := by
  cases v with
  | nil | truth | integer n | float x | char c => exact trivial
  | _ => cases hv

theorem mono {Q : Address → Prop} (h : ∀ a, Q a → P a) {v : Value} (hv : v.Avoids P) :
    v.Avoids Q := by
  induction v with
  | struct a => exact fun ha => hv (h a ha)
  | quoted inner ih => exact ih hv
  | pair stamp car cdr ihCar ihCdr => exact ⟨ihCar hv.1, ihCdr hv.2⟩
  | _ => exact trivial

/-- The items of a list refer to what the list refers to. -/
theorem of_mem_toList? {v item : Value} {items : List Value} (h : v.toList? = some items)
    (hv : v.Avoids P) (hitem : item ∈ items) : item.Avoids P :=
  forall_mem_toList? (fun _ _ _ hpair => hpair) h hv item hitem

/-- A default is an item of its field entry. -/
theorem fieldParts? {entry default : Value} {name : String} {tag : Option TypeTag}
    (hentry : entry.Avoids P)
    (h : SpecialForm.fieldParts? entry = some (name, tag, some default)) : default.Avoids P := by
  obtain ⟨_, hlist, -, hdefault⟩ := SpecialForm.mem_of_fieldParts? h
  exact .of_mem_toList? hlist hentry (hdefault _ rfl)

end Value.Avoids

namespace Environment.Avoids

variable {env : Environment}

theorem put (henv : env.Avoids P) (name : String) {value : Value} (hvalue : value.Avoids P) :
    (env.put name value).Avoids P := by
  intro entry hentry
  rcases Table.mem_insertEntry hentry with rfl | hentry
  · exact hvalue
  · exact henv entry hentry

theorem putAll (henv : env.Avoids P) {entries : List (String × Value)}
    (hentries : Bound.Avoid P entries) : (env.putAll entries).Avoids P := by
  induction entries generalizing env with
  | nil => exact henv
  | cons entry rest ih =>
    exact ih (henv.put entry.1 (hentries entry (List.mem_cons_self ..)))
      fun e he => hentries e (List.mem_cons_of_mem _ he)

theorem remove (henv : env.Avoids P) (name : String) : (env.remove name).Avoids P :=
  fun entry hentry => henv entry (List.mem_filter.1 hentry).1

theorem get? (henv : env.Avoids P) {name : String} {v : Value}
    (h : env.bindings.get? name = some v) : v.Avoids P := henv _ (Table.mem_of_lookup h)

end Environment.Avoids

end Avoiding

/-! ## Stores that spare the structs -/

/-- No object refers to a struct of `P`, apart from these structs: they hold structs of `P` directly in
their fields, and none of them leads back to itself. -/
structure Store.Spares (P : Address → Prop) (s : Store) : Prop where
  vectors : ∀ items ∈ s.vectors, ∀ v ∈ items, v.Avoids P
  closures : ∀ c ∈ s.closures, c.Avoids P
  constants : ∀ v ∈ s.constants, v.Avoids P
  others : ∀ a, ¬P a → (s.struct a).Avoids P
  fields : ∀ a, P a → ∀ entry ∈ (s.struct a).fields.entries,
    (∃ b, entry.2.value = .struct b) ∨ entry.2.value.Avoids P
  known : ∀ a, P a → a < s.structs.size
  closed : ∀ a b, P a → s.Link a b → P b
  acyclic : ∀ a, P a → ¬s.Recurs a

namespace Store.Spares

variable {P : Address → Prop} {s s' : Store} (hs : s.Spares P)
include hs

/-- A field holds a struct of `P`, or refers to none. -/
theorem whole (a : Address) {entry : String × Field} (h : entry ∈ (s.struct a).fields.entries) :
    (∃ b, entry.2.value = .struct b ∧ P b) ∨ entry.2.value.Avoids P := by
  by_cases ha : P a
  · refine (hs.fields a ha entry h).imp_left ?_
    rintro ⟨b, hb⟩
    exact ⟨b, hb, hs.closed a b ha ⟨entry, h, hb⟩⟩
  · exact .inr (hs.others a ha entry h)

theorem vector (a : Address) : ∀ v ∈ s.vector a, v.Avoids P := by
  unfold Store.vector
  rw [Array.getD_eq_getD_getElem?]
  cases hitems : s.vectors[a]? with
  | none =>
    intro v hv
    cases Array.not_mem_empty v hv
  | some items => exact hs.vectors items (Array.mem_of_getElem? hitems)

theorem closure (a : Address) : (s.closure a).Avoids P := by
  unfold Store.closure
  rw [Array.getD_eq_getD_getElem?]
  cases hc : s.closures[a]? with
  | none => exact ⟨.nil, .nil, .nil⟩
  | some c => exact hs.closures c (Array.mem_of_getElem? hc)

theorem constant (slot : Nat) : (s.constant slot).Avoids P := by
  rw [Store.constant, Array.getD_eq_getD_getElem?]
  cases hv : s.constants[slot]? with
  | none => exact trivial
  | some v => exact hs.constants v (Array.mem_of_getElem? hv)

/-- The structs of `P` lead to structs of `P` only. -/
theorem of_leads {a b : Address} (ha : P a) (h : s.Leads a b) : P b := by
  induction h with
  | refl => exact ha
  | tail _ hlink ih => exact hs.closed _ _ ih hlink

/-- A struct that is not there yet is none of `P`. -/
theorem fresh : ¬P s.structs.size := fun h => Nat.lt_irrefl _ (hs.known _ h)

/-! ### Making and changing objects -/

theorem newVector {items : Array Value} (hitems : ∀ v ∈ items, v.Avoids P) :
    (s.newVector items).2.Spares P := by
  refine { hs with vectors := fun found h => ?_ }
  rcases Array.mem_push.1 h with h | rfl
  · exact hs.vectors found h
  · exact hitems

theorem newClosure {c : Closure} (hc : c.Avoids P) : (s.newClosure c).2.Spares P := by
  refine { hs with closures := fun found h => ?_ }
  rcases Array.mem_push.1 h with h | rfl
  · exact hs.closures found h
  · exact hc

theorem chain {items : List Value} {tail : Value} (hitems : Value.AllAvoid P items)
    (htail : tail.Avoids P) :
    (s.chain items tail).2.Spares P ∧ (s.chain items tail).1.Avoids P := by
  induction items with
  | nil => exact ⟨hs, htail⟩
  | cons item rest ih =>
    obtain ⟨hrest, hlist⟩ := ih fun v hv => hitems v (List.mem_cons_of_mem _ hv)
    exact ⟨{ hrest with }, hitems item (List.mem_cons_self ..), hlist⟩

theorem setItem (a : Address) (i : Nat) {value : Value} (hvalue : value.Avoids P) :
    (s.setItem a i value).Spares P := by
  refine { hs with vectors := fun items h => ?_ }
  simp only [Store.setItem] at h
  rcases Store.Valid.mem_modify h with h | ⟨old, hold, rfl⟩
  · exact hs.vectors items h
  · intro v hv
    rcases Array.mem_or_eq_of_mem_setIfInBounds hv with hv | rfl
    · exact hs.vectors old hold v hv
    · exact hvalue

theorem pushItem (a : Address) {value : Value} (hvalue : value.Avoids P) :
    (s.pushItem a value).Spares P := by
  refine { hs with vectors := fun items h => ?_ }
  simp only [Store.pushItem] at h
  rcases Store.Valid.mem_modify h with h | ⟨old, hold, rfl⟩
  · exact hs.vectors items h
  · intro v hv
    rcases Array.mem_push.1 hv with hv | rfl
    · exact hs.vectors old hold v hv
    · exact hvalue

/-- Other structs may change, as long as they refer to none of `P`. -/
theorem withStructs (h : s.Turns P s') (hvectors : s'.vectors = s.vectors)
    (hclosures : s'.closures = s.closures) (hothers : ∀ a, ¬P a → (s'.struct a).Avoids P) :
    s'.Spares P := by
  have hkept : ∀ a, P a → s'.struct a = s.struct a := fun a ha => h.struct_eq ha (hs.known a ha)
  have hlink : ∀ a b, P a → s'.Link a b → s.Link a b := by
    intro a b ha hab
    unfold Store.Link at hab ⊢
    rwa [hkept a ha] at hab
  constructor
  · rw [hvectors]
    exact hs.vectors
  · rw [hclosures]
    exact hs.closures
  · rw [h.grows.constants]
    exact hs.constants
  · exact hothers
  · intro a ha entry hentry
    rw [hkept a ha] at hentry
    exact hs.fields a ha entry hentry
  · exact fun a ha => Nat.lt_of_lt_of_le (hs.known a ha) h.grows.structs
  · exact fun a b ha hab => hs.closed a b ha (hlink a b ha hab)
  · intro a ha hrecurs
    -- On the way back only structs of `P` are met, which are as they were.
    obtain ⟨b, hab, hba⟩ := Relation.TransGen.head'_iff.1 hrecurs
    have hb := hs.closed a b ha (hlink a b ha hab)
    have hback : s.Leads b a :=
      (Store.leads_iff_of_kept fun c hc => hkept c (hs.of_leads hb hc)).1 hba
    exact hs.acyclic a ha (.head' (hlink a b ha hab) hback)

theorem appendStructs {new : List Struct} (hnew : ∀ struct ∈ new, struct.Avoids P) :
    Store.Spares P { s with structs := s.structs ++ new.toArray } := by
  refine hs.withStructs (.appendStructs s new) rfl rfl fun a ha entry hentry => ?_
  simp only [Store.struct, Array.getD_eq_getD_getElem?, Array.getElem?_append] at hentry
  split at hentry
  · refine hs.others a ha entry ?_
    rwa [Store.struct, Array.getD_eq_getD_getElem?]
  · cases hfound : new.toArray[a - s.structs.size]? with
    | none =>
      rw [hfound] at hentry
      cases hentry
    | some struct =>
      rw [hfound] at hentry
      exact hnew struct (by simpa using Array.mem_of_getElem? hfound) entry hentry

theorem newStruct {struct : Struct} (hstruct : struct.Avoids P) :
    (s.newStruct struct).2.Spares P := by
  have hnew : ∀ made ∈ [struct], Struct.Avoids P made := List.forall_mem_singleton.2 hstruct
  have happend := hs.appendStructs hnew
  simpa [Store.newStruct] using happend

theorem setFieldValue {a : Address} (ha : ¬P a) (name : String) {value : Value}
    (hvalue : value.Avoids P) : (s.setFieldValue a name value).Spares P := by
  refine hs.withStructs (.single (.setField a name value) ha) rfl rfl fun b hb => ?_
  have hold := hs.others b hb
  simp only [Store.struct, Store.setFieldValue, Array.getD_eq_getD_getElem?,
    Array.getElem?_modify] at hold ⊢
  cases hfound : s.structs[b]? with
  | none => simpa [hfound] using hold
  | some struct =>
    simp only [hfound, Option.getD_some] at hold
    split
    · cases hfield : struct.fields.get? name with
      | none => simpa [hfield] using hold
      | some field =>
        simp only [Option.map_some, Option.getD_some, hfield]
        intro entry hentry
        rcases Table.mem_insertEntry hentry with rfl | hentry
        · exact hvalue
        · exact hold entry hentry
    · simpa using hold

end Store.Spares

/-! ## Copies and declarations -/

/-- These structs stand behind those of `s`, and refer to none of `P`. -/
def Store.Behind (P : Address → Prop) (s : Store) (made : Array Struct) : Prop :=
  ∃ new : List Struct, made = s.structs ++ new.toArray ∧ ∀ struct ∈ new, struct.Avoids P

namespace Store.Behind

variable {P : Address → Prop} {s : Store} {made : Array Struct}

theorem refl (s : Store) : Behind P s s.structs := ⟨[], by simp, by simp⟩

theorem push (h : Behind P s made) {struct : Struct} (hstruct : struct.Avoids P) :
    Behind P s (made.push struct) := by
  obtain ⟨new, rfl, hnew⟩ := h
  refine ⟨new ++ [struct], by simp, ?_⟩
  exact List.forall_mem_append.2 ⟨hnew, by simpa using hstruct⟩

/-- The next struct that is made is none of `P`. -/
theorem fresh (h : Behind P s made) (hs : s.Spares P) : ¬P made.size := by
  obtain ⟨new, rfl, -⟩ := h
  intro hP
  have hlt := hs.known _ hP
  rw [Array.size_append] at hlt
  exact Nat.not_lt_of_le (Nat.le_add_right _ _) hlt

end Store.Behind

section Made

variable {P : Address → Prop} {s s' : Store} (hs : s.Spares P)
include hs

/-- **A copy refers to none of `P`**, whether it is one of a struct of `P` or of another. -/
theorem Struct.CopyRun.avoid {made made' : Array Struct} {path : List Address}
    {entries copied : List (String × Field)}
    (h : CopyRun s.structs path made entries copied made') (hmade : s.Behind P made)
    (hpath : ∀ p ∈ path, P p → ∀ a, Field.Holds entries a → Relation.TransGen s.Link p a)
    (hentries : ∀ entry ∈ entries,
      (∃ b, entry.2.value = .struct b ∧ P b) ∨ entry.2.value.Avoids P) :
    s.Behind P made' ∧ Field.AllAvoid P copied := by
  induction h with
  | nil => exact ⟨hmade, fun entry h => by cases h⟩
  | @keep path made made' name field rest copied hkept _ ih =>
    obtain ⟨hfield, hentries⟩ := List.forall_mem_cons.1 hentries
    obtain ⟨hmade', hcopies⟩ := ih hmade
      (fun p hp hP a ha => hpath p hp hP a (Field.holds_cons.2 (.inr ha))) hentries
    refine ⟨hmade', List.forall_mem_cons.2 ⟨hfield.resolve_left ?_, hcopies⟩⟩
    rintro ⟨b, hvalue, hb⟩
    rcases hkept b hvalue with hmem | hsize
    · -- On the path stands no struct of `P` that a field leads back to.
      exact hs.acyclic b hb (hpath b hmem hb b (Field.holds_cons.2 (.inl hvalue)))
    · exact Nat.not_lt_of_le hsize (hs.known b hb)
  | @copy path made inside made' name field rest fields copied a inner hvalue _ ha _ _ ihFields
      ihRest =>
    obtain ⟨-, hentries⟩ := List.forall_mem_cons.1 hentries
    obtain ⟨-, rfl⟩ := Store.struct_eq_of_getElem? ha
    -- The fields of the copied struct are copied below a path that leads to them, too.
    obtain ⟨hinside, hfields⟩ := ihFields hmade (fun p hp hP c hc => by
      rcases List.mem_cons.1 hp with rfl | hp
      · exact .single hc
      · exact (hpath p hp hP a (Field.holds_cons.2 (.inl hvalue))).tail hc) fun entry h =>
        hs.whole a h
    obtain ⟨hmade', hcopies⟩ := ihRest (hinside.push hfields)
      (fun p hp hP a ha => hpath p hp hP a (Field.holds_cons.2 (.inr ha))) hentries
    exact ⟨hmade', List.forall_mem_cons.2 ⟨hinside.fresh hs, hcopies⟩⟩

theorem Store.Spares.copyFields (a : Address) :
    s.Turns P (s.copyFields (s.struct a)).2 ∧ (s.copyFields (s.struct a)).2.Spares P ∧
      Field.AllAvoid P (s.copyFields (s.struct a)).1.entries := by
  have hrun := Struct.copyRun_copyFields s.structs [] s.structs (s.struct a).fields.entries
  obtain ⟨⟨new, hmade, hnew⟩, hfields⟩ :=
    hrun.avoid hs (.refl s) (by simp) fun entry h => hs.whole a h
  simp only [Store.copyFields, hmade]
  exact ⟨.appendStructs s new, hs.appendStructs hnew, hfields⟩

/-- A copy is a new struct that refers to none of `P`. -/
theorem Store.Spares.copyStruct (a : Address) :
    s.Turns P (s.copyStruct (s.struct a)).2 ∧ (s.copyStruct (s.struct a)).2.Spares P ∧
      ¬P (s.copyStruct (s.struct a)).1 := by
  obtain ⟨hturns, hspares, hfields⟩ := hs.copyFields a
  have hnew : (Store.Change.newStruct { s.struct a with
      fields := (s.copyFields (s.struct a)).1 }).Spares P := trivial
  refine ⟨hturns.trans (.single _ hnew), hspares.newStruct hfields, fun hP => ?_⟩
  exact Nat.not_lt_of_le hturns.grows.structs (hs.known _ hP)

theorem Store.Spares.setField {a : Address} (ha : ¬P a) {name : String} {value v : Value}
    (hvalue : value.Avoids P) (h : s.setField a name value = .ok (v, s')) :
    s.Turns P s' ∧ s'.Spares P ∧ v.Avoids P := by
  obtain ⟨rfl, rfl, -⟩ := Store.setField_ok h
  exact ⟨.single (.setField a name _) ha, hs.setFieldValue ha name hvalue, hvalue⟩

theorem Store.Spares.setFields {a : Address} (ha : ¬P a) {entries : List (String × Value)}
    (hentries : Bound.Avoid P entries) (h : s.setFields a entries = .ok s') :
    s.Turns P s' ∧ s'.Spares P := by
  refine Store.setFields_induction (P := fun t => s.Turns P t ∧ t.Spares P) h ⟨.refl s, hs⟩ ?_
  rintro entry hentry s₁ v s₂ ⟨hturns, hs₁⟩ hset
  obtain ⟨hturns', hs₂, -⟩ := hs₁.setField ha (hentries entry hentry) hset
  exact ⟨hturns.trans hturns', hs₂⟩

omit hs in
theorem Struct.declare_avoid {name : String} {specs : List FieldSpec} {fields t : Table Field}
    (hspecs : FieldSpec.AllAvoid P specs) (hfields : Field.AllAvoid P fields.entries)
    (h : declare s name fields specs = .ok t) : Field.AllAvoid P t.entries := by
  refine declare_induction (P := fun t => Field.AllAvoid P t.entries) h hfields ?_
  intro spec hspec _ t ht entry hentry
  rcases Table.mem_insertEntry hentry with rfl | hentry
  · exact hspecs spec hspec
  · exact ht entry hentry

omit hs in
theorem Struct.define_avoid {name : String} {specs : List FieldSpec} {struct : Struct}
    (hspecs : FieldSpec.AllAvoid P specs) (h : define s name specs = .ok struct) :
    struct.Avoids P := by
  obtain ⟨fields, hdeclared, rfl⟩ := define_ok h
  exact declare_avoid hspecs (fun entry hentry => by cases hentry) hdeclared

theorem Struct.derive_avoid {name : String} (a : Address) {specs : List FieldSpec}
    {struct : Struct} (hspecs : FieldSpec.AllAvoid P specs)
    (h : derive s name (s.struct a) specs = .ok (struct, s')) :
    s.Turns P s' ∧ s'.Spares P ∧ struct.Avoids P := by
  obtain ⟨hturns, hspares, hfields⟩ := hs.copyFields a
  obtain ⟨rfl, fields, hdeclared, rfl⟩ := derive_ok h
  exact ⟨hturns, hspares, declare_avoid hspecs hfields hdeclared⟩

theorem Store.Spares.read {a : Address} (ha : ¬P a) {name : String} {v : Value}
    (h : (s.struct a).read name = .ok v) : v.Avoids P := by
  obtain ⟨field, hfield, rfl⟩ := Struct.read_ok h
  exact hs.others a ha _ (Table.mem_of_lookup hfield)

end Made

/-! ## Builtin functions -/

namespace Store.Spares

variable {P : Address → Prop} {s s' : Store} {args : List Value} {v : Value} (hs : s.Spares P)
  (hargs : Value.AllAvoid P args)
include hargs

omit hs in
theorem car : (Builtin.car args).Avoids P := by
  unfold Builtin.car
  split
  · next stamp car cdr rest => exact (hargs (.pair stamp car cdr) (List.mem_cons_self ..)).1
  · exact trivial

omit hs in
theorem cdr : (Builtin.cdr args).Avoids P := by
  unfold Builtin.cdr
  split
  · next stamp car cdr rest => exact (hargs (.pair stamp car cdr) (List.mem_cons_self ..)).2
  · exact trivial

include hs

theorem consArgs (h : Builtin.cons s args = .ok (v, s')) :
    s.Turns P s' ∧ s'.Spares P ∧ v.Avoids P := by
  obtain ⟨car, cdr, rfl, rfl, rfl⟩ := Builtin.cons_ok h
  exact ⟨.single .newPair trivial, { hs with }, hargs car (by simp), hargs cdr (by simp)⟩

theorem setElement (h : Builtin.setElement s args = .ok (v, s')) :
    s.Turns P s' ∧ s'.Spares P ∧ v.Avoids P := by
  rcases Builtin.setElement_cases h with
    ⟨a, index, i, rfl, -, rfl⟩ | ⟨a, index, i, c, rfl, rfl, -, rfl⟩
  · have hvalue := hargs v (by simp)
    exact ⟨.single (.setItem a i _) trivial, hs.setItem a i hvalue, hvalue⟩
  · exact ⟨.single (.setText a _) trivial, { hs with }, trivial⟩

theorem append (h : Builtin.append s args = .ok (v, s')) :
    s.Turns P s' ∧ s'.Spares P ∧ v.Avoids P := by
  rcases Builtin.append_cases h with ⟨a, value, rfl, rfl, rfl⟩ | ⟨a, value, text, rfl, rfl, rfl⟩
  · exact ⟨.single (.pushItem a _) trivial, hs.pushItem a (hargs value (by simp)), trivial⟩
  · exact ⟨.single (.setText a _) trivial, { hs with }, trivial⟩

theorem copy (h : Builtin.copy s args = .ok (v, s')) :
    s.Turns P s' ∧ s'.Spares P ∧ v.Avoids P := by
  rcases Builtin.copy_cases h with
    ⟨a, -, rfl, rfl⟩ | ⟨a, -, rfl, rfl⟩ | ⟨a, -, rfl, rfl⟩ | ⟨rfl, rfl⟩
  · exact hs.copyStruct a
  · exact ⟨.single (.newText _) trivial, { hs with }, trivial⟩
  · exact ⟨.single (.newVector _) trivial, hs.newVector (hs.vector a), trivial⟩
  · exact ⟨.refl _, hs, hargs v (List.mem_cons_self ..)⟩

omit hargs in
theorem joinText (h : Builtin.joinText s args = .ok (v, s')) :
    s.Turns P s' ∧ s'.Spares P ∧ v.Avoids P := by
  obtain ⟨text, rfl, rfl⟩ := Builtin.joinText_ok h
  exact ⟨.single (.newText text) trivial, { hs with }, trivial⟩

end Store.Spares

end CurryLisp
