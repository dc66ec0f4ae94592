import CurryLisp.Proofs.References

/-!
# Native functions in reach

A program reaches native functions through names, through shared objects and through the code of
closures. `UsesOnly ok` says that every one of them is among the functions `ok`. No operation makes a
native function, so what is made of such values is such a value again.

Statements:

* `Environment.UsesOnly`: bindings keep to the functions `ok`.
* `Store.UsesOnly`: each operation on objects keeps to the functions `ok`.
* `Store.UsesOnly.of_forall`: if every function is `ok`, nothing is asked.
-/

namespace CurryLisp

variable {ok : NativeFunction → Prop}

/-! ## What uses only some functions -/

/-- Every native function in a tree is `ok`. -/
def Value.UsesOnly (ok : NativeFunction → Prop) : Value → Prop
  | native f => ok f
  | quoted inner => inner.UsesOnly ok
  | pair _ car cdr => car.UsesOnly ok ∧ cdr.UsesOnly ok
  | _ => True

/-- Several values use only functions that are `ok`. -/
abbrev Value.AllUseOnly (ok : NativeFunction → Prop) (vs : List Value) : Prop :=
  ∀ v ∈ vs, v.UsesOnly ok

/-- The values that names are bound to use only functions that are `ok`. -/
abbrev Bound.UseOnly (ok : NativeFunction → Prop) (entries : List (String × Value)) : Prop :=
  ∀ entry ∈ entries, entry.2.UsesOnly ok

/-- The values in an environment use only functions that are `ok`. -/
abbrev Environment.UsesOnly (ok : NativeFunction → Prop) (env : Environment) : Prop :=
  Bound.UseOnly ok env.bindings.entries

/-- A closure uses only functions that are `ok`. -/
structure Closure.UsesOnly (ok : NativeFunction → Prop) (c : Closure) : Prop where
  body : Value.AllUseOnly ok c.body
  env : c.env.UsesOnly ok
  bound : Bound.UseOnly ok c.bound

/-- The values in fields use only functions that are `ok`. -/
abbrev Field.AllUseOnly (ok : NativeFunction → Prop) (fields : List (String × Field)) : Prop :=
  ∀ entry ∈ fields, entry.2.value.UsesOnly ok

/-- A struct uses only functions that are `ok`. -/
abbrev Struct.UsesOnly (ok : NativeFunction → Prop) (struct : Struct) : Prop :=
  Field.AllUseOnly ok struct.fields.entries

/-- The defaults of declared fields use only functions that are `ok`. -/
abbrev FieldSpec.AllUseOnly (ok : NativeFunction → Prop) (specs : List FieldSpec) : Prop :=
  ∀ spec ∈ specs, spec.default.UsesOnly ok

/-- Every object uses only functions that are `ok`. -/
structure Store.UsesOnly (ok : NativeFunction → Prop) (s : Store) : Prop where
  vectors : ∀ items ∈ s.vectors, ∀ v ∈ items, v.UsesOnly ok
  structs : ∀ struct ∈ s.structs, struct.UsesOnly ok
  closures : ∀ c ∈ s.closures, c.UsesOnly ok
  constants : ∀ v ∈ s.constants, v.UsesOnly ok

theorem Value.AllUseOnly.nil : Value.AllUseOnly ok [] := fun _ h => by cases h

theorem Bound.UseOnly.nil : Bound.UseOnly ok [] := fun _ h => by cases h

/-! ### Where every function is accepted -/

theorem Value.UsesOnly.of_forall (h : ∀ f, ok f) (v : Value) : v.UsesOnly ok := by
  induction v with
  | native f => exact h f
  | quoted inner ih => exact ih
  | pair stamp car cdr ihCar ihCdr => exact ⟨ihCar, ihCdr⟩
  | _ => trivial

theorem Store.UsesOnly.of_forall (h : ∀ f, ok f) (s : Store) : s.UsesOnly ok where
  vectors := fun _ _ v _ => .of_forall h v
  structs := fun _ _ entry _ => .of_forall h entry.2.value
  closures := fun _ _ => ⟨fun v _ => .of_forall h v, fun entry _ => .of_forall h entry.2,
    fun entry _ => .of_forall h entry.2⟩
  constants := fun v _ => .of_forall h v

/-! ## Values -/

namespace Value.UsesOnly

theorem of_isPlain {v : Value} (hv : v.isPlain = true) : v.UsesOnly ok := by
  cases v with
  | nil | truth | integer n | float x | char c => exact trivial
  | _ => cases hv

/-- The items of a list use only what the list uses. -/
theorem of_mem_toList? {v item : Value} {items : List Value} (h : v.toList? = some items)
    (hv : v.UsesOnly ok) (hitem : item ∈ items) : item.UsesOnly ok :=
  forall_mem_toList? (fun _ _ _ hpair => hpair) h hv item hitem

/-- A default is an item of its field entry. -/
theorem fieldParts? {entry default : Value} {name : String} {tag : Option TypeTag}
    (hentry : entry.UsesOnly ok)
    (h : SpecialForm.fieldParts? entry = some (name, tag, some default)) :
    default.UsesOnly ok := by
  obtain ⟨_, hlist, -, hdefault⟩ := SpecialForm.mem_of_fieldParts? h
  exact .of_mem_toList? hlist hentry (hdefault _ rfl)

end Value.UsesOnly

/-! ## Environments -/

namespace Environment.UsesOnly

variable {env : Environment}

theorem put (henv : env.UsesOnly ok) (name : String) {value : Value} (hvalue : value.UsesOnly ok) :
    (env.put name value).UsesOnly ok := by
  intro entry hentry
  rcases Table.mem_insertEntry hentry with rfl | hentry
  · exact hvalue
  · exact henv entry hentry

theorem putAll (henv : env.UsesOnly ok) {entries : List (String × Value)}
    (hentries : Bound.UseOnly ok entries) : (env.putAll entries).UsesOnly ok := by
  induction entries generalizing env with
  | nil => exact henv
  | cons entry rest ih =>
    exact ih (henv.put entry.1 (hentries entry (List.mem_cons_self ..)))
      fun e he => hentries e (List.mem_cons_of_mem _ he)

theorem remove (henv : env.UsesOnly ok) (name : String) : (env.remove name).UsesOnly ok :=
  fun entry hentry => henv entry (List.mem_filter.1 hentry).1

theorem get? (henv : env.UsesOnly ok) {name : String} {v : Value}
    (h : env.bindings.get? name = some v) : v.UsesOnly ok := henv _ (Table.mem_of_lookup h)

/-- The initial environment binds names to the builtin functions. -/
theorem initial (h : ∀ f ∈ Builtin.all, ok f) : Environment.initial.UsesOnly ok := by
  have hfunctions : ∀ (functions : List NativeFunction) (env : Environment),
      (∀ f ∈ functions, ok f) → env.UsesOnly ok →
        (functions.foldl (fun env f => env.put f.name (.native f)) env).UsesOnly ok := by
    intro functions
    induction functions with
    | nil => exact fun _ _ henv => henv
    | cons f functions ih =>
      intro env hok henv
      have hf : (Value.native f).UsesOnly ok := hok f (List.mem_cons_self ..)
      exact ih _ (fun g hg => hok g (List.mem_cons_of_mem _ hg)) (henv.put f.name hf)
  refine hfunctions Builtin.all _ h fun entry hentry => ?_
  have hnone : (BaseType.all.foldl (fun (env : Environment) (b : BaseType) => env.putType b.tag)
      {}).bindings.entries = [] := rfl
  rw [hnone] at hentry
  cases hentry

end Environment.UsesOnly

/-! ## Objects -/

namespace Store.UsesOnly

variable {s : Store} (hs : s.UsesOnly ok)
include hs

theorem vector (a : Address) : ∀ v ∈ s.vector a, v.UsesOnly ok := by
  unfold Store.vector
  rw [Array.getD_eq_getD_getElem?]
  cases hitems : s.vectors[a]? with
  | none =>
    intro v hv
    cases Array.not_mem_empty v hv
  | some items => exact hs.vectors items (Array.mem_of_getElem? hitems)

theorem struct (a : Address) : (s.struct a).UsesOnly ok := by
  unfold Store.struct
  rw [Array.getD_eq_getD_getElem?]
  cases hstruct : s.structs[a]? with
  | none =>
    intro entry hentry
    cases hentry
  | some struct => exact hs.structs struct (Array.mem_of_getElem? hstruct)

theorem closure (a : Address) : (s.closure a).UsesOnly ok := by
  unfold Store.closure
  rw [Array.getD_eq_getD_getElem?]
  cases hc : s.closures[a]? with
  | none => exact ⟨.nil, .nil, .nil⟩
  | some c => exact hs.closures c (Array.mem_of_getElem? hc)

theorem constant (slot : Nat) : (s.constant slot).UsesOnly ok := by
  rw [Store.constant, Array.getD_eq_getD_getElem?]
  cases hv : s.constants[slot]? with
  | none => exact trivial
  | some v => exact hs.constants v (Array.mem_of_getElem? hv)

/-! ### Making objects -/

theorem newText (text : String) :
    (s.newText text).2.UsesOnly ok ∧ (s.newText text).1.UsesOnly ok :=
  ⟨{ hs with }, trivial⟩

theorem newVector {items : Array Value} (hitems : ∀ v ∈ items, v.UsesOnly ok) :
    (s.newVector items).2.UsesOnly ok ∧ (s.newVector items).1.UsesOnly ok := by
  refine ⟨{ hs with vectors := fun found h => ?_ }, trivial⟩
  rcases Array.mem_push.1 h with h | rfl
  · exact hs.vectors found h
  · exact hitems

theorem newStruct {struct : Struct} (hstruct : struct.UsesOnly ok) :
    (s.newStruct struct).2.UsesOnly ok := by
  refine { hs with structs := fun found h => ?_ }
  rcases Array.mem_push.1 h with h | rfl
  · exact hs.structs found h
  · exact hstruct

theorem newClosure {c : Closure} (hc : c.UsesOnly ok) :
    (s.newClosure c).2.UsesOnly ok ∧ (s.newClosure c).1.UsesOnly ok := by
  refine ⟨{ hs with closures := fun found h => ?_ }, trivial⟩
  rcases Array.mem_push.1 h with h | rfl
  · exact hs.closures found h
  · exact hc

theorem chain {items : List Value} {tail : Value} (hitems : Value.AllUseOnly ok items)
    (htail : tail.UsesOnly ok) :
    (s.chain items tail).2.UsesOnly ok ∧ (s.chain items tail).1.UsesOnly ok := by
  induction items with
  | nil => exact ⟨hs, htail⟩
  | cons item rest ih =>
    obtain ⟨hrest, hlist⟩ := ih fun v hv => hitems v (List.mem_cons_of_mem _ hv)
    exact ⟨{ hrest with }, hitems item (List.mem_cons_self ..), hlist⟩

/-! ### Changing objects -/

theorem setItem (a : Address) (i : Nat) {value : Value} (hvalue : value.UsesOnly ok) :
    (s.setItem a i value).UsesOnly ok := by
  refine { hs with vectors := fun items h => ?_ }
  simp only [Store.setItem] at h
  rcases Store.Valid.mem_modify h with h | ⟨old, hold, rfl⟩
  · exact hs.vectors items h
  · intro v hv
    rcases Array.mem_or_eq_of_mem_setIfInBounds hv with hv | rfl
    · exact hs.vectors old hold v hv
    · exact hvalue

theorem pushItem (a : Address) {value : Value} (hvalue : value.UsesOnly ok) :
    (s.pushItem a value).UsesOnly ok := by
  refine { hs with vectors := fun items h => ?_ }
  simp only [Store.pushItem] at h
  rcases Store.Valid.mem_modify h with h | ⟨old, hold, rfl⟩
  · exact hs.vectors items h
  · intro v hv
    rcases Array.mem_push.1 hv with hv | rfl
    · exact hs.vectors old hold v hv
    · exact hvalue

theorem setFieldValue (a : Address) (name : String) {value : Value} (hvalue : value.UsesOnly ok) :
    (s.setFieldValue a name value).UsesOnly ok := by
  refine { hs with structs := fun struct h => ?_ }
  simp only [Store.setFieldValue] at h
  rcases Store.Valid.mem_modify h with h | ⟨old, hold, rfl⟩
  · exact hs.structs struct h
  · cases hfield : old.fields.get? name with
    | none => exact hs.structs old hold
    | some field =>
      intro entry hentry
      rcases Table.mem_insertEntry hentry with rfl | hentry
      · exact hvalue
      · exact hs.structs old hold entry hentry

end Store.UsesOnly

/-! ### Copies -/

theorem Struct.CopyRun.usesOnly {source made made' : Array Struct} {path : List Address}
    {entries copied : List (String × Field)} (h : CopyRun source path made entries copied made')
    (hsource : ∀ struct ∈ source, struct.UsesOnly ok) (hmade : ∀ struct ∈ made, struct.UsesOnly ok)
    (hentries : Field.AllUseOnly ok entries) :
    (∀ struct ∈ made', struct.UsesOnly ok) ∧ Field.AllUseOnly ok copied := by
  induction h with
  | nil => exact ⟨hmade, hentries⟩
  | keep _ _ ih =>
    obtain ⟨hfield, hentries⟩ := List.forall_mem_cons.1 hentries
    obtain ⟨hstructs, hfields⟩ := ih hmade hentries
    exact ⟨hstructs, List.forall_mem_cons.2 ⟨hfield, hfields⟩⟩
  | copy _ _ ha _ _ ihFields ihRest =>
    obtain ⟨-, hentries⟩ := List.forall_mem_cons.1 hentries
    obtain ⟨hinside, hfields⟩ := ihFields hmade (hsource _ (Array.mem_of_getElem? ha))
    -- A copied field refers to a copy, whose fields are copies as well.
    obtain ⟨hstructs, hcopies⟩ := ihRest (fun struct h => by
      rcases Array.mem_push.1 h with h | rfl
      · exact hinside struct h
      · exact hfields) hentries
    exact ⟨hstructs, List.forall_mem_cons.2 ⟨trivial, hcopies⟩⟩

namespace Store.UsesOnly

variable {s s' : Store} (hs : s.UsesOnly ok)
include hs

theorem copyFields {struct : Struct} (hstruct : struct.UsesOnly ok) :
    (s.copyFields struct).2.UsesOnly ok ∧
      Field.AllUseOnly ok (s.copyFields struct).1.entries := by
  obtain ⟨hstructs, hfields⟩ := (Struct.copyRun_copyFields s.structs [] s.structs
    struct.fields.entries).usesOnly hs.structs hs.structs hstruct
  exact ⟨{ hs with structs := hstructs }, hfields⟩

theorem copyStruct {struct : Struct} (hstruct : struct.UsesOnly ok) :
    (s.copyStruct struct).2.UsesOnly ok := by
  obtain ⟨hcopied, hfields⟩ := hs.copyFields hstruct
  exact hcopied.newStruct hfields

theorem setField {a : Address} {name : String} {value v : Value} (hvalue : value.UsesOnly ok)
    (h : s.setField a name value = .ok (v, s')) : s'.UsesOnly ok ∧ v.UsesOnly ok := by
  obtain ⟨rfl, rfl, -⟩ := Store.setField_ok h
  exact ⟨hs.setFieldValue a name hvalue, hvalue⟩

theorem setFields {a : Address} {entries : List (String × Value)}
    (hentries : Bound.UseOnly ok entries) (h : s.setFields a entries = .ok s') :
    s'.UsesOnly ok := by
  refine Store.setFields_induction (P := Store.UsesOnly ok) h hs fun entry hentry s₁ v s₂ hs₁ hset => ?_
  exact (hs₁.setField (hentries entry hentry) hset).1

end Store.UsesOnly

/-! ### Declarations -/

namespace Struct

variable {s s' : Store} {name : String} {specs : List FieldSpec} {struct : Struct}

theorem declare_usesOnly {fields t : Table Field} (hspecs : FieldSpec.AllUseOnly ok specs)
    (hfields : Field.AllUseOnly ok fields.entries) (h : declare s name fields specs = .ok t) :
    Field.AllUseOnly ok t.entries := by
  refine declare_induction (P := fun t => Field.AllUseOnly ok t.entries) h hfields ?_
  intro spec hspec _ t ht entry hentry
  rcases Table.mem_insertEntry hentry with rfl | hentry
  · exact hspecs spec hspec
  · exact ht entry hentry

theorem define_usesOnly (hspecs : FieldSpec.AllUseOnly ok specs)
    (h : define s name specs = .ok struct) : struct.UsesOnly ok := by
  obtain ⟨fields, hdeclared, rfl⟩ := define_ok h
  exact declare_usesOnly hspecs (fun entry hentry => by cases hentry) hdeclared

theorem derive_usesOnly (hs : s.UsesOnly ok) {parent : Struct} (hparent : parent.UsesOnly ok)
    (hspecs : FieldSpec.AllUseOnly ok specs) (h : derive s name parent specs = .ok (struct, s')) :
    s'.UsesOnly ok ∧ struct.UsesOnly ok := by
  obtain ⟨hcopied, hinherited⟩ := hs.copyFields hparent
  obtain ⟨rfl, fields, hdeclared, rfl⟩ := derive_ok h
  exact ⟨hcopied, declare_usesOnly hspecs hinherited hdeclared⟩

theorem read_usesOnly {v : Value} (hstruct : struct.UsesOnly ok) (h : struct.read name = .ok v) :
    v.UsesOnly ok := by
  obtain ⟨field, hfield, rfl⟩ := read_ok h
  exact hstruct _ (Table.mem_of_lookup hfield)

end Struct

/-! ## Builtin functions -/

namespace Store.UsesOnly

variable {s s' : Store} {args : List Value} {v : Value} (hs : s.UsesOnly ok)
  (hargs : Value.AllUseOnly ok args)
include hargs

omit hs in
theorem car : (Builtin.car args).UsesOnly ok := by
  unfold Builtin.car
  split
  · next stamp car cdr rest => exact (hargs (.pair stamp car cdr) (List.mem_cons_self ..)).1
  · exact trivial

omit hs in
theorem cdr : (Builtin.cdr args).UsesOnly ok := by
  unfold Builtin.cdr
  split
  · next stamp car cdr rest => exact (hargs (.pair stamp car cdr) (List.mem_cons_self ..)).2
  · exact trivial

include hs

theorem consArgs (h : Builtin.cons s args = .ok (v, s')) : s'.UsesOnly ok ∧ v.UsesOnly ok := by
  obtain ⟨car, cdr, rfl, rfl, rfl⟩ := Builtin.cons_ok h
  exact ⟨{ hs with }, hargs car (by simp), hargs cdr (by simp)⟩

theorem setElement (h : Builtin.setElement s args = .ok (v, s')) :
    s'.UsesOnly ok ∧ v.UsesOnly ok := by
  rcases Builtin.setElement_cases h with
    ⟨a, index, i, rfl, -, rfl⟩ | ⟨a, index, i, c, rfl, rfl, -, rfl⟩
  · have hvalue := hargs v (by simp)
    exact ⟨hs.setItem a i hvalue, hvalue⟩
  · exact ⟨{ hs with }, trivial⟩

theorem append (h : Builtin.append s args = .ok (v, s')) : s'.UsesOnly ok ∧ v.UsesOnly ok := by
  rcases Builtin.append_cases h with ⟨a, value, rfl, rfl, rfl⟩ | ⟨a, value, text, rfl, rfl, rfl⟩
  · exact ⟨hs.pushItem a (hargs value (by simp)), trivial⟩
  · exact ⟨{ hs with }, trivial⟩

theorem copy (h : Builtin.copy s args = .ok (v, s')) : s'.UsesOnly ok ∧ v.UsesOnly ok := by
  rcases Builtin.copy_cases h with
    ⟨a, -, rfl, rfl⟩ | ⟨a, -, rfl, rfl⟩ | ⟨a, -, rfl, rfl⟩ | ⟨rfl, rfl⟩
  · exact ⟨hs.copyStruct (hs.struct a), trivial⟩
  · exact hs.newText _
  · exact hs.newVector (hs.vector a)
  · exact ⟨hs, hargs v (List.mem_cons_self ..)⟩

omit hargs in
theorem joinText (h : Builtin.joinText s args = .ok (v, s')) : s'.UsesOnly ok ∧ v.UsesOnly ok := by
  obtain ⟨text, rfl, rfl⟩ := Builtin.joinText_ok h
  exact hs.newText text

end Store.UsesOnly

end CurryLisp
