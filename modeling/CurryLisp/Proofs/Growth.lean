import CurryLisp.Application

/-!
# Stores that grow

Evaluation never removes an object, and it never changes a closure, a constant, a function of the host
or the shape of a struct. `Store.Grows` says so of two stores; each operation on a store leads to one
that has grown.

What the copier of structs does is a run (`Struct.CopyRun`). What is proved of copies is proved by
induction on it.
-/

namespace CurryLisp

/-- What stays of a struct while its fields change. -/
def Struct.shape (struct : Struct) : String × TypeTag × List (String × TypeTag) :=
  (struct.name, struct.tag, struct.fields.entries.map fun entry => (entry.1, entry.2.tag))

/-- `s'` has every object of `s`; closures, constants, functions of the host and the shapes of structs
are as they were. -/
structure Store.Grows (s s' : Store) : Prop where
  texts : s.texts.size ≤ s'.texts.size
  vectors : s.vectors.size ≤ s'.vectors.size
  structs : s.structs.size ≤ s'.structs.size
  shapes : ∀ a, a < s.structs.size → (s'.struct a).shape = (s.struct a).shape
  closures : s.closures.size ≤ s'.closures.size
  closure : ∀ a, a < s.closures.size → s'.closure a = s.closure a
  constants : s'.constants = s.constants
  hosts : s'.hosts = s.hosts
  pairs : s.pairs ≤ s'.pairs

/-- A new struct is behind those that there are. -/
theorem Store.struct_newStruct (s : Store) (struct : Struct) :
    (s.newStruct struct).2.struct s.structs.size = struct := by
  simp [newStruct, Store.struct, Array.getD_eq_getD_getElem?]

theorem Store.struct_newStruct_of_ne (s : Store) (struct : Struct) {a : Address}
    (ha : a ≠ s.structs.size) : (s.newStruct struct).2.struct a = s.struct a := by
  simp [newStruct, Store.struct, Array.getD_eq_getD_getElem?, Array.getElem?_push, ha]

namespace Store.Grows

variable {s s₁ s₂ : Store}

theorem refl (s : Store) : s.Grows s :=
  ⟨Nat.le_refl _, Nat.le_refl _, Nat.le_refl _, fun _ _ => rfl, Nat.le_refl _, fun _ _ => rfl, rfl,
    rfl, Nat.le_refl _⟩

theorem trans (h : s.Grows s₁) (h' : s₁.Grows s₂) : s.Grows s₂ where
  texts := Nat.le_trans h.texts h'.texts
  vectors := Nat.le_trans h.vectors h'.vectors
  structs := Nat.le_trans h.structs h'.structs
  shapes := fun a ha => by
    rw [h'.shapes a (Nat.lt_of_lt_of_le ha h.structs), h.shapes a ha]
  closures := Nat.le_trans h.closures h'.closures
  closure := fun a ha => by
    rw [h'.closure a (Nat.lt_of_lt_of_le ha h.closures), h.closure a ha]
  constants := by rw [h'.constants, h.constants]
  hosts := by rw [h'.hosts, h.hosts]
  pairs := Nat.le_trans h.pairs h'.pairs

/-- A struct keeps its type. -/
theorem tag (h : s.Grows s₁) {a : Address} (ha : a < s.structs.size) :
    (s₁.struct a).tag = (s.struct a).tag := congrArg (·.2.1) (h.shapes a ha)

/-! ### Making objects -/

theorem newText (text : String) (s : Store) : s.Grows (s.newText text).2 :=
  { refl s with texts := by simp [Store.newText] }

theorem newVector (items : Array Value) (s : Store) : s.Grows (s.newVector items).2 :=
  { refl s with vectors := by simp [Store.newVector] }

/-- New structs behind the known ones. -/
theorem appendStructs (s : Store) (made : Array Struct) :
    s.Grows { s with structs := s.structs ++ made } :=
  { refl s with
    structs := by simp
    shapes := fun a ha => by simp [Store.struct, Array.getD_eq_getD_getElem?, Array.getElem?_append, ha] }

theorem newStruct (struct : Struct) (s : Store) : s.Grows (s.newStruct struct).2 := by
  have h := appendStructs s #[struct]
  simpa [Store.newStruct] using h

theorem newClosure (closure : Closure) (s : Store) : s.Grows (s.newClosure closure).2 :=
  { refl s with
    closures := by simp [Store.newClosure]
    closure := fun a ha => by
      simp [Store.newClosure, Store.closure, Array.getD_eq_getD_getElem?, Array.getElem?_push,
        Nat.ne_of_lt ha] }

theorem cons (s : Store) (car cdr : Value) : s.Grows (s.cons car cdr).2 :=
  { refl s with pairs := Nat.le_succ _ }

theorem chain (items : List Value) (tail : Value) (s : Store) :
    s.Grows (s.chain items tail).2 := by
  induction items with
  | nil => exact refl s
  | cons item rest ih => exact ih.trans (cons _ _ _)

theorem list (items : List Value) (s : Store) : s.Grows (s.list items).2 := chain items .nil s

/-! ### Changing objects -/

theorem setText (a : Address) (text : String) (s : Store) : s.Grows (s.setText a text) :=
  { refl s with texts := by simp [Store.setText] }

theorem setItem (a : Address) (i : Nat) (value : Value) (s : Store) :
    s.Grows (s.setItem a i value) :=
  { refl s with vectors := by simp [Store.setItem] }

theorem pushItem (a : Address) (value : Value) (s : Store) : s.Grows (s.pushItem a value) :=
  { refl s with vectors := by simp [Store.pushItem] }

end Store.Grows

/-- The names and types of fields stay while a known field receives a value. -/
theorem Table.map_insertEntry_of_lookup {entries : List (String × Field)} {name : String}
    {field : Field} (h : entries.lookup name = some field) (value : Value) :
    (insertEntry name { field with value } entries).map (fun entry => (entry.1, entry.2.tag)) =
      entries.map fun entry => (entry.1, entry.2.tag) := by
  induction entries with
  | nil => cases h
  | cons entry rest ih =>
    obtain ⟨key, old⟩ := entry
    rw [Table.lookup_cons] at h
    by_cases hk : key = name
    · subst hk
      rw [if_pos rfl] at h
      cases h
      simp [insertEntry]
    · rw [if_neg (Ne.symm hk)] at h
      simp [insertEntry, hk, ih h]

theorem Struct.shape_setFieldValue (struct : Struct) (name : String) (value : Value) :
    (match struct.fields.get? name with
      | some field => { struct with fields := struct.fields.insert name { field with value } }
      | none => struct).shape = struct.shape := by
  cases h : struct.fields.get? name with
  | none => rfl
  | some field =>
    have hlookup : struct.fields.entries.lookup name = some field := h
    have hmap := Table.map_insertEntry_of_lookup hlookup value
    simp only [Struct.shape, Table.insert, hmap]

theorem Store.Grows.setFieldValue (a : Address) (name : String) (value : Value) (s : Store) :
    s.Grows (s.setFieldValue a name value) :=
  { refl s with
    structs := by simp [Store.setFieldValue]
    shapes := fun b hb => by
      by_cases hab : a = b
      · subst hab
        simp only [Store.setFieldValue, Store.struct, Array.getD_eq_getD_getElem?,
          Array.getElem?_modify, if_true, Array.getElem?_eq_getElem hb, Option.map_some,
          Option.getD_some]
        exact Struct.shape_setFieldValue _ _ _
      · simp [Store.setFieldValue, Store.struct, Array.getD_eq_getD_getElem?,
          Array.getElem?_modify, hab] }

/-! ### Copies -/

/-- How the copier gets from the fields `entries` to the fields `copied`, and from the structs `made` to
`made'`. A field stays as it is, unless it holds a struct that there is and that is not on the path: the
fields of that one are copied first, and the copy is put behind what is made for them. -/
inductive Struct.CopyRun (source : Array Struct) : List Address → Array Struct →
    List (String × Field) → List (String × Field) → Array Struct → Prop
  | nil (path : List Address) (made : Array Struct) : CopyRun source path made [] [] made
  | keep {path : List Address} {made made' : Array Struct} {name : String} {field : Field}
    {rest copied : List (String × Field)}
    (hkept : ∀ a, field.value = .struct a → a ∈ path ∨ source.size ≤ a)
    (hrest : CopyRun source path made rest copied made') :
    CopyRun source path made ((name, field) :: rest) ((name, field) :: copied) made'
  | copy {path : List Address} {made inside made' : Array Struct} {name : String} {field : Field}
    {rest fields copied : List (String × Field)} {a : Address} {inner : Struct}
    (hvalue : field.value = .struct a) (hpath : a ∉ path) (ha : source[a]? = some inner)
    (hfields : CopyRun source (a :: path) made inner.fields.entries fields inside)
    (hrest : CopyRun source path (inside.push { inner with fields := ⟨fields⟩ }) rest copied made') :
    CopyRun source path made ((name, field) :: rest)
      ((name, { field with value := .struct inside.size }) :: copied) made'

theorem Struct.copyRun_copyFields (source : Array Struct) (path : List Address)
    (made : Array Struct) (entries : List (String × Field)) :
    CopyRun source path made entries (copyFields source path made entries).1
      (copyFields source path made entries).2 := by
  fun_induction copyFields source path made entries with
  | case1 path made => exact .nil path made
  | case2 path made name field rest value made' hv copied made'' hr ihField ihRest =>
    rw [hr] at ihRest
    split at hv
    · next a hvalue =>
      split at hv
      · next hpath =>
        cases hv
        exact .keep (fun b hb => .inl (Value.struct.inj (hvalue.symm.trans hb) ▸ hpath)) ihRest
      · next hpath =>
        split at hv
        · next inner ha =>
          have hfields := ihField a hpath inner ha
          cases hv
          exact .copy hvalue hpath ha hfields ihRest
        · next ha =>
          cases hv
          have hsize := Array.getElem?_eq_none_iff.1 ha
          exact .keep (fun b hb => .inr (Value.struct.inj (hvalue.symm.trans hb) ▸ hsize)) ihRest
    · next hvalue =>
      cases hv
      exact .keep (fun a ha => absurd ha (hvalue a)) ihRest

/-- Copies are put behind the structs that were there. -/
theorem Struct.CopyRun.append {source made made' : Array Struct} {path : List Address}
    {entries copied : List (String × Field)} (h : CopyRun source path made entries copied made') :
    ∃ new, made' = made ++ new := by
  induction h with
  | nil => exact ⟨#[], by simp⟩
  | keep _ _ ih => exact ih
  | copy _ _ _ _ _ ihFields ihRest =>
    obtain ⟨new, rfl⟩ := ihFields
    obtain ⟨new', rfl⟩ := ihRest
    exact ⟨new.push _ ++ new', by rw [← Array.append_assoc, Array.append_push]⟩

/-- Copies are put behind the structs that were there. -/
theorem Struct.copyFields_append (source : Array Struct) (path : List Address)
    (made : Array Struct) (entries : List (String × Field)) :
    ∃ new, (copyFields source path made entries).2 = made ++ new :=
  (copyRun_copyFields source path made entries).append

namespace Store.Grows

theorem copyFields (s : Store) (struct : Struct) : s.Grows (s.copyFields struct).2 := by
  obtain ⟨new, hnew⟩ :=
    Struct.copyFields_append s.structs [] s.structs struct.fields.entries
  simp only [Store.copyFields, hnew]
  exact appendStructs s new

theorem copyStruct (s : Store) (struct : Struct) : s.Grows (s.copyStruct struct).2 :=
  (copyFields s struct).trans (newStruct _ _)

theorem setField {s s' : Store} {a : Address} {name : String} {value v : Value}
    (h : s.setField a name value = .ok (v, s')) : s.Grows s' := by
  obtain ⟨-, rfl, -⟩ := Store.setField_ok h
  exact setFieldValue a name value s

theorem setFields {s s' : Store} {a : Address} {entries : List (String × Value)}
    (h : s.setFields a entries = .ok s') : s.Grows s' := by
  refine Store.setFields_induction (P := s.Grows) h (refl s) fun entry _ s₁ v s₂ hgrows hset => ?_
  exact hgrows.trans (setField hset)

theorem derive {s s' : Store} {name : String} {parent struct : Struct} {specs : List FieldSpec}
    (h : Struct.derive s name parent specs = .ok (struct, s')) : s.Grows s' := by
  obtain ⟨rfl, -⟩ := Struct.derive_ok h
  exact copyFields s parent

/-! ### Builtin functions on objects -/

theorem setElement {s s' : Store} {args : List Value} {v : Value}
    (h : Builtin.setElement s args = .ok (v, s')) : s.Grows s' := by
  rcases Builtin.setElement_cases h with ⟨a, index, i, -, -, rfl⟩ | ⟨a, index, i, c, -, -, -, rfl⟩
  · exact setItem a i v s
  · exact setText a _ s

theorem append {s s' : Store} {args : List Value} {v : Value}
    (h : Builtin.append s args = .ok (v, s')) : s.Grows s' := by
  rcases Builtin.append_cases h with ⟨a, value, -, -, rfl⟩ | ⟨a, value, text, -, -, rfl⟩
  · exact pushItem a value s
  · exact setText a text s

theorem joinText {s s' : Store} {args : List Value} {v : Value}
    (h : Builtin.joinText s args = .ok (v, s')) : s.Grows s' := by
  obtain ⟨text, -, rfl⟩ := Builtin.joinText_ok h
  exact newText text s

theorem copy {s s' : Store} {args : List Value} {v : Value}
    (h : Builtin.copy s args = .ok (v, s')) : s.Grows s' := by
  rcases Builtin.copy_cases h with ⟨a, -, -, rfl⟩ | ⟨a, -, -, rfl⟩ | ⟨a, -, -, rfl⟩ | ⟨-, rfl⟩
  · exact copyStruct s _
  · exact newText _ s
  · exact newVector _ s
  · exact refl _

theorem consArgs {s s' : Store} {args : List Value} {v : Value}
    (h : Builtin.cons s args = .ok (v, s')) : s.Grows s' := by
  obtain ⟨car, cdr, -, -, rfl⟩ := Builtin.cons_ok h
  exact cons s car cdr

end Store.Grows

end CurryLisp
