import CurryLisp.Proofs.Calculations
import CurryLisp.Proofs.Notes

/-!
# References

A value refers to shared objects by their addresses, and a pair carries the stamp it was given when it
was made. `Machine.Valid` says that every address in a machine is that of an object and that every
stamp was given out. Objects are never removed, so a reference stays valid, and what is made refers to
what was there before.

Statements:

* `Value.Valid.grows`: a reference stays valid.
* `Value.Valid.hasType_any`: a valid value has the type of all values.
* `Store.Valid`: each operation on valid objects leaves valid objects.
-/

namespace CurryLisp

/-! ## Valid references -/

/-- Every address in a value is that of an object, and every stamp was given out. -/
def Value.Valid (s : Store) : Value → Prop
  | quoted inner => inner.Valid s
  | pair stamp car cdr => stamp < s.pairs ∧ car.Valid s ∧ cdr.Valid s
  | string a => a < s.texts.size
  | vector a => a < s.vectors.size
  | struct a => a < s.structs.size
  | closure a => a < s.closures.size
  | _ => True

/-- Several values are valid. -/
abbrev Value.AllValid (s : Store) (vs : List Value) : Prop := ∀ v ∈ vs, v.Valid s

/-- The values that names are bound to are valid. -/
abbrev Bound.Valid (s : Store) (entries : List (String × Value)) : Prop :=
  ∀ entry ∈ entries, entry.2.Valid s

/-- The values and struct templates that names are bound to are valid. -/
structure Environment.Valid (s : Store) (env : Environment) : Prop where
  bindings : Bound.Valid s env.bindings.entries
  structs : ∀ entry ∈ env.structs.entries, entry.2 < s.structs.size

/-- What a closure holds is valid. -/
structure Closure.Valid (s : Store) (c : Closure) : Prop where
  body : Value.AllValid s c.body
  env : c.env.Valid s
  bound : Bound.Valid s c.bound

/-- The values in fields are valid. -/
abbrev Field.AllValid (s : Store) (fields : List (String × Field)) : Prop :=
  ∀ entry ∈ fields, entry.2.value.Valid s

/-- What a struct holds is valid, and its type is one of values. -/
structure Struct.Valid (s : Store) (struct : Struct) : Prop where
  fields : Field.AllValid s struct.fields.entries
  tag : BaseType.any.tag.isSupertypeOf struct.tag = true

/-- What objects hold is valid. -/
structure Store.Valid (s : Store) : Prop where
  vectors : ∀ items ∈ s.vectors, ∀ v ∈ items, v.Valid s
  structs : ∀ struct ∈ s.structs, struct.Valid s
  closures : ∀ c ∈ s.closures, c.Valid s
  constants : ∀ v ∈ s.constants, v.Valid s

/-- **No reference in a machine dangles.** -/
structure Machine.Valid (m : Machine) : Prop where
  store : m.store.Valid
  global : m.global.Valid m.store
  frames : ∀ frame ∈ m.frames, frame.Valid m.store

theorem Value.AllValid.nil {s : Store} : Value.AllValid s [] := fun _ h => by cases h

theorem Bound.Valid.nil {s : Store} : Bound.Valid s [] := fun _ h => by cases h

theorem Environment.Valid.empty {s : Store} : ({} : Environment).Valid s :=
  ⟨.nil, fun _ h => by cases h⟩

/-! ## References stay valid -/

section Grows

variable {s s' : Store} (h : s.Grows s')
include h

theorem Value.Valid.grows {v : Value} (hv : v.Valid s) : v.Valid s' := by
  induction v with
  | quoted inner ih => exact ih hv
  | pair stamp car cdr ihCar ihCdr =>
    obtain ⟨hstamp, hcar, hcdr⟩ := hv
    exact ⟨Nat.lt_of_lt_of_le hstamp h.pairs, ihCar hcar, ihCdr hcdr⟩
  | string a => exact Nat.lt_of_lt_of_le hv h.texts
  | vector a => exact Nat.lt_of_lt_of_le hv h.vectors
  | struct a => exact Nat.lt_of_lt_of_le hv h.structs
  | closure a => exact Nat.lt_of_lt_of_le hv h.closures
  | _ => trivial

theorem Value.AllValid.grows {vs : List Value} (hvs : AllValid s vs) : AllValid s' vs :=
  fun v hv => (hvs v hv).grows h

theorem Bound.Valid.grows {entries : List (String × Value)} (hentries : Bound.Valid s entries) :
    Bound.Valid s' entries := fun entry hentry => (hentries entry hentry).grows h

theorem Environment.Valid.grows {env : Environment} (henv : env.Valid s) : env.Valid s' where
  bindings := henv.bindings.grows h
  structs := fun entry hentry => Nat.lt_of_lt_of_le (henv.structs entry hentry) h.structs

theorem Closure.Valid.grows {c : Closure} (hc : c.Valid s) : c.Valid s' where
  body := hc.body.grows h
  env := hc.env.grows h
  bound := hc.bound.grows h

theorem Struct.Valid.grows {struct : Struct} (hstruct : struct.Valid s) : struct.Valid s' where
  fields := fun entry hentry => (hstruct.fields entry hentry).grows h
  tag := hstruct.tag

end Grows

/-! ## Values -/

namespace Value.Valid

variable {s : Store}

theorem of_isPlain {v : Value} (hv : v.isPlain = true) : v.Valid s := by
  cases v with
  | nil | truth | integer n | float x | char c => exact trivial
  | _ => cases hv

/-- The items of a valid list are valid. -/
theorem of_mem_toList? {v item : Value} {items : List Value} (h : v.toList? = some items)
    (hv : v.Valid s) (hitem : item ∈ items) : item.Valid s :=
  forall_mem_toList? (fun _ _ _ hpair => hpair.2) h hv item hitem

end Value.Valid

theorem BaseType.any_isSupertypeOf (b : BaseType) :
    BaseType.any.tag.isSupertypeOf b.tag = true := by
  cases b <;> decide

/-- Every valid value has the type of all values. -/
theorem Value.Valid.hasType_any {s : Store} (hs : s.Valid) {v : Value} (hv : v.Valid s) :
    v.hasType s BaseType.any.tag = true := by
  unfold hasType
  induction v with
  | quoted inner ih => exact ih hv
  | struct a =>
    have hmem : s.struct a ∈ s.structs := by
      have ha : a < s.structs.size := hv
      simp [Store.struct, Array.getD_eq_getD_getElem?, ha]
    exact (hs.structs _ hmem).tag
  | _ => exact BaseType.any_isSupertypeOf _

/-! ## Environments -/

namespace Table

variable {α : Type} {name : String} {value : α} {entries : List (String × α)}

theorem mem_insertEntry {entry : String × α} (h : entry ∈ insertEntry name value entries) :
    entry = (name, value) ∨ entry ∈ entries := by
  induction entries with
  | nil => exact .inl (List.mem_singleton.1 h)
  | cons first rest ih =>
    unfold insertEntry at h
    split at h
    · rcases List.mem_cons.1 h with rfl | h
      · exact .inl rfl
      · exact .inr (List.mem_cons_of_mem _ h)
    · rcases List.mem_cons.1 h with rfl | h
      · exact .inr (List.mem_cons_self ..)
      · rcases ih h with rfl | h
        · exact .inl rfl
        · exact .inr (List.mem_cons_of_mem _ h)

/-- What is in a table was there or has been put into it. -/
theorem mem_insertAll {t : Table α} {entry : String × α} (h : entry ∈ (t.insertAll entries).entries) :
    entry ∈ t.entries ∨ entry ∈ entries := by
  induction entries generalizing t with
  | nil => exact .inl h
  | cons first rest ih =>
    rcases ih (t := t.insert first.1 first.2) h with h | h
    · rcases mem_insertEntry h with rfl | h
      · exact .inr (List.mem_cons_self ..)
      · exact .inl h
    · exact .inr (List.mem_cons_of_mem _ h)

theorem mem_of_lookup (h : entries.lookup name = some value) : (name, value) ∈ entries := by
  induction entries with
  | nil => cases h
  | cons entry rest ih =>
    obtain ⟨key, first⟩ := entry
    rw [lookup_cons] at h
    split at h
    · next hname =>
      cases h
      rw [hname]
      exact List.mem_cons_self ..
    · exact List.mem_cons_of_mem _ (ih h)

end Table

namespace Environment.Valid

variable {s : Store} {env : Environment}

theorem put (henv : env.Valid s) (name : String) {value : Value} (hvalue : value.Valid s) :
    (env.put name value).Valid s where
  bindings := fun entry hentry => by
    rcases Table.mem_insertEntry hentry with rfl | hentry
    · exact hvalue
    · exact henv.bindings entry hentry
  structs := henv.structs

theorem putAll (henv : env.Valid s) {entries : List (String × Value)}
    (hentries : Bound.Valid s entries) : (env.putAll entries).Valid s := by
  induction entries generalizing env with
  | nil => exact henv
  | cons entry rest ih =>
    exact ih (henv.put entry.1 (hentries entry (List.mem_cons_self ..)))
      fun e he => hentries e (List.mem_cons_of_mem _ he)

theorem remove (henv : env.Valid s) (name : String) : (env.remove name).Valid s where
  bindings := fun entry hentry => henv.bindings entry (List.mem_filter.1 hentry).1
  structs := henv.structs

theorem putType (henv : env.Valid s) (tag : TypeTag) : (env.putType tag).Valid s :=
  { henv with }

theorem putStruct (henv : env.Valid s) (name : String) {template : Address}
    (htemplate : template < s.structs.size) : (env.putStruct name template).Valid s where
  bindings := henv.bindings
  structs := fun entry hentry => by
    rcases Table.mem_insertEntry hentry with rfl | hentry
    · exact htemplate
    · exact henv.structs entry hentry

theorem get? (henv : env.Valid s) {name : String} {v : Value}
    (h : env.bindings.get? name = some v) : v.Valid s := henv.bindings _ (Table.mem_of_lookup h)

theorem getStruct? (henv : env.Valid s) {name : String} {a : Address}
    (h : env.structs.get? name = some a) : a < s.structs.size := henv.structs _ (Table.mem_of_lookup h)

theorem putFunctions (henv : env.Valid s) (functions : List NativeFunction) :
    (functions.foldl (fun env f => env.put f.name (.native f)) env).Valid s := by
  induction functions generalizing env with
  | nil => exact henv
  | cons f functions ih =>
    have hf : (Value.native f).Valid s := trivial
    exact ih (henv.put f.name hf)

theorem initial : Environment.initial.Valid s := by
  have htypes : ∀ (bases : List BaseType) {env : Environment}, env.Valid s →
      (bases.foldl (fun env b => env.putType b.tag) env).Valid s := by
    intro bases
    induction bases with
    | nil => exact fun henv => henv
    | cons b bases ih => exact fun henv => ih (henv.putType b.tag)
  exact (htypes BaseType.all .empty).putFunctions Builtin.all

end Environment.Valid

namespace Machine.Valid

variable {m : Machine} (hm : m.Valid)
include hm

theorem active : m.active.Valid m.store := by
  unfold Machine.active
  split
  · exact hm.global
  · next frame frames hframes => exact hm.frames frame (by rw [hframes]; exact List.mem_cons_self ..)

theorem lookup? {name : String} {v : Value} (h : m.lookup? name = some v) : v.Valid m.store := by
  unfold Machine.lookup? at h
  cases hactive : m.active.bindings.get? name with
  | some found =>
    rw [hactive] at h
    cases h
    exact hm.active.get? hactive
  | none =>
    rw [hactive] at h
    exact hm.global.get? h

theorem lookupStruct? {name : String} {a : Address} (h : m.lookupStruct? name = some a) :
    a < m.store.structs.size := by
  unfold Machine.lookupStruct? at h
  cases hactive : m.active.structs.get? name with
  | some found =>
    rw [hactive] at h
    cases h
    exact hm.active.getStruct? hactive
  | none =>
    rw [hactive] at h
    exact hm.global.getStruct? h

end Machine.Valid

/-- A machine stays valid if its objects grow and stay valid. -/
theorem Machine.Valid.withStore {m : Machine} (hm : m.Valid) {s : Store} (hgrows : m.store.Grows s)
    (hs : s.Valid) : { m with store := s : Machine }.Valid where
  store := hs
  global := hm.global.grows hgrows
  frames := fun frame hframe => (hm.frames frame hframe).grows hgrows

/-- A change of the innermost environment that keeps it valid keeps the machine valid. -/
theorem Machine.Valid.updateActive {m : Machine} (hm : m.Valid) {f : Environment → Environment}
    (hf : ∀ env : Environment, env.Valid m.store → (f env).Valid m.store) :
    (m.updateActive f).Valid := by
  unfold Machine.updateActive
  split
  · exact { hm with global := hf m.global hm.global }
  · next frame frames hframes =>
    have hall : ∀ found ∈ frame :: frames, found.Valid m.store := by
      rw [← hframes]
      exact hm.frames
    refine ⟨hm.store, hm.global, fun found h => ?_⟩
    rcases List.mem_cons.1 h with rfl | h
    · exact hf frame (hall frame (List.mem_cons_self ..))
    · exact hall found (List.mem_cons_of_mem _ h)

/-- Notes refer to nothing. -/
theorem Machine.Noted.valid {m m' : Machine} (h : m.Noted m') (hm : m.Valid) : m'.Valid := by
  obtain ⟨_, _, _, rfl⟩ := h
  exact { hm with }

/-! ## Objects -/

namespace Store.Valid

variable {s s' : Store}

/-- A store stays valid if what is new in it is valid. -/
theorem extend (hs : s.Valid) (h : s.Grows s')
    (hvectors : ∀ items ∈ s'.vectors, items ∈ s.vectors ∨ ∀ v ∈ items, v.Valid s')
    (hstructs : ∀ struct ∈ s'.structs, struct ∈ s.structs ∨ struct.Valid s')
    (hclosures : ∀ c ∈ s'.closures, c ∈ s.closures ∨ c.Valid s') : s'.Valid where
  vectors := fun items hitems => by
    rcases hvectors items hitems with hold | hnew
    · exact fun v hv => (hs.vectors items hold v hv).grows h
    · exact hnew
  structs := fun struct hstruct => by
    rcases hstructs struct hstruct with hold | hnew
    · exact (hs.structs struct hold).grows h
    · exact hnew
  closures := fun c hc => by
    rcases hclosures c hc with hold | hnew
    · exact (hs.closures c hold).grows h
    · exact hnew
  constants := fun v hv => by
    rw [h.constants] at hv
    exact (hs.constants v hv).grows h

section Objects

variable (hs : s.Valid)
include hs

theorem vector (a : Address) : ∀ v ∈ s.vector a, v.Valid s := by
  unfold Store.vector
  rw [Array.getD_eq_getD_getElem?]
  cases hitems : s.vectors[a]? with
  | none =>
    intro v hv
    cases Array.not_mem_empty v hv
  | some items => exact hs.vectors items (Array.mem_of_getElem? hitems)

theorem struct {a : Address} (ha : a < s.structs.size) : (s.struct a).Valid s := by
  refine hs.structs _ ?_
  simp [Store.struct, Array.getD_eq_getD_getElem?, ha]

theorem closure (a : Address) : (s.closure a).Valid s := by
  unfold Store.closure
  rw [Array.getD_eq_getD_getElem?]
  cases hc : s.closures[a]? with
  | none =>
    exact ⟨.nil, .empty, .nil⟩
  | some c => exact hs.closures c (Array.mem_of_getElem? hc)

theorem constant (slot : Nat) : (s.constant slot).Valid s := by
  rw [Store.constant, Array.getD_eq_getD_getElem?]
  cases hv : s.constants[slot]? with
  | none => exact trivial
  | some v => exact hs.constants v (Array.mem_of_getElem? hv)

/-! ### Making objects -/

theorem newText (text : String) :
    (s.newText text).2.Valid ∧ (s.newText text).1.Valid (s.newText text).2 := by
  refine ⟨hs.extend (Store.Grows.newText text s) (fun _ h => .inl h) (fun _ h => .inl h)
    fun _ h => .inl h, ?_⟩
  show s.texts.size < (s.texts.push text).size
  rw [Array.size_push]
  exact Nat.lt_succ_self _

theorem newVector {items : Array Value} (hitems : ∀ v ∈ items, v.Valid s) :
    (s.newVector items).2.Valid ∧ (s.newVector items).1.Valid (s.newVector items).2 := by
  have hgrows := Store.Grows.newVector items s
  refine ⟨hs.extend hgrows (fun found h => ?_) (fun _ h => .inl h) fun _ h => .inl h, ?_⟩
  · rcases Array.mem_push.1 h with h | rfl
    · exact .inl h
    · exact .inr fun v hv => (hitems v hv).grows hgrows
  · show s.vectors.size < (s.vectors.push items).size
    rw [Array.size_push]
    exact Nat.lt_succ_self _

theorem newStruct {struct : Struct} (hstruct : struct.Valid s) :
    (s.newStruct struct).2.Valid ∧ (s.newStruct struct).1 < (s.newStruct struct).2.structs.size := by
  have hgrows := Store.Grows.newStruct struct s
  refine ⟨hs.extend hgrows (fun _ h => .inl h) (fun found h => ?_) fun _ h => .inl h, ?_⟩
  · rcases Array.mem_push.1 h with h | rfl
    · exact .inl h
    · exact .inr (hstruct.grows hgrows)
  · show s.structs.size < (s.structs.push struct).size
    rw [Array.size_push]
    exact Nat.lt_succ_self _

theorem newClosure {c : Closure} (hc : c.Valid s) :
    (s.newClosure c).2.Valid ∧ (s.newClosure c).1.Valid (s.newClosure c).2 := by
  have hgrows := Store.Grows.newClosure c s
  refine ⟨hs.extend hgrows (fun _ h => .inl h) (fun _ h => .inl h) fun found h => ?_, ?_⟩
  · rcases Array.mem_push.1 h with h | rfl
    · exact .inl h
    · exact .inr (hc.grows hgrows)
  · show s.closures.size < (s.closures.push c).size
    rw [Array.size_push]
    exact Nat.lt_succ_self _

theorem cons {car cdr : Value} (hcar : car.Valid s) (hcdr : cdr.Valid s) :
    (s.cons car cdr).2.Valid ∧ (s.cons car cdr).1.Valid (s.cons car cdr).2 := by
  have hgrows := Store.Grows.cons s car cdr
  exact ⟨hs.extend hgrows (fun _ h => .inl h) (fun _ h => .inl h) fun _ h => .inl h,
    Nat.lt_succ_self _, hcar.grows hgrows, hcdr.grows hgrows⟩

theorem chain {items : List Value} {tail : Value} (hitems : Value.AllValid s items)
    (htail : tail.Valid s) :
    (s.chain items tail).2.Valid ∧ (s.chain items tail).1.Valid (s.chain items tail).2 := by
  induction items with
  | nil => exact ⟨hs, htail⟩
  | cons item rest ih =>
    obtain ⟨hrest, hlist⟩ := ih fun v hv => hitems v (List.mem_cons_of_mem _ hv)
    exact hrest.cons ((hitems item (List.mem_cons_self ..)).grows (Store.Grows.chain rest tail s))
      hlist

/-! ### Changing objects -/

theorem setText (a : Address) (text : String) : (s.setText a text).Valid :=
  hs.extend (Store.Grows.setText a text s) (fun _ h => .inl h) (fun _ h => .inl h) fun _ h => .inl h

omit hs in
theorem mem_modify {α : Type} {xs : Array α} {i : Nat} {f : α → α} {x : α} (h : x ∈ xs.modify i f) :
    x ∈ xs ∨ ∃ y ∈ xs, x = f y := by
  obtain ⟨j, hj, rfl⟩ := Array.mem_iff_getElem.1 h
  rw [Array.size_modify] at hj
  rw [Array.getElem_modify]
  split
  · exact .inr ⟨xs[j], Array.getElem_mem hj, rfl⟩
  · exact .inl (Array.getElem_mem hj)

theorem setItem (a : Address) (i : Nat) {value : Value} (hvalue : value.Valid s) :
    (s.setItem a i value).Valid := by
  have hgrows := Store.Grows.setItem a i value s
  refine hs.extend hgrows (fun items h => ?_) (fun _ h => .inl h) fun _ h => .inl h
  simp only [Store.setItem] at h
  rcases mem_modify h with h | ⟨old, hold, rfl⟩
  · exact .inl h
  · refine .inr fun v hv => ?_
    rcases Array.mem_or_eq_of_mem_setIfInBounds hv with hv | rfl
    · exact (hs.vectors old hold v hv).grows hgrows
    · exact hvalue.grows hgrows

theorem pushItem (a : Address) {value : Value} (hvalue : value.Valid s) :
    (s.pushItem a value).Valid := by
  have hgrows := Store.Grows.pushItem a value s
  refine hs.extend hgrows (fun items h => ?_) (fun _ h => .inl h) fun _ h => .inl h
  simp only [Store.pushItem] at h
  rcases mem_modify h with h | ⟨old, hold, rfl⟩
  · exact .inl h
  · refine .inr fun v hv => ?_
    rcases Array.mem_push.1 hv with hv | rfl
    · exact (hs.vectors old hold v hv).grows hgrows
    · exact hvalue.grows hgrows

theorem setFieldValue (a : Address) (name : String) {value : Value} (hvalue : value.Valid s) :
    (s.setFieldValue a name value).Valid := by
  have hgrows := Store.Grows.setFieldValue a name value s
  refine hs.extend hgrows (fun _ h => .inl h) (fun struct h => ?_) fun _ h => .inl h
  simp only [Store.setFieldValue] at h
  rcases mem_modify h with h | ⟨old, hold, rfl⟩
  · exact .inl h
  · refine .inr ?_
    have holdValid := (hs.structs old hold).grows hgrows
    cases hfield : old.fields.get? name with
    | none => exact holdValid
    | some field =>
      refine { fields := fun entry hentry => ?_, tag := holdValid.tag }
      rcases Table.mem_insertEntry hentry with rfl | hentry
      · exact hvalue.grows hgrows
      · exact holdValid.fields entry hentry

end Objects

end Store.Valid

/-! ### Copies -/

/-- `s` with these structs grows when copies are put behind them. -/
theorem Struct.CopyRun.grows {source made made' : Array Struct} {path : List Address}
    {entries copied : List (String × Field)} (h : CopyRun source path made entries copied made')
    (s : Store) : Store.Grows { s with structs := made } { s with structs := made' } := by
  obtain ⟨new, rfl⟩ := h.append
  exact Store.Grows.appendStructs { s with structs := made } new

/-- A copy is valid where the structs that are copied are. -/
theorem Struct.CopyRun.valid {s : Store} {source made made' : Array Struct} {path : List Address}
    {entries copied : List (String × Field)} (h : CopyRun source path made entries copied made')
    (hsource : ∀ struct ∈ source, struct.Valid { s with structs := made })
    (hmade : ∀ struct ∈ made, struct.Valid { s with structs := made })
    (hentries : Field.AllValid { s with structs := made } entries) :
    (∀ struct ∈ made', struct.Valid { s with structs := made' }) ∧
      Field.AllValid { s with structs := made' } copied := by
  induction h with
  | nil path made => exact ⟨hmade, hentries⟩
  | keep _ hrest ih =>
    obtain ⟨hfield, hentries⟩ := List.forall_mem_cons.1 hentries
    obtain ⟨hstructs, hfields⟩ := ih hsource hmade hentries
    exact ⟨hstructs, List.forall_mem_cons.2 ⟨hfield.grows (hrest.grows s), hfields⟩⟩
  | @copy path made inside made' name field rest fields copied a inner _ _ ha hcopied hrest
      ihFields ihRest =>
    obtain ⟨-, hentries⟩ := List.forall_mem_cons.1 hentries
    have hinner := hsource inner (Array.mem_of_getElem? ha)
    obtain ⟨hstructs, hfields⟩ := ihFields hsource hmade hinner.fields
    -- The copy is put behind the structs made so far, and refers to these.
    have hpush := Store.Grows.newStruct { inner with fields := ⟨fields⟩ } { s with structs := inside }
    have hgrows := (hcopied.grows s).trans hpush
    have hpushed : ∀ struct ∈ inside.push { inner with fields := ⟨fields⟩ }, struct.Valid
        { s with structs := inside.push { inner with fields := ⟨fields⟩ } } := by
      intro struct h
      rcases Array.mem_push.1 h with h | rfl
      · exact (hstructs struct h).grows hpush
      · exact ⟨fun entry hentry => (hfields entry hentry).grows hpush, hinner.tag⟩
    obtain ⟨hstructs', hfields'⟩ := ihRest (fun struct h => (hsource struct h).grows hgrows)
      hpushed fun entry h => (hentries entry h).grows hgrows
    refine ⟨hstructs', List.forall_mem_cons.2 ⟨?_, hfields'⟩⟩
    exact Nat.lt_of_lt_of_le (by simp) (hrest.grows s).structs

namespace Store.Valid

variable {s s' : Store}

theorem copyFields (hs : s.Valid) {struct : Struct} (hstruct : struct.Valid s) :
    (s.copyFields struct).2.Valid ∧
      Field.AllValid (s.copyFields struct).2 (s.copyFields struct).1.entries := by
  obtain ⟨hstructs, hfields⟩ := (Struct.copyRun_copyFields s.structs [] s.structs
    struct.fields.entries).valid hs.structs hs.structs hstruct.fields
  exact ⟨hs.extend (Store.Grows.copyFields s struct) (fun _ h => .inl h)
    (fun found h => .inr (hstructs found h)) fun _ h => .inl h, hfields⟩

theorem copyStruct (hs : s.Valid) {struct : Struct} (hstruct : struct.Valid s) :
    (s.copyStruct struct).2.Valid ∧
      (s.copyStruct struct).1 < (s.copyStruct struct).2.structs.size := by
  obtain ⟨hcopied, hfields⟩ := hs.copyFields hstruct
  exact hcopied.newStruct ⟨hfields, hstruct.tag⟩

theorem setField (hs : s.Valid) {a : Address} {name : String} {value v : Value}
    (hvalue : value.Valid s) (h : s.setField a name value = .ok (v, s')) :
    s'.Valid ∧ v.Valid s' := by
  have hgrows := Store.Grows.setField h
  obtain ⟨rfl, rfl, -⟩ := Store.setField_ok h
  exact ⟨hs.setFieldValue a name hvalue, hvalue.grows hgrows⟩

theorem setFields (hs : s.Valid) {a : Address} {entries : List (String × Value)}
    (hentries : Bound.Valid s entries) (h : s.setFields a entries = .ok s') : s'.Valid := by
  refine (Store.setFields_induction (P := fun t => s.Grows t ∧ t.Valid) h ⟨.refl s, hs⟩ ?_).2
  rintro entry hentry s₁ v s₂ ⟨hgrows, hs₁⟩ hset
  have hvalid := hs₁.setField ((hentries entry hentry).grows hgrows) hset
  exact ⟨hgrows.trans (Store.Grows.setField hset), hvalid.1⟩

end Store.Valid

/-! ### Declarations -/

/-- The defaults of declared fields are valid. -/
abbrev FieldSpec.AllValid (s : Store) (specs : List FieldSpec) : Prop :=
  ∀ spec ∈ specs, spec.default.Valid s

namespace Struct

variable {s s' : Store} {name : String} {specs : List FieldSpec} {struct : Struct}

theorem declare_valid {fields t : Table Field} (hspecs : FieldSpec.AllValid s specs)
    (hfields : Field.AllValid s fields.entries) (h : declare s name fields specs = .ok t) :
    Field.AllValid s t.entries := by
  refine declare_induction (P := fun t => Field.AllValid s t.entries) h hfields ?_
  intro spec hspec _ t ht entry hentry
  rcases Table.mem_insertEntry hentry with rfl | hentry
  · exact hspecs spec hspec
  · exact ht entry hentry

/-- A type below one of values is one of values. -/
theorem any_isSupertypeOf_define {parent : TypeTag} (name : String)
    (h : BaseType.any.tag.isSupertypeOf parent = true) :
    BaseType.any.tag.isSupertypeOf (.define name (some parent)) = true := by
  simp only [TypeTag.isSupertypeOf, TypeTag.define, TypeTag.chain, List.contains_cons] at h ⊢
  rw [h, Bool.or_true]

theorem define_valid (hspecs : FieldSpec.AllValid s specs)
    (h : define s name specs = .ok struct) : struct.Valid s := by
  obtain ⟨fields, hdeclared, rfl⟩ := define_ok h
  exact ⟨declare_valid hspecs (fun entry hentry => by cases hentry) hdeclared,
    any_isSupertypeOf_define _ (BaseType.any_isSupertypeOf .struct)⟩

theorem derive_valid (hs : s.Valid) {parent : Struct} (hparent : parent.Valid s)
    (hspecs : FieldSpec.AllValid s specs) (h : derive s name parent specs = .ok (struct, s')) :
    s'.Valid ∧ struct.Valid s' := by
  obtain ⟨hcopied, hinherited⟩ := hs.copyFields hparent
  have hgrows := Store.Grows.copyFields s parent
  obtain ⟨rfl, fields, hdeclared, rfl⟩ := derive_ok h
  exact ⟨hcopied, declare_valid (fun spec hspec => (hspecs spec hspec).grows hgrows) hinherited
    hdeclared, any_isSupertypeOf_define _ hparent.tag⟩

theorem read_valid {v : Value} (hstruct : struct.Valid s) (h : struct.read name = .ok v) :
    v.Valid s := by
  obtain ⟨field, hfield, rfl⟩ := read_ok h
  exact hstruct.fields _ (Table.mem_of_lookup hfield)

end Struct

/-! ## Builtin functions -/

namespace Store.Valid

variable {s s' : Store} {args : List Value} {v : Value} (hs : s.Valid)
  (hargs : Value.AllValid s args)
include hargs

theorem car : (Builtin.car args).Valid s := by
  unfold Builtin.car
  split
  · next stamp car cdr rest => exact (hargs (.pair stamp car cdr) (List.mem_cons_self ..)).2.1
  · exact trivial

theorem cdr : (Builtin.cdr args).Valid s := by
  unfold Builtin.cdr
  split
  · next stamp car cdr rest => exact (hargs (.pair stamp car cdr) (List.mem_cons_self ..)).2.2
  · exact trivial

include hs

theorem consArgs (h : Builtin.cons s args = .ok (v, s')) : s'.Valid ∧ v.Valid s' := by
  obtain ⟨car, cdr, rfl, rfl, rfl⟩ := Builtin.cons_ok h
  exact hs.cons (hargs car (by simp)) (hargs cdr (by simp))

theorem setElement (h : Builtin.setElement s args = .ok (v, s')) : s'.Valid ∧ v.Valid s' := by
  have hgrows := Store.Grows.setElement h
  rcases Builtin.setElement_cases h with
    ⟨a, index, i, rfl, -, rfl⟩ | ⟨a, index, i, c, rfl, rfl, -, rfl⟩
  · have hvalue := hargs v (by simp)
    exact ⟨hs.setItem a i hvalue, hvalue.grows hgrows⟩
  · exact ⟨hs.setText a _, trivial⟩

theorem append (h : Builtin.append s args = .ok (v, s')) : s'.Valid ∧ v.Valid s' := by
  have hgrows := Store.Grows.append h
  rcases Builtin.append_cases h with ⟨a, value, rfl, rfl, rfl⟩ | ⟨a, value, text, rfl, rfl, rfl⟩
  · have harray := hargs (.vector a) (by simp)
    exact ⟨hs.pushItem a (hargs value (by simp)), harray.grows hgrows⟩
  · have harray := hargs (.string a) (by simp)
    exact ⟨hs.setText a text, harray.grows hgrows⟩

theorem copy (h : Builtin.copy s args = .ok (v, s')) : s'.Valid ∧ v.Valid s' := by
  rcases Builtin.copy_cases h with
    ⟨a, rfl, rfl, rfl⟩ | ⟨a, -, rfl, rfl⟩ | ⟨a, -, rfl, rfl⟩ | ⟨rfl, rfl⟩
  · exact hs.copyStruct (hs.struct (hargs (.struct a) (List.mem_cons_self ..)))
  · exact hs.newText _
  · exact hs.newVector (hs.vector a)
  · exact ⟨hs, hargs v (List.mem_cons_self ..)⟩

omit hargs in
theorem joinText (h : Builtin.joinText s args = .ok (v, s')) : s'.Valid ∧ v.Valid s' := by
  obtain ⟨text, rfl, rfl⟩ := Builtin.joinText_ok h
  exact hs.newText text

end Store.Valid

end CurryLisp
