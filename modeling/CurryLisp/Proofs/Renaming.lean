import CurryLisp.Callable
import CurryLisp.Machine

/-!
# Renamed machines

A program cannot see the number under which a closure is stored, or the stamp of a pair. A `Renaming`
exchanges these numbers for others. `Machine.Renamed` relates a machine to another one in which they
are exchanged, and which may hold closures besides that the first one does not know.

How deep the steps of a program are nested and what is noted of them has no part in the relation: no
program can see it either, until it reaches the limit of nesting.
-/

namespace CurryLisp

/-! ## Renamings -/

/-- Other numbers for closures and other stamps for pairs. -/
structure Renaming where
  address : Address → Address
  stamp : Nat → Nat
  address_injective : Function.Injective address
  stamp_injective : Function.Injective stamp

/-- A value with other numbers in it. -/
def Value.rename (σ : Renaming) : Value → Value
  | quoted inner => quoted (inner.rename σ)
  | pair stamp car cdr => pair (σ.stamp stamp) (car.rename σ) (cdr.rename σ)
  | closure a => closure (σ.address a)
  | v => v

/-- A table with other values under the same names. -/
def Table.map {α β : Type} (f : α → β) (t : Table α) : Table β := ⟨t.entries.map (Prod.map id f)⟩

/-- Bindings with other numbers in them. -/
def Bound.rename (σ : Renaming) (entries : List (String × Value)) : List (String × Value) :=
  entries.map (Prod.map id (Value.rename σ))

/-- An environment with other numbers in it. -/
def Environment.rename (σ : Renaming) (env : Environment) : Environment :=
  { env with bindings := env.bindings.map (Value.rename σ) }

/-- A closure with other numbers in it. -/
def Closure.rename (σ : Renaming) (c : Closure) : Closure where
  params := c.params
  body := c.body.map (Value.rename σ)
  env := c.env.rename σ
  bound := Bound.rename σ c.bound

/-- A slot with other numbers in it. -/
def Field.rename (σ : Renaming) (field : Field) : Field :=
  { field with value := field.value.rename σ }

/-- A struct with other numbers in it. -/
def Struct.rename (σ : Renaming) (struct : Struct) : Struct :=
  { struct with fields := struct.fields.map (Field.rename σ) }

/-- A declared field with other numbers in its default. -/
def FieldSpec.rename (σ : Renaming) (spec : FieldSpec) : FieldSpec :=
  { spec with default := spec.default.rename σ }

/-- A callable with other numbers in it. -/
def Callable.rename (σ : Renaming) : Callable → Callable
  | native f => native f
  | closure c => closure (c.rename σ)
  | struct a => struct a

/-! ## Renamed values -/

namespace Value

variable (σ : Renaming)

@[simp]
theorem isNil_rename (v : Value) : (v.rename σ).isNil = v.isNil := by
  cases v <;> rfl

@[simp]
theorem isTruthy_rename (v : Value) : (v.rename σ).isTruthy = v.isTruthy := by
  simp [isTruthy]

@[simp]
theorem isResidual_rename (v : Value) : (v.rename σ).isResidual = v.isResidual := by
  cases v <;> rfl

@[simp]
theorem rename_ofBool (b : Bool) : (ofBool b).rename σ = ofBool b := by
  cases b <;> rfl

theorem spine_rename (v : Value) :
    (v.rename σ).spine = (v.spine.1.map (rename σ), v.spine.2.map (rename σ)) := by
  induction v with
  | pair stamp car cdr _ ih => simp [rename, spine, ih]
  | _ => rfl

@[simp]
theorem toList?_rename (v : Value) : (v.rename σ).toList? = v.toList?.map (List.map (rename σ)) := by
  unfold toList?
  rw [spine_rename]
  rcases v.spine with ⟨items, _ | last⟩ <;> rfl

end Value

/-! ## Renamed tables -/

namespace Table

variable {α β : Type} (f : α → β)

theorem lookup_map (entries : List (String × α)) (name : String) :
    (entries.map (Prod.map id f)).lookup name = (entries.lookup name).map f := by
  induction entries with
  | nil => rfl
  | cons entry rest ih =>
    obtain ⟨key, value⟩ := entry
    rw [List.map_cons, Prod.map_apply, id, lookup_cons, lookup_cons, ih]
    split <;> rfl

@[simp]
theorem get?_map (t : Table α) (name : String) : (t.map f).get? name = (t.get? name).map f :=
  lookup_map f t.entries name

@[simp]
theorem size_map (t : Table α) : (t.map f).size = t.size := List.length_map _

theorem insertEntry_map (name : String) (value : α) (entries : List (String × α)) :
    insertEntry name (f value) (entries.map (Prod.map id f)) =
      (insertEntry name value entries).map (Prod.map id f) := by
  induction entries with
  | nil => rfl
  | cons entry rest ih =>
    obtain ⟨key, old⟩ := entry
    simp only [List.map_cons, Prod.map_apply, id, insertEntry, ih]
    split <;> rfl

theorem insert_map (t : Table α) (name : String) (value : α) :
    (t.map f).insert name (f value) = (t.insert name value).map f :=
  congrArg mk (insertEntry_map f name value t.entries)

theorem insertAll_map (t : Table α) (entries : List (String × α)) :
    (t.map f).insertAll (entries.map (Prod.map id f)) = (t.insertAll entries).map f := by
  unfold insertAll
  induction entries generalizing t with
  | nil => rfl
  | cons entry rest ih =>
    simp only [List.map_cons, List.foldl_cons, Prod.map_fst, Prod.map_snd, id]
    rw [insert_map, ih]

theorem erase_map (t : Table α) (name : String) : (t.map f).erase name = (t.erase name).map f := by
  simp only [map, erase, List.filter_map]
  rfl

/-- The order of the names does not depend on the values. -/
theorem sorted_map (t : Table α) : (t.map f).sorted = t.sorted.map (Prod.map id f) := by
  unfold sorted map
  rw [List.map_mergeSort]
  intros
  rfl

end Table

/-! ## Renamed environments -/

namespace Environment

variable (σ : Renaming)

theorem put_rename (env : Environment) (name : String) (value : Value) :
    (env.rename σ).put name (value.rename σ) = (env.put name value).rename σ :=
  congrArg (fun bindings => { env with bindings }) (Table.insert_map _ env.bindings name value)

theorem putAll_rename (env : Environment) (entries : List (String × Value)) :
    (env.rename σ).putAll (Bound.rename σ entries) = (env.putAll entries).rename σ :=
  congrArg (fun bindings => { env with bindings }) (Table.insertAll_map _ env.bindings entries)

theorem remove_rename (env : Environment) (name : String) :
    (env.rename σ).remove name = (env.remove name).rename σ :=
  congrArg (fun bindings => { env with bindings }) (Table.erase_map _ env.bindings name)

end Environment

/-! ## Renamed stores -/

/-- `s'` is `s` with other numbers for its closures and pairs, and perhaps more closures. -/
structure Store.Renamed (σ : Renaming) (s s' : Store) : Prop where
  texts : s'.texts = s.texts
  vectors : s'.vectors = s.vectors.map fun items => items.map (Value.rename σ)
  structs : s'.structs = s.structs.map (Struct.rename σ)
  constants : s'.constants = s.constants.map (Value.rename σ)
  hosts : s'.hosts = s.hosts
  closures : ∀ a, s'.closures[σ.address a]? = s.closures[a]?.map (Closure.rename σ)
  /-- Closures that are still to be made get the numbers of each other. -/
  nextClosure : ∀ i, σ.address (s.closures.size + i) = s'.closures.size + i
  nextPair : ∀ i, σ.stamp (s.pairs + i) = s'.pairs + i

namespace Store.Renamed

variable {σ : Renaming} {s s' : Store}

theorem text (h : s.Renamed σ s') (a : Address) : s'.text a = s.text a := by
  rw [Store.text, h.texts]
  rfl

theorem vector (h : s.Renamed σ s') (a : Address) :
    s'.vector a = (s.vector a).map (Value.rename σ) := by
  simp only [Store.vector, h.vectors, Array.getD_eq_getD_getElem?, Array.getElem?_map]
  cases s.vectors[a]? <;> simp

theorem struct (h : s.Renamed σ s') (a : Address) : s'.struct a = (s.struct a).rename σ := by
  simp only [Store.struct, h.structs, Array.getD_eq_getD_getElem?, Array.getElem?_map]
  cases s.structs[a]? <;> rfl

theorem closure (h : s.Renamed σ s') (a : Address) :
    s'.closure (σ.address a) = (s.closure a).rename σ := by
  simp only [Store.closure, Array.getD_eq_getD_getElem?, h.closures]
  cases s.closures[a]? <;> rfl

theorem constant (h : s.Renamed σ s') (slot : Nat) :
    s'.constant slot = (s.constant slot).rename σ := by
  simp only [Store.constant, h.constants, Array.getD_eq_getD_getElem?, Array.getElem?_map]
  cases s.constants[slot]? <;> rfl

theorem host (h : s.Renamed σ s') (slot : Nat) : s'.host slot = s.host slot := by
  rw [Store.host, h.hosts]
  rfl

theorem callable? (h : s.Renamed σ s') (v : Value) :
    (v.rename σ).callable? s' = (v.callable? s).map (Callable.rename σ) := by
  cases v with
  | closure a => exact congrArg (fun c => some (Callable.closure c)) (h.closure a)
  | _ => rfl

/-! ### Making objects -/

theorem newText (h : s.Renamed σ s') (text : String) :
    (s'.newText text).1 = (s.newText text).1.rename σ ∧
      (s.newText text).2.Renamed σ (s'.newText text).2 :=
  ⟨by simp [Store.newText, Value.rename, h.texts],
    { h with texts := congrArg (Array.push · text) h.texts }⟩

theorem newVector (h : s.Renamed σ s') (items : Array Value) :
    (s'.newVector (items.map (Value.rename σ))).1 = (s.newVector items).1.rename σ ∧
      (s.newVector items).2.Renamed σ (s'.newVector (items.map (Value.rename σ))).2 := by
  refine ⟨?_, { h with vectors := ?_ }⟩
  · simp [Store.newVector, Value.rename, h.vectors]
  · simp [Store.newVector, h.vectors]

theorem newStruct (h : s.Renamed σ s') (struct : Struct) :
    (s'.newStruct (struct.rename σ)).1 = (s.newStruct struct).1 ∧
      (s.newStruct struct).2.Renamed σ (s'.newStruct (struct.rename σ)).2 := by
  refine ⟨?_, { h with structs := ?_ }⟩
  · simp [Store.newStruct, h.structs]
  · simp [Store.newStruct, h.structs]

theorem cons (h : s.Renamed σ s') (car cdr : Value) :
    (s'.cons (car.rename σ) (cdr.rename σ)).1 = (s.cons car cdr).1.rename σ ∧
      (s.cons car cdr).2.Renamed σ (s'.cons (car.rename σ) (cdr.rename σ)).2 := by
  refine ⟨?_, { h with nextPair := fun i => ?_ }⟩
  · have hstamp : σ.stamp s.pairs = s'.pairs := h.nextPair 0
    simp [Store.cons, Value.rename, hstamp]
  · have hnext := h.nextPair (1 + i)
    rw [← Nat.add_assoc, ← Nat.add_assoc] at hnext
    exact hnext

theorem newClosure (h : s.Renamed σ s') (c : Closure) :
    (s'.newClosure (c.rename σ)).1 = (s.newClosure c).1.rename σ ∧
      (s.newClosure c).2.Renamed σ (s'.newClosure (c.rename σ)).2 := by
  have hsize : σ.address s.closures.size = s'.closures.size := h.nextClosure 0
  refine ⟨?_, { h with closures := fun a => ?_, nextClosure := fun i => ?_ }⟩
  · simp [Store.newClosure, Value.rename, hsize]
  · simp only [Store.newClosure, Array.getElem?_push, ← hsize, σ.address_injective.eq_iff, h.closures]
    split <;> rfl
  · have hnext := h.nextClosure (1 + i)
    simpa [Store.newClosure, Nat.add_assoc] using hnext

theorem chain (h : s.Renamed σ s') (items : List Value) (tail : Value) :
    (s'.chain (items.map (Value.rename σ)) (tail.rename σ)).1 = (s.chain items tail).1.rename σ ∧
      (s.chain items tail).2.Renamed σ
        (s'.chain (items.map (Value.rename σ)) (tail.rename σ)).2 := by
  unfold Store.chain
  induction items with
  | nil => exact ⟨rfl, h⟩
  | cons item rest ih =>
    simp only [List.map_cons, List.foldr_cons]
    rw [ih.1]
    exact ih.2.cons item _

/-! ### Changing objects -/

theorem setText (h : s.Renamed σ s') (a : Address) (text : String) :
    (s.setText a text).Renamed σ (s'.setText a text) :=
  { h with texts := congrArg (Array.setIfInBounds · a text) h.texts }

theorem setItem (h : s.Renamed σ s') (a : Address) (i : Nat) (value : Value) :
    (s.setItem a i value).Renamed σ (s'.setItem a i (value.rename σ)) := by
  refine { h with vectors := ?_ }
  simp only [Store.setItem, h.vectors]
  ext1
  · simp
  · simp [Array.getElem_modify]
    split <;> simp

theorem pushItem (h : s.Renamed σ s') (a : Address) (value : Value) :
    (s.pushItem a value).Renamed σ (s'.pushItem a (value.rename σ)) := by
  refine { h with vectors := ?_ }
  simp only [Store.pushItem, h.vectors]
  ext1
  · simp
  · simp [Array.getElem_modify]
    split <;> simp

end Store.Renamed

/-! ## Renamed machines -/

/-- `m'` is `m` with other numbers for closures and pairs. The machines may differ in the closures that
`m` does not know, in their nesting and in what they note. -/
structure Machine.Renamed (σ : Renaming) (m m' : Machine) : Prop where
  global : m'.global = m.global.rename σ
  frames : m'.frames = m.frames.map (Environment.rename σ)
  level : m'.level = m.level
  scoping : m'.options.scoping = m.options.scoping
  placeholders : m'.placeholders = m.placeholders
  printed : m'.printed = m.printed
  store : m.store.Renamed σ m'.store

namespace Machine.Renamed

variable {σ : Renaming} {m m' : Machine}

theorem active (h : m.Renamed σ m') : m'.active = m.active.rename σ := by
  unfold Machine.active
  rw [h.frames]
  cases m.frames with
  | nil => exact h.global
  | cons frame frames => rfl

theorem scopeDepth (h : m.Renamed σ m') : m'.scopeDepth = m.scopeDepth := by
  rw [Machine.scopeDepth, h.frames, List.length_map]
  rfl

theorem lookup? (h : m.Renamed σ m') (name : String) :
    m'.lookup? name = (m.lookup? name).map (Value.rename σ) := by
  simp only [Machine.lookup?, h.active, h.global, Environment.rename, Table.get?_map]
  cases m.active.bindings.get? name <;> rfl

theorem lookupType? (h : m.Renamed σ m') (name : String) :
    m'.lookupType? name = m.lookupType? name := by
  simp only [Machine.lookupType?, h.active, h.global, Environment.rename]

theorem lookupStruct? (h : m.Renamed σ m') (name : String) :
    m'.lookupStruct? name = m.lookupStruct? name := by
  simp only [Machine.lookupStruct?, h.active, h.global, Environment.rename]

theorem updateActive (h : m.Renamed σ m') {f f' : Environment → Environment}
    (hf : ∀ env, f' (env.rename σ) = (f env).rename σ) :
    (m.updateActive f).Renamed σ (m'.updateActive f') := by
  unfold Machine.updateActive
  rw [h.frames]
  cases hframes : m.frames with
  | nil =>
    have hglobal : f' m'.global = (f m.global).rename σ := by rw [h.global, hf]
    exact { h with global := hglobal, frames := rfl }
  | cons frame frames =>
    have hframe : f' (frame.rename σ) :: frames.map (Environment.rename σ) =
        (f frame :: frames).map (Environment.rename σ) := by rw [hf, List.map_cons]
    exact { h with frames := hframe }

end Machine.Renamed

/-! ## Renamings in turn -/

namespace Renaming

/-- Everything keeps its number. -/
def same : Renaming := ⟨id, id, Function.injective_id, Function.injective_id⟩

/-- One renaming behind another one. -/
def andThen (σ τ : Renaming) : Renaming where
  address := τ.address ∘ σ.address
  stamp := τ.stamp ∘ σ.stamp
  address_injective := τ.address_injective.comp σ.address_injective
  stamp_injective := τ.stamp_injective.comp σ.stamp_injective

end Renaming

section InTurn

variable {σ τ : Renaming}

theorem Value.rename_same (v : Value) : v.rename .same = v := by
  induction v with
  | quoted inner ih => exact congrArg quoted ih
  | pair stamp car cdr ihCar ihCdr => rw [rename, ihCar, ihCdr]; rfl
  | _ => rfl

theorem Value.rename_same_eq : Value.rename .same = id := funext rename_same

theorem Bound.rename_same (entries : List (String × Value)) : Bound.rename .same entries = entries := by
  rw [Bound.rename, Value.rename_same_eq, Prod.map_id, List.map_id]

theorem Environment.rename_same (env : Environment) : env.rename .same = env :=
  congrArg (fun entries => { env with bindings := ⟨entries⟩ : Environment })
    (Bound.rename_same env.bindings.entries)

theorem Closure.rename_same (c : Closure) : c.rename .same = c := by
  rw [Closure.rename, Value.rename_same_eq, List.map_id, Environment.rename_same, Bound.rename_same]

theorem Struct.rename_same (struct : Struct) : struct.rename .same = struct := by
  have hfield : Field.rename .same = id :=
    funext fun field => congrArg (fun value => { field with value }) field.value.rename_same
  rw [Struct.rename, Table.map, hfield, Prod.map_id, List.map_id]

/-- Every store is renamed to itself. -/
theorem Store.Renamed.refl (s : Store) : s.Renamed .same s where
  texts := rfl
  vectors := by rw [Value.rename_same_eq, funext Array.map_id, Array.map_id']
  structs := by rw [funext Struct.rename_same, Array.map_id']
  constants := by rw [Value.rename_same_eq, Array.map_id]
  hosts := rfl
  closures := fun a => by
    rw [funext Closure.rename_same, Option.map_id']
    rfl
  nextClosure := fun _ => rfl
  nextPair := fun _ => rfl

/-- Every machine is renamed to itself. -/
theorem Machine.Renamed.refl (m : Machine) : m.Renamed .same m where
  global := (Environment.rename_same m.global).symm
  frames := by rw [funext Environment.rename_same, List.map_id']
  level := rfl
  scoping := rfl
  placeholders := rfl
  printed := rfl
  store := .refl m.store

theorem Value.rename_rename (v : Value) : (v.rename σ).rename τ = v.rename (σ.andThen τ) := by
  induction v with
  | quoted inner ih => exact congrArg quoted ih
  | pair stamp car cdr ihCar ihCdr => rw [rename, rename, rename, ihCar, ihCdr]; rfl
  | _ => rfl

/-- Renaming twice is renaming once, part by part. -/
theorem Value.rename_comp : Value.rename τ ∘ Value.rename σ = Value.rename (σ.andThen τ) :=
  funext rename_rename

theorem Bound.rename_rename (entries : List (String × Value)) :
    Bound.rename τ (Bound.rename σ entries) = Bound.rename (σ.andThen τ) entries := by
  simp only [Bound.rename, List.map_map, Prod.map_comp_map, Function.id_comp, Value.rename_comp]

theorem Environment.rename_rename (env : Environment) :
    (env.rename σ).rename τ = env.rename (σ.andThen τ) :=
  congrArg (fun entries => { env with bindings := ⟨entries⟩ : Environment })
    (Bound.rename_rename env.bindings.entries)

theorem Closure.rename_rename (c : Closure) : (c.rename σ).rename τ = c.rename (σ.andThen τ) := by
  simp only [Closure.rename, List.map_map, Value.rename_comp, Environment.rename_rename,
    Bound.rename_rename]

theorem Struct.rename_rename (struct : Struct) :
    (struct.rename σ).rename τ = struct.rename (σ.andThen τ) := by
  have hfield : Field.rename τ ∘ Field.rename σ = Field.rename (σ.andThen τ) :=
    funext fun field => congrArg (fun value => { field with value }) field.value.rename_rename
  simp only [Struct.rename, Table.map, List.map_map, Prod.map_comp_map, Function.id_comp, hfield]

theorem Store.Renamed.trans {s s' s'' : Store} (h : s.Renamed σ s') (h' : s'.Renamed τ s'') :
    s.Renamed (σ.andThen τ) s'' where
  texts := by rw [h'.texts, h.texts]
  vectors := by
    rw [h'.vectors, h.vectors, Array.map_map]
    congr 1
    funext items
    rw [Function.comp_apply, Array.map_map, Value.rename_comp]
  structs := by
    rw [h'.structs, h.structs, Array.map_map]
    congr 1
    exact funext Struct.rename_rename
  constants := by rw [h'.constants, h.constants, Array.map_map, Value.rename_comp]
  hosts := by rw [h'.hosts, h.hosts]
  closures := fun a => by
    show s''.closures[τ.address (σ.address a)]? = _
    rw [h'.closures, h.closures, Option.map_map]
    congr 1
    exact funext Closure.rename_rename
  nextClosure := fun i => by
    show τ.address (σ.address _) = _
    rw [h.nextClosure, h'.nextClosure]
  nextPair := fun i => by
    show τ.stamp (σ.stamp _) = _
    rw [h.nextPair, h'.nextPair]

theorem Machine.Renamed.trans {m m' m'' : Machine} (h : m.Renamed σ m') (h' : m'.Renamed τ m'') :
    m.Renamed (σ.andThen τ) m'' where
  global := by rw [h'.global, h.global, Environment.rename_rename]
  frames := by
    rw [h'.frames, h.frames, List.map_map]
    congr 1
    exact funext Environment.rename_rename
  level := by rw [h'.level, h.level]
  scoping := by rw [h'.scoping, h.scoping]
  placeholders := by rw [h'.placeholders, h.placeholders]
  printed := by rw [h'.printed, h.printed]
  store := h.store.trans h'.store

end InTurn

end CurryLisp
