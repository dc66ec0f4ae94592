import CurryLisp.Proofs.References

/-!
# Names in reach

A program meets a name as a symbol in its values, or as what an environment, a closure or a struct gives
to a value. `NamesOnly ok` says that each of these names is `ok`, and that the names which a call of a
closure binds differ from each other. No operation makes a name, so what is made of such values is such
a value again.

Statements:

* `Environment.NamesOnly`: bindings keep to names that are `ok`.
* `Closure.NamesOnly.curried`: a closure that receives arguments binds the same names.
* `Store.NamesOnly`: each operation on objects keeps to names that are `ok`.
-/

namespace CurryLisp

variable {ok ok' : String → Prop}

/-! ## What uses only some names -/

/-- The name of every symbol in a tree is `ok`. -/
def Value.NamesOnly (ok : String → Prop) : Value → Prop
  | symbol name => ok name
  | quoted inner => inner.NamesOnly ok
  | pair _ car cdr => car.NamesOnly ok ∧ cdr.NamesOnly ok
  | _ => True

/-- Several values use only names that are `ok`. -/
abbrev Value.AllNameOnly (ok : String → Prop) (vs : List Value) : Prop :=
  ∀ v ∈ vs, v.NamesOnly ok

/-- The names that are bound, and those in their values, are `ok`. -/
abbrev Bound.NameOnly (ok : String → Prop) (entries : List (String × Value)) : Prop :=
  ∀ entry ∈ entries, ok entry.1 ∧ entry.2.NamesOnly ok

/-- An environment binds only names that are `ok`, to values that use no others. -/
structure Environment.NamesOnly (ok : String → Prop) (env : Environment) : Prop where
  bindings : Bound.NameOnly ok env.bindings.entries
  structs : ∀ entry ∈ env.structs.entries, ok entry.1

/-- The names that a call binds: those of the arguments to come and of the arguments received. -/
def Closure.names (c : Closure) : List String := c.params ++ c.bound.map (·.1)

/-- A closure uses only names that are `ok`, and binds each of its own to one value. -/
structure Closure.NamesOnly (ok : String → Prop) (c : Closure) : Prop where
  params : ∀ name ∈ c.params, ok name
  body : Value.AllNameOnly ok c.body
  env : c.env.NamesOnly ok
  bound : Bound.NameOnly ok c.bound
  distinct : c.names.Nodup

/-- The names of fields, and those in their values, are `ok`. -/
abbrev Field.AllNameOnly (ok : String → Prop) (fields : List (String × Field)) : Prop :=
  ∀ entry ∈ fields, ok entry.1 ∧ entry.2.value.NamesOnly ok

/-- A struct uses only names that are `ok`. -/
abbrev Struct.NamesOnly (ok : String → Prop) (struct : Struct) : Prop :=
  Field.AllNameOnly ok struct.fields.entries

/-- The names and defaults of declared fields use only names that are `ok`. -/
abbrev FieldSpec.AllNameOnly (ok : String → Prop) (specs : List FieldSpec) : Prop :=
  ∀ spec ∈ specs, ok spec.name ∧ spec.default.NamesOnly ok

/-- Every object uses only names that are `ok`. -/
structure Store.NamesOnly (ok : String → Prop) (s : Store) : Prop where
  vectors : ∀ items ∈ s.vectors, ∀ v ∈ items, v.NamesOnly ok
  structs : ∀ struct ∈ s.structs, struct.NamesOnly ok
  closures : ∀ c ∈ s.closures, c.NamesOnly ok
  constants : ∀ v ∈ s.constants, v.NamesOnly ok

/-- Every environment and object of a machine uses only names that are `ok`. -/
structure Machine.NamesOnly (ok : String → Prop) (m : Machine) : Prop where
  store : m.store.NamesOnly ok
  global : m.global.NamesOnly ok
  frames : ∀ frame ∈ m.frames, frame.NamesOnly ok

theorem Value.AllNameOnly.nil : Value.AllNameOnly ok [] := fun _ h => by cases h

theorem Bound.NameOnly.nil : Bound.NameOnly ok [] := fun _ h => by cases h

theorem Environment.NamesOnly.empty : ({} : Environment).NamesOnly ok :=
  ⟨.nil, fun _ h => by cases h⟩

theorem Store.NamesOnly.empty : ({} : Store).NamesOnly ok :=
  ⟨fun _ h => by simp at h, fun _ h => by simp at h, fun _ h => by simp at h, fun _ h => by simp at h⟩

/-! ### Where more names are accepted -/

section Mono

variable (h : ∀ name, ok name → ok' name)
include h

theorem Value.NamesOnly.mono {v : Value} (hv : v.NamesOnly ok) : v.NamesOnly ok' := by
  induction v with
  | symbol name => exact h name hv
  | quoted inner ih => exact ih hv
  | pair stamp car cdr ihCar ihCdr => exact ⟨ihCar hv.1, ihCdr hv.2⟩
  | _ => trivial

theorem Value.AllNameOnly.mono {vs : List Value} (hvs : AllNameOnly ok vs) : AllNameOnly ok' vs :=
  fun v hv => (hvs v hv).mono h

theorem Bound.NameOnly.mono {entries : List (String × Value)} (hentries : NameOnly ok entries) :
    NameOnly ok' entries :=
  fun entry hentry => ⟨h _ (hentries entry hentry).1, (hentries entry hentry).2.mono h⟩

theorem Environment.NamesOnly.mono {env : Environment} (henv : env.NamesOnly ok) :
    env.NamesOnly ok' :=
  ⟨henv.bindings.mono h, fun entry hentry => h _ (henv.structs entry hentry)⟩

theorem Closure.NamesOnly.mono {c : Closure} (hc : c.NamesOnly ok) : c.NamesOnly ok' where
  params := fun name hname => h name (hc.params name hname)
  body := hc.body.mono h
  env := hc.env.mono h
  bound := hc.bound.mono h
  distinct := hc.distinct

theorem FieldSpec.AllNameOnly.mono {specs : List FieldSpec} (hspecs : AllNameOnly ok specs) :
    AllNameOnly ok' specs :=
  fun spec hspec => ⟨h _ (hspecs spec hspec).1, (hspecs spec hspec).2.mono h⟩

theorem Store.NamesOnly.mono {s : Store} (hs : s.NamesOnly ok) : s.NamesOnly ok' where
  vectors := fun items hitems v hv => (hs.vectors items hitems v hv).mono h
  structs := fun struct hstruct entry hentry =>
    ⟨h _ (hs.structs struct hstruct entry hentry).1,
      (hs.structs struct hstruct entry hentry).2.mono h⟩
  closures := fun c hc => (hs.closures c hc).mono h
  constants := fun v hv => (hs.constants v hv).mono h

theorem Machine.NamesOnly.mono {m : Machine} (hm : m.NamesOnly ok) : m.NamesOnly ok' where
  store := hm.store.mono h
  global := hm.global.mono h
  frames := fun frame hframe => (hm.frames frame hframe).mono h

end Mono

/-! ## Values -/

namespace Value.NamesOnly

theorem of_isPlain {v : Value} (hv : v.isPlain = true) : v.NamesOnly ok := by
  cases v with
  | nil | truth | integer n | float x | char c => exact trivial
  | _ => cases hv

/-- The items of a list use only what the list uses. -/
theorem of_mem_toList? {v item : Value} {items : List Value} (h : v.toList? = some items)
    (hv : v.NamesOnly ok) (hitem : item ∈ items) : item.NamesOnly ok :=
  forall_mem_toList? (fun _ _ _ hpair => hpair) h hv item hitem

/-- The name of a field entry is one of its items, and so is the default. -/
theorem fieldParts? {entry : Value} {name : String} {tag : Option TypeTag} {default : Option Value}
    (hentry : entry.NamesOnly ok)
    (h : SpecialForm.fieldParts? entry = some (name, tag, default)) :
    ok name ∧ ∀ e, default = some e → e.NamesOnly ok := by
  obtain ⟨_, hlist, hname, hdefault⟩ := SpecialForm.mem_of_fieldParts? h
  have hnamed : (Value.symbol name).NamesOnly ok := .of_mem_toList? hlist hentry hname
  exact ⟨hnamed, fun e he => .of_mem_toList? hlist hentry (hdefault e he)⟩

end Value.NamesOnly

/-! ## Environments -/

namespace Environment.NamesOnly

variable {env : Environment}

theorem put (henv : env.NamesOnly ok) {name : String} (hname : ok name) {value : Value}
    (hvalue : value.NamesOnly ok) : (env.put name value).NamesOnly ok := by
  refine { henv with bindings := fun entry hentry => ?_ }
  rcases Table.mem_insertEntry hentry with rfl | hentry
  · exact ⟨hname, hvalue⟩
  · exact henv.bindings entry hentry

theorem putAll (henv : env.NamesOnly ok) {entries : List (String × Value)}
    (hentries : Bound.NameOnly ok entries) : (env.putAll entries).NamesOnly ok := by
  refine { henv with bindings := fun entry hentry => ?_ }
  rcases Table.mem_insertAll hentry with hentry | hentry
  · exact henv.bindings entry hentry
  · exact hentries entry hentry

theorem remove (henv : env.NamesOnly ok) (name : String) : (env.remove name).NamesOnly ok :=
  { henv with bindings := fun entry hentry => henv.bindings entry (List.mem_filter.1 hentry).1 }

theorem putStruct (henv : env.NamesOnly ok) {name : String} (hname : ok name) (template : Address) :
    (env.putStruct name template).NamesOnly ok := by
  refine { henv with structs := fun entry hentry => ?_ }
  rcases Table.mem_insertEntry hentry with rfl | hentry
  · exact hname
  · exact henv.structs entry hentry

theorem get? (henv : env.NamesOnly ok) {name : String} {v : Value}
    (h : env.bindings.get? name = some v) : v.NamesOnly ok :=
  (henv.bindings _ (Table.mem_of_lookup h)).2

/-- The initial environment binds the names of the builtin functions. -/
theorem initial (h : ∀ f ∈ Builtin.all, ok f.name) : Environment.initial.NamesOnly ok := by
  have hfunctions : ∀ (functions : List NativeFunction) (env : Environment),
      (∀ f ∈ functions, ok f.name) → env.NamesOnly ok →
        (functions.foldl (fun env f => env.put f.name (.native f)) env).NamesOnly ok := by
    intro functions
    induction functions with
    | nil => exact fun _ _ henv => henv
    | cons f functions ih =>
      intro env hok henv
      obtain ⟨hf, hrest⟩ := List.forall_mem_cons.1 hok
      exact ih _ hrest (henv.put hf trivial)
  have htypes : ∀ (types : List BaseType) (env : Environment), env.NamesOnly ok →
      (types.foldl (fun env b => env.putType b.tag) env).NamesOnly ok := by
    intro types
    induction types with
    | nil => exact fun _ henv => henv
    | cons b types ih => exact fun env henv => ih _ { henv with }
  exact hfunctions Builtin.all _ h (htypes BaseType.all _ .empty)

end Environment.NamesOnly

/-! ## Closures -/

namespace Closure.NamesOnly

variable {c : Closure}

/-- What a call binds to its arguments. -/
theorem zip {names : List String} (hnames : ∀ name ∈ names, ok name) {args : List Value}
    (hargs : Value.AllNameOnly ok args) : Bound.NameOnly ok (names.zip args) := fun _ hentry =>
  ⟨hnames _ (List.of_mem_zip hentry).1, hargs _ (List.of_mem_zip hentry).2⟩

/-- **A closure that receives arguments binds the same names**: those of the arguments have moved from
the parameters to what is bound. -/
theorem curried (hc : c.NamesOnly ok) {args body : List Value} (hargs : Value.AllNameOnly ok args)
    (hbody : Value.AllNameOnly ok body) :
    Closure.NamesOnly ok {
      params := c.params.drop args.length
      body
      env := c.env
      bound := c.bound ++ (c.params.take args.length).zip args } where
  params := fun name hname => hc.params name (List.mem_of_mem_drop hname)
  body := hbody
  env := hc.env
  bound := List.forall_mem_append.2
    ⟨hc.bound, zip (fun name hname => hc.params name (List.mem_of_mem_take hname)) hargs⟩
  distinct := by
    have hfirst : ((c.params.take args.length).zip args).map (·.1) = c.params.take args.length :=
      List.map_fst_zip (List.length_take_le ..)
    unfold Closure.names
    rw [List.map_append, hfirst, ← List.append_assoc, List.perm_append_comm.nodup_iff,
      ← List.append_assoc, List.take_append_drop]
    exact hc.distinct

end Closure.NamesOnly

/-! ## Objects -/

namespace Store.NamesOnly

variable {s : Store} (hs : s.NamesOnly ok)
include hs

theorem vector (a : Address) : ∀ v ∈ s.vector a, v.NamesOnly ok := by
  unfold Store.vector
  rw [Array.getD_eq_getD_getElem?]
  cases hitems : s.vectors[a]? with
  | none =>
    intro v hv
    cases Array.not_mem_empty v hv
  | some items => exact hs.vectors items (Array.mem_of_getElem? hitems)

theorem struct (a : Address) : (s.struct a).NamesOnly ok := by
  unfold Store.struct
  rw [Array.getD_eq_getD_getElem?]
  cases hstruct : s.structs[a]? with
  | none =>
    intro entry hentry
    cases hentry
  | some struct => exact hs.structs struct (Array.mem_of_getElem? hstruct)

theorem closure (a : Address) : (s.closure a).NamesOnly ok := by
  unfold Store.closure
  rw [Array.getD_eq_getD_getElem?]
  cases hc : s.closures[a]? with
  | none => exact ⟨fun _ h => (by cases h), .nil, .empty, .nil, .nil⟩
  | some c => exact hs.closures c (Array.mem_of_getElem? hc)

theorem constant (slot : Nat) : (s.constant slot).NamesOnly ok := by
  rw [Store.constant, Array.getD_eq_getD_getElem?]
  cases hv : s.constants[slot]? with
  | none => exact trivial
  | some v => exact hs.constants v (Array.mem_of_getElem? hv)

/-! ### Making objects -/

theorem newText (text : String) :
    (s.newText text).2.NamesOnly ok ∧ (s.newText text).1.NamesOnly ok :=
  ⟨{ hs with }, trivial⟩

theorem newVector {items : Array Value} (hitems : ∀ v ∈ items, v.NamesOnly ok) :
    (s.newVector items).2.NamesOnly ok ∧ (s.newVector items).1.NamesOnly ok := by
  refine ⟨{ hs with vectors := fun found h => ?_ }, trivial⟩
  rcases Array.mem_push.1 h with h | rfl
  · exact hs.vectors found h
  · exact hitems

theorem newStruct {struct : Struct} (hstruct : struct.NamesOnly ok) :
    (s.newStruct struct).2.NamesOnly ok := by
  refine { hs with structs := fun found h => ?_ }
  rcases Array.mem_push.1 h with h | rfl
  · exact hs.structs found h
  · exact hstruct

theorem newClosure {c : Closure} (hc : c.NamesOnly ok) :
    (s.newClosure c).2.NamesOnly ok ∧ (s.newClosure c).1.NamesOnly ok := by
  refine ⟨{ hs with closures := fun found h => ?_ }, trivial⟩
  rcases Array.mem_push.1 h with h | rfl
  · exact hs.closures found h
  · exact hc

theorem chain {items : List Value} {tail : Value} (hitems : Value.AllNameOnly ok items)
    (htail : tail.NamesOnly ok) :
    (s.chain items tail).2.NamesOnly ok ∧ (s.chain items tail).1.NamesOnly ok := by
  induction items with
  | nil => exact ⟨hs, htail⟩
  | cons item rest ih =>
    obtain ⟨hitem, hrest⟩ := List.forall_mem_cons.1 hitems
    obtain ⟨hmade, hlist⟩ := ih hrest
    exact ⟨{ hmade with }, hitem, hlist⟩

/-! ### Changing objects -/

theorem setItem (a : Address) (i : Nat) {value : Value} (hvalue : value.NamesOnly ok) :
    (s.setItem a i value).NamesOnly ok := by
  refine { hs with vectors := fun items h => ?_ }
  simp only [Store.setItem] at h
  rcases Store.Valid.mem_modify h with h | ⟨old, hold, rfl⟩
  · exact hs.vectors items h
  · intro v hv
    rcases Array.mem_or_eq_of_mem_setIfInBounds hv with hv | rfl
    · exact hs.vectors old hold v hv
    · exact hvalue

theorem pushItem (a : Address) {value : Value} (hvalue : value.NamesOnly ok) :
    (s.pushItem a value).NamesOnly ok := by
  refine { hs with vectors := fun items h => ?_ }
  simp only [Store.pushItem] at h
  rcases Store.Valid.mem_modify h with h | ⟨old, hold, rfl⟩
  · exact hs.vectors items h
  · intro v hv
    rcases Array.mem_push.1 hv with hv | rfl
    · exact hs.vectors old hold v hv
    · exact hvalue

theorem setFieldValue (a : Address) (name : String) {value : Value} (hvalue : value.NamesOnly ok) :
    (s.setFieldValue a name value).NamesOnly ok := by
  refine { hs with structs := fun struct h => ?_ }
  simp only [Store.setFieldValue] at h
  rcases Store.Valid.mem_modify h with h | ⟨old, hold, rfl⟩
  · exact hs.structs struct h
  · cases hfield : old.fields.get? name with
    | none => exact hs.structs old hold
    | some field =>
      intro entry hentry
      rcases Table.mem_insertEntry hentry with rfl | hentry
      · exact ⟨(hs.structs old hold _ (Table.mem_of_lookup hfield)).1, hvalue⟩
      · exact hs.structs old hold entry hentry

end Store.NamesOnly

/-! ### Copies -/

theorem Struct.CopyRun.namesOnly {source made made' : Array Struct} {path : List Address}
    {entries copied : List (String × Field)} (h : CopyRun source path made entries copied made')
    (hsource : ∀ struct ∈ source, struct.NamesOnly ok)
    (hmade : ∀ struct ∈ made, struct.NamesOnly ok) (hentries : Field.AllNameOnly ok entries) :
    (∀ struct ∈ made', struct.NamesOnly ok) ∧ Field.AllNameOnly ok copied := by
  induction h with
  | nil => exact ⟨hmade, hentries⟩
  | keep _ _ ih =>
    obtain ⟨hfield, hentries⟩ := List.forall_mem_cons.1 hentries
    obtain ⟨hstructs, hfields⟩ := ih hmade hentries
    exact ⟨hstructs, List.forall_mem_cons.2 ⟨hfield, hfields⟩⟩
  | copy _ _ ha _ _ ihFields ihRest =>
    obtain ⟨hfield, hentries⟩ := List.forall_mem_cons.1 hentries
    obtain ⟨hinside, hfields⟩ := ihFields hmade (hsource _ (Array.mem_of_getElem? ha))
    -- A copied field has the same name and refers to a copy, whose fields are copies as well.
    obtain ⟨hstructs, hcopies⟩ := ihRest (fun struct h => by
      rcases Array.mem_push.1 h with h | rfl
      · exact hinside struct h
      · exact hfields) hentries
    exact ⟨hstructs, List.forall_mem_cons.2 ⟨⟨hfield.1, trivial⟩, hcopies⟩⟩

namespace Store.NamesOnly

variable {s s' : Store} (hs : s.NamesOnly ok)
include hs

theorem copyFields {struct : Struct} (hstruct : struct.NamesOnly ok) :
    (s.copyFields struct).2.NamesOnly ok ∧
      Field.AllNameOnly ok (s.copyFields struct).1.entries := by
  obtain ⟨hstructs, hfields⟩ := (Struct.copyRun_copyFields s.structs [] s.structs
    struct.fields.entries).namesOnly hs.structs hs.structs hstruct
  exact ⟨{ hs with structs := hstructs }, hfields⟩

theorem copyStruct {struct : Struct} (hstruct : struct.NamesOnly ok) :
    (s.copyStruct struct).2.NamesOnly ok := by
  obtain ⟨hcopied, hfields⟩ := hs.copyFields hstruct
  exact hcopied.newStruct hfields

theorem setField {a : Address} {name : String} {value v : Value} (hvalue : value.NamesOnly ok)
    (h : s.setField a name value = .ok (v, s')) : s'.NamesOnly ok ∧ v.NamesOnly ok := by
  obtain ⟨rfl, rfl, -⟩ := Store.setField_ok h
  exact ⟨hs.setFieldValue a name hvalue, hvalue⟩

theorem setFields {a : Address} {entries : List (String × Value)}
    (hentries : Bound.NameOnly ok entries) (h : s.setFields a entries = .ok s') :
    s'.NamesOnly ok := by
  refine Store.setFields_induction (P := Store.NamesOnly ok) h hs fun entry hentry s₁ v s₂ hs₁ hset => ?_
  exact (hs₁.setField (hentries entry hentry).2 hset).1

end Store.NamesOnly

/-! ### Declarations -/

namespace Struct

variable {s s' : Store} {name : String} {specs : List FieldSpec} {struct : Struct}

theorem declare_namesOnly {fields t : Table Field} (hspecs : FieldSpec.AllNameOnly ok specs)
    (hfields : Field.AllNameOnly ok fields.entries) (h : declare s name fields specs = .ok t) :
    Field.AllNameOnly ok t.entries := by
  refine declare_induction (P := fun t => Field.AllNameOnly ok t.entries) h hfields ?_
  intro spec hspec _ t ht entry hentry
  rcases Table.mem_insertEntry hentry with rfl | hentry
  · exact hspecs spec hspec
  · exact ht entry hentry

/-- A struct has the name under which it is declared. -/
theorem define_namesOnly (hspecs : FieldSpec.AllNameOnly ok specs)
    (h : define s name specs = .ok struct) : struct.name = name ∧ struct.NamesOnly ok := by
  obtain ⟨fields, hdeclared, rfl⟩ := define_ok h
  exact ⟨rfl, declare_namesOnly hspecs (fun entry hentry => by cases hentry) hdeclared⟩

theorem derive_namesOnly (hs : s.NamesOnly ok) {parent : Struct} (hparent : parent.NamesOnly ok)
    (hspecs : FieldSpec.AllNameOnly ok specs) (h : derive s name parent specs = .ok (struct, s')) :
    s'.NamesOnly ok ∧ struct.name = name ∧ struct.NamesOnly ok := by
  obtain ⟨hcopied, hinherited⟩ := hs.copyFields hparent
  obtain ⟨rfl, fields, hdeclared, rfl⟩ := derive_ok h
  exact ⟨hcopied, rfl, declare_namesOnly hspecs hinherited hdeclared⟩

theorem read_namesOnly {v : Value} (hstruct : struct.NamesOnly ok)
    (h : struct.read name = .ok v) : v.NamesOnly ok := by
  obtain ⟨field, hfield, rfl⟩ := read_ok h
  exact (hstruct _ (Table.mem_of_lookup hfield)).2

end Struct

/-! ## Builtin functions -/

namespace Store.NamesOnly

variable {s s' : Store} {args : List Value} {v : Value} (hs : s.NamesOnly ok)
  (hargs : Value.AllNameOnly ok args)
include hargs

omit hs in
theorem car : (Builtin.car args).NamesOnly ok := by
  unfold Builtin.car
  split
  · next stamp car cdr rest => exact (hargs (.pair stamp car cdr) (List.mem_cons_self ..)).1
  · exact trivial

omit hs in
theorem cdr : (Builtin.cdr args).NamesOnly ok := by
  unfold Builtin.cdr
  split
  · next stamp car cdr rest => exact (hargs (.pair stamp car cdr) (List.mem_cons_self ..)).2
  · exact trivial

include hs

theorem consArgs (h : Builtin.cons s args = .ok (v, s')) : s'.NamesOnly ok ∧ v.NamesOnly ok := by
  obtain ⟨car, cdr, rfl, rfl, rfl⟩ := Builtin.cons_ok h
  exact ⟨{ hs with }, hargs car (by simp), hargs cdr (by simp)⟩

theorem setElement (h : Builtin.setElement s args = .ok (v, s')) :
    s'.NamesOnly ok ∧ v.NamesOnly ok := by
  rcases Builtin.setElement_cases h with
    ⟨a, index, i, rfl, -, rfl⟩ | ⟨a, index, i, c, rfl, rfl, -, rfl⟩
  · have hvalue := hargs v (by simp)
    exact ⟨hs.setItem a i hvalue, hvalue⟩
  · exact ⟨{ hs with }, trivial⟩

theorem append (h : Builtin.append s args = .ok (v, s')) : s'.NamesOnly ok ∧ v.NamesOnly ok := by
  rcases Builtin.append_cases h with ⟨a, value, rfl, rfl, rfl⟩ | ⟨a, value, text, rfl, rfl, rfl⟩
  · exact ⟨hs.pushItem a (hargs value (by simp)), trivial⟩
  · exact ⟨{ hs with }, trivial⟩

theorem copy (h : Builtin.copy s args = .ok (v, s')) : s'.NamesOnly ok ∧ v.NamesOnly ok := by
  rcases Builtin.copy_cases h with
    ⟨a, -, rfl, rfl⟩ | ⟨a, -, rfl, rfl⟩ | ⟨a, -, rfl, rfl⟩ | ⟨rfl, rfl⟩
  · exact ⟨hs.copyStruct (hs.struct a), trivial⟩
  · exact hs.newText _
  · exact hs.newVector (hs.vector a)
  · exact ⟨hs, hargs v (List.mem_cons_self ..)⟩

omit hargs in
theorem joinText (h : Builtin.joinText s args = .ok (v, s')) :
    s'.NamesOnly ok ∧ v.NamesOnly ok := by
  obtain ⟨text, rfl, rfl⟩ := Builtin.joinText_ok h
  exact hs.newText text

end Store.NamesOnly

end CurryLisp
