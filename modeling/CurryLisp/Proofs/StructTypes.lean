import CurryLisp.Proofs.References.Session

/-!
# Structs stay well typed

Each field of a struct holds `nil` or a value that has the type of the field. A declaration and a write
check this, and a copy keeps it, because the copy of a struct in a field has the type of the original
and no struct ever changes its type.

Statements:

* `Invariant.typed`: being well typed is a lawful invariant, so evaluation keeps it.
* `Session.structs_typed`: **in every state of a session all structs are well typed**, and of a struct
  that was made nothing but the values in its fields changes.
-/

namespace CurryLisp

/-! ## Well-typed structs -/

/-- Each of these fields holds `nil` or a value that has the type of the field. -/
abbrev Field.AllTyped (s : Store) (fields : List (String × Field)) : Prop :=
  ∀ entry ∈ fields, entry.2.value = .nil ∨ entry.2.value.hasType s entry.2.tag = true

/-- Each field of the struct holds `nil` or a value that has the type of the field. -/
def Struct.Typed (s : Store) (struct : Struct) : Prop := Field.AllTyped s struct.fields.entries

/-- Every struct is well typed. -/
def Store.Typed (s : Store) : Prop := ∀ struct ∈ s.structs, struct.Typed s

section Grows

variable {s s' : Store} (h : s.Grows s')
include h

/-- A struct keeps its type, so what refers to structs that there are keeps its type. -/
theorem Value.Valid.typeTag_grows {v : Value} (hv : v.Valid s) : v.typeTag s' = v.typeTag s := by
  induction v with
  | quoted inner ih => exact ih hv
  | struct a => exact h.tag hv
  | _ => rfl

theorem Value.Valid.hasType_grows {v : Value} (hv : v.Valid s) (tag : TypeTag) :
    v.hasType s' tag = v.hasType s tag := by
  unfold Value.hasType
  rw [hv.typeTag_grows h]

theorem Field.AllTyped.grows {fields : List (String × Field)} (hvalid : Field.AllValid s fields)
    (hfields : Field.AllTyped s fields) : Field.AllTyped s' fields := by
  intro entry hentry
  rw [(hvalid entry hentry).hasType_grows h]
  exact hfields entry hentry

end Grows

namespace Struct

variable {s : Store} {name : String} {specs : List FieldSpec}

/-! ## Declarations -/

theorem declare_typed {fields t : Table Field} (hfields : Field.AllTyped s fields.entries)
    (h : declare s name fields specs = .ok t) : Field.AllTyped s t.entries := by
  refine declare_induction (P := fun t => Field.AllTyped s t.entries) h hfields ?_
  intro spec _ hfits t ht entry hentry
  rcases Table.mem_insertEntry hentry with rfl | hentry
  · rcases Bool.or_eq_true_iff.1 hfits with hnil | htype
    · left
      cases hvalue : spec.default with
      | nil => rfl
      | _ => simp [hvalue, Value.isNil] at hnil
    · exact .inr htype
  · exact ht entry hentry

theorem define_typed {struct : Struct} (h : define s name specs = .ok struct) : struct.Typed s := by
  obtain ⟨fields, hdeclared, rfl⟩ := define_ok h
  exact declare_typed (fun entry hentry => by cases hentry) hdeclared

/-! ## Copies -/

/-- While structs of `source` are copied: the copies in `made` stand behind the originals, and all of
them are well formed and well typed. -/
structure Copying (s : Store) (source made : Array Struct) : Prop where
  behind : ∃ copies, made = source ++ copies
  valid : ∀ struct ∈ made, struct.Valid { s with structs := made }
  typed : ∀ struct ∈ made, struct.Typed { s with structs := made }

namespace Copying

variable {source made : Array Struct} (h : Copying s source made)
include h

/-- The originals are still there. -/
theorem mem {struct : Struct} (hmem : struct ∈ source) : struct ∈ made := by
  obtain ⟨copies, rfl⟩ := h.behind
  exact Array.mem_append_left _ hmem

/-- The originals are still where they were. -/
theorem struct_eq {a : Address} {struct : Struct} (ha : source[a]? = some struct) :
    Store.struct { s with structs := made } a = struct := by
  obtain ⟨copies, rfl⟩ := h.behind
  have hold : (source ++ copies)[a]? = some struct := by
    rw [Array.getElem?_append_left (Array.getElem?_eq_some_iff.1 ha).1, ha]
  simp [Store.struct, Array.getD_eq_getD_getElem?, hold]

/-- One more copy. -/
theorem push {copy : Struct} (hvalid : copy.Valid { s with structs := made })
    (htyped : copy.Typed { s with structs := made }) : Copying s source (made.push copy) := by
  have hpush : Store.Grows { s with structs := made } { s with structs := made.push copy } :=
    Store.Grows.newStruct copy { s with structs := made }
  obtain ⟨copies, hcopies⟩ := h.behind
  refine ⟨⟨copies.push copy, by rw [hcopies, Array.append_push]⟩, fun struct hmem => ?_,
    fun struct hmem => ?_⟩
  · rcases Array.mem_push.1 hmem with hmem | rfl
    · exact (h.valid struct hmem).grows hpush
    · exact hvalid.grows hpush
  · rcases Array.mem_push.1 hmem with hmem | rfl
    · exact (h.typed struct hmem).grows hpush (h.valid struct hmem).fields
    · exact htyped.grows hpush hvalid.fields

end Copying

/-- **Copies are well typed where the structs that are copied are.** -/
theorem CopyRun.typed {s : Store} {source made made' : Array Struct} {path : List Address}
    {entries copied : List (String × Field)} (hrun : CopyRun source path made entries copied made')
    (h : Copying s source made) (hentries : Field.AllValid { s with structs := made } entries)
    (hfields : Field.AllTyped { s with structs := made } entries) :
    Copying s source made' ∧ Field.AllTyped { s with structs := made' } copied := by
  induction hrun with
  | nil => exact ⟨h, hfields⟩
  | @keep path made made' name field rest copied _ hrest ih =>
    obtain ⟨hvalid, hentries⟩ := List.forall_mem_cons.1 hentries
    obtain ⟨htyped, hfields⟩ := List.forall_mem_cons.1 hfields
    obtain ⟨hcopying, hcopies⟩ := ih h hentries hfields
    refine ⟨hcopying, List.forall_mem_cons.2 ⟨?_, hcopies⟩⟩
    have hvalue : field.value.Valid { s with structs := made } := hvalid
    rwa [hvalue.hasType_grows (hrest.grows s)]
  | @copy path made inside made' name field rest fields copied a inner hvalue _ ha hcopied hrest
      ihFields ihRest =>
    obtain ⟨-, hentries⟩ := List.forall_mem_cons.1 hentries
    obtain ⟨htyped, hfields⟩ := List.forall_mem_cons.1 hfields
    rw [hvalue] at htyped
    have hmem := h.mem (Array.mem_of_getElem? ha)
    have hinner := h.valid inner hmem
    obtain ⟨-, hcopies⟩ :=
      hcopied.valid (fun struct hmem => h.valid struct (h.mem hmem)) h.valid hinner.fields
    obtain ⟨hcopying, hcopiesTyped⟩ := ihFields h hinner.fields (h.typed inner hmem)
    let copy : Struct := { inner with fields := ⟨fields⟩ }
    have hpushed : Copying s source (inside.push copy) :=
      hcopying.push ⟨hcopies, hinner.tag⟩ hcopiesTyped
    have hgrows := (hcopied.grows s).trans (Store.Grows.newStruct copy { s with structs := inside })
    obtain ⟨hcopying', hcopies'⟩ := ihRest hpushed (fun entry h => (hentries entry h).grows hgrows)
      (Field.AllTyped.grows hgrows hentries hfields)
    refine ⟨hcopying', List.forall_mem_cons.2 ⟨?_, hcopies'⟩⟩
    -- The copy has the tag of the original, so it has the type of the field.
    have hnew : (Value.struct inside.size).Valid { s with structs := inside.push copy } := by
      show inside.size < (inside.push copy).size
      simp
    have htag : (Value.struct inside.size).typeTag { s with structs := inside.push copy } =
        (Value.struct a).typeTag { s with structs := made } := by
      refine Eq.trans ?_ (congrArg Struct.tag (h.struct_eq ha)).symm
      simp [Value.typeTag, Store.struct, Array.getD_eq_getD_getElem?, copy]
    refine .inr ?_
    show (Value.struct inside.size).hasType { s with structs := made' } field.tag = true
    rw [hnew.hasType_grows (hrest.grows s), Value.hasType, htag]
    exact htyped.resolve_left fun hnil => by cases hnil

end Struct

/-! ## Being well typed is kept -/

/-- Every struct is well typed. -/
def Invariant.typed : Invariant where
  environment := fun _ => True
  struct := Struct.Typed

namespace Store.Typed

variable {s s' : Store}

theorem grows (hs : s.Valid) (h : s.Grows s') {struct : Struct} (hmem : struct ∈ s.structs)
    (htyped : struct.Typed s) : struct.Typed s' :=
  Field.AllTyped.grows h (hs.structs struct hmem).fields htyped

theorem copyFields (hs : s.Valid) (htyped : s.Typed) {struct : Struct} (hvalid : struct.Valid s)
    (h : struct.Typed s) : (s.copyFields struct).2.Typed ∧
      Field.AllTyped (s.copyFields struct).2 (s.copyFields struct).1.entries := by
  have hcopying : Struct.Copying s s.structs s.structs := ⟨⟨#[], by simp⟩, hs.structs, htyped⟩
  obtain ⟨hcopied, hfields⟩ := (Struct.copyRun_copyFields s.structs [] s.structs
    struct.fields.entries).typed hcopying hvalid.fields h
  exact ⟨hcopied.typed, hfields⟩

theorem copyStruct (hs : s.Valid) (htyped : s.Typed) {struct : Struct} (hvalid : struct.Valid s)
    (h : struct.Typed s) : (s.copyStruct struct).2.Typed := by
  obtain ⟨hstructs, hfields⟩ := htyped.copyFields hs hvalid h
  obtain ⟨hcopied, hcopies⟩ := hs.copyFields hvalid
  intro found hfound
  have hgrows := Store.Grows.newStruct { struct with fields := (s.copyFields struct).1 }
    (s.copyFields struct).2
  rcases Array.mem_push.1 hfound with hfound | rfl
  · exact grows hcopied hgrows hfound (hstructs found hfound)
  · exact Field.AllTyped.grows hgrows hcopies hfields

theorem derive (hs : s.Valid) (htyped : s.Typed) {name : String} {parent struct : Struct}
    {specs : List FieldSpec} (hvalid : parent.Valid s) (hparent : parent.Typed s)
    (h : Struct.derive s name parent specs = .ok (struct, s')) : s'.Typed ∧ struct.Typed s' := by
  obtain ⟨hstructs, hfields⟩ := htyped.copyFields hs hvalid hparent
  obtain ⟨rfl, fields, hdeclared, rfl⟩ := Struct.derive_ok h
  exact ⟨hstructs, Struct.declare_typed hfields hdeclared⟩

/-- What is written into a field has the type of the field. -/
theorem setField (hs : s.Valid) (htyped : s.Typed) {a : Address} {name : String} {value v : Value}
    (hvalue : value.Valid s) (h : s.setField a name value = .ok (v, s')) : s'.Typed := by
  have hgrows := Store.Grows.setField h
  obtain ⟨rfl, rfl, field, hfield, htype⟩ := Store.setField_ok h
  intro found hfound
  obtain ⟨b, hb, rfl⟩ := Array.mem_iff_getElem.1 hfound
  have hsize : b < s.structs.size := by simpa [Store.setFieldValue] using hb
  have hold : s.structs[b].Typed s := htyped _ (Array.getElem_mem hsize)
  -- All other fields keep their values, and values keep their types as the store grows.
  have hkept := grows hs hgrows (Array.getElem_mem hsize) hold
  simp only [Store.setFieldValue, Array.getElem_modify] at hkept ⊢
  split
  · next hab =>
    subst hab
    have hstruct : s.struct a = s.structs[a] := by
      simp [Store.struct, Array.getD_eq_getD_getElem?, hsize]
    rw [hstruct] at hfield
    rw [hfield]
    intro entry hentry
    rcases Table.mem_insertEntry hentry with rfl | hentry
    · exact .inr ((hvalue.hasType_grows hgrows field.tag).trans htype)
    · exact hkept entry hentry
  · exact hkept

end Store.Typed

instance Invariant.typed_lawful : Invariant.typed.Lawful where
  empty := trivial
  put := fun _ _ _ => trivial
  remove := fun _ _ => trivial
  putType := fun _ _ => trivial
  putStruct := fun _ _ _ => trivial
  grows := fun h hvalid hstruct => Field.AllTyped.grows h hvalid.fields hstruct
  define := Struct.define_typed
  derive := fun hs hobjects hvalid hparent _ h => by
    obtain ⟨htyped, hstruct⟩ := Store.Typed.derive hs hobjects.structs hvalid hparent h
    exact ⟨⟨htyped, fun _ _ => trivial⟩, hstruct⟩
  copy := fun hs hobjects hvalid hstruct =>
    ⟨Store.Typed.copyStruct hs hobjects.structs hvalid hstruct, fun _ _ => trivial⟩
  setField := fun hs hobjects hvalue h =>
    ⟨Store.Typed.setField hs hobjects.structs hvalue h, fun _ _ => trivial⟩

theorem Machine.Valid.upholds_typed {m : Machine} (hm : m.Valid) (htyped : m.store.Typed) :
    m.Upholds .typed :=
  { hm with
    objects := ⟨htyped, fun _ _ => trivial⟩
    outermost := trivial
    scopes := fun _ _ => trivial }

/-! ## What a host does -/

/-- What a host does between evaluations: a request, or work on structs that it holds itself. -/
inductive Session.Act where
  | request (request : Request)
  | define (name : String) (specs : List FieldSpec)
  | derive (name : String) (parent : Address) (specs : List FieldSpec)
  | copy (a : Address)
  | setField (a : Address) (field : String) (value : Value)

namespace Session.Act

/-- A struct that is not registered. -/
def makeStruct (name : String) (specs : List FieldSpec) : Eval Address := do
  let struct ← Eval.ask fun s => Struct.define s name specs
  Eval.make (Store.newStruct struct)

/-- A struct below another one that is not registered. -/
def makeDerived (name : String) (parent : Address) (specs : List FieldSpec) : Eval Address := do
  let struct ← Eval.onStore fun s => Struct.derive s name (s.struct parent) specs
  Eval.make (Store.newStruct struct)

/-- A copy of a struct. -/
def makeCopy (a : Address) : Eval Address := Eval.make fun s => s.copyStruct (s.struct a)

/-- Writes a field of a struct. -/
def writeField (a : Address) (field : String) (value : Value) : Eval Value :=
  Eval.onStore fun s => s.setField a field value

/-- The machine after an act, whether it fails or not. -/
def serve (m : Machine) : Act → Machine
  | request r => r.serve m
  | define name specs => (makeStruct name specs m).2
  | derive name parent specs => (makeDerived name parent specs m).2
  | copy a => (makeCopy a m).2
  | setField a field value => (writeField a field value m).2

/-- An act names no object that does not exist. -/
def Valid (s : Store) : Act → Prop
  | request r => r.Valid s
  | define _ specs => FieldSpec.AllValid s specs
  | derive _ parent specs => parent < s.structs.size ∧ FieldSpec.AllValid s specs
  | copy a => a < s.structs.size
  | setField _ _ value => value.Valid s

section Keeping

variable {inv : Invariant} [inv.Lawful] {s : Store}

theorem keeps_makeStruct (name : String) {specs : List FieldSpec} (hspecs : FieldSpec.AllValid s specs) :
    Keeps inv s (fun s a => a < s.structs.size) (makeStruct name specs) :=
  Keeps.bind (Keeps.declared name hspecs) fun _ _ _ hstruct => Keeps.newStruct hstruct.1 hstruct.2

theorem keeps_makeDerived (name : String) {parent : Address} (hparent : parent < s.structs.size)
    {specs : List FieldSpec} (hspecs : FieldSpec.AllValid s specs) :
    Keeps inv s (fun s a => a < s.structs.size) (makeDerived name parent specs) :=
  Keeps.bind (Keeps.derived name hparent hspecs) fun _ _ _ hstruct =>
    Keeps.newStruct hstruct.1 hstruct.2

theorem keeps_makeCopy {a : Address} (ha : a < s.structs.size) :
    Keeps inv s Keeps.Any (makeCopy a) :=
  Keeps.make (fun s' => Store.Grows.copyStruct s' _)
    (fun s' hs' hvalid =>
      ⟨(hvalid.copyStruct (hvalid.struct (Nat.lt_of_lt_of_le ha hs'.structs))).1, trivial⟩)
    fun s' hs' hvalid hobjects => by
      have ha' := Nat.lt_of_lt_of_le ha hs'.structs
      exact Invariant.Lawful.copy hvalid hobjects (hvalid.struct ha') (hobjects.struct ha')

theorem keeps_writeField (a : Address) (field : String) {value : Value} (hvalue : value.Valid s) :
    Keeps inv s Value.Valid (writeField a field value) :=
  Keeps.onStore (fun _ _ _ h => Store.Grows.setField h) fun s' _ t hs' hvalid hobjects h => by
    obtain ⟨hvalid', hanswer⟩ := hvalid.setField (hvalue.grows hs') h
    exact ⟨hvalid', Invariant.Lawful.setField hvalid hobjects (hvalue.grows hs') h, hanswer⟩

end Keeping

end Session.Act

namespace Session

/-- The machine after several acts. -/
def after (m : Machine) (acts : List Act) : Machine := acts.foldl Act.serve m

/-- Each act is valid when it is done. -/
def ActsValid : Machine → List Act → Prop
  | _, [] => True
  | m, act :: acts => act.Valid m.store ∧ ActsValid (act.serve m) acts

theorem ActsValid.append {m : Machine} {acts later : List Act} (h : ActsValid m (acts ++ later)) :
    ActsValid m acts ∧ ActsValid (after m acts) later := by
  induction acts generalizing m with
  | nil => exact ⟨trivial, h⟩
  | cons act acts ih => exact ⟨⟨h.1, (ih h.2).1⟩, (ih h.2).2⟩

section Invariants

variable {inv : Invariant} [inv.Lawful] {m : Machine}

/-- **Each act keeps every lawful invariant**, and removes no object. -/
theorem serve_upholds (hm : m.Upholds inv) {act : Act} (h : act.Valid m.store) :
    m.store.Grows (act.serve m).store ∧ (act.serve m).Upholds inv := by
  have hserved : ∀ {α : Type} {P : Store → α → Prop} {x : Eval α}, Keeps inv m.store P x →
      m.store.Grows (x m).2.store ∧ (x m).2.Upholds inv := by
    intro α P x hx
    obtain ⟨hgrown, hupholds, -⟩ := hx m (.refl _) hm
    exact ⟨hgrown, hupholds⟩
  cases act with
  | request r => exact hm.serve h
  | define name specs => exact hserved (Act.keeps_makeStruct name h)
  | derive name parent specs => exact hserved (Act.keeps_makeDerived name h.1 h.2)
  | copy a => exact hserved (Act.keeps_makeCopy h)
  | setField a field value => exact hserved (Act.keeps_writeField a field h)

theorem after_upholds (hm : m.Upholds inv) {acts : List Act} (h : ActsValid m acts) :
    m.store.Grows (after m acts).store ∧ (after m acts).Upholds inv := by
  induction acts generalizing m with
  | nil => exact ⟨.refl _, hm⟩
  | cons act acts ih =>
    obtain ⟨hgrows, hupholds⟩ := serve_upholds hm h.1
    obtain ⟨hgrows', hupholds'⟩ := ih hupholds h.2
    exact ⟨hgrows.trans hgrows', hupholds'⟩

end Invariants

end Session

/-! ## Writes that fail -/

/-- If the computation fails, the machine is as before. -/
def Clean {α : Type} (x : Eval α) : Prop := ∀ m, (∃ e, (x m).1 = .error e) → (x m).2 = m

namespace Clean

variable {α β : Type}

theorem throw (e : Error) : Clean (throw e : Eval α) := fun _ _ => rfl

theorem pure (a : α) : Clean (Pure.pure a : Eval α) := fun _ _ => rfl

theorem ask (f : Store → Except Error α) : Clean (Eval.ask f) := fun _ _ => rfl

theorem onStore (f : Store → Except Error (α × Store)) : Clean (Eval.onStore f) := by
  rintro m ⟨e, he⟩
  unfold Eval.onStore at he ⊢
  split
  · next h => simp [h] at he
  · rfl

/-- What was asked first has changed nothing. -/
theorem bind {x : Eval α} {f : α → Eval β} (hx : ∀ m, (x m).2 = m) (hf : ∀ a, Clean (f a)) :
    Clean (x >>= f) := by
  intro m h
  rw [Eval.bind_apply] at h ⊢
  have hm := hx m
  rcases hxm : x m with ⟨e | a, m₁⟩
  · rw [hxm] at hm
    exact hm
  · rw [hxm] at h hm
    subst hm
    exact hf a m₁ h

theorem fieldName (operand : Value) (m : Machine) : (Application.fieldName operand m).2 = m := by
  unfold Application.fieldName
  split <;> rfl

/-- A struct that is called reads a field or writes one. -/
theorem callStruct (a : Address) (args : List Value) : Clean (Application.callStruct a args) := by
  unfold Application.callStruct
  split
  · exact bind (fieldName _) fun _ => ask _
  · exact bind (fieldName _) fun _ => onStore _
  · exact bind (fun _ => rfl) fun _ => throw _

theorem applyStruct (a : Address) (args : List Value) : Clean (Session.apply (.struct a) args) := by
  refine bind (fun _ => rfl) fun m => ?_
  rw [Application.apply]
  refine bind (fun _ => rfl) fun s => ?_
  simp only [Value.callable?]
  split
  · exact pure _
  · have hfew : args.length < (Callable.struct a).arity → args.isEmpty = true := fun h =>
      List.isEmpty_iff.2 (List.length_eq_zero_iff.1 (Nat.lt_one_iff.1 h))
    split
    · next hempty h => simp [hfew h, Callable.arity] at hempty
    · split
      · exact bind (fun _ => rfl) fun _ => throw _
      · exact bind (fun _ => rfl) fun _ => callStruct a args

end Clean

/-! ## Sessions -/

namespace Session

/-- **In every state of a session all structs are well typed.** A struct that was made keeps its name,
its type and the names and types of its fields, in order. Where a field is written in vain, by the host
or by a call of the struct, nothing changes. -/
theorem structs_typed {m : Machine} (hm : m.Valid) (htyped : m.store.Typed) {acts : List Act}
    (h : ActsValid m acts) :
    (after m acts).store.Typed ∧
    (∀ before later, acts = before ++ later → ∀ a < (after m before).store.structs.size,
      a < (after m acts).store.structs.size ∧
      ((after m acts).store.struct a).shape = ((after m before).store.struct a).shape) ∧
    (∀ a field value, Clean (Act.writeField a field value)) ∧
    ∀ a args, Clean (apply (.struct a) args) := by
  have hupholds := hm.upholds_typed htyped
  refine ⟨(after_upholds hupholds h).2.objects.structs, ?_, fun _ _ _ => Clean.onStore _,
    Clean.applyStruct⟩
  rintro before later rfl a ha
  obtain ⟨hbefore, hlater⟩ := h.append
  have hgrows := (after_upholds (after_upholds hupholds hbefore).2 hlater).1
  rw [after, List.foldl_append]
  exact ⟨Nat.lt_of_lt_of_le ha hgrows.structs, hgrows.shapes a ha⟩

/-- The coordinate of a point refuses what is no number, and takes a number. -/
theorem structs_typed_point :
    let m := Machine.start .initial {} {}
    let acts : List Act :=
      [.define "point" [{ name := "x", tag := BaseType.number.tag, default := .integer 0 }],
        .setField 0 "x" .truth, .setField 0 "x" (.integer 3)]
    (after m acts).store.Typed ∧
      ((after m (acts.take 2)).store.struct 0).read "x" = .ok (.integer 0) ∧
      ((after m acts).store.struct 0).read "x" = .ok (.integer 3) ∧
      ((after m acts).store.struct 0).shape = ((after m (acts.take 1)).store.struct 0).shape := by
  intro m acts
  have hspecs : FieldSpec.AllValid m.store
      [{ name := "x", tag := BaseType.number.tag, default := .integer 0 }] := by
    simp [FieldSpec.AllValid, Value.Valid]
  have hacts : ActsValid m acts := ⟨hspecs, trivial, trivial, trivial⟩
  have hnone : m.store.Typed := fun _ h => by simp [m, Machine.start] at h
  obtain ⟨htyped, hshapes, -⟩ := structs_typed (.start .empty) hnone hacts
  refine ⟨htyped, ?_, rfl, ?_⟩
  · rfl
  · exact (hshapes (acts.take 1) (acts.drop 1) rfl 0 (by decide)).2

end Session

end CurryLisp
