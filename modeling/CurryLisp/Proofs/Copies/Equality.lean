import CurryLisp.Proofs.Copies
import CurryLisp.Proofs.Bisimilarity.Equality
import CurryLisp.Proofs.StructTypes

/-!
# A copy is equal to the original

The copy of a struct that leads back to itself is a piece of the way around it, unrolled, with the
original behind. So a copy and its original differ as graphs, and what relates them is a relation
between structs and copies of them below some path (`Store.Twin`): it holds of what stands in equally
named fields. A comparison that is given such values succeeds.

Statements:

* `Struct.Copier.later_wellFounded`: the copier has no endless run.
* `Session.fields_distinct`: each field of a struct has a name of its own, in every state of a session.
* `Store.copyStruct_equal`: **copying ends, leaves every object as it was, and gives an equal struct**,
  unless a number that differs from itself is reached.
-/

namespace CurryLisp

/-! ## Copying ends -/

namespace Struct

/-- What the copier is about: the fields still to be copied, and the structs that lead to them. -/
abbrev Copier := List Address × List (String × Field)

/-- What the copier is about next: the other fields, or those of a struct in the first field. -/
inductive Copier.Later (source : Array Struct) : Copier → Copier → Prop
  | rest (path : List Address) (entry : String × Field) (rest : List (String × Field)) :
    Later source (path, rest) (path, entry :: rest)
  | inside {path : List Address} {entry : String × Field} {a : Address} {inner : Struct}
    (rest : List (String × Field)) (hvalue : entry.2.value = .struct a) (hpath : a ∉ path)
    (ha : source[a]? = some inner) :
    Later source (a :: path, inner.fields.entries) (path, entry :: rest)

/-- **The copier has no endless run**: down from a struct it never meets, the structs on the path are
different from each other. -/
theorem Copier.later_wellFounded (source : Array Struct) : WellFounded (Later source) := by
  refine Subrelation.wf ?_ (InvImage.wf
    (fun c : Copier => (unseen (List.range source.size) c.1, c.2.length))
    (Prod.lex Nat.lt_wfRel Nat.lt_wfRel).wf)
  rintro - - (⟨path, entry, rest⟩ | ⟨rest, hvalue, hpath, ha⟩)
  · exact .right _ (Nat.lt_succ_self _)
  · have hmem := List.mem_range.2 (Array.getElem?_eq_some_iff.1 ha).1
    exact .left _ _ (unseen_cons_lt hmem hpath)

/-! ## Names of fields -/

/-- Each field of the struct has a name of its own. -/
def Distinct (struct : Struct) : Prop := struct.fields.keys.Nodup

theorem distinct_iff_shape {struct : Struct} :
    struct.Distinct ↔ (struct.shape.2.2.map (·.1)).Nodup := by
  simp [Distinct, shape, Table.keys, Function.comp_def]

/-- Copied fields have the names of the fields, and copies of structs those of the originals. -/
theorem CopyRun.keys {source made made' : Array Struct} {path : List Address}
    {entries copied : List (String × Field)} (h : CopyRun source path made entries copied made') :
    copied.map (·.1) = entries.map (·.1) ∧ ∀ struct ∈ made',
      struct ∈ made ∨ ∃ original ∈ source, struct.fields.keys = original.fields.keys := by
  induction h with
  | nil => exact ⟨rfl, fun struct h => .inl h⟩
  | keep _ _ ih => exact ⟨congrArg (_ :: ·) ih.1, ih.2⟩
  | @copy path made inside made' name field rest fields copied a inner _ _ ha _ _ ihFields ihRest =>
    refine ⟨congrArg (name :: ·) ihRest.1, fun struct h => ?_⟩
    refine (ihRest.2 struct h).elim (fun h => ?_) .inr
    rcases Array.mem_push.1 h with h | rfl
    · exact ihFields.2 struct h
    · exact .inr ⟨inner, Array.mem_of_getElem? ha, ihFields.1⟩

theorem keys_copyFields (s : Store) (struct : Struct) :
    (s.copyFields struct).1.keys = struct.fields.keys :=
  (copyRun_copyFields s.structs [] s.structs struct.fields.entries).keys.1

end Struct

theorem Table.nodup_insertEntry {α : Type} {name : String} {value : α}
    {entries : List (String × α)} (h : (entries.map (·.1)).Nodup) :
    ((insertEntry name value entries).map (·.1)).Nodup := by
  induction entries with
  | nil => simp [insertEntry]
  | cons entry rest ih =>
    obtain ⟨hnew, hrest⟩ := List.nodup_cons.1 h
    rw [insertEntry]
    split
    · next heq =>
      subst heq
      exact h
    · next hne =>
      refine List.nodup_cons.2 ⟨fun hmem => ?_, ih hrest⟩
      obtain ⟨found, hfound, heq⟩ := List.mem_map.1 hmem
      rcases mem_insertEntry hfound with rfl | hfound
      · exact hne heq.symm
      · exact hnew (List.mem_map.2 ⟨found, hfound, heq⟩)

/-- Each field of a struct has a name of its own. -/
def Store.Distinct (s : Store) : Prop := ∀ struct ∈ s.structs, struct.Distinct

namespace Struct

variable {s s' : Store} {name : String} {specs : List FieldSpec}

theorem declare_distinct {fields t : Table Field} (hfields : fields.keys.Nodup)
    (h : declare s name fields specs = .ok t) : t.keys.Nodup := by
  exact declare_induction (P := fun t => t.keys.Nodup) h hfields fun spec _ _ t ht =>
    Table.nodup_insertEntry ht

theorem define_distinct {struct : Struct} (h : define s name specs = .ok struct) :
    struct.Distinct := by
  obtain ⟨fields, hdeclared, rfl⟩ := define_ok h
  have hnone : ({} : Table Field).keys.Nodup := List.nodup_nil
  exact declare_distinct hnone hdeclared

end Struct

namespace Store.Distinct

variable {s s' : Store} (hs : s.Distinct)
include hs

theorem copyFields (struct : Struct) : (s.copyFields struct).2.Distinct := by
  intro found hfound
  obtain ⟨-, hmade⟩ :=
    (Struct.copyRun_copyFields s.structs [] s.structs struct.fields.entries).keys
  rcases hmade found hfound with hfound | ⟨original, horiginal, hkeys⟩
  · exact hs found hfound
  · unfold Struct.Distinct
    rw [hkeys]
    exact hs original horiginal

theorem copyStruct {struct : Struct} (hstruct : struct.Distinct) :
    (s.copyStruct struct).2.Distinct := by
  intro found hfound
  rcases Array.mem_push.1 hfound with hfound | rfl
  · exact hs.copyFields struct found hfound
  · show (s.copyFields struct).1.keys.Nodup
    rwa [Struct.keys_copyFields]

theorem derive {name : String} {parent struct : Struct} {specs : List FieldSpec}
    (hparent : parent.Distinct) (h : Struct.derive s name parent specs = .ok (struct, s')) :
    s'.Distinct ∧ struct.Distinct := by
  obtain ⟨rfl, fields, hdeclared, rfl⟩ := Struct.derive_ok h
  refine ⟨hs.copyFields parent, Struct.declare_distinct ?_ hdeclared⟩
  rwa [Struct.keys_copyFields]

theorem setField {a : Address} {name : String} {value v : Value}
    (h : s.setField a name value = .ok (v, s')) : s'.Distinct := by
  have hgrows := Store.Grows.setField h
  have hsize : s'.structs.size = s.structs.size := by
    obtain ⟨-, rfl, -⟩ := Store.setField_ok h
    simp [Store.setFieldValue]
  intro found hfound
  obtain ⟨b, hb, rfl⟩ := Array.mem_iff_getElem.1 hfound
  have hb' : b < s.structs.size := hsize ▸ hb
  have hshape := hgrows.shapes b hb'
  simp only [Store.struct, Array.getD_eq_getD_getElem?, hb, hb', Array.getElem?_eq_getElem,
    Option.getD_some] at hshape
  rw [Struct.distinct_iff_shape, hshape, ← Struct.distinct_iff_shape]
  exact hs _ (Array.getElem_mem hb')

end Store.Distinct

/-- Each field of a struct has a name of its own. -/
def Invariant.distinct : Invariant where
  environment := fun _ => True
  struct := fun _ => Struct.Distinct

instance Invariant.distinct_lawful : Invariant.distinct.Lawful where
  empty := trivial
  put := fun _ _ _ => trivial
  remove := fun _ _ => trivial
  putType := fun _ _ => trivial
  putStruct := fun _ _ _ => trivial
  grows := fun _ _ hstruct => hstruct
  define := Struct.define_distinct
  derive := fun _ hobjects _ hparent _ h => by
    obtain ⟨hdistinct, hstruct⟩ := Store.Distinct.derive hobjects.structs hparent h
    exact ⟨⟨hdistinct, fun _ _ => trivial⟩, hstruct⟩
  copy := fun _ hobjects _ hstruct =>
    ⟨Store.Distinct.copyStruct hobjects.structs hstruct, fun _ _ => trivial⟩
  setField := fun _ hobjects _ h =>
    ⟨Store.Distinct.setField hobjects.structs h, fun _ _ => trivial⟩

/-- In every state of a session each field of a struct has a name of its own. -/
theorem Session.fields_distinct {m : Machine} (hm : m.Valid) (hdistinct : m.store.Distinct)
    {acts : List Act} (h : ActsValid m acts) : (after m acts).store.Distinct := by
  have hupholds : m.Upholds .distinct :=
    { hm with
      objects := ⟨hdistinct, fun _ _ => trivial⟩
      outermost := trivial
      scopes := fun _ _ => trivial }
  exact (after_upholds hupholds h).2.objects.structs

/-! ## Equality -/

namespace Value

/-- A number in these quotes, if there is one, is equal to itself. -/
def SelfEqual : Value → Prop
  | float x => x.isNaN = false
  | quoted inner => inner.SelfEqual
  | _ => True

theorem selfEqual_of_reaches {s : Store} {v : Value}
    (h : ∀ x, v.Reaches s (.float x) → x.isNaN = false) : v.SelfEqual := by
  induction v with
  | float x => exact h x .refl
  | quoted inner ih => exact ih fun x hx => h x (hx.head (.quoted inner))
  | _ => exact trivial

/-- A value is found equal to itself without a look into objects. -/
theorem SelfEqual.exists_compares {v : Value} (hv : v.SelfEqual) (s : Store)
    (opened : List Opened) :
    ∃ parts, Compares s opened v v opened parts ∧ ∀ p ∈ parts, p.1 = p.2 ∧ p.1.SelfEqual := by
  cases v with
  | nil => exact ⟨[], .nil, by simp⟩
  | truth => exact ⟨[], .truth, by simp⟩
  | integer n => exact ⟨[], .integer n, by simp⟩
  | float x =>
    have hnumber : x.isNaN = false := hv
    rw [Float.isNaN_eq_decide_eq_nan, decide_eq_false_iff_not] at hnumber
    exact ⟨[], .float (Float.beq_self_iff.2 hnumber), by simp⟩
  | char c => exact ⟨[], .char c, by simp⟩
  | symbol name => exact ⟨[], .symbol name, by simp⟩
  | type tag => exact ⟨[], .type rfl, by simp⟩
  | native f => exact ⟨[], .native rfl, by simp⟩
  | string a => exact ⟨[], .string rfl, by simp⟩
  | quoted inner =>
    have hinner : inner.SelfEqual := hv
    exact ⟨[(inner, inner)], .quoted inner inner, by simpa using hinner⟩
  | pair p a d => exact ⟨[], .samePair p a d a d, by simp⟩
  | vector a => exact ⟨[], .known (.vectors a a) (.inl rfl), by simp⟩
  | struct a => exact ⟨[], .known (.structs a a) (.inl rfl), by simp⟩
  | closure a => exact ⟨[], .known (.closures a a) (.inl rfl), by simp⟩

/-- The same value, or structs that `B` relates. -/
inductive UpTo (B : Address → Address → Prop) : Value → Value → Prop
  | same {v : Value} (h : v.SelfEqual) : UpTo B v v
  | struct {a b : Address} (h : B a b) : UpTo B (.struct a) (.struct b)

theorem UpTo.symm {B : Address → Address → Prop} {u v : Value} (h : UpTo B u v) :
    UpTo (flip B) v u := by
  cases h with
  | same h => exact .same h
  | struct h => exact .struct h

/-- The comparison succeeds if values to be compared are the same up to structs that match up to such
structs. -/
theorem equalFrom_of_upTo {s : Store} {B : Address → Address → Prop} (hdistinct : s.Distinct)
    (hB : ∀ a b, B a b → a < s.structs.size ∧ b < s.structs.size ∧
      (s.struct a).Matches (UpTo B) (s.struct b))
    {opened : List Opened} {work : List (Value × Value)} (hwork : ∀ p ∈ work, UpTo B p.1 p.2) :
    equalFrom s opened work = true := by
  refine equalFrom_of_compares (fun opened x y hxy => ?_) hwork
  cases hxy with
  | same hx =>
    obtain ⟨parts, hstep, hparts⟩ := hx.exists_compares s opened
    refine ⟨opened, parts, hstep, fun p hp => ?_⟩
    obtain ⟨hsame, hself⟩ := hparts p hp
    exact hsame ▸ .same hself
  | @struct a b hab =>
    by_cases hknown : (Opened.structs a b).left = (Opened.structs a b).right ∨
        Opened.structs a b ∈ opened
    · exact ⟨opened, [], .known (.structs a b) hknown, by simp⟩
    · obtain ⟨ha, hb, hmatches⟩ := hB a b hab
      have ha' : s.structs[a]? = some (s.struct a) := getElem?_eq_some_getD ha default
      have hb' : s.structs[b]? = some (s.struct b) := getElem?_eq_some_getD hb default
      obtain ⟨parts, hparts, hholds⟩ := (holding_pairFields
        (hdistinct _ (Array.mem_of_getElem? ha')) (hdistinct _ (Array.mem_of_getElem? hb'))).2
          hmatches
      refine ⟨.structs a b :: opened, parts, .opens (.structs a b) hknown ?_, hholds⟩
      rw [Opened.inside, insideStructs, ha', hb']
      exact hparts

end Value

/-! ## Copies match originals -/

/-- The fields have types of the same name and related values. -/
structure Field.Matches (B : Value → Value → Prop) (x y : Field) : Prop where
  tag : x.tag.name = y.tag.name
  value : B x.value y.value

section Matches

variable {B : Value → Value → Prop}

/-- What stands under a name in fields that match one by one. -/
theorem Field.rel_lookup {entries others : List (String × Field)}
    (h : List.Forall₂ (fun e e' => e.1 = e'.1 ∧ e.2.Matches B e'.2) entries others)
    (name : String) : Option.Rel (Field.Matches B) (entries.lookup name) (others.lookup name) := by
  induction h with
  | nil => exact .none
  | @cons e e' rest others hentry _ ih =>
    obtain ⟨key, field⟩ := e
    obtain ⟨key', field'⟩ := e'
    obtain ⟨rfl, hfield⟩ := hentry
    rw [Table.lookup_cons, Table.lookup_cons]
    split
    · exact .some hfield
    · exact ih

theorem Struct.matches_of_fields {x y : Struct} (hname : x.name = y.name)
    (h : List.Forall₂ (fun e e' => e.1 = e'.1 ∧ e.2.tag = e'.2.tag ∧ B e.2.value e'.2.value)
      x.fields.entries y.fields.entries) : x.Matches B y := by
  have h : List.Forall₂ (fun e e' => e.1 = e'.1 ∧ e.2.Matches B e'.2) x.fields.entries
      y.fields.entries :=
    h.imp fun e e' ⟨hname, htag, hvalue⟩ => ⟨hname, congrArg TypeTag.name htag, hvalue⟩
  refine ⟨hname, fun name => ?_, fun name field theirs hfield htheirs => ?_⟩
  · have hrel : Option.Rel (Field.Matches B) (x.fields.get? name) (y.fields.get? name) :=
      Field.rel_lookup h name
    unfold Table.contains
    generalize x.fields.get? name = found, y.fields.get? name = theirs at hrel
    cases hrel <;> rfl
  · have hrel : Option.Rel (Field.Matches B) (x.fields.get? name) (y.fields.get? name) :=
      Field.rel_lookup h name
    rw [hfield, htheirs] at hrel
    cases hrel with
    | some hmatches => exact ⟨hmatches.tag, hmatches.value⟩

end Matches

namespace Store

/-- The struct of `s'` at `b` is a copy, below some path, of the struct of `s` at `a`, to which the
struct at `root` leads. -/
structure Twin (s s' : Store) (root a b : Address) : Prop where
  leads : s.Leads root a
  old : a < s.structs.size
  new : b < s'.structs.size
  copy : ∃ path fields, s'.struct b = { s.struct a with fields := ⟨fields⟩ } ∧
    Copies s s' path (s.struct a).fields.entries fields

variable {s s' : Store} {root a b : Address}

/-- Copies of fields have the names and types of the fields, and hold what these hold or copies of
it. -/
theorem Copies.forall₂ {R : Value → Value → Prop} {path : List Address}
    {entries copies : List (String × Field)} (h : Copies s s' path entries copies)
    (hroot : ∀ a, Field.Holds entries a → s.Leads root a)
    (hkept : ∀ entry ∈ entries, R entry.2.value entry.2.value)
    (htwins : ∀ a b, Twin s s' root a b → R (.struct a) (.struct b)) :
    List.Forall₂ (fun e e' => e.1 = e'.1 ∧ e.2.tag = e'.2.tag ∧ R e.2.value e'.2.value)
      entries copies := by
  induction h with
  | nil path => exact .nil
  | @keep path name field rest copies _ hrest ih =>
    obtain ⟨hfield, hkept⟩ := List.forall_mem_cons.1 hkept
    exact .cons ⟨rfl, rfl, hfield⟩ (ih (fun a ha => hroot a (Field.holds_cons.2 (.inr ha))) hkept)
  | @copy path name field rest copies a b fields hvalue hnot ha hnew hb hcopy hfields hrest
      ihFields ihRest =>
    obtain ⟨-, hkept⟩ := List.forall_mem_cons.1 hkept
    have hleads : s.Leads root a := hroot a (Field.holds_cons.2 (.inl hvalue))
    have htwin : Twin s s' root a b := ⟨hleads, ha, hb, a :: path, fields, hcopy, hfields⟩
    refine .cons ⟨rfl, rfl, ?_⟩
      (ihRest (fun a ha => hroot a (Field.holds_cons.2 (.inr ha))) hkept)
    rw [hvalue]
    exact htwins a b htwin

/-- A struct matches its copies, up to copies of structs. -/
theorem Twin.matches (h : Twin s s' root a b) (hkept : s'.struct a = s.struct a)
    (hself : ∀ entry ∈ (s.struct a).fields.entries, entry.2.value.SelfEqual) :
    (s'.struct a).Matches (Value.UpTo (Twin s s' root)) (s'.struct b) := by
  obtain ⟨path, fields, hcopy, hcopies⟩ := h.copy
  rw [hkept, hcopy]
  exact Struct.matches_of_fields rfl (hcopies.forall₂ (fun c hc => h.leads.tail hc)
    (fun entry hentry => .same (hself entry hentry)) fun c d h => .struct h)

/-- A struct that a struct leads to is reached from it. -/
theorem Leads.reaches (h : s.Leads a b) : (Value.struct a).Reaches s (.struct b) := by
  induction h with
  | refl => exact .refl
  | tail _ hlink ih =>
    obtain ⟨entry, hentry, hvalue⟩ := hlink
    exact ih.tail (hvalue ▸ .field hentry)

/-- **Copying a struct ends, leaves every object as it was, and gives a struct that is equal to it**,
unless a number that differs from itself is reached. -/
theorem copyStruct_equal (hs : s.Distinct) (ha : a < s.structs.size) :
    let made := s.copyStruct (s.struct a)
    WellFounded (Struct.Copier.Later s.structs) ∧
      (∃ new, made.2 = { s with structs := s.structs ++ new }) ∧
      ((∀ x, (Value.struct a).Reaches s (.float x) → x.isNaN = false) →
        (Value.struct made.1).equal made.2 (.struct a) = true ∧
        (Value.struct a).equal made.2 (.struct made.1) = true) := by
  intro made
  have hcopied : s.Copied made.2 (s.struct a) made.1 := copied_copyStruct s (s.struct a)
  refine ⟨Struct.Copier.later_wellFounded s.structs, hcopied.behind, fun hnumbers => ?_⟩
  have hdistinct : made.2.Distinct := by
    refine hs.copyStruct (hs _ ?_)
    exact Array.mem_of_getElem? (Value.getElem?_eq_some_getD ha default)
  have hsize : ∀ {c}, c < s.structs.size → c < made.2.structs.size := fun hc =>
    Nat.lt_of_lt_of_le hc (Nat.le_trans hcopied.old (Nat.le_of_lt hcopied.new))
  have hself : ∀ c, s.Leads a c →
      ∀ entry ∈ (s.struct c).fields.entries, entry.2.value.SelfEqual := by
    intro c hc entry hentry
    refine Value.selfEqual_of_reaches (s := s) fun x hx => hnumbers x ?_
    exact (Leads.reaches hc).trans (hx.head (.field hentry))
  have hmatches : ∀ c d, Twin s made.2 a c d →
      (made.2.struct c).Matches (Value.UpTo (Twin s made.2 a)) (made.2.struct d) :=
    fun c d h => h.matches (hcopied.struct_eq h.old) (hself c h.leads)
  -- What carries the comparison are the twins: a struct, and a copy of it made below some path.
  have hroot : Twin s made.2 a a made.1 := by
    obtain ⟨fields, hcopy⟩ := hcopied.copy
    exact ⟨.refl, ha, hcopied.new, [], fields, hcopy⟩
  constructor
  · -- Seen from the copies, each twin matches what it is a copy of.
    refine Value.equalFrom_of_upTo (B := flip (Twin s made.2 a)) hdistinct ?_ ?_
    · intro d c h
      have hsym := (Value.Matches.struct (hmatches c d h)).symm fun _ _ => Value.UpTo.symm
      obtain ⟨⟩ := hsym
      exact ⟨h.new, hsize h.old, by assumption⟩
    · simpa using Value.UpTo.struct (B := flip (Twin s made.2 a)) hroot
  · refine Value.equalFrom_of_upTo hdistinct ?_ (by simpa using Value.UpTo.struct hroot)
    exact fun c d h => ⟨hsize h.old, h.new, hmatches c d h⟩

/-- The copy of a node in front of itself is equal to it, though two steps lead from the copy to the
original. -/
theorem copyStruct_equal_ring :
    let made := ring.copyStruct (ring.struct 0)
    ring.Distinct ∧ 0 < ring.structs.size ∧
      (∀ x, (Value.struct 0).Reaches ring (.float x) → x.isNaN = false) ∧
      (Value.struct made.1).equal made.2 (.struct 0) = true := by
  have hdistinct : ring.Distinct := by
    simp [ring, Store.Distinct, Struct.Distinct, single, Table.keys]
  have hreach : ∀ v, (Value.struct 0).Reaches ring v → v = .struct 0 := by
    intro v hv
    induction hv with
    | refl => rfl
    | tail _ hpart ih =>
      subst ih
      cases hpart with
      | field h =>
        obtain rfl := List.mem_singleton.1 h
        rfl
  have hnumbers : ∀ x, (Value.struct 0).Reaches ring (.float x) → x.isNaN = false :=
    fun x hx => by cases hreach _ hx
  obtain ⟨-, -, hequal⟩ := copyStruct_equal (a := 0) hdistinct (by decide)
  exact ⟨hdistinct, by decide, hnumbers, (hequal hnumbers).1⟩

end Store

end CurryLisp
