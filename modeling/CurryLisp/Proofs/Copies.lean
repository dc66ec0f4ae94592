import CurryLisp.Proofs.References
import Mathlib

/-!
# What a copy shares with the original

A copy of a struct goes down through the fields that hold structs (`Store.Link`). It makes a struct of
its own for each one it meets, but keeps a struct that it is just copying, and whatever is no struct.
`Store.Copies` says which fields come of which, apart from the order in which copies are made; each
copy is described by it (`Store.copied_copyStruct`), and what is proved of copies is proved by induction
on it.

A struct is copied below a path of the structs that lead to it. So a struct is kept only where the
fields lead back to it.

Statements:

* `Store.copyStruct_apart_iff`: a copy shares no struct with the original exactly if nothing that the
  original leads to leads back to itself.
-/

namespace CurryLisp

/-! ## Structs in fields of structs -/

/-- The struct at `a` stands in one of these fields. -/
def Field.Holds (entries : List (String × Field)) (a : Address) : Prop :=
  ∃ entry ∈ entries, entry.2.value = .struct a

theorem Field.holds_cons {name : String} {field : Field} {rest : List (String × Field)}
    {a : Address} : Holds ((name, field) :: rest) a ↔ field.value = .struct a ∨ Holds rest a := by
  simp [Holds]

/-- The struct at `b` stands in a field of the struct at `a`. -/
def Store.Link (s : Store) (a b : Address) : Prop := Field.Holds (s.struct a).fields.entries b

/-- Fields that hold structs lead from the struct at `a` to the struct at `b`. -/
abbrev Store.Leads (s : Store) : Address → Address → Prop := Relation.ReflTransGen s.Link

/-- Fields that hold structs lead from the struct at `a` back to it. -/
abbrev Store.Recurs (s : Store) (a : Address) : Prop := Relation.TransGen s.Link a a

namespace Store

variable {s s' : Store} {a b c : Address}

/-- Only a struct that there is has fields. -/
theorem Link.lt_size (h : s.Link a b) : a < s.structs.size := by
  obtain ⟨entry, hentry, -⟩ := h
  by_contra ha
  rw [struct, Array.getD_eq_getD_getElem?, Array.getElem?_eq_none (Nat.le_of_not_lt ha)] at hentry
  cases hentry

/-- The struct at a known place. -/
theorem struct_eq_of_getElem? {struct : Struct} (h : s.structs[a]? = some struct) :
    a < s.structs.size ∧ s.struct a = struct := by
  refine ⟨(Array.getElem?_eq_some_iff.1 h).1, ?_⟩
  rw [Store.struct, Array.getD_eq_getD_getElem?, h, Option.getD_some]

/-- Towards a struct that leads back to itself there is always one more step. -/
theorem Recurs.exists_link (h : s.Recurs c) (hleads : s.Leads a c) :
    ∃ b, s.Link a b ∧ s.Leads b c := by
  rcases hleads.cases_head with rfl | hstep
  · exact Relation.TransGen.head'_iff.1 h
  · exact hstep

/-- New structs leave the old ones as they are. -/
theorem struct_append (s : Store) (new : Array Struct) (ha : a < s.structs.size) :
    struct { s with structs := s.structs ++ new } a = s.struct a := by
  simp [struct, Array.getD_eq_getD_getElem?, Array.getElem?_append, ha]

/-- What structs lead to that stay as they are, in a store where they lead to no other struct. -/
theorem leads_iff_of_kept (hkept : ∀ c, s.Leads a c → s'.struct c = s.struct c) :
    s'.Leads a b ↔ s.Leads a b := by
  constructor
  · intro h
    induction h with
    | refl => exact .refl
    | tail _ hlink ih =>
      refine ih.tail ?_
      unfold Link at hlink ⊢
      rwa [hkept _ ih] at hlink
  · intro h
    induction h with
    | refl => exact .refl
    | tail hleads hlink ih =>
      refine ih.tail ?_
      unfold Link at hlink ⊢
      rwa [hkept _ hleads]

end Store

/-! ## Copies of fields -/

/-- Of the fields `entries` of a struct of `s` the copier makes `copies`, where `path` leads to the
struct. A field stays as it is, unless it holds a struct that is not on the path: the copy of that one
is a new struct of `s'`. -/
inductive Store.Copies (s s' : Store) :
    List Address → List (String × Field) → List (String × Field) → Prop
  | nil (path : List Address) : Copies s s' path [] []
  | keep {path : List Address} {name : String} {field : Field} {rest copies : List (String × Field)}
    (hkept : ∀ a, field.value = .struct a → a ∈ path ∨ s.structs.size ≤ a)
    (hrest : Copies s s' path rest copies) :
    Copies s s' path ((name, field) :: rest) ((name, field) :: copies)
  | copy {path : List Address} {name : String} {field : Field} {rest copies : List (String × Field)}
    {a b : Address} {fields : List (String × Field)} (hvalue : field.value = .struct a)
    (hpath : a ∉ path) (ha : a < s.structs.size) (hnew : s.structs.size ≤ b)
    (hb : b < s'.structs.size) (hcopy : s'.struct b = { s.struct a with fields := ⟨fields⟩ })
    (hfields : Copies s s' (a :: path) (s.struct a).fields.entries fields)
    (hrest : Copies s s' path rest copies) :
    Copies s s' path ((name, field) :: rest) ((name, { field with value := .struct b }) :: copies)

namespace Store

variable {s s' : Store} {path : List Address} {entries copies : List (String × Field)}

/-- Copies stay copies while other structs are made behind them. -/
theorem Copies.append (h : Copies s s' path entries copies) (new : Array Struct) :
    Copies s { s' with structs := s'.structs ++ new } path entries copies := by
  induction h with
  | nil path => exact .nil path
  | keep hkept _ ih => exact .keep hkept ih
  | @copy _ _ _ _ _ _ b _ hvalue hpath ha hnew hb hcopy _ _ ihFields ihRest =>
    have hb' : b < (s'.structs ++ new).size := by
      rw [Array.size_append]
      exact Nat.lt_add_right _ hb
    exact .copy hvalue hpath ha hnew hb' ((struct_append s' new hb).trans hcopy) ihFields ihRest

end Store

/-- A run of the copier makes copies. -/
theorem Struct.CopyRun.copies {s : Store} {made made' : Array Struct} {path : List Address}
    {entries copies : List (String × Field)}
    (h : CopyRun s.structs path made entries copies made') (hbehind : s.structs.size ≤ made.size) :
    s.Copies { s with structs := made' } path entries copies := by
  induction h with
  | nil path => exact .nil path
  | keep hkept _ ih => exact .keep hkept (ih hbehind)
  | @copy path made inside made' name field rest fields copied a inner hvalue hpath ha hcopied hrest
      ihFields ihRest =>
    obtain ⟨hlt, rfl⟩ := Store.struct_eq_of_getElem? ha
    obtain ⟨before, hinside⟩ := hcopied.append
    obtain ⟨new, rfl⟩ := hrest.append
    let copy : Struct := { s.struct a with fields := ⟨fields⟩ }
    have hsize : s.structs.size ≤ inside.size := by
      rw [hinside, Array.size_append]
      exact Nat.le_trans hbehind (Nat.le_add_right _ _)
    have hmade : (inside.push copy ++ new)[inside.size]? = some copy := by
      rw [Array.getElem?_append_left (by simp), Array.getElem?_push_size]
    obtain ⟨hb, hcopy⟩ :=
      Store.struct_eq_of_getElem? (s := { s with structs := inside.push copy ++ new }) hmade
    refine .copy hvalue hpath hlt hsize hb hcopy ?_ (ihRest ?_)
    · have happend := (ihFields hbehind).append (#[copy] ++ new)
      simpa only [Array.push_eq_append, Array.append_assoc] using happend
    · rw [Array.size_push]
      exact Nat.le_succ_of_le hsize

namespace Store

variable {s s' : Store} {path : List Address} {entries copies : List (String × Field)}

/-- What a copy of `struct` leads to: new structs are behind the old ones, and the one at `b` has copies
of the fields. -/
structure Copied (s s' : Store) (struct : Struct) (b : Address) : Prop where
  behind : ∃ new, s' = { s with structs := s.structs ++ new }
  old : s.structs.size ≤ b
  new : b < s'.structs.size
  copy : ∃ fields, s'.struct b = { struct with fields := ⟨fields⟩ } ∧
    Copies s s' [] struct.fields.entries fields

/-- Old structs are as they were. -/
theorem Copied.struct_eq {struct : Struct} {a b : Address} (h : Copied s s' struct b)
    (ha : a < s.structs.size) : s'.struct a = s.struct a := by
  obtain ⟨new, rfl⟩ := h.behind
  exact struct_append s new ha

theorem copied_copyStruct (s : Store) (struct : Struct) :
    s.Copied (s.copyStruct struct).2 struct (s.copyStruct struct).1 := by
  have hrun := Struct.copyRun_copyFields s.structs [] s.structs struct.fields.entries
  simp only [copyStruct, Store.copyFields, newStruct]
  generalize Struct.copyFields s.structs [] s.structs struct.fields.entries = made at hrun
  obtain ⟨new, hnew⟩ := hrun.append
  have hcopies := hrun.copies (Nat.le_refl _)
  let copy : Struct := { struct with fields := ⟨made.1⟩ }
  refine ⟨⟨new.push copy, ?_⟩, ?_, ?_, made.1, ?_, ?_⟩
  · simp only [hnew, Array.append_push, copy]
  · rw [hnew, Array.size_append]
    exact Nat.le_add_right _ _
  · rw [Array.size_push]
    exact Nat.lt_succ_self _
  · simp [Store.struct, Array.getD_eq_getD_getElem?]
  · simpa only [Array.push_eq_append] using hcopies.append #[copy]

/-! ## Sharing -/

/-- Where no struct leads back to itself, the copies of fields lead to new structs only. -/
theorem Copies.holds_new (h : Copies s s' path entries copies)
    (hpath : ∀ p ∈ path, ∀ a, Field.Holds entries a → Relation.TransGen s.Link p a)
    (hentries : ∀ a, Field.Holds entries a →
      ∀ c, s.Leads a c → c < s.structs.size ∧ ¬s.Recurs c)
    {b c : Address} (hb : Field.Holds copies b) (hc : s'.Leads b c) : s.structs.size ≤ c := by
  induction h generalizing b c with
  | nil path =>
    obtain ⟨entry, hentry, -⟩ := hb
    cases hentry
  | @keep path name field rest copies hkept hrest ih =>
    rcases Field.holds_cons.1 hb with hb | hb
    · -- A struct that is kept would lead back to itself.
      have hholds : Field.Holds ((name, field) :: rest) b := Field.holds_cons.2 (.inl hb)
      obtain ⟨hlt, hrecurs⟩ := hentries b hholds b .refl
      rcases hkept b hb with hmem | hsize
      · exact absurd (hpath b hmem b hholds) hrecurs
      · exact absurd hlt (Nat.not_lt_of_le hsize)
    · refine ih (fun p hp a ha => ?_) (fun a ha => ?_) hb hc
      · exact hpath p hp a (Field.holds_cons.2 (.inr ha))
      · exact hentries a (Field.holds_cons.2 (.inr ha))
  | @copy path name field rest copies a b' fields hvalue hnot ha hnew hb' hcopy hfields hrest
      ihFields ihRest =>
    rcases Field.holds_cons.1 hb with hb | hb
    · cases hb
      have hholds : Field.Holds ((name, field) :: rest) a := Field.holds_cons.2 (.inl hvalue)
      -- The copy is new, and it leads on through the copies of its fields.
      rcases hc.cases_head with rfl | ⟨d, hd, hc⟩
      · exact hnew
      · unfold Link at hd
        rw [hcopy] at hd
        refine ihFields (fun p hp c hc => ?_) (fun c hc => ?_) hd hc
        · rcases List.mem_cons.1 hp with rfl | hp
          · exact .single hc
          · exact (hpath p hp a hholds).tail hc
        · exact fun d hd => hentries a hholds d (hd.head hc)
    · refine ihRest (fun p hp a ha => ?_) (fun a ha => ?_) hb hc
      · exact hpath p hp a (Field.holds_cons.2 (.inr ha))
      · exact hentries a (Field.holds_cons.2 (.inr ha))

/-- Where nothing leads back to itself, a copy leads to new structs only. -/
theorem Copied.size_le_of_leads {a b c : Address} (h : s.Copied s' (s.struct a) b)
    (hacyclic : ∀ c, s.Leads a c → c < s.structs.size ∧ ¬s.Recurs c) (hc : s'.Leads b c) :
    s.structs.size ≤ c := by
  obtain ⟨fields, hcopy, hcopies⟩ := h.copy
  rcases hc.cases_head with rfl | ⟨d, hd, hc⟩
  · exact h.old
  · unfold Link at hd
    rw [hcopy] at hd
    refine hcopies.holds_new (fun p hp => ?_) (fun e he c hc => hacyclic c (hc.head he)) hd hc
    cases hp

/-- Where a struct in a field leads to one that leads back to itself, its copy leads to a struct on the
path, or to one that the original leads to. -/
theorem Copies.exists_shared (h : Copies s s' path entries copies) {a c : Address}
    (ha : Field.Holds entries a) (hc : s.Leads a c) (hrecurs : s.Recurs c) :
    ∃ b, Field.Holds copies b ∧ ∃ d, s'.Leads b d ∧ (d ∈ path ∨ s.Leads a d) := by
  induction h generalizing a with
  | nil path =>
    obtain ⟨entry, hentry, -⟩ := ha
    cases hentry
  | @keep path name field rest copies hkept hrest ih =>
    rcases Field.holds_cons.1 ha with ha | ha
    · exact ⟨a, Field.holds_cons.2 (.inl ha), a, .refl, .inr .refl⟩
    · obtain ⟨b, hb, h⟩ := ih ha hc
      exact ⟨b, Field.holds_cons.2 (.inr hb), h⟩
  | @copy path name field rest copies a' b fields hvalue hnot ha' hnew hb hcopy hfields hrest
      ihFields ihRest =>
    rcases Field.holds_cons.1 ha with ha | ha
    · obtain rfl : a' = a := Value.struct.inj (hvalue.symm.trans ha)
      -- The copy leads on through the copies of its fields, with `a` on the path of these.
      obtain ⟨e, he, hce⟩ := hrecurs.exists_link hc
      obtain ⟨b', hb', d, hd, hor⟩ := ihFields he hce
      have hlink : s'.Link b b' := by
        unfold Link
        rwa [hcopy]
      refine ⟨b, Field.holds_cons.2 (.inl rfl), d, hd.head hlink, ?_⟩
      rcases hor with hmem | hleads
      · exact (List.mem_cons.1 hmem).elim (fun h => .inr (h ▸ .refl)) .inl
      · exact .inr (hleads.head he)
    · obtain ⟨b, hb, h⟩ := ihRest ha hc
      exact ⟨b, Field.holds_cons.2 (.inr hb), h⟩

/-- Fields lead from a struct to structs that there are. -/
theorem Valid.lt_of_leads (hs : s.Valid) {a c : Address} (ha : a < s.structs.size)
    (h : s.Leads a c) : c < s.structs.size := by
  induction h with
  | refl => exact ha
  | tail _ hlink ih =>
    obtain ⟨entry, hentry, hvalue⟩ := hlink
    have hvalid := (hs.struct ih).fields entry hentry
    rw [hvalue] at hvalid
    exact hvalid

/-- Fields that hold structs lead to no struct from both. -/
def Apart (s : Store) (a b : Address) : Prop := ∀ c, s.Leads a c → ¬s.Leads b c

/-- **A copy shares no struct with the original exactly if nothing that the original leads to leads back
to itself.** -/
theorem copyStruct_apart_iff {a : Address} (hs : s.Valid) (ha : a < s.structs.size) :
    (s.copyStruct (s.struct a)).2.Apart (s.copyStruct (s.struct a)).1 a ↔
      ∀ c, s.Leads a c → ¬s.Recurs c := by
  have hcopied := copied_copyStruct s (s.struct a)
  generalize s.copyStruct (s.struct a) = made at hcopied
  obtain ⟨b, s'⟩ := made
  obtain ⟨fields, hcopy, hcopies⟩ := hcopied.copy
  have hlinks : ∀ c, s'.Link b c ↔ Field.Holds fields c := by
    intro c
    unfold Link
    rw [hcopy]
  have hleads : ∀ c, s'.Leads a c ↔ s.Leads a c := fun c =>
    leads_iff_of_kept fun d hd => hcopied.struct_eq (hs.lt_of_leads ha hd)
  constructor
  · intro hapart c hc hrecurs
    obtain ⟨e, he, hce⟩ := hrecurs.exists_link hc
    obtain ⟨b', hb', d, hd, hor⟩ := hcopies.exists_shared he hce hrecurs
    have hde : s.Leads e d := hor.resolve_left List.not_mem_nil
    exact hapart d (hd.head ((hlinks b').2 hb')) ((hleads d).2 (hde.head he))
  · intro hacyclic c hbc hac
    have hlt : c < s.structs.size := hs.lt_of_leads ha ((hleads c).1 hac)
    refine absurd hlt (Nat.not_lt_of_le (hcopied.size_le_of_leads (fun d hd => ?_) hbc))
    exact ⟨hs.lt_of_leads ha hd, hacyclic d hd⟩

/-- A struct of one field. -/
def single (value : Value) : Struct :=
  { name := "node", tag := .define ":node" (some BaseType.struct.tag),
    fields := ⟨[("next", ⟨BaseType.any.tag, value⟩)]⟩ }

theorem valid_single {value : Value} : (single value).Valid s ↔ value.Valid s := by
  constructor
  · intro h
    exact h.fields _ (List.mem_cons_self ..)
  · intro h
    exact ⟨by simpa [single] using h, rfl⟩

theorem holds_single {value : Value} {a : Address} :
    Field.Holds (single value).fields.entries a ↔ value = .struct a := by
  simp [Field.Holds, single]

/-- A node in front of another one. -/
def row : Store := { structs := #[single (.integer 1), single (.struct 0)] }

theorem copyStruct_apart_row :
    row.Valid ∧ 1 < row.structs.size ∧
      (row.copyStruct (row.struct 1)).2.Apart (row.copyStruct (row.struct 1)).1 1 := by
  have hvalid : row.Valid := by
    constructor <;> simp [row, valid_single, Value.Valid]
  have hlinks : ∀ a b, row.Link a b → b < a := by
    intro a b h
    have ha : a < 2 := h.lt_size
    interval_cases a
    · cases holds_single.1 h
    · obtain rfl : 0 = b := Value.struct.inj (holds_single.1 h)
      decide
  refine ⟨hvalid, by decide, (copyStruct_apart_iff hvalid (by decide)).2 fun c _ hc => ?_⟩
  have hdown : ∀ a b, Relation.TransGen row.Link a b → b < a := by
    intro a b h
    induction h with
    | single hlink => exact hlinks _ _ hlink
    | tail _ hlink ih => exact Nat.lt_trans (hlinks _ _ hlink) ih
  exact Nat.lt_irrefl c (hdown c c hc)

/-- A node in front of itself. -/
def ring : Store := { structs := #[single (.struct 0)] }

/-- The copy of a node in front of itself stands in front of another copy, and that one in front of the
original. -/
theorem not_copyStruct_apart_ring :
    ring.Valid ∧ 0 < ring.structs.size ∧
      ¬(ring.copyStruct (ring.struct 0)).2.Apart (ring.copyStruct (ring.struct 0)).1 0 := by
  have hvalid : ring.Valid := by
    constructor <;> simp [ring, valid_single, Value.Valid]
  have hcopy : ring.copyStruct (ring.struct 0) =
      (2, { ring with structs := #[single (.struct 0), single (.struct 0), single (.struct 1)] }) := by
    simp [copyStruct, copyFields, newStruct, ring, single, Store.struct, Struct.copyFields]
  rw [hcopy]
  refine ⟨hvalid, by decide, fun hapart => hapart 0 ?_ .refl⟩
  refine Relation.ReflTransGen.head (b := 1) ?_ (.single ?_)
  · exact holds_single.2 rfl
  · exact holds_single.2 rfl

end Store

end CurryLisp
