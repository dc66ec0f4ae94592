import CurryLisp.Proofs.Copies.Equality

/-!
# What values contain

Values in different stores cannot be compared by looking at addresses. They are *alike* if whoever goes
down from them by the same steps, each to a part of a certain number, sees the same: the same atoms and
texts, structs of one shape, closures of one shape, and equally many parts (`Value.Alike`). This tells
apart what the comparison of the language tells apart, and more: a number that differs from itself is
like itself.

Statements:

* `Value.alike_of_related`: values are alike if some relation between them is kept by going down.
* `Value.alike_of_kept`: a value stays alike while the objects stay that it reaches.
* `Store.Copied.alike`: **a copy of a struct is like the struct.**
* `Value.Alike.equal`: alike values of one store are equal.
-/

namespace CurryLisp

namespace Value

/-! ## Parts in order -/

/-- The values that stand directly in a value, in order. -/
def parts (s : Store) : Value → List Value
  | quoted inner => [inner]
  | pair _ car cdr => [car, cdr]
  | vector a => (s.vector a).toList
  | struct a => (s.struct a).fields.entries.map (·.2.value)
  | closure a => (s.closure a).body ++ (s.closure a).bound.map (·.2)
  | _ => []

theorem part_iff_mem_parts {s : Store} {v w : Value} : Part s v w ↔ w ∈ v.parts s := by
  constructor
  · intro h
    cases h with
    | quoted inner => exact List.mem_singleton.2 rfl
    | car p a d => exact List.mem_cons_self ..
    | cdr p a d => exact List.mem_cons_of_mem _ (List.mem_singleton.2 rfl)
    | item h => exact Array.mem_toList_iff.2 h
    | field h => exact List.mem_map_of_mem h
    | body h => exact List.mem_append_left _ h
    | bound h => exact List.mem_append_right _ (List.mem_map_of_mem h)
  · intro h
    cases v with
    | quoted inner =>
      obtain rfl := List.mem_singleton.1 h
      exact .quoted _
    | pair p a d =>
      rcases List.mem_cons.1 h with rfl | h
      · exact .car ..
      · obtain rfl := List.mem_singleton.1 h
        exact .cdr ..
    | vector a => exact .item (Array.mem_toList_iff.1 h)
    | struct a =>
      obtain ⟨entry, hentry, rfl⟩ := List.mem_map.1 h
      exact .field hentry
    | closure a =>
      rcases List.mem_append.1 h with h | h
      · exact .body h
      · obtain ⟨entry, hentry, rfl⟩ := List.mem_map.1 h
        exact .bound hentry
    | _ => cases h

/-- The value that is met by going down, at each step to the part of the given number. -/
def follow (s : Store) (v : Value) : List Nat → Option Value
  | [] => some v
  | i :: path => (v.parts s)[i]?.bind fun part => follow s part path

/-! ## Alike values -/

/-- What is seen of a value without a look at its parts. -/
inductive Face where
  | quoted
  | pair
  | vector
  | text (text : String)
  | struct (shape : String × TypeTag × List (String × TypeTag))
  | closure (params bound : List String)
  | atom (v : Value)

/-- What is seen of a value without a look at its parts. -/
def face (s : Store) : Value → Face
  | quoted _ => .quoted
  | pair .. => .pair
  | vector _ => .vector
  | string a => .text (s.text a)
  | struct a => .struct (s.struct a).shape
  | closure a => .closure (s.closure a).params ((s.closure a).bound.map (·.1))
  | v => .atom v

/-- Going down from `v` in `s` and from `v'` in `s'` one sees the same. -/
def Alike (s s' : Store) (v v' : Value) : Prop :=
  ∀ path, (v.follow s path).map (face s) = (v'.follow s' path).map (face s')

variable {s s₁ s₂ : Store} {u v w : Value}

theorem Alike.symm (h : v.Alike s s₁ w) : w.Alike s₁ s v := fun path => (h path).symm

theorem Alike.trans (h : u.Alike s s₁ v) (h' : v.Alike s₁ s₂ w) : u.Alike s s₂ w :=
  fun path => (h path).trans (h' path)

theorem Alike.face_eq (h : v.Alike s s₁ w) : v.face s = w.face s₁ := Option.some.inj (h [])

/-- Parts of the same number of alike values are alike. -/
theorem Alike.forall₂_parts (h : v.Alike s s₁ w) :
    List.Forall₂ (Alike s s₁) (v.parts s) (w.parts s₁) := by
  have hstep : ∀ i path, ((v.parts s)[i]?.bind fun part => follow s part path).map (face s) =
      ((w.parts s₁)[i]?.bind fun part => follow s₁ part path).map (face s₁) :=
    fun i path => h (i :: path)
  refine List.forall₂_iff_get.2 ⟨?_, fun i hi hi' path => ?_⟩
  · -- A part is there on one side exactly if it is there on the other.
    have hpart : ∀ i, (v.parts s)[i]?.isSome = (w.parts s₁)[i]?.isSome := fun i => by
      have hsome := congrArg Option.isSome (hstep i [])
      simpa [follow] using hsome
    have hlength : ∀ i, i < (v.parts s).length ↔ i < (w.parts s₁).length := fun i => by
      simpa using congrArg (· = true) (hpart i)
    exact Nat.le_antisymm (Nat.le_of_not_lt fun h => Nat.lt_irrefl _ ((hlength _).1 h))
      (Nat.le_of_not_lt fun h => Nat.lt_irrefl _ ((hlength _).2 h))
  · simpa [hi, hi'] using hstep i path

/-- **Values are alike if some relation between them is kept by going down.** -/
theorem alike_of_related {R : Value → Value → Prop} (hR : ∀ u w, R u w →
    u.face s = w.face s₁ ∧ List.Forall₂ R (u.parts s) (w.parts s₁)) (h : R v w) :
    v.Alike s s₁ w := by
  intro path
  induction path generalizing v w with
  | nil => exact congrArg some (hR v w h).1
  | cons i path ih =>
    obtain ⟨hlength, hparts⟩ := List.forall₂_iff_get.1 (hR v w h).2
    simp only [follow]
    by_cases hi : i < (v.parts s).length
    · have hi' : i < (w.parts s₁).length := hlength ▸ hi
      simpa [hi, hi'] using ih (hparts i hi hi')
    · have hi' : ¬i < (w.parts s₁).length := hlength ▸ hi
      simp [hi, hi']

/-! ## Values that stay -/

/-- The object that the value is, if it is one, is the same in both stores. -/
structure Kept (s s₁ : Store) (v : Value) : Prop where
  face : v.face s₁ = v.face s
  parts : v.parts s₁ = v.parts s

/-- **A value stays alike while the objects stay that it reaches.** -/
theorem alike_of_kept (h : ∀ w, v.Reaches s w → w.Kept s s₁) : v.Alike s s₁ v := by
  refine alike_of_related (R := fun u w => u = w ∧ v.Reaches s u) ?_ ⟨rfl, .refl⟩
  rintro u w ⟨rfl, hu⟩
  refine ⟨(h u hu).face.symm, ?_⟩
  rw [(h u hu).parts, List.forall₂_same]
  exact fun part hpart => ⟨rfl, hu.tail (part_iff_mem_parts.2 hpart)⟩

/-- Atoms and pairs are in no store. Vectors and texts may change while a store grows, and structs if
they are written to. -/
theorem kept_of_grows (hgrows : s.Grows s₁) (hv : v.Valid s) (htext : ∀ a, v ≠ .string a)
    (hvector : ∀ a, v ≠ .vector a) (hstruct : ∀ a, v = .struct a → s₁.struct a = s.struct a) :
    v.Kept s s₁ := by
  cases v with
  | string a => exact absurd rfl (htext a)
  | vector a => exact absurd rfl (hvector a)
  | struct a =>
    have hsame := hstruct a rfl
    constructor <;> simp [Value.face, Value.parts, hsame]
  | closure a =>
    have hsame := hgrows.closure a hv
    constructor <;> simp [Value.face, Value.parts, hsame]
  | _ => exact ⟨rfl, rfl⟩

end Value

/-! ## Copies -/

/-- Fields with the same names and types that hold related values. -/
theorem Field.forall₂_iff {R : Value → Value → Prop} {entries others : List (String × Field)} :
    List.Forall₂ (fun e e' => e.1 = e'.1 ∧ e.2.tag = e'.2.tag ∧ R e.2.value e'.2.value) entries
        others ↔
      (entries.map fun entry => (entry.1, entry.2.tag)) =
          (others.map fun entry => (entry.1, entry.2.tag)) ∧
        List.Forall₂ R (entries.map (·.2.value)) (others.map (·.2.value)) := by
  induction entries generalizing others with
  | nil => cases others <;> simp
  | cons entry rest ih =>
    cases others with
    | nil => simp
    | cons entry' others => simp [ih, and_assoc, and_left_comm]

namespace Store

variable {s s' : Store} {root a b : Address}

/-- A valid value is itself in both stores, a struct is its twin. -/
inductive Doubles (s s' : Store) (root : Address) : Value → Value → Prop
  | same {v : Value} (h : v.Valid s) : Doubles s s' root v v
  | struct {a b : Address} (h : Twin s s' root a b) : Doubles s s' root (.struct a) (.struct b)

/-- **A copy of a struct is like the struct.** -/
theorem Copied.alike (h : s.Copied s' (s.struct a) b) (hs : s.Valid) (ha : a < s.structs.size) :
    (Value.struct a).Alike s s' (.struct b) := by
  obtain ⟨new, hbehind⟩ := h.behind
  have hroot : Twin s s' a a b := by
    obtain ⟨fields, hcopy⟩ := h.copy
    exact ⟨.refl, ha, h.new, [], fields, hcopy⟩
  refine Value.alike_of_related (R := Doubles s s' a) ?_ (.struct hroot)
  rintro u w (hu | htwin)
  · -- What was there before is seen in both stores as it was.
    have hkept : u.Kept s s' := by
      cases u with
      | struct c =>
        have hsame := h.struct_eq hu
        constructor <;> simp [Value.face, Value.parts, hsame]
      | _ =>
        subst hbehind
        exact ⟨rfl, rfl⟩
    refine ⟨hkept.face.symm, ?_⟩
    rw [hkept.parts, List.forall₂_same]
    exact fun part hpart => .same (hu.part hs (Value.part_iff_mem_parts.2 hpart))
  · obtain ⟨path, fields, hcopy, hcopies⟩ := htwin.copy
    have hfields := hcopies.forall₂ (R := Doubles s s' a) (fun c hc => htwin.leads.tail hc)
      (fun entry hentry => .same ((hs.struct htwin.old).fields entry hentry)) fun c d h => .struct h
    obtain ⟨hshapes, hvalues⟩ := Field.forall₂_iff.1 hfields
    simp only [Value.face, Value.parts, hcopy]
    exact ⟨by simp [Struct.shape, hshapes], hvalues⟩

end Store

/-! ## Equality -/

namespace Value

variable {s : Store} {v w : Value}

/-- Closures match whose parts do: those of the body come first, then those that names are bound to. -/
theorem closure_matches {B : Value → Value → Prop} {c c' : Closure} (hparams : c.params = c'.params)
    (hnames : c.bound.map (·.1) = c'.bound.map (·.1))
    (h : List.Forall₂ B (c.body ++ c.bound.map (·.2)) (c'.body ++ c'.bound.map (·.2))) :
    c.Matches B c' := by
  have hbound : c.bound.length = c'.bound.length := by
    simpa using congrArg List.length hnames
  have hbody : c.body.length = c'.body.length := by
    have hlength := h.length_eq
    simp only [List.length_append, List.length_map, hbound] at hlength
    exact Nat.add_right_cancel hlength
  have htake := List.forall₂_take c.body.length h
  have hdrop := List.forall₂_drop c.body.length h
  simp only [List.take_left', List.drop_left', hbody] at htake hdrop
  exact ⟨hparams, htake, forall₂_bound.2 ⟨hnames, hdrop⟩⟩

theorem eq_of_face_atom {x : Value} (h : v.face s = .atom x) : v = x := by
  cases v <;> first | exact Face.atom.inj h | cases h

/-- Alike values of one store match, up to alike parts. -/
theorem Alike.matches (h : v.Alike s s w) (hv : ∀ x, v = .float x → x.isNaN = false) :
    Matches s (Alike s s) v w := by
  have hface := h.face_eq
  have hparts := h.forall₂_parts
  cases v with
  | quoted inner =>
    cases w with
    | quoted inner' =>
      obtain _ | ⟨hinner, -⟩ := hparts
      exact .quoted hinner
    | _ => cases hface
  | pair p a d =>
    cases w with
    | pair q a' d' =>
      obtain _ | ⟨hcar, hparts⟩ := hparts
      obtain _ | ⟨hcdr, -⟩ := hparts
      exact .pair hcar hcdr
    | _ => cases hface
  | vector a =>
    cases w with
    | vector b => exact .vector hparts
    | _ => cases hface
  | string a =>
    cases w with
    | string b => exact .string (Face.text.inj hface)
    | _ => cases hface
  | struct a =>
    cases w with
    | struct b =>
      obtain ⟨hname, hshape⟩ := Prod.mk.inj (Face.struct.inj hface)
      obtain ⟨-, hshapes⟩ := Prod.mk.inj hshape
      exact .struct (Struct.matches_of_fields hname (Field.forall₂_iff.2 ⟨hshapes, hparts⟩))
    | _ => cases hface
  | closure a =>
    cases w with
    | closure b =>
      obtain ⟨hparams, hnames⟩ := Face.closure.inj hface
      exact .closure (closure_matches hparams hnames hparts)
    | _ => cases hface
  | float x =>
    obtain rfl := eq_of_face_atom hface.symm
    have hnumber := hv x rfl
    rw [Float.isNaN_eq_decide_eq_nan, decide_eq_false_iff_not] at hnumber
    exact .float (Float.beq_self_iff.2 hnumber)
  | type tag =>
    obtain rfl := eq_of_face_atom hface.symm
    exact .type rfl
  | native f =>
    obtain rfl := eq_of_face_atom hface.symm
    exact .native rfl
  | nil | truth | integer | char | symbol =>
    obtain rfl := eq_of_face_atom hface.symm
    constructor

/-- **Alike values of one store are equal**, if they can be compared. -/
theorem Alike.equal {halves : Nat → Value × Value} (h : v.Alike s s w) (hv : v.Comparable s halves)
    (hw : w.Comparable s halves) : v.equal s w = true := by
  refine (equal_iff_bisimilar ⟨hv, hw⟩).2
    ⟨fun u u' => u.Alike s s u' ∧ u.Comparable s halves ∧ u'.Comparable s halves, ?_, h, hv, hw⟩
  rintro u u' ⟨halike, hu, hu'⟩
  have hmatches := halike.matches fun x hx => hu.numbers x (hx ▸ .refl)
  exact hmatches.imp fun p p' hp hp' halike => ⟨halike, hu.part hp, hu'.part hp'⟩

end Value

end CurryLisp
