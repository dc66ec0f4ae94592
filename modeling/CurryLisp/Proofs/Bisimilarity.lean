import CurryLisp.Proofs.References
import Mathlib

/-!
# Bisimilarity

Vectors and structs may contain themselves, so that two values have the same shape cannot be said by
recursion. Values *match* up to a relation `B` if they are of one kind, agree in what can be seen at
once, and their parts are related by `B` (`Value.Matches`). They are *bisimilar* if some relation that
only relates matching values relates them: however far one looks, no difference is met.

A number that is not equal to itself is bisimilar to nothing. Among values that reach no such number
bisimilarity is an equivalence.

Statements:

* `Value.Comparable.of_valid`: what is left to ask of values where no reference dangles.
* `Value.Bisimilar.refl`, `Value.Bisimilar.symm`, `Value.Bisimilar.trans`.
-/

namespace CurryLisp

/-! ## Parts of values -/

/-- `Part s v w`: the value `w` stands directly in `v`. The environment that a closure keeps does not
count. -/
inductive Value.Part (s : Store) : Value → Value → Prop
  | quoted (inner : Value) : Part s (.quoted inner) inner
  | car (p : Nat) (a d : Value) : Part s (.pair p a d) a
  | cdr (p : Nat) (a d : Value) : Part s (.pair p a d) d
  | item {a : Address} {v : Value} (h : v ∈ s.vector a) : Part s (.vector a) v
  | field {a : Address} {entry : String × Field} (h : entry ∈ (s.struct a).fields.entries) :
    Part s (.struct a) entry.2.value
  | body {a : Address} {v : Value} (h : v ∈ (s.closure a).body) : Part s (.closure a) v
  | bound {a : Address} {entry : String × Value} (h : entry ∈ (s.closure a).bound) :
    Part s (.closure a) entry.2

/-- `w` is `v`, or stands somewhere in it. -/
abbrev Value.Reaches (s : Store) : Value → Value → Prop := Relation.ReflTransGen (Value.Part s)

/-- Whatever is reached from `v` can be compared: a number is equal to itself. The other conditions say
how machines put values together: addresses are those of objects, each field of a struct has a name of
its own, and each stamp is that of one pair, whose halves are `halves`. -/
structure Value.Comparable (s : Store) (halves : Nat → Value × Value) (v : Value) : Prop where
  numbers : ∀ x, v.Reaches s (.float x) → x.isNaN = false
  pairs : ∀ p a d, v.Reaches s (.pair p a d) → halves p = (a, d)
  vectors : ∀ a, v.Reaches s (.vector a) → a < s.vectors.size
  structs : ∀ a, v.Reaches s (.struct a) → a < s.structs.size ∧ (s.struct a).fields.keys.Nodup
  closures : ∀ a, v.Reaches s (.closure a) → a < s.closures.size

/-- What stands in a comparable value is comparable. -/
theorem Value.Comparable.part {s : Store} {halves : Nat → Value × Value} {v w : Value}
    (h : v.Comparable s halves) (hw : Part s v w) : w.Comparable s halves where
  numbers := fun x hx => h.numbers x (hx.head hw)
  pairs := fun p a d hx => h.pairs p a d (hx.head hw)
  vectors := fun a hx => h.vectors a (hx.head hw)
  structs := fun a hx => h.structs a (hx.head hw)
  closures := fun a hx => h.closures a (hx.head hw)

/-- What stands in a valid value is valid. -/
theorem Value.Valid.part {s : Store} (hs : s.Valid) {v w : Value} (hv : v.Valid s)
    (hw : Part s v w) : w.Valid s := by
  cases hw with
  | quoted inner => exact hv
  | car p a d => exact hv.2.1
  | cdr p a d => exact hv.2.2
  | item h => exact hs.vector _ _ h
  | field h => exact (hs.struct hv).fields _ h
  | body h => exact (hs.closure _).body _ h
  | bound h => exact (hs.closure _).bound _ h

/-- What a valid value reaches is valid. -/
theorem Value.Valid.reaches {s : Store} (hs : s.Valid) {v w : Value} (hv : v.Valid s)
    (hw : v.Reaches s w) : w.Valid s := by
  induction hw with
  | refl => exact hv
  | tail _ hpart ih => exact ih.part hs hpart

/-- Where no reference dangles, as in the store of every session, addresses need not be asked about. -/
theorem Value.Comparable.of_valid {s : Store} (hs : s.Valid) {halves : Nat → Value × Value}
    {v : Value} (hv : v.Valid s) (hnumbers : ∀ x, v.Reaches s (.float x) → x.isNaN = false)
    (hpairs : ∀ p a d, v.Reaches s (.pair p a d) → halves p = (a, d))
    (hnames : ∀ a, v.Reaches s (.struct a) → (s.struct a).fields.keys.Nodup) :
    v.Comparable s halves := by
  constructor
  · exact hnumbers
  · exact hpairs
  · exact fun a ha => hv.reaches hs ha
  · exact fun a ha => ⟨hv.reaches hs ha, hnames a ha⟩
  · exact fun a ha => hv.reaches hs ha

/-! ## Matching values -/

/-- Structs match if they have one name and the same fields, with equal types and related values. -/
structure Struct.Matches (B : Value → Value → Prop) (x y : Struct) : Prop where
  name : x.name = y.name
  names : ∀ name, x.fields.contains name = y.fields.contains name
  fields : ∀ name field theirs, x.fields.get? name = some field →
    y.fields.get? name = some theirs →
      field.tag.name = theirs.tag.name ∧ B field.value theirs.value

/-- Closures match if they have the same parameters, related bodies, and related values bound to the
same names. -/
structure Closure.Matches (B : Value → Value → Prop) (x y : Closure) : Prop where
  params : x.params = y.params
  body : List.Forall₂ B x.body y.body
  bound : List.Forall₂ (fun e e' => e.1 = e'.1 ∧ B e.2 e'.2) x.bound y.bound

/-- Values match if they are of one kind, atoms are equal, and parts are related by `B`. -/
inductive Value.Matches (s : Store) (B : Value → Value → Prop) : Value → Value → Prop
  | nil : Matches s B .nil .nil
  | truth : Matches s B .truth .truth
  | integer (n : Int64) : Matches s B (.integer n) (.integer n)
  | float {x y : Float} (h : (x == y) = true) : Matches s B (.float x) (.float y)
  | char (c : Char) : Matches s B (.char c) (.char c)
  | symbol (name : String) : Matches s B (.symbol name) (.symbol name)
  | type {t u : TypeTag} (h : t.name = u.name) : Matches s B (.type t) (.type u)
  | native {f g : NativeFunction} (h : f.name = g.name) : Matches s B (.native f) (.native g)
  | string {a b : Address} (h : s.text a = s.text b) : Matches s B (.string a) (.string b)
  | quoted {x y : Value} (h : B x y) : Matches s B (.quoted x) (.quoted y)
  | pair {p q : Nat} {a b c d : Value} (hcar : B a c) (hcdr : B b d) :
    Matches s B (.pair p a b) (.pair q c d)
  | vector {a b : Address} (h : List.Forall₂ B (s.vector a).toList (s.vector b).toList) :
    Matches s B (.vector a) (.vector b)
  | struct {a b : Address} (h : (s.struct a).Matches B (s.struct b)) :
    Matches s B (.struct a) (.struct b)
  | closure {a b : Address} (h : (s.closure a).Matches B (s.closure b)) :
    Matches s B (.closure a) (.closure b)

/-- Some relation under which related values match relates `x` and `y`. -/
def Value.Bisimilar (s : Store) (x y : Value) : Prop :=
  ∃ B : Value → Value → Prop, (∀ u v, B u v → Matches s B u v) ∧ B x y

/-! ### Lists of related values -/

section Lists

variable {α : Type} {R T : α → α → Prop} {xs ys zs : List α}

/-- Related items may be related in another way, which may depend on their being items. -/
theorem forall₂_imp_mem (h : List.Forall₂ R xs ys)
    (himp : ∀ x ∈ xs, ∀ y ∈ ys, R x y → T x y) : List.Forall₂ T xs ys := by
  induction h with
  | nil => exact .nil
  | cons hxy _ ih =>
    constructor
    · exact himp _ (List.mem_cons_self ..) _ (List.mem_cons_self ..) hxy
    · exact ih fun x hx y hy => himp x (List.mem_cons_of_mem _ hx) y (List.mem_cons_of_mem _ hy)

theorem forall₂_symm (h : List.Forall₂ R xs ys) (himp : ∀ x y, R x y → T y x) :
    List.Forall₂ T ys xs := by
  induction h with
  | nil => exact .nil
  | cons hxy _ ih => exact .cons (himp _ _ hxy) ih

theorem forall₂_trans {U : α → α → Prop} (h : List.Forall₂ R xs ys) (h' : List.Forall₂ T ys zs)
    (himp : ∀ x y z, R x y → T y z → U x z) : List.Forall₂ U xs zs := by
  induction h generalizing zs with
  | nil =>
    cases h'
    exact .nil
  | cons hxy _ ih =>
    obtain _ | ⟨hyz, h'⟩ := h'
    exact .cons (himp _ _ _ hxy hyz) (ih h')

end Lists

section Objects

variable {B C D : Value → Value → Prop}

/-- A matching struct has a field of each name. -/
theorem Struct.Matches.exists_field {x y : Struct} (h : x.Matches B y) {name : String}
    {field : Field} (hfield : x.fields.get? name = some field) :
    ∃ theirs, y.fields.get? name = some theirs := by
  have hcontains := h.names name
  unfold Table.contains at hcontains
  rw [hfield, Option.isSome_some] at hcontains
  exact Option.isSome_iff_exists.1 hcontains.symm

theorem Struct.Matches.symm {x y : Struct} (h : x.Matches B y) (hB : ∀ u v, B u v → C v u) :
    y.Matches C x := by
  refine ⟨h.name.symm, fun name => (h.names name).symm, fun name field theirs hfield htheirs => ?_⟩
  obtain ⟨htag, hvalue⟩ := h.fields name theirs field htheirs hfield
  exact ⟨htag.symm, hB _ _ hvalue⟩

theorem Struct.Matches.trans {x y z : Struct} (h : x.Matches B y) (h' : y.Matches C z)
    (hD : ∀ u v w, B u v → C v w → D u w) : x.Matches D z := by
  refine ⟨h.name.trans h'.name, fun name => (h.names name).trans (h'.names name), ?_⟩
  intro name field theirs hfield htheirs
  obtain ⟨between, hbetween⟩ := h.exists_field hfield
  obtain ⟨htag, hvalue⟩ := h.fields name field between hfield hbetween
  obtain ⟨htag', hvalue'⟩ := h'.fields name between theirs hbetween htheirs
  exact ⟨htag.trans htag', hD _ _ _ hvalue hvalue'⟩

theorem Closure.Matches.symm {x y : Closure} (h : x.Matches B y) (hB : ∀ u v, B u v → C v u) :
    y.Matches C x := by
  refine ⟨h.params.symm, forall₂_symm h.body hB, forall₂_symm h.bound ?_⟩
  rintro e e' ⟨hname, hvalue⟩
  exact ⟨hname.symm, hB _ _ hvalue⟩

theorem Closure.Matches.trans {x y z : Closure} (h : x.Matches B y) (h' : y.Matches C z)
    (hD : ∀ u v w, B u v → C v w → D u w) : x.Matches D z := by
  refine ⟨h.params.trans h'.params, forall₂_trans h.body h'.body hD,
    forall₂_trans h.bound h'.bound ?_⟩
  rintro e e' e'' ⟨hname, hvalue⟩ ⟨hname', hvalue'⟩
  exact ⟨hname.trans hname', hD _ _ _ hvalue hvalue'⟩

end Objects

namespace Value

variable {s : Store} {B C : Value → Value → Prop} {x y z : Value}

namespace Matches

/-- Values that match up to `B` match up to `C`, if `C` relates the parts that `B` relates. -/
theorem imp (h : Matches s B x y) (himp : ∀ u v, Part s x u → Part s y v → B u v → C u v) :
    Matches s C x y := by
  cases h with
  | nil | truth | integer | char | symbol => constructor
  | float h => exact .float h
  | type h => exact .type h
  | native h => exact .native h
  | string h => exact .string h
  | quoted h => exact .quoted (himp _ _ (.quoted _) (.quoted _) h)
  | pair hcar hcdr =>
    exact .pair (himp _ _ (.car ..) (.car ..) hcar) (himp _ _ (.cdr ..) (.cdr ..) hcdr)
  | vector h =>
    refine .vector (forall₂_imp_mem h fun u hu v hv => ?_)
    exact himp u v (.item (Array.mem_toList_iff.1 hu)) (.item (Array.mem_toList_iff.1 hv))
  | struct h =>
    refine .struct ⟨h.name, h.names, fun name field theirs hfield htheirs => ?_⟩
    obtain ⟨htag, hvalue⟩ := h.fields name field theirs hfield htheirs
    exact ⟨htag, himp _ _ (.field (Table.mem_of_lookup hfield))
      (.field (Table.mem_of_lookup htheirs)) hvalue⟩
  | closure h =>
    refine .closure ⟨h.params, forall₂_imp_mem h.body fun u hu v hv => ?_,
      forall₂_imp_mem h.bound fun e he e' he' => ?_⟩
    · exact himp u v (.body hu) (.body hv)
    · rintro ⟨hname, hvalue⟩
      exact ⟨hname, himp _ _ (.bound he) (.bound he') hvalue⟩

/-- A comparable value matches itself, if its parts are related to themselves. -/
theorem refl {halves : Nat → Value × Value} (hx : x.Comparable s halves)
    (hB : ∀ u, Part s x u → B u u) : Matches s B x x := by
  cases x with
  | nil => exact .nil
  | truth => exact .truth
  | integer n => exact .integer n
  | float x =>
    have hnumber := hx.numbers x .refl
    rw [Float.isNaN_eq_decide_eq_nan, decide_eq_false_iff_not] at hnumber
    exact .float (Float.beq_self_iff.2 hnumber)
  | char c => exact .char c
  | symbol name => exact .symbol name
  | type tag => exact .type rfl
  | native f => exact .native rfl
  | string a => exact .string rfl
  | quoted inner => exact .quoted (hB inner (.quoted _))
  | pair p a d => exact .pair (hB a (.car ..)) (hB d (.cdr ..))
  | vector a =>
    refine .vector (List.forall₂_same.2 fun v hv => ?_)
    exact hB v (.item (Array.mem_toList_iff.1 hv))
  | struct a =>
    refine .struct ⟨rfl, fun _ => rfl, fun name field theirs hfield htheirs => ?_⟩
    obtain rfl : field = theirs := Option.some.inj (hfield.symm.trans htheirs)
    exact ⟨rfl, hB _ (.field (Table.mem_of_lookup hfield))⟩
  | closure a =>
    refine .closure ⟨rfl, List.forall₂_same.2 fun v hv => hB v (.body hv),
      List.forall₂_same.2 fun entry hentry => ?_⟩
    exact ⟨rfl, hB _ (.bound hentry)⟩

theorem symm (h : Matches s B x y) (hB : ∀ u v, B u v → C v u) : Matches s C y x := by
  cases h with
  | nil | truth | integer | char | symbol => constructor
  | float h => exact .float (BEq.symm h)
  | type h => exact .type h.symm
  | native h => exact .native h.symm
  | string h => exact .string h.symm
  | quoted h => exact .quoted (hB _ _ h)
  | pair hcar hcdr => exact .pair (hB _ _ hcar) (hB _ _ hcdr)
  | vector h => exact .vector (forall₂_symm h hB)
  | struct h => exact .struct (h.symm hB)
  | closure h => exact .closure (h.symm hB)

theorem trans {D : Value → Value → Prop} (h : Matches s B x y) (h' : Matches s C y z)
    (hD : ∀ u v w, B u v → C v w → D u w) : Matches s D x z := by
  cases h with
  | nil | truth | integer | char | symbol =>
    cases h'
    constructor
  | float h =>
    cases h' with
    | float h' => exact .float (BEq.trans h h')
  | type h =>
    cases h' with
    | type h' => exact .type (h.trans h')
  | native h =>
    cases h' with
    | native h' => exact .native (h.trans h')
  | string h =>
    cases h' with
    | string h' => exact .string (h.trans h')
  | quoted h =>
    cases h' with
    | quoted h' => exact .quoted (hD _ _ _ h h')
  | pair hcar hcdr =>
    cases h' with
    | pair hcar' hcdr' => exact .pair (hD _ _ _ hcar hcar') (hD _ _ _ hcdr hcdr')
  | vector h =>
    cases h' with
    | vector h' => exact .vector (forall₂_trans h h' hD)
  | struct h =>
    cases h' with
    | struct h' => exact .struct (h.trans h' hD)
  | closure h =>
    cases h' with
    | closure h' => exact .closure (h.trans h' hD)

end Matches

/-! ## Bisimilarity is an equivalence -/

namespace Bisimilar

theorem refl {halves : Nat → Value × Value} (hx : x.Comparable s halves) : Bisimilar s x x := by
  refine ⟨fun u v => u = v ∧ u.Comparable s halves, ?_, rfl, hx⟩
  rintro u v ⟨rfl, hu⟩
  exact .refl hu fun w hw => ⟨rfl, hu.part hw⟩

theorem symm (h : Bisimilar s x y) : Bisimilar s y x := by
  obtain ⟨B, hB, hxy⟩ := h
  exact ⟨flip B, fun u v huv => (hB v u huv).symm fun _ _ h => h, hxy⟩

theorem trans (h : Bisimilar s x y) (h' : Bisimilar s y z) : Bisimilar s x z := by
  obtain ⟨B, hB, hxy⟩ := h
  obtain ⟨C, hC, hyz⟩ := h'
  refine ⟨Relation.Comp B C, ?_, y, hxy, hyz⟩
  rintro u w ⟨v, huv, hvw⟩
  exact (hB u v huv).trans (hC v w hvw) fun _ v _ h h' => ⟨v, h, h'⟩

end Bisimilar

end Value

end CurryLisp
