import CurryLisp.Proofs.Bisimilarity
import CurryLisp.Proofs.EqualitySteps

/-!
# Equality decides bisimilarity

A comparison takes a pair that it meets again as equal. This is an assumption. It is sound because every
pair that has been opened is still answered for: its parts were put on the list, so a comparison that
succeeds has looked at them, too. All pairs that a successful comparison has met form a bisimulation
(`exists_bisimulation`). In the other direction a comparison of bisimilar values never meets a
difference, because of values that match there is a step, and it leaves related parts
(`Matches.exists_compares`).

Statements:

* `equal_decides_bisimilarity`: for values that reach no number that differs from itself, the comparison
  ends, and its result is `true` exactly if the values are bisimilar.
-/

namespace CurryLisp

variable {s : Store} {opened opened' : List Opened} {x y : Value} {work parts : List (Value × Value)}

/-! ## What must be equal inside two objects -/

section Parts

variable {B : Value → Value → Prop}

/-- Comparisons of parts that can be made and hold for `B`. -/
def Holding (B : Value → Value → Prop) (parts : Option (List (Value × Value))) : Prop :=
  ∃ pairs, parts = some pairs ∧ ∀ p ∈ pairs, B p.1 p.2

theorem holding_none : ¬Holding B none := by
  rintro ⟨pairs, h, -⟩
  cases h

theorem holding_some {pairs : List (Value × Value)} :
    Holding B (some pairs) ↔ ∀ p ∈ pairs, B p.1 p.2 := by
  constructor
  · rintro ⟨pairs, h, hpairs⟩
    cases h
    exact hpairs
  · intro hpairs
    exact ⟨pairs, rfl, hpairs⟩

theorem holding_pairUp {xs ys : List Value} :
    Holding B (Value.pairUp xs ys) ↔ List.Forall₂ B xs ys := by
  rw [List.forall₂_iff_zip, Value.pairUp]
  split
  · next hlength =>
    rw [holding_some]
    constructor
    · intro h
      exact ⟨hlength, fun {a b} hab => h (a, b) hab⟩
    · rintro ⟨-, h⟩ p hp
      exact h hp
  · next hlength =>
    constructor
    · intro h
      exact absurd h holding_none
    · intro h
      exact absurd h.1 hlength

/-! ### Structs -/

theorem holding_mapM {α : Type} {f : α → Option (Value × Value)} {items : List α} :
    Holding B (items.mapM f) ↔ ∀ a ∈ items, ∃ p, f a = some p ∧ B p.1 p.2 := by
  induction items with
  | nil =>
    rw [List.mapM_nil]
    exact holding_some.trans (by simp)
  | cons a rest ih =>
    rw [List.mapM_cons, List.forall_mem_cons, ← ih]
    cases f a with
    | none => simp [holding_none]
    | some p => cases rest.mapM f <;> simp [holding_none, holding_some]

theorem Table.contains_iff {α : Type} {t : Table α} {name : String} :
    t.contains name = true ↔ name ∈ t.keys := by
  simp [Table.contains, Table.get?, Table.keys]

theorem Table.get?_of_mem {α : Type} {t : Table α} (h : t.keys.Nodup) {entry : String × α}
    (hentry : entry ∈ t.entries) : t.get? entry.1 = some entry.2 := by
  obtain ⟨entries⟩ := t
  induction entries with
  | nil => cases hentry
  | cons head rest ih =>
    obtain ⟨key, value⟩ := head
    obtain ⟨hnew, hrest⟩ := List.nodup_cons.1 h
    rw [Table.get?, Table.lookup_cons]
    rcases List.mem_cons.1 hentry with rfl | hmem
    · exact if_pos rfl
    · have hne : entry.1 ≠ key := by
        intro heq
        exact hnew (List.mem_map.2 ⟨entry, hmem, heq⟩)
      rw [if_neg hne]
      exact ih hrest hmem

/-- A table with as many names as another, all of which the other has, has all names of the other. -/
theorem Table.contains_eq {α : Type} {t u : Table α} (ht : t.keys.Nodup) (hsize : t.size = u.size)
    (h : ∀ name ∈ t.keys, name ∈ u.keys) (name : String) :
    t.contains name = u.contains name := by
  have hlength : u.keys.length ≤ t.keys.length := by
    simpa [Table.keys, Table.size] using Nat.le_of_eq hsize.symm
  have hperm : t.keys.Perm u.keys := (List.subperm_of_subset ht h).perm_of_length_le hlength
  rw [Bool.eq_iff_iff, Table.contains_iff, Table.contains_iff, hperm.mem_iff]

/-- The fields are compared name by name. -/
theorem holding_fields {x y : Struct} :
    Holding B (x.fields.entries.mapM fun entry => do
        let theirs ← y.fields.get? entry.1
        if entry.2.tag.same theirs.tag then some (entry.2.value, theirs.value) else none) ↔
      ∀ entry ∈ x.fields.entries, ∃ theirs, y.fields.get? entry.1 = some theirs ∧
        entry.2.tag.name = theirs.tag.name ∧ B entry.2.value theirs.value := by
  rw [holding_mapM]
  refine forall₂_congr fun entry _ => ?_
  cases y.fields.get? entry.1 with
  | none => simp
  | some theirs => simp [TypeTag.same]

theorem holding_pairFields {x y : Struct} (hx : x.fields.keys.Nodup) (hy : y.fields.keys.Nodup) :
    Holding B (Value.pairFields x y) ↔ x.Matches B y := by
  unfold Value.pairFields
  constructor
  · intro h
    split at h
    · next hshape =>
      obtain ⟨hname, hsize⟩ : x.name = y.name ∧ x.fields.size = y.fields.size := by
        simpa using hshape
      rw [holding_fields] at h
      -- Equally many names that all stand on the other side are the same names.
      refine ⟨hname, Table.contains_eq hx hsize fun name hname => ?_, ?_⟩
      · obtain ⟨entry, hentry, rfl⟩ := List.mem_map.1 hname
        obtain ⟨theirs, htheirs, -⟩ := h entry hentry
        rw [← Table.contains_iff, Table.contains, htheirs]
        rfl
      · intro name field theirs hfield htheirs
        obtain ⟨theirs', htheirs', hmatch⟩ := h (name, field) (Table.mem_of_lookup hfield)
        obtain rfl : theirs' = theirs := Option.some.inj (htheirs'.symm.trans htheirs)
        exact hmatch
    · exact absurd h holding_none
  · intro h
    have hsize : x.fields.size = y.fields.size := by
      have hperm : x.fields.keys.Perm y.fields.keys := by
        rw [List.perm_ext_iff_of_nodup hx hy]
        intro name
        rw [← Table.contains_iff, ← Table.contains_iff, h.names]
      simpa [Table.keys, Table.size] using hperm.length_eq
    rw [if_pos (by simp [h.name, hsize]), holding_fields]
    intro entry hentry
    have hfield := Table.get?_of_mem hx hentry
    obtain ⟨theirs, htheirs⟩ := h.exists_field hfield
    exact ⟨theirs, htheirs, h.fields entry.1 entry.2 theirs hfield htheirs⟩

/-! ### Closures -/

theorem forall₂_bound {bound bound' : List (String × Value)} :
    List.Forall₂ (fun e e' => e.1 = e'.1 ∧ B e.2 e'.2) bound bound' ↔
      bound.map (·.1) = bound'.map (·.1) ∧
        List.Forall₂ B (bound.map (·.2)) (bound'.map (·.2)) := by
  induction bound generalizing bound' with
  | nil => cases bound' <;> simp
  | cons entry rest ih =>
    cases bound' with
    | nil => simp
    | cons entry' rest' => simp [ih, and_assoc, and_left_comm]

theorem holding_pairClosures {x y : Closure} :
    Holding B (Value.pairClosures x y) ↔ x.Matches B y := by
  have hiff : x.Matches B y ↔ Holding B (Value.pairUp x.body y.body) ∧
      Holding B (Value.pairUp (x.bound.map (·.2)) (y.bound.map (·.2))) ∧
      x.params = y.params ∧ x.bound.map (·.1) = y.bound.map (·.1) := by
    rw [holding_pairUp, holding_pairUp]
    constructor
    · rintro ⟨hparams, hbody, hbound⟩
      obtain ⟨hnames, hvalues⟩ := forall₂_bound.1 hbound
      exact ⟨hbody, hvalues, hparams, hnames⟩
    · rintro ⟨hbody, hvalues, hparams, hnames⟩
      exact ⟨hparams, hbody, forall₂_bound.2 ⟨hnames, hvalues⟩⟩
  rw [hiff, Value.pairClosures]
  cases Value.pairUp x.body y.body with
  | none => simp [holding_none]
  | some body =>
    cases Value.pairUp (x.bound.map (·.2)) (y.bound.map (·.2)) with
    | none => simp [holding_none]
    | some bound =>
      simp only [Option.bind_eq_bind, Option.bind_some, holding_some]
      split
      · next hnames =>
        rw [holding_some, List.forall_mem_append]
        simpa [and_assoc] using fun _ _ => hnames
      · next hnames =>
        have hnames : ¬(x.params = y.params ∧ x.bound.map (·.1) = y.bound.map (·.1)) := by
          simpa using hnames
        constructor
        · intro h
          exact absurd h holding_none
        · rintro ⟨-, -, h⟩
          exact absurd h hnames

end Parts

namespace Value

/-! ## A comparison that succeeds -/

section Success

variable {B : Value → Value → Prop} {halves : Nat → Value × Value}

/-- Two values that can be compared. -/
abbrev BothComparable (s : Store) (halves : Nat → Value × Value) (x y : Value) : Prop :=
  x.Comparable s halves ∧ y.Comparable s halves

theorem getElem?_eq_some_getD {α : Type} {items : Array α} {i : Nat} (h : i < items.size)
    (default : α) : items[i]? = some (items.getD i default) := by
  simp [h]

/-- Two objects match up to `B` if what must be equal inside them can be paired up and is related by
`B`. -/
theorem holding_inside {o : Opened} (ho : BothComparable s halves o.left o.right) :
    Holding B (o.inside s) ↔ Matches s B o.left o.right := by
  -- Both objects exist, so there is something inside to be paired up.
  cases o with
  | vectors a b =>
    have ha : s.vectors[a]? = some (s.vector a) := getElem?_eq_some_getD (ho.1.vectors a .refl) #[]
    have hb : s.vectors[b]? = some (s.vector b) := getElem?_eq_some_getD (ho.2.vectors b .refl) #[]
    rw [Opened.inside, insideVectors, ha, hb, Option.bind_some, Option.bind_some, holding_pairUp]
    constructor
    · exact .vector
    · rintro ⟨⟩
      assumption
  | structs a b =>
    obtain ⟨ha, hnames⟩ := ho.1.structs a .refl
    obtain ⟨hb, hnames'⟩ := ho.2.structs b .refl
    have ha : s.structs[a]? = some (s.struct a) := getElem?_eq_some_getD ha default
    have hb : s.structs[b]? = some (s.struct b) := getElem?_eq_some_getD hb default
    rw [Opened.inside, insideStructs, ha, hb, Option.bind_some, Option.bind_some,
      holding_pairFields hnames hnames']
    constructor
    · exact .struct
    · rintro ⟨⟩
      assumption
  | closures a b =>
    have ha : s.closures[a]? = some (s.closure a) :=
      getElem?_eq_some_getD (ho.1.closures a .refl) default
    have hb : s.closures[b]? = some (s.closure b) :=
      getElem?_eq_some_getD (ho.2.closures b .refl) default
    rw [Opened.inside, insideClosures, ha, hb, Option.bind_some, Option.bind_some,
      holding_pairClosures]
    constructor
    · exact .closure
    · rintro ⟨⟩
      assumption

/-- What must be equal inside two objects stands in them. -/
theorem part_of_inside {o : Opened} (ho : BothComparable s halves o.left o.right)
    (hparts : o.inside s = some parts) {p : Value × Value} (hp : p ∈ parts) :
    Part s o.left p.1 ∧ Part s o.right p.2 := by
  have hmatch : Matches s (fun u v => (u, v) ∈ parts) o.left o.right :=
    (holding_inside ho).1 ⟨parts, hparts, fun _ h => h⟩
  -- The values that a match relates are parts, so the same comparisons hold for "both are parts".
  have hholding : Holding (fun u v => Part s o.left u ∧ Part s o.right v) (o.inside s) :=
    (holding_inside ho).2 (hmatch.imp fun u v hu hv _ => ⟨hu, hv⟩)
  rw [hparts, holding_some] at hholding
  exact hholding p hp

/-- Values that a step takes as equal without a look at their parts. -/
def Assumed (opened : List Opened) (x y : Value) : Prop :=
  x = y ∨ ∃ o ∈ opened, x = o.left ∧ y = o.right

/-- A step takes two values as equal, or finds that they match if their parts do. -/
theorem Compares.assumed_or_matches (h : Compares s opened x y opened' parts)
    (hxy : BothComparable s halves x y) :
    (Assumed opened x y ∨ Matches s (fun u v => (u, v) ∈ parts) x y) ∧
      (∀ o ∈ opened', o ∈ opened ∨ x = o.left ∧ y = o.right) ∧
      ∀ p ∈ parts, BothComparable s halves p.1 p.2 := by
  cases h with
  | quoted x y =>
    refine ⟨.inr (.quoted (by simp)), fun o ho => .inl ho, ?_⟩
    simpa using And.intro (hxy.1.part (.quoted x)) (hxy.2.part (.quoted y))
  | samePair p a b c d =>
    have hsame : (a, b) = (c, d) :=
      (hxy.1.pairs p a b .refl).symm.trans (hxy.2.pairs p c d .refl)
    cases hsame
    exact ⟨.inl (.inl rfl), fun o ho => .inl ho, by simp⟩
  | pair a b c d hpq =>
    refine ⟨.inr (.pair (by simp) (by simp)), fun o ho => .inl ho, ?_⟩
    have hcar := And.intro (hxy.1.part (.car ..)) (hxy.2.part (.car ..))
    have hcdr := And.intro (hxy.1.part (.cdr ..)) (hxy.2.part (.cdr ..))
    simpa using And.intro hcar hcdr
  | known o hknown =>
    refine ⟨.inl (hknown.imp id fun ho => ⟨o, ho, rfl, rfl⟩), fun o ho => .inl ho, by simp⟩
  | opens o hnew hparts =>
    refine ⟨.inr ((holding_inside hxy).1 ⟨parts, hparts, fun _ h => h⟩), ?_, ?_⟩
    · intro o' ho'
      rcases List.mem_cons.1 ho' with rfl | ho'
      · exact .inr ⟨rfl, rfl⟩
      · exact .inl ho'
    · intro p hp
      obtain ⟨hleft, hright⟩ := part_of_inside hxy hparts hp
      exact ⟨hxy.1.part hleft, hxy.2.part hright⟩
  | _ =>
    refine ⟨.inr ?_, fun o ho => .inl ho, by simp⟩
    constructor <;> assumption

/-- All pairs that a successful comparison has met are taken as equal from the start, or match up to
these pairs. -/
theorem exists_bisimulation (h : equalFrom s opened work = true)
    (hwork : ∀ p ∈ work, BothComparable s halves p.1 p.2) :
    ∃ B : Value → Value → Prop, (∀ p ∈ work, B p.1 p.2) ∧ ∀ u v, B u v →
      BothComparable s halves u v ∧ (Assumed opened u v ∨ Matches s B u v) := by
  induction opened, work using comparison_induction s with
  | hdone opened => exact ⟨fun _ _ => False, by simp, by simp⟩
  | hstep opened x y work ih =>
    obtain ⟨opened', parts, hstep, h⟩ := (equalFrom_cons s opened x y work).1 h
    obtain ⟨hxy, hwork⟩ := List.forall_mem_cons.1 hwork
    obtain ⟨hmet, hopened, hparts⟩ := hstep.assumed_or_matches hxy
    obtain ⟨B, hmem, hB⟩ := ih opened' parts hstep h (List.forall_mem_append.2 ⟨hparts, hwork⟩)
    obtain ⟨hBparts, hBwork⟩ := List.forall_mem_append.1 hmem
    -- The pair at hand joins those met later, which include its parts.
    have hmet : Assumed opened x y ∨ Matches s (fun u v => (u = x ∧ v = y) ∨ B u v) x y :=
      hmet.imp_right fun h => h.imp fun u v _ _ huv => .inr (hBparts (u, v) huv)
    refine ⟨fun u v => (u = x ∧ v = y) ∨ B u v, ?_, ?_⟩
    · exact List.forall_mem_cons.2 ⟨.inl ⟨rfl, rfl⟩, fun p hp => .inr (hBwork p hp)⟩
    · rintro u v (⟨rfl, rfl⟩ | huv)
      · exact ⟨hxy, hmet⟩
      · obtain ⟨hboth, hassumed | hmatch⟩ := hB u v huv
        · refine ⟨hboth, ?_⟩
          obtain rfl | ⟨o, ho, rfl, rfl⟩ := hassumed
          · exact .inl (.inl rfl)
          · -- What a later step assumes was assumed before, or is the pair at hand.
            rcases hopened o ho with ho | ⟨rfl, rfl⟩
            · exact .inl (.inr ⟨o, ho, rfl, rfl⟩)
            · exact hmet
        · exact ⟨hboth, .inr (hmatch.imp fun _ _ _ _ h => .inr h)⟩

/-- Of values that match there is a step, and it leaves related parts. -/
theorem Matches.exists_compares (h : Matches s B x y) (hxy : BothComparable s halves x y)
    (opened : List Opened) :
    ∃ opened' parts, Compares s opened x y opened' parts ∧ ∀ p ∈ parts, B p.1 p.2 := by
  -- Two objects are answered for already, or they are opened and their parts go to the front.
  have hobject : ∀ o : Opened, x = o.left → y = o.right → ∃ opened' parts,
      Compares s opened x y opened' parts ∧ ∀ p ∈ parts, B p.1 p.2 := by
    rintro o rfl rfl
    by_cases hknown : o.left = o.right ∨ o ∈ opened
    · exact ⟨opened, [], .known o hknown, by simp⟩
    · obtain ⟨parts, hparts, hB⟩ := (holding_inside hxy).2 h
      exact ⟨o :: opened, parts, .opens o hknown hparts, hB⟩
  cases h with
  | nil => exact ⟨opened, [], .nil, by simp⟩
  | truth => exact ⟨opened, [], .truth, by simp⟩
  | integer n => exact ⟨opened, [], .integer n, by simp⟩
  | float h => exact ⟨opened, [], .float h, by simp⟩
  | char c => exact ⟨opened, [], .char c, by simp⟩
  | symbol name => exact ⟨opened, [], .symbol name, by simp⟩
  | type h => exact ⟨opened, [], .type h, by simp⟩
  | native h => exact ⟨opened, [], .native h, by simp⟩
  | string h => exact ⟨opened, [], .string h, by simp⟩
  | @quoted x y h => exact ⟨opened, [(x, y)], .quoted x y, by simpa using h⟩
  | @pair p q a b c d hcar hcdr =>
    by_cases hpq : p = q
    · subst hpq
      exact ⟨opened, [], .samePair p a b c d, by simp⟩
    · exact ⟨opened, [(a, c), (b, d)], .pair a b c d hpq, by simpa using And.intro hcar hcdr⟩
  | @vector a b => exact hobject (.vectors a b) rfl rfl
  | @struct a b => exact hobject (.structs a b) rfl rfl
  | @closure a b => exact hobject (.closures a b) rfl rfl

theorem equal_iff_bisimilar (hxy : BothComparable s halves x y) :
    x.equal s y = true ↔ Bisimilar s x y := by
  constructor
  · intro h
    obtain ⟨B, hwork, hB⟩ := exists_bisimulation h (by simpa using hxy)
    -- A value matches itself up to equality, so equality may join what was met.
    refine ⟨fun u v => BothComparable s halves u v ∧ (u = v ∨ B u v), ?_, hxy,
      .inr (hwork (x, y) (by simp))⟩
    rintro u v ⟨hboth, huv⟩
    have hsame : u = v →
        Matches s (fun u v => BothComparable s halves u v ∧ (u = v ∨ B u v)) u v := by
      rintro rfl
      exact .refl hboth.1 fun w hw => ⟨⟨hboth.1.part hw, hboth.1.part hw⟩, .inl rfl⟩
    rcases huv with huv | huv
    · exact hsame huv
    · obtain ⟨-, (huv | ⟨o, ho, -⟩) | hmatch⟩ := hB u v huv
      · exact hsame huv
      · cases ho
      · exact hmatch.imp fun w w' hw hw' h => ⟨⟨hboth.1.part hw, hboth.2.part hw'⟩, .inr h⟩
  · rintro ⟨B, hB, h⟩
    refine equalFrom_of_compares (B := fun u v => BothComparable s halves u v ∧ B u v) ?_
      (by simpa using ⟨hxy, h⟩)
    rintro opened u v ⟨hboth, huv⟩
    have hmatch : Matches s (fun u v => BothComparable s halves u v ∧ B u v) u v :=
      (hB u v huv).imp fun w w' hw hw' h => ⟨⟨hboth.1.part hw, hboth.2.part hw'⟩, h⟩
    exact hmatch.exists_compares hboth opened

/-- **Equality decides bisimilarity.** A comparison ends, whatever it compares, and of values that reach
no number that differs from itself it finds equal exactly those that are bisimilar. So equality of such
values is an equivalence. -/
theorem equal_decides_bisimilarity {z : Value} (hx : x.Comparable s halves)
    (hy : y.Comparable s halves) (hz : z.Comparable s halves) :
    WellFounded (Comparison.Later s) ∧ (x.equal s y = true ↔ Bisimilar s x y) ∧
      x.equal s x = true ∧ (x.equal s y = true → y.equal s x = true) ∧
      (x.equal s y = true → y.equal s z = true → x.equal s z = true) := by
  have hxy := equal_iff_bisimilar ⟨hx, hy⟩
  have hyz := equal_iff_bisimilar ⟨hy, hz⟩
  refine ⟨Comparison.later_wellFounded s, hxy, ?_, ?_, ?_⟩
  · exact (equal_iff_bisimilar ⟨hx, hx⟩).2 (.refl hx)
  · intro h
    exact (equal_iff_bisimilar ⟨hy, hx⟩).2 (hxy.1 h).symm
  · intro h h'
    exact (equal_iff_bisimilar ⟨hx, hz⟩).2 ((hxy.1 h).trans (hyz.1 h'))

/-- A loop of two vectors and a loop of one. From each vector one reads 1, 1, 1 without end. -/
def loops : Store :=
  { vectors := #[#[.integer 1, .vector 1], #[.integer 1, .vector 0], #[.integer 1, .vector 2]] }

theorem loops_comparable {a : Address} (ha : a < 3) :
    (vector a).Comparable loops fun _ => (.nil, .nil) := by
  have hreach : ∀ v, (vector a).Reaches loops v → v = .integer 1 ∨
      ∃ b : Nat, b < 3 ∧ v = .vector b := by
    intro v hv
    induction hv with
    | refl => exact .inr ⟨a, ha, rfl⟩
    | tail _ hpart ih =>
      obtain rfl | ⟨b, hb, rfl⟩ := ih
      · cases hpart
      · cases hpart with
        | item hv =>
          obtain rfl | rfl | rfl : b = 0 ∨ b = 1 ∨ b = 2 := by omega
          all_goals
            simp only [loops, Store.vector, Array.getD_eq_getD_getElem?] at hv
            obtain rfl | rfl : _ ∨ _ := by simpa using hv
            · exact .inl rfl
            · exact .inr ⟨_, by decide, rfl⟩
  constructor
  · intro x hx
    simpa using hreach _ hx
  · intro p a d hx
    simpa using hreach _ hx
  · intro a hx
    simpa [loops] using hreach _ hx
  · intro a hx
    simpa using hreach _ hx
  · intro a hx
    simpa using hreach _ hx

/-- Loops of different lengths are bisimilar. -/
theorem equal_decides_bisimilarity_loops :
    ((vector 0).Comparable loops fun _ => (.nil, .nil)) ∧
      ((vector 2).Comparable loops fun _ => (.nil, .nil)) ∧
      ((vector 0).equal loops (vector 2) = true ↔ Bisimilar loops (.vector 0) (.vector 2)) ∧
      (vector 0).equal loops (vector 2) = true := by
  have hcomparable : ∀ a < 3, (vector a).Comparable loops fun _ => (.nil, .nil) :=
    fun a ha => loops_comparable ha
  obtain ⟨-, hiff, -⟩ := equal_decides_bisimilarity (hcomparable 0 (by decide))
    (hcomparable 2 (by decide)) (hcomparable 1 (by decide))
  refine ⟨hcomparable 0 (by decide), hcomparable 2 (by decide), hiff, ?_⟩
  simp [equal, equalFrom, loops, pairUp]

end Success

end Value

end CurryLisp
