import CurryLisp.Proofs.EqualitySteps
import CurryLisp.Proofs.Renaming

/-!
# Equality does not see numbers

Renamed values in a renamed store are equal exactly if the values are (`Store.Renamed.equal`). A
renaming is injective, so the comparison opens the same objects on both sides, in the same order: each
step of the one comparison is a renamed step of the other one (`Compares.rename`, `Compares.of_rename`).
-/

namespace CurryLisp

variable {σ : Renaming} {s s' : Store}

namespace Value

/-- Comparisons with other numbers in them. -/
def renameWork (σ : Renaming) (work : List (Value × Value)) : List (Value × Value) :=
  work.map (Prod.map (rename σ) (rename σ))

theorem pairUp_rename (xs ys : List Value) :
    pairUp (xs.map (rename σ)) (ys.map (rename σ)) = (pairUp xs ys).map (renameWork σ) := by
  simp only [pairUp, List.length_map]
  split
  · simp [renameWork, List.zip_map]
  · rfl

theorem mapM_rename {α β γ δ : Type} {f : α → Option β} {g : γ → Option δ} (k : α → γ) (l : β → δ)
    (h : ∀ a, g (k a) = (f a).map l) (items : List α) :
    (items.map k).mapM g = (items.mapM f).map (List.map l) := by
  induction items with
  | nil => rfl
  | cons item rest ih =>
    rw [List.map_cons, List.mapM_cons, List.mapM_cons, ih, h]
    cases f item with
    | none => rfl
    | some b => cases rest.mapM f <;> rfl

theorem pairFields_rename (x y : Struct) :
    pairFields (x.rename σ) (y.rename σ) = (pairFields x y).map (renameWork σ) := by
  have hshape : (decide ((x.rename σ).name = (y.rename σ).name) &&
        decide ((x.rename σ).fields.size = (y.rename σ).fields.size)) =
      (decide (x.name = y.name) && decide (x.fields.size = y.fields.size)) := by
    simp only [Struct.rename, Table.size_map]
    rfl
  unfold pairFields
  rw [hshape]
  split
  · refine mapM_rename _ _ (fun entry => ?_) x.fields.entries
    obtain ⟨name, field⟩ := entry
    simp only [Struct.rename, Table.get?_map, Prod.map_fst, Prod.map_snd, id]
    cases y.fields.get? name with
    | none => rfl
    | some theirs =>
      show (if field.tag.same theirs.tag = true then
        some (field.value.rename σ, theirs.value.rename σ) else none) = Option.map _
          (if field.tag.same theirs.tag = true then some (field.value, theirs.value) else none)
      split <;> rfl
  · rfl

theorem pairClosures_rename (x y : Closure) :
    pairClosures (x.rename σ) (y.rename σ) = (pairClosures x y).map (renameWork σ) := by
  have hvalues : ∀ bound, (Bound.rename σ bound).map (·.2) = (bound.map (·.2)).map (rename σ) :=
    fun bound => by simp [Bound.rename]
  have hnames : ∀ bound, (Bound.rename σ bound).map (·.1) = bound.map (·.1) :=
    fun bound => by simp [Bound.rename]
  have hheads : (decide ((x.rename σ).params = (y.rename σ).params) &&
        decide ((x.rename σ).bound.map (·.1) = (y.rename σ).bound.map (·.1))) =
      (decide (x.params = y.params) && decide (x.bound.map (·.1) = y.bound.map (·.1))) := by
    simp only [Closure.rename, hnames]
    rfl
  unfold pairClosures
  rw [hheads]
  simp only [Closure.rename, hvalues, pairUp_rename]
  cases pairUp x.body y.body with
  | none => rfl
  | some body =>
    cases pairUp (x.bound.map (·.2)) (y.bound.map (·.2)) with
    | none => rfl
    | some bound =>
      simp only [Option.map_some, Option.bind_eq_bind, Option.bind_some]
      split <;> simp [renameWork]

theorem renameWork_cons (x y : Value) (work : List (Value × Value)) :
    renameWork σ ((x, y) :: work) = (x.rename σ, y.rename σ) :: renameWork σ work := rfl

theorem renameWork_append (inside work : List (Value × Value)) :
    renameWork σ (inside ++ work) = renameWork σ inside ++ renameWork σ work := List.map_append

end Value

/-! ## Objects under comparison -/

namespace Opened

open Value (renameWork)

/-- Objects under comparison with other numbers. -/
def rename (σ : Renaming) : Opened → Opened
  | vectors a b => vectors a b
  | structs a b => structs a b
  | closures a b => closures (σ.address a) (σ.address b)

theorem rename_injective (σ : Renaming) : Function.Injective (rename σ) := by
  intro o o' h
  cases o <;> cases o' <;> simp_all [rename, σ.address_injective.eq_iff]

theorem mem_rename {o : Opened} {opened : List Opened} :
    o.rename σ ∈ opened.map (rename σ) ↔ o ∈ opened := by
  rw [List.mem_map]
  refine ⟨fun ⟨o', ho', heq⟩ => ?_, fun ho => ⟨o, ho, rfl⟩⟩
  rwa [← rename_injective σ heq]


theorem left_rename (o : Opened) : (o.rename σ).left = o.left.rename σ := by
  cases o <;> rfl

theorem right_rename (o : Opened) : (o.rename σ).right = o.right.rename σ := by
  cases o <;> rfl

theorem left_eq_right_rename (o : Opened) :
    (o.rename σ).left = (o.rename σ).right ↔ o.left = o.right := by
  cases o <;> simp [rename, left, right, σ.address_injective.eq_iff]

/-- What must be equal for the objects to be equal is renamed like the objects. -/
theorem inside_rename (h : s.Renamed σ s') (o : Opened) :
    (o.rename σ).inside s' = (o.inside s).map (renameWork σ) := by
  cases o with
  | vectors a b =>
    simp only [rename, inside, Value.insideVectors, h.vectors, Array.getElem?_map]
    cases s.vectors[a]? with
    | none => rfl
    | some xs =>
      cases s.vectors[b]? with
      | none => rfl
      | some ys => simp [Value.pairUp_rename]
  | structs a b =>
    simp only [rename, inside, Value.insideStructs, h.structs, Array.getElem?_map]
    cases s.structs[a]? with
    | none => rfl
    | some x =>
      cases s.structs[b]? with
      | none => rfl
      | some y => exact Value.pairFields_rename x y
  | closures a b =>
    simp only [rename, inside, Value.insideClosures, h.closures]
    cases s.closures[a]? with
    | none => rfl
    | some x =>
      cases s.closures[b]? with
      | none => rfl
      | some y => exact Value.pairClosures_rename x y

/-- Renamed values that are objects under comparison were objects before. -/
theorem exists_of_rename {x y : Value} {o : Opened} (hx : x.rename σ = o.left)
    (hy : y.rename σ = o.right) : ∃ o' : Opened, x = o'.left ∧ y = o'.right ∧ o = o'.rename σ := by
  cases o with
  | vectors a b =>
    cases x <;> cases hx
    cases y <;> cases hy
    exact ⟨.vectors a b, rfl, rfl, rfl⟩
  | structs a b =>
    cases x <;> cases hx
    cases y <;> cases hy
    exact ⟨.structs a b, rfl, rfl, rfl⟩
  | closures =>
    cases x <;> cases hx
    cases y <;> cases hy
    exact ⟨.closures _ _, rfl, rfl, rfl⟩

end Opened

/-! ## Steps -/

namespace Value

variable {x y : Value} {opened opened' : List Opened} {parts : List (Value × Value)}

/-- A step is also a step of the renamed comparison. -/
theorem Compares.rename (hs : s.Renamed σ s') (h : Compares s opened x y opened' parts) :
    Compares s' (opened.map (Opened.rename σ)) (x.rename σ) (y.rename σ)
      (opened'.map (Opened.rename σ)) (renameWork σ parts) := by
  cases h with
  | float h => exact .float h
  | type h => exact .type h
  | native h => exact .native h
  | string h => exact .string (by rwa [hs.text, hs.text])
  | pair a b c d hne => exact .pair _ _ _ _ (σ.stamp_injective.ne hne)
  | known o hknown =>
    rw [← o.left_rename, ← o.right_rename]
    exact .known _ (hknown.imp o.left_eq_right_rename.2 Opened.mem_rename.2)
  | opens o hnew hinside =>
    rw [← o.left_rename, ← o.right_rename]
    refine .opens _ (mt (Or.imp o.left_eq_right_rename.1 Opened.mem_rename.1) hnew) ?_
    rw [Opened.inside_rename hs, hinside]
    rfl
  | _ => constructor

/-- A renamed comparison has no other steps. -/
theorem Compares.of_rename (hs : s.Renamed σ s') {opened₁ : List Opened}
    {parts₁ : List (Value × Value)}
    (h : Compares s' (opened.map (Opened.rename σ)) (x.rename σ) (y.rename σ) opened₁ parts₁) :
    ∃ opened' parts, Compares s opened x y opened' parts ∧
      opened₁ = opened'.map (Opened.rename σ) ∧ parts₁ = renameWork σ parts := by
  -- A renaming changes no constructor, so the step determines those of the original values.
  generalize hx : x.rename σ = x₁ at h
  generalize hy : y.rename σ = y₁ at h
  cases h with
  | known o hknown =>
    obtain ⟨o, rfl, rfl, rfl⟩ := Opened.exists_of_rename hx hy
    have hknown := hknown.imp o.left_eq_right_rename.1 Opened.mem_rename.1
    exact ⟨opened, [], .known o hknown, rfl, rfl⟩
  | opens o hnew hinside =>
    obtain ⟨o, rfl, rfl, rfl⟩ := Opened.exists_of_rename hx hy
    rw [Opened.inside_rename hs] at hinside
    obtain ⟨parts, hparts, rfl⟩ := Option.map_eq_some_iff.1 hinside
    have hnew := mt (Or.imp o.left_eq_right_rename.2 Opened.mem_rename.2) hnew
    exact ⟨o :: opened, parts, .opens o hnew hparts, rfl, rfl⟩
  | string htext =>
    cases x <;> cases hx
    cases y <;> cases hy
    rw [hs.text, hs.text] at htext
    exact ⟨opened, [], .string htext, rfl, rfl⟩
  | samePair =>
    cases x <;> cases hx
    cases y with
    | pair q c d =>
      injection hy with hstamp
      cases σ.stamp_injective hstamp
      exact ⟨opened, [], .samePair _ _ _ _ _, rfl, rfl⟩
    | _ => cases hy
  | pair a b c d hne =>
    cases x <;> cases hx
    cases y <;> cases hy
    exact ⟨opened, _, .pair _ _ _ _ fun h => hne (congrArg σ.stamp h), rfl, rfl⟩
  | quoted =>
    cases x <;> cases hx
    cases y <;> cases hy
    exact ⟨opened, _, .quoted _ _, rfl, rfl⟩
  | _ =>
    cases x <;> cases hx
    cases y <;> cases hy
    exact ⟨opened, [], by constructor <;> assumption, rfl, rfl⟩

theorem equalFrom_rename (h : s.Renamed σ s') (opened : List Opened) (work : List (Value × Value)) :
    equalFrom s' (opened.map (Opened.rename σ)) (renameWork σ work) = equalFrom s opened work := by
  induction opened, work using comparison_induction s with
  | hdone opened => simp [renameWork, equalFrom]
  | hstep opened x y work ih =>
    rw [Bool.eq_iff_iff, renameWork_cons, equalFrom_cons, equalFrom_cons]
    constructor
    · rintro ⟨_, _, hrenamed, hrest⟩
      obtain ⟨opened', parts, hstep, rfl, rfl⟩ := hrenamed.of_rename h
      rw [← renameWork_append, ih opened' parts hstep] at hrest
      exact ⟨opened', parts, hstep, hrest⟩
    · rintro ⟨opened', parts, hstep, hrest⟩
      rw [← ih opened' parts hstep, renameWork_append] at hrest
      exact ⟨_, _, hstep.rename h, hrest⟩

end Value

theorem Store.Renamed.equal (h : s.Renamed σ s') (x y : Value) :
    (x.rename σ).equal s' (y.rename σ) = x.equal s y :=
  Value.equalFrom_rename h [] [(x, y)]

end CurryLisp
