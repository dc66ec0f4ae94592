import CurryLisp.Proofs.AheadOfTime
import CurryLisp.Proofs.Applying
import CurryLisp.Proofs.Bisimilarity
import CurryLisp.Proofs.EqualitySteps

/-!
# Calculations that are made again

A calculation looks at its arguments, at the types of structs, and at little else: the length of an
array, an element of it, or whatever is reached from two values that are compared. So it gives the same
value again where it reads the same again (`Operation.Rereads`), if this value is no new list.

Statements:

* `Value.equal_again`: a comparison has the same result while the objects stay that it can reach.
* `Operation.run_again`: **a calculation gives the same value where it reads the same**, and
  `Application.apply_again`: so does a call of the function.
-/

namespace CurryLisp

open SpecialForm (Visit)

/-! ## Objects that stay -/

namespace Value

/-- The string, vector or struct that the value is, if it is one, is the same in both stores. -/
def Stays (s s' : Store) : Value → Prop
  | string a => s'.texts[a]? = s.texts[a]?
  | vector a => s'.vectors[a]? = s.vectors[a]?
  | struct a => s'.structs[a]? = s.structs[a]?
  | _ => True

/-- The object that the value is, be it a closure, is the same in both stores. -/
def Remains (s s' : Store) (v : Value) : Prop :=
  v.Stays s s' ∧ ∀ a, v = .closure a → s'.closures[a]? = s.closures[a]?

variable {s s' : Store} {x y : Value} {opened opened' : List Opened}
  {parts work : List (Value × Value)}

theorem Remains.symm (h : x.Remains s s') : x.Remains s' s := by
  refine ⟨?_, fun a ha => (h.2 a ha).symm⟩
  have hstays := h.1
  cases x with
  | string | vector | struct => exact hstays.symm
  | _ => trivial

/-! ### What is compared inside two objects -/

theorem mem_of_pairUp {xs ys : List Value} (h : pairUp xs ys = some parts) {p : Value × Value}
    (hp : p ∈ parts) : p.1 ∈ xs ∧ p.2 ∈ ys := by
  unfold pairUp at h
  split at h
  · cases h
    exact List.of_mem_zip hp
  · cases h

/-- What a list of answers holds is one of the answers. -/
theorem exists_of_mem_mapM {α β : Type} {f : α → Option β} {xs : List α} {ys : List β}
    (h : xs.mapM f = some ys) {y : β} (hy : y ∈ ys) : ∃ x ∈ xs, f x = some y := by
  induction xs generalizing ys with
  | nil =>
    cases h
    cases hy
  | cons x xs ih =>
    simp only [List.mapM_cons, Option.bind_eq_bind, Option.bind_eq_some_iff] at h
    obtain ⟨first, hfirst, others, hothers, h⟩ := h
    cases h
    rcases List.mem_cons.1 hy with rfl | hy
    · exact ⟨x, List.mem_cons_self .., hfirst⟩
    · obtain ⟨x', hx', hfound⟩ := ih hothers hy
      exact ⟨x', List.mem_cons_of_mem _ hx', hfound⟩

/-- Each comparison inside two structs is one of two field values. -/
theorem mem_of_pairFields {x y : Struct} (h : pairFields x y = some parts) {p : Value × Value}
    (hp : p ∈ parts) : (∃ entry ∈ x.fields.entries, entry.2.value = p.1) ∧
      ∃ entry ∈ y.fields.entries, entry.2.value = p.2 := by
  unfold pairFields at h
  split at h
  · obtain ⟨mine, hmine, hfound⟩ := exists_of_mem_mapM h hp
    simp only [Option.bind_eq_bind, Option.bind_eq_some_iff] at hfound
    obtain ⟨theirs, htheirs, hfound⟩ := hfound
    split at hfound
    · cases hfound
      exact ⟨⟨mine, hmine, rfl⟩, _, Table.mem_of_lookup htheirs, rfl⟩
    · cases hfound
  · cases h

theorem mem_of_pairClosures {x y : Closure} (h : pairClosures x y = some parts) {p : Value × Value}
    (hp : p ∈ parts) : (p.1 ∈ x.body ∨ p.1 ∈ x.bound.map (·.2)) ∧
      (p.2 ∈ y.body ∨ p.2 ∈ y.bound.map (·.2)) := by
  unfold pairClosures at h
  simp only [Option.bind_eq_bind, Option.bind_eq_some_iff] at h
  obtain ⟨body, hbody, bound, hbound, h⟩ := h
  split at h
  · cases h
    rcases List.mem_append.1 hp with hp | hp
    · exact (mem_of_pairUp hbody hp).imp .inl .inl
    · exact (mem_of_pairUp hbound hp).imp .inr .inr
  · cases h

/-- What must be equal inside two objects stands in them. -/
theorem part_of_opened {o : Opened} (h : o.inside s = some parts) {p : Value × Value}
    (hp : p ∈ parts) : Part s o.left p.1 ∧ Part s o.right p.2 := by
  cases o with
  | vectors a b =>
    simp only [Opened.inside, insideVectors, Option.bind_eq_some_iff] at h
    obtain ⟨xs, ha, ys, hb, h⟩ := h
    obtain ⟨hx, hy⟩ := mem_of_pairUp h hp
    refine ⟨.item ?_, .item ?_⟩
    · rw [Store.vector, Array.getD_eq_getD_getElem?, ha]
      exact Array.mem_toList_iff.1 hx
    · rw [Store.vector, Array.getD_eq_getD_getElem?, hb]
      exact Array.mem_toList_iff.1 hy
  | structs a b =>
    simp only [Opened.inside, insideStructs, Option.bind_eq_some_iff] at h
    obtain ⟨x, ha, y, hb, h⟩ := h
    obtain ⟨⟨mine, hmine, hleft⟩, theirs, htheirs, hright⟩ := mem_of_pairFields h hp
    rw [← hleft, ← hright]
    refine ⟨.field ?_, .field ?_⟩
    · rw [Store.struct, Array.getD_eq_getD_getElem?, ha]
      exact hmine
    · rw [Store.struct, Array.getD_eq_getD_getElem?, hb]
      exact htheirs
  | closures a b =>
    simp only [Opened.inside, insideClosures, Option.bind_eq_some_iff] at h
    obtain ⟨x, ha, y, hb, h⟩ := h
    have hclosure : ∀ {k : Address} {c : Closure} {v : Value}, s.closures[k]? = some c →
        v ∈ c.body ∨ v ∈ c.bound.map (·.2) → Part s (.closure k) v := by
      intro k c v hk hv
      have hc : s.closure k = c := by
        rw [Store.closure, Array.getD_eq_getD_getElem?, hk]
        rfl
      rw [← hc] at hv
      rcases hv with hv | hv
      · exact .body hv
      · obtain ⟨entry, hentry, rfl⟩ := List.mem_map.1 hv
        exact .bound hentry
    exact (mem_of_pairClosures h hp).imp (hclosure ha) (hclosure hb)

/-- What a step leaves to compare stands in what it has compared. -/
theorem Compares.part (h : Compares s opened x y opened' parts) {p : Value × Value} (hp : p ∈ parts) :
    Part s x p.1 ∧ Part s y p.2 := by
  cases h with
  | quoted x y =>
    obtain rfl := List.mem_singleton.1 hp
    exact ⟨.quoted _, .quoted _⟩
  | pair a b c d hpq =>
    rcases List.mem_cons.1 hp with rfl | hp
    · exact ⟨.car .., .car ..⟩
    · obtain rfl := List.mem_singleton.1 hp
      exact ⟨.cdr .., .cdr ..⟩
  | opens o hnew hinside => exact part_of_opened hinside hp
  | _ => cases hp

/-! ### Comparisons that are made again -/

/-- A step looks at the two objects and at no other. -/
theorem Compares.again (h : Compares s opened x y opened' parts) (hx : x.Remains s s')
    (hy : y.Remains s s') : Compares s' opened x y opened' parts := by
  cases h with
  | string htext =>
    refine .string ?_
    have hx' : s'.texts[_]? = s.texts[_]? := hx.1
    have hy' : s'.texts[_]? = s.texts[_]? := hy.1
    simpa only [Store.text, Array.getD_eq_getD_getElem?, hx', hy'] using htext
  | opens o hnew hinside =>
    refine .opens o hnew (.trans ?_ hinside)
    cases o with
    | vectors a b =>
      have hx' : s'.vectors[a]? = s.vectors[a]? := hx.1
      have hy' : s'.vectors[b]? = s.vectors[b]? := hy.1
      simp only [Opened.inside, insideVectors, hx', hy']
    | structs a b =>
      have hx' : s'.structs[a]? = s.structs[a]? := hx.1
      have hy' : s'.structs[b]? = s.structs[b]? := hy.1
      simp only [Opened.inside, insideStructs, hx', hy']
    | closures a b => simp only [Opened.inside, insideClosures, hx.2 a rfl, hy.2 b rfl]
  | known o hknown => exact .known o hknown
  | nil | truth | integer | char | symbol => constructor
  | float h => exact .float h
  | type h => exact .type h
  | native h => exact .native h
  | quoted x y => exact .quoted x y
  | samePair p a b c d => exact .samePair p a b c d
  | pair a b c d h => exact .pair a b c d h

theorem equalFrom_again (hwork : ∀ p ∈ work, ∀ v, p.1.Reaches s v ∨ p.2.Reaches s v → v.Remains s s') :
    equalFrom s' opened work = equalFrom s opened work := by
  induction opened, work using comparison_induction s with
  | hdone opened => rw [equalFrom, equalFrom]
  | hstep opened x y work ih =>
    obtain ⟨hxy, hwork⟩ := List.forall_mem_cons.1 hwork
    have hx := hxy x (.inl .refl)
    have hy := hxy y (.inr .refl)
    have hrest : ∀ opened' parts, Compares s opened x y opened' parts →
        equalFrom s' opened' (parts ++ work) = equalFrom s opened' (parts ++ work) := by
      intro opened' parts hstep
      refine ih opened' parts hstep (List.forall_mem_append.2 ⟨fun p hp v hv => ?_, hwork⟩)
      obtain ⟨hleft, hright⟩ := hstep.part hp
      exact hxy v (hv.imp (·.head hleft) (·.head hright))
    rw [Bool.eq_iff_iff, equalFrom_cons, equalFrom_cons]
    constructor
    · rintro ⟨opened', parts, hstep, h⟩
      have hstep' := hstep.again hx.symm hy.symm
      exact ⟨opened', parts, hstep', by rwa [← hrest opened' parts hstep']⟩
    · rintro ⟨opened', parts, hstep, h⟩
      exact ⟨opened', parts, hstep.again hx hy, by rwa [hrest opened' parts hstep]⟩

/-- **A comparison has the same result while the objects stay that it can reach.** -/
theorem equal_again (h : ∀ v, x.Reaches s v ∨ y.Reaches s v → v.Remains s s') :
    x.equal s' y = x.equal s y := by
  refine equalFrom_again fun p hp => ?_
  obtain rfl := List.mem_singleton.1 hp
  exact h

end Value

/-! ## What calculations read -/

/-- A calculation with these arguments reads the same of the objects in both stores, apart from the
types of structs, which never change. -/
def Operation.Rereads (s s' : Store) (op : Operation) (args : List Value) : Prop :=
  match op, args with
  | .length, [.string a] => (s'.text a).length = (s.text a).length
  | .length, [.vector a] => (s'.vector a).size = (s.vector a).size
  | .elementAt, [.string a, .integer n] =>
    (s'.text a).toList[n.toInt.toNat]? = (s.text a).toList[n.toInt.toNat]?
  | .elementAt, [.vector a, .integer n] =>
    (s'.vector a)[n.toInt.toNat]? = (s.vector a)[n.toInt.toNat]?
  | .equal, [x, y] => ∀ v, x.Reaches s v ∨ y.Reaches s v → v.Stays s s'
  | _, _ => True

section Again

variable {s s' : Store} {args : List Value} {v : Value}

theorem operands_again {name : String} {number? : Value → Option Number} {p : Number × Number}
    (h : Number.operands s name number? args = .ok p) :
    Number.operands s' name number? args = .ok p := by
  unfold Number.operands at h
  split at h
  · split at h
    · next hx hy =>
      rw [Number.operands, hx, hy]
      exact h
    · cases h
  · cases h

theorem combine_again {name : String} {exact : Int → Int → Int} {floats : Float → Float → Float}
    (h : Number.combine s name exact floats args = .ok v) :
    Number.combine s' name exact floats args = .ok v := by
  obtain ⟨numbers, hnumbers, h⟩ := exists_of_bind_eq_ok h
  unfold Number.combine
  rw [operands_again hnumbers]
  exact h

theorem divide_again (h : Number.divide s args = .ok v) : Number.divide s' args = .ok v := by
  unfold Number.divide at h ⊢
  split at h
  · cases h
  · exact combine_again h

theorem compare_again {name : String} {integers : Int64 → Int64 → Bool}
    {floats : Float → Float → Bool} (h : Number.compare s name integers floats args = .ok v) :
    Number.compare s' name integers floats args = .ok v := by
  obtain ⟨numbers, hnumbers, h⟩ := exists_of_bind_eq_ok h
  unfold Number.compare
  rw [operands_again hnumbers]
  exact h

theorem toInteger_again (h : Number.toInteger s args = .ok v) : Number.toInteger s' args = .ok v := by
  unfold Number.toInteger at h
  split at h
  · cases h
  · exact h
  · exact h
  · split at h
    · split at h
      · next hx =>
        unfold Number.toInteger
        dsimp only
        rw [hx]
        exact h
      · cases h
    · cases h

theorem charOfInteger_again {w : Value} (h : Number.charOfInteger s w = .ok v) :
    Number.charOfInteger s' w = .ok v := by
  unfold Number.charOfInteger at h
  split at h
  · exact h
  · cases h

theorem toCharacter_again (h : Number.toCharacter s args = .ok v) :
    Number.toCharacter s' args = .ok v := by
  unfold Number.toCharacter at h ⊢
  split at h
  · cases h
  · exact h
  · obtain ⟨n, hn, h⟩ := exists_of_bind_eq_ok h
    rw [toInteger_again hn]
    exact charOfInteger_again h
  · exact charOfInteger_again h

theorem length_again (hreads : Operation.length.Rereads s s' args)
    (h : Builtin.length s args = .ok v) : Builtin.length s' args = .ok v := by
  unfold Builtin.length at h ⊢
  split at h
  · next w =>
    cases w with
    | string a =>
      have hlength : (s'.text a).length = (s.text a).length := hreads
      dsimp only at h ⊢
      rw [hlength]
      exact h
    | vector a =>
      have hsize : (s'.vector a).size = (s.vector a).size := hreads
      dsimp only at h ⊢
      rw [hsize]
      exact h
    | nil => exact h
    | pair stamp car cdr =>
      dsimp only at h ⊢
      cases hitems : (Value.pair stamp car cdr).toList? with
      | none =>
        rw [hitems] at h
        cases h
      | some items =>
        rw [hitems] at h
        exact h
    | _ => cases h
  · cases h

/-- An index is in the range of another array that has an element there. -/
theorem arrayIndex_again {name : String} {n : Int64} {length i : Nat} (length' : Nat)
    (h : Builtin.arrayIndex name (.integer n) length = .ok i)
    (hlength : n.toInt.toNat < length → n.toInt.toNat < length') :
    i = n.toInt.toNat ∧ Builtin.arrayIndex name (.integer n) length' = .ok i := by
  unfold Builtin.arrayIndex at h ⊢
  dsimp only at h ⊢
  split at h
  · next hrange =>
    cases h
    have hlt := hlength (by omega)
    exact ⟨rfl, if_pos (by omega)⟩
  · cases h

theorem elementAt_again (hreads : Operation.elementAt.Rereads s s' args)
    (h : Builtin.elementAt s args = .ok v) : Builtin.elementAt s' args = .ok v := by
  unfold Builtin.elementAt at h ⊢
  split at h
  · next array index =>
    cases array with
    | vector a =>
      obtain ⟨i, hi, h⟩ := exists_of_bind_eq_ok h
      cases index with
      | integer n =>
        have hitem : (s'.vector a)[n.toInt.toNat]? = (s.vector a)[n.toInt.toNat]? := hreads
        obtain ⟨rfl, hi'⟩ := arrayIndex_again (s'.vector a).size hi fun hlt => by
          rw [Array.getElem?_eq_getElem hlt] at hitem
          exact (Array.getElem?_eq_some_iff.1 hitem).1
        dsimp only
        rw [hi']
        show Except.ok ((s'.vector a).getD _ .nil) = .ok v
        rw [Array.getD_eq_getD_getElem?, hitem, ← Array.getD_eq_getD_getElem?]
        exact h
      | _ => cases hi
    | string a =>
      obtain ⟨i, hi, h⟩ := exists_of_bind_eq_ok h
      cases index with
      | integer n =>
        have hchar : (s'.text a).toList[n.toInt.toNat]? = (s.text a).toList[n.toInt.toNat]? := hreads
        obtain ⟨rfl, hi'⟩ := arrayIndex_again (s'.text a).toList.length hi fun hlt => by
          rw [List.getElem?_eq_getElem hlt] at hchar
          exact (List.getElem?_eq_some_iff.1 hchar).1
        dsimp only
        rw [hi']
        show Except.ok (Value.char ((s'.text a).toList.getD _ default)) = .ok v
        rw [List.getD_eq_getElem?_getD, hchar, ← List.getD_eq_getElem?_getD]
        exact h
      | _ => cases hi
    | _ => cases h
  · cases h

theorem equal_again (hreads : Operation.equal.Rereads s s' args)
    (hclosures : ∀ arg ∈ args, ∀ k, arg.Reaches s (.closure k) → s'.closures[k]? = s.closures[k]?)
    (h : Number.equal s args = .ok v) : Number.equal s' args = .ok v := by
  unfold Number.equal at h ⊢
  split at h
  · next x y =>
    have hsame : x.equal s' y = x.equal s y := by
      refine Value.equal_again fun v hv => ⟨hreads v hv, ?_⟩
      rintro k rfl
      rcases hv with hv | hv
      · exact hclosures x (by simp) k hv
      · exact hclosures y (by simp) k hv
    rw [hsame]
    exact h
  · cases h

theorem typeOf_again (htypes : ∀ arg ∈ args, arg.typeTag s' = arg.typeTag s) :
    Builtin.typeOf s' args = Builtin.typeOf s args := by
  unfold Builtin.typeOf
  split
  · rw [htypes _ (List.mem_cons_self ..)]
  · rfl

theorem isType_again (htypes : ∀ arg ∈ args, arg.typeTag s' = arg.typeTag s) :
    Builtin.isType s' args = Builtin.isType s args := by
  unfold Builtin.isType
  split
  · rw [Value.hasType, Value.hasType, htypes _ (by simp)]
  · rfl

/-- The arguments have the types that they had before, what the operation looks at is as it was, and so
are the closures that the arguments reach. -/
structure Operation.Unchanged (s s' : Store) (op : Operation) (args : List Value) : Prop where
  types : ∀ arg ∈ args, arg.typeTag s' = arg.typeTag s
  rereads : op.Rereads s s' args
  closures : ∀ arg ∈ args, ∀ k, arg.Reaches s (.closure k) → s'.closures[k]? = s.closures[k]?

/-- A question that was answered has the same answer then. -/
theorem Operation.ask_again {op : Operation} (hop : op.isQuestion = true)
    (h : op.Unchanged s s' args) :
    ∃ f : Store → Except Error Value, (∀ visit, op.run visit args = Eval.ask f) ∧
      ∀ v, f s = .ok v → f s' = .ok v := by
  cases op
  -- Questions are the operations that are left, and each of them asks by definition.
  all_goals cases hop
  all_goals refine ⟨_, fun _ => by rw [Operation.run], fun v hv => ?_⟩
  case length => exact length_again h.rereads hv
  case add | subtract | multiply => exact combine_again hv
  case divide => exact divide_again hv
  case less | greater => exact compare_again hv
  case equal => exact equal_again h.rereads h.closures hv
  case toInteger => exact toInteger_again hv
  case toCharacter => exact toCharacter_again hv
  case typeOf => exact (typeOf_again h.types).trans hv
  case isType => exact (isType_again h.types).trans hv
  case elementAt => exact elementAt_again h.rereads hv
  case modulo | negate | toFloat | math => exact hv

/-- **A calculation gives the same value where it reads the same**, and changes nothing, if this value
stands for no code. -/
theorem Operation.run_again {op : Operation} (hop : op.isCalculation = true) {visit visit' : Visit}
    {m m₁ m' : Machine} (h : op.run visit args m = (.ok v, m₁)) (hv : v.isResidual = false)
    (hsame : op.Unchanged m.store m'.store args) :
    m₁ = m ∧ op.run visit' args m' = (.ok v, m') := by
  have hquestion : op.isQuestion = true → m₁ = m ∧ op.run visit' args m' = (.ok v, m') := by
    intro hop
    obtain ⟨f, hrun, hagain⟩ := ask_again hop hsame
    rw [hrun] at h ⊢
    obtain ⟨hf, rfl⟩ := Prod.mk.inj h
    exact ⟨rfl, congrArg (·, m') (hagain v hf)⟩
  cases op with
  | cons =>
    change Eval.onStore (fun s => Builtin.cons s args) m = _ at h
    unfold Eval.onStore at h
    split at h
    · next hcons =>
      cases h
      obtain ⟨car, cdr, -, rfl, -⟩ := Builtin.cons_ok hcons
      cases hv
    · cases h
  | list =>
    cases args with
    | nil =>
      cases h
      exact ⟨rfl, rfl⟩
    | cons arg args =>
      cases h
      cases hv
  | car | cdr | isNil | last =>
    cases h
    exact ⟨rfl, rfl⟩
  | length | add | subtract | multiply | divide | modulo | equal | less | greater | negate
  | toInteger | toFloat | toCharacter | typeOf | isType | elementAt | math => exact hquestion rfl
  | _ => cases hop

/-- The same of a call of a native function with enough arguments. -/
theorem Application.apply_again {f : NativeFunction} (hop : f.operation.isCalculation = true)
    (hsome : args ≠ [] ∨ f.arity = 0) (harity : f.arity ≤ args.length)
    (hvariadic : args.length ≤ f.arity ∨ f.variadic = true) {visit visit' : Visit}
    {m m₁ m' : Machine} (hcheck : (Callable.native f).checkArguments m.store args = .ok ())
    (h : perform visit f.operation args m = (.ok v, m₁)) (hv : v.isResidual = false)
    (hsame : f.operation.Unchanged m.store m'.store args) :
    m₁ = m ∧ apply visit' (.native f) args m' = (.ok v, m') := by
  have happly : f.operation ≠ .apply := fun h => by rw [h] at hop; cases hop
  have hhost : ∀ slot, f.operation ≠ .host slot := fun slot h => by rw [h] at hop; cases hop
  have hcheck' : (Callable.native f).checkArguments m'.store args = .ok () := by
    rw [Callable.checkArguments_congr f (List.map_congr_left hsame.types)]
    exact hcheck
  rw [perform_run _ happly hhost] at h
  rw [apply_accepted visit' hsome harity hvariadic hcheck', perform_run _ happly hhost]
  exact Operation.run_again hop h hv hsame

end Again

end CurryLisp
