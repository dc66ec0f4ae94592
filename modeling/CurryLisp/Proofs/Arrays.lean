import CurryLisp.Proofs.Arithmetic
import CurryLisp.Proofs.NativeCurrying

/-!
# The laws of arrays

A vector and a string are arrays alike. `Store.elements` lists what an array holds: the items of a
vector, the characters of a string. What the functions on arrays do is said about this list, so that
there is one law for both, and none of them mentions how a text is stored.

The functions on arrays look at the shared objects and at nothing else (`Builtin.Acts`). A write
changes the elements of the array it is given and nothing else (`Store.OnlyChanges`). Whatever name,
vector, struct or closure leads to that array holds its address, so it leads to the new elements.

Statements:

* `Builtin.elementAt_eq`, `Builtin.length_eq`: what is answered depends on the elements.
* `Builtin.setElement_ok`, `Builtin.append_ok`, `Builtin.exists_copy`: what is written and made.
* `Builtin.Acts.call_error`: a call that fails changes nothing, whatever its arguments.
* `ArrayWrite.elements_runAll`: writes to other arrays.
* `Builtin.array_laws`: **the laws of arrays**.
-/

namespace CurryLisp

open SpecialForm (Visit)

/-! ## Elements -/

/-- The items of a vector, or the characters of a string. -/
def Store.elements (s : Store) : Value → List Value
  | .vector a => (s.vector a).toList
  | .string a => (s.text a).toList.map .char
  | _ => []

/-- A vector or a string that is among the objects. -/
def Value.IsArray (s : Store) : Value → Prop
  | vector a => a < s.vectors.size
  | string a => a < s.texts.size
  | _ => False

/-- Whether an array can hold an element: a string holds characters. -/
def Value.Accepts : Value → Value → Prop
  | vector _, _ => True
  | string _, char _ => True
  | _, _ => False

/-- What is put at the end of an array: one element or, for a string, all characters of a string. -/
def Store.appended? (s : Store) : Value → Value → Option (List Value)
  | .vector _, v => some [v]
  | .string _, .char c => some [.char c]
  | .string _, .string b => some (s.elements (.string b))
  | _, _ => none

/-- From `s` to `s'` at most the elements of `array` change. -/
structure Store.OnlyChanges (array : Value) (s s' : Store) : Prop where
  others : ∀ w, w ≠ array → s'.elements w = s.elements w
  isArray : ∀ w : Value, w.IsArray s' ↔ w.IsArray s
  structs : s'.structs = s.structs
  closures : s'.closures = s.closures
  constants : s'.constants = s.constants
  hosts : s'.hosts = s.hosts
  pairs : s'.pairs = s.pairs

namespace Store.OnlyChanges

variable {array : Value} {s : Store}

/-- A write to a vector. -/
theorem modify (a : Address) (f : Array Value → Array Value) (s : Store) :
    OnlyChanges (.vector a) s { s with vectors := s.vectors.modify a f } where
  others w hw := by
    cases w with
    | vector b =>
      have hne : a ≠ b := fun h => hw (h ▸ rfl)
      simp [elements, Store.vector, Array.getD_eq_getD_getElem?, Array.getElem?_modify, hne]
    | _ => rfl
  isArray w := by
    cases w with
    | vector b => simp [Value.IsArray]
    | _ => exact .rfl
  structs := rfl
  closures := rfl
  constants := rfl
  hosts := rfl
  pairs := rfl

/-- A write to a string. -/
theorem setText (a : Address) (text : String) (s : Store) :
    OnlyChanges (.string a) s (s.setText a text) where
  others w hw := by
    cases w with
    | string b =>
      have hne : a ≠ b := fun h => hw (h ▸ rfl)
      simp [elements, Store.setText, Store.text, Array.getD_eq_getD_getElem?,
        Array.getElem?_setIfInBounds_ne hne]
    | _ => rfl
  isArray w := by
    cases w with
    | string b => simp [Value.IsArray, Store.setText]
    | _ => exact .rfl
  structs := rfl
  closures := rfl
  constants := rfl
  hosts := rfl
  pairs := rfl

end Store.OnlyChanges

/-- The array among the objects is the one that was changed. -/
theorem Store.elements_modify {a : Address} {s : Store} (ha : a < s.vectors.size)
    (f : Array Value → Array Value) :
    ({ s with vectors := s.vectors.modify a f } : Store).elements (.vector a) =
      (f (s.vector a)).toList := by
  simp [elements, Store.vector, ha, Array.getElem_modify]

theorem Store.elements_setText {a : Address} {s : Store} (ha : a < s.texts.size) (text : String) :
    (s.setText a text).elements (.string a) = text.toList.map .char := by
  simp [elements, Store.setText, Store.text, Array.getD_eq_getD_getElem?, ha]

/-- What has elements is an array among the objects. -/
theorem Store.isArray_of_length_pos {s : Store} {array : Value}
    (h : 0 < (s.elements array).length) : array.IsArray s := by
  by_contra hout
  have hempty : s.elements array = [] := by
    cases array with
    | vector a => simp_all [elements, Store.vector, Value.IsArray]
    | string a => simp_all [elements, Store.text, Value.IsArray]
    | _ => rfl
  simp [hempty] at h

theorem Value.IsArray.hasType {s : Store} {array : Value} (h : array.IsArray s) :
    array.hasType s BaseType.array.tag = true := by
  cases array with
  | vector a => exact (by decide : BaseType.array.tag.isSupertypeOf BaseType.vector.tag = true)
  | string a => exact (by decide : BaseType.array.tag.isSupertypeOf BaseType.string.tag = true)
  | _ => exact absurd h (by simp [Value.IsArray])

namespace Builtin

/-! ## Indexes -/

/-- An index of an array of `n` elements. -/
def InBounds (i : Int64) (n : Nat) : Prop := 0 ≤ i.toInt ∧ i.toInt < n

theorem arrayIndex_ok_iff {name : String} {index : Value} {n k : Nat} :
    arrayIndex name index n = .ok k ↔
      ∃ i : Int64, index = .integer i ∧ InBounds i n ∧ i.toInt.toNat = k := by
  unfold arrayIndex InBounds
  split
  · next i =>
    split
    · next h => simp [h]
    · next h =>
      refine ⟨nofun, ?_⟩
      rintro ⟨_, hi, hbounds, -⟩
      cases hi
      exact absurd hbounds h
  · next hinteger =>
    refine ⟨nofun, ?_⟩
    rintro ⟨i, rfl, -⟩
    exact absurd rfl (hinteger i)

theorem InBounds.toNat_lt {i : Int64} {n : Nat} (h : InBounds i n) : i.toInt.toNat < n := by
  unfold InBounds at h
  omega

theorem InBounds.pos {i : Int64} {n : Nat} (h : InBounds i n) : 0 < n :=
  Nat.zero_lt_of_lt h.toNat_lt

/-- Two indexes at one place are equal. -/
theorem InBounds.toNat_inj {i j : Int64} {n : Nat} (hi : InBounds i n) (hj : InBounds j n)
    (h : i.toInt.toNat = j.toInt.toNat) : i = j := by
  refine Int64.toInt_inj.1 ?_
  unfold InBounds at hi hj
  omega

/-! ## Reading -/

section Reading

variable {s s' : Store} {array : Value}

/-- The element at an index. -/
theorem elementAt_eq (harray : array.IsArray s) (index : Value) :
    elementAt s [array, index] =
      (arrayIndex "aref" index (s.elements array).length).map
        fun i => (s.elements array).getD i .nil := by
  cases array with
  | vector a =>
    show (arrayIndex "aref" index (s.vector a).size).map (fun i => (s.vector a).getD i .nil) = _
    simp [Store.elements, Array.getD_eq_getD_getElem?, List.getD_eq_getElem?_getD]
  | string a =>
    show (arrayIndex "aref" index (s.text a).toList.length).map
      (fun i => Value.char ((s.text a).toList.getD i default)) = _
    simp only [Store.elements, List.length_map]
    cases hindex : arrayIndex "aref" index (s.text a).toList.length with
    | error e => rfl
    | ok i =>
      obtain ⟨j, -, hbounds, hi⟩ := arrayIndex_ok_iff.1 hindex
      have hlt : i < (s.text a).toList.length := hi ▸ hbounds.toNat_lt
      show Except.ok (Value.char ((s.text a).toList.getD i default)) =
        .ok (((s.text a).toList.map Value.char).getD i .nil)
      rw [List.getD_eq_getElem?_getD, List.getD_eq_getElem?_getD, List.getElem?_map,
        List.getElem?_eq_getElem hlt]
      rfl
  | _ => exact absurd harray (by simp [Value.IsArray])

theorem elementAt_ok_iff (harray : array.IsArray s) {i : Int64} {v : Value} :
    elementAt s [array, .integer i] = .ok v ↔
      0 ≤ i.toInt ∧ (s.elements array)[i.toInt.toNat]? = some v := by
  rw [elementAt_eq harray]
  cases hindex : arrayIndex "aref" (.integer i) (s.elements array).length with
  | error e =>
    refine ⟨nofun, ?_⟩
    rintro ⟨hnonneg, hv⟩
    have hlt := (List.getElem?_eq_some_iff.1 hv).1
    rw [arrayIndex_ok_iff.2 ⟨i, rfl, ⟨hnonneg, by omega⟩, rfl⟩] at hindex
    cases hindex
  | ok k =>
    obtain ⟨j, hj, hbounds, hk⟩ := arrayIndex_ok_iff.1 hindex
    cases hj
    have hlt : k < (s.elements array).length := hk ▸ hbounds.toNat_lt
    rw [hk, List.getElem?_eq_getElem hlt]
    simp [Except.map, List.getD_eq_getElem?_getD, hlt, hbounds.1]

/-- The number of elements, if it is an integer. -/
theorem length_eq (harray : array.IsArray s) :
    length s [array] =
      match Decimal.int64? (s.elements array).length with
      | some n => .ok (.integer n)
      | none => .error (.failure (toString (s.elements array).length ++
          " does not fit in an integer")) := by
  cases array with
  | vector a =>
    show (match Decimal.int64? (s.vector a).size with | some n => _ | none => _) = _
    simp only [Store.elements, Array.length_toList]
    rfl
  | string a =>
    show (match Decimal.int64? (s.text a).length with | some n => _ | none => _) = _
    simp only [Store.elements, List.length_map, String.length_toList]
    rfl
  | _ => exact absurd harray (by simp [Value.IsArray])

/-- Elements that stay are read as before. -/
theorem elementAt_congr {index : Value} (harray : array.IsArray s) (harray' : array.IsArray s')
    (hlength : (s'.elements array).length = (s.elements array).length)
    (hsame : ∀ i : Int64, index = .integer i → InBounds i (s.elements array).length →
      (s'.elements array)[i.toInt.toNat]? = (s.elements array)[i.toInt.toNat]?) :
    elementAt s' [array, index] = elementAt s [array, index] := by
  rw [elementAt_eq harray, elementAt_eq harray', hlength]
  cases hindex : arrayIndex "aref" index (s.elements array).length with
  | error e => rfl
  | ok k =>
    obtain ⟨i, hi, hbounds, rfl⟩ := arrayIndex_ok_iff.1 hindex
    simp only [Except.map, List.getD_eq_getElem?_getD, hsame i hi hbounds]

end Reading

/-! ## Writing -/

section Writing

variable {s s' : Store} {array index value w : Value}

theorem setElement_ok (h : setElement s [array, index, value] = .ok (w, s')) :
    w = value ∧ s.OnlyChanges array s' ∧ ∃ i : Int64, index = .integer i ∧
      InBounds i (s.elements array).length ∧ array.Accepts value ∧
      s'.elements array = (s.elements array).set i.toInt.toNat value := by
  rcases setElement_cases h with ⟨a, _, k, hargs, hindex, rfl⟩ | ⟨a, _, k, c, hargs, rfl, hindex, rfl⟩
  · obtain ⟨i, hi, hbounds, rfl⟩ := arrayIndex_ok_iff.1 hindex
    cases hargs
    have hbounds : InBounds i (s.elements (.vector a)).length := by
      simpa [Store.elements] using hbounds
    refine ⟨rfl, .modify a _ s, i, hi, hbounds, trivial, ?_⟩
    rw [Store.setItem, Store.elements_modify (Store.isArray_of_length_pos hbounds.pos),
      Array.toList_setIfInBounds]
    rfl
  · obtain ⟨i, hi, hbounds, rfl⟩ := arrayIndex_ok_iff.1 hindex
    cases hargs
    have hbounds : InBounds i (s.elements (.string a)).length := by
      simpa [Store.elements] using hbounds
    refine ⟨rfl, .setText a _ s, i, hi, hbounds, trivial, ?_⟩
    rw [Store.elements_setText (Store.isArray_of_length_pos hbounds.pos),
      String.toList_ofList, List.map_set]
    rfl

theorem exists_setElement {i : Int64} (hbounds : InBounds i (s.elements array).length)
    (haccepts : array.Accepts value) :
    ∃ s', setElement s [array, .integer i, value] = .ok (value, s') := by
  cases array with
  | vector a =>
    have hindex : arrayIndex "aset" (.integer i) (s.vector a).size = .ok i.toInt.toNat :=
      arrayIndex_ok_iff.2 ⟨i, rfl, by simpa [Store.elements] using hbounds, rfl⟩
    exact ⟨_, by simp only [setElement, hindex]; rfl⟩
  | string a =>
    cases value with
    | char c =>
      have hindex : arrayIndex "aset" (.integer i) (s.text a).toList.length = .ok i.toInt.toNat :=
        arrayIndex_ok_iff.2 ⟨i, rfl, by simpa [Store.elements] using hbounds, rfl⟩
      exact ⟨_, by simp only [setElement, hindex]; rfl⟩
    | _ => cases haccepts
  | _ => cases haccepts

theorem append_ok (h : append s [array, value] = .ok (w, s')) :
    w = array ∧ s.OnlyChanges array s' ∧ ∃ added, s.appended? array value = some added ∧
      (array.IsArray s → s'.elements array = s.elements array ++ added) := by
  cases array with
  | vector a =>
    cases h
    refine ⟨rfl, .modify a _ s, _, rfl, fun ha => ?_⟩
    rw [Store.pushItem, Store.elements_modify ha, Array.toList_push]
    rfl
  | string a =>
    cases value with
    | char c =>
      cases h
      refine ⟨rfl, .setText a _ s, _, rfl, fun ha => ?_⟩
      rw [Store.elements_setText ha, String.toList_push, List.map_append]
      rfl
    | string b =>
      cases h
      refine ⟨rfl, .setText a _ s, _, rfl, fun ha => ?_⟩
      rw [Store.elements_setText ha, String.toList_append, List.map_append]
      rfl
    | _ => cases h
  | _ => cases h

theorem exists_append {added : List Value} (h : s.appended? array value = some added) :
    ∃ s', append s [array, value] = .ok (array, s') := by
  cases array with
  | vector a => exact ⟨_, rfl⟩
  | string a =>
    cases value with
    | char c => exact ⟨_, rfl⟩
    | string b => exact ⟨_, rfl⟩
    | _ => cases h
  | _ => cases h

end Writing

end Builtin

/-! ## Copying -/

/-- `copy` is a new array in `s'`, of the kind and the elements of `array`; what there was in `s` is
as it was. -/
structure Store.CopiesArray (array copy : Value) (s s' : Store) : Prop where
  fresh : ¬copy.IsArray s
  isArray : copy.IsArray s'
  kind : copy.typeTag s' = array.typeTag s
  elements : s'.elements copy = s.elements array
  others : ∀ w, w ≠ copy → s'.elements w = s.elements w
  kept : ∀ w : Value, w.IsArray s → w.IsArray s'
  structs : s'.structs = s.structs
  closures : s'.closures = s.closures
  constants : s'.constants = s.constants
  hosts : s'.hosts = s.hosts
  pairs : s'.pairs = s.pairs

theorem Store.copies_newVector (s : Store) (a : Address) :
    s.CopiesArray (.vector a) (s.newVector (s.vector a)).1 (s.newVector (s.vector a)).2 where
  fresh := Nat.lt_irrefl s.vectors.size
  isArray := by simp [Value.IsArray, newVector]
  kind := rfl
  elements := by simp [elements, newVector, vector, Array.getD_eq_getD_getElem?]
  others w hw := by
    cases w with
    | vector b =>
      have hne : b ≠ s.vectors.size := fun h => hw (h ▸ rfl)
      simp [elements, newVector, vector, Array.getD_eq_getD_getElem?, Array.getElem?_push, hne]
    | _ => rfl
  kept w hw := by
    cases w with
    | vector b => simpa [Value.IsArray, newVector] using Nat.lt_succ_of_lt hw
    | _ => exact hw
  structs := rfl
  closures := rfl
  constants := rfl
  hosts := rfl
  pairs := rfl

theorem Store.copies_newText (s : Store) (a : Address) :
    s.CopiesArray (.string a) (s.newText (s.text a)).1 (s.newText (s.text a)).2 where
  fresh := Nat.lt_irrefl s.texts.size
  isArray := by simp [Value.IsArray, newText]
  kind := rfl
  elements := by simp [elements, newText, text, Array.getD_eq_getD_getElem?]
  others w hw := by
    cases w with
    | string b =>
      have hne : b ≠ s.texts.size := fun h => hw (h ▸ rfl)
      simp [elements, newText, text, Array.getD_eq_getD_getElem?, Array.getElem?_push, hne]
    | _ => rfl
  kept w hw := by
    cases w with
    | string b => simpa [Value.IsArray, newText] using Nat.lt_succ_of_lt hw
    | _ => exact hw
  structs := rfl
  closures := rfl
  constants := rfl
  hosts := rfl
  pairs := rfl

theorem Builtin.exists_copy {s : Store} {array : Value} (harray : array.IsArray s) :
    ∃ copied s', copy s [array] = .ok (copied, s') ∧ s.CopiesArray array copied s' := by
  cases array with
  | vector a => exact ⟨_, _, rfl, s.copies_newVector a⟩
  | string a => exact ⟨_, _, rfl, s.copies_newText a⟩
  | _ => exact absurd harray (by simp [Value.IsArray])

/-! ## Calls -/

namespace Builtin

/-- Applies a builtin function. -/
def call (visit : Visit) (name : String) (args : List Value) : Eval Value :=
  Application.apply visit (named name) args

/-- The builtin function `f`, of this name, needs its arguments and does `g` with the objects. -/
structure Acts (name : String) (f : NativeFunction) (g : Store → List Value → Outcome) : Prop where
  found : find? name = some f
  plain : f.isSpecialForm = false
  exact : f.variadic = false
  needs : 0 < f.arity
  performs : ∀ visit args,
    Application.perform visit f.operation args = Eval.onStore fun s => g s args

/-- A call with arguments that have their types does what the function does. -/
theorem outcome_of_hasType {f : NativeFunction} {g : Store → List Value → Outcome} {args : List Value}
    {s : Store} (h : ∀ slot ∈ f.types.zip args, slot.2.hasType s slot.1 = true) :
    f.outcome g args s = g s args := by
  rw [NativeFunction.outcome, Callable.checkArguments_ok (f := .native f) h]

theorem outcome_ok {f : NativeFunction} {g : Store → List Value → Outcome} {args : List Value}
    {s : Store} {made : Value × Store} (h : f.outcome g args s = .ok made) : g s args = .ok made := by
  unfold NativeFunction.outcome at h
  split at h
  · cases h
  · exact h

namespace Acts

variable {name : String} {f : NativeFunction} {g : Store → List Value → Outcome}
variable {visit : Visit} {args : List Value} {m m' : Machine} {w : Value}

/-- A question with as many arguments as it takes. -/
theorem asked {q : Store → List Value → Except Error Value} (found : find? name = some f)
    (plain : f.isSpecialForm = false) (exact : f.variadic = false) (needs : 0 < f.arity)
    (happly : f.operation ≠ .apply) (hhost : ∀ slot, f.operation ≠ .host slot)
    (hrun : ∀ visit args, f.operation.run visit args = Eval.ask fun s => q s args) :
    Acts name f (Operation.asked q) where
  found := found
  plain := plain
  exact := exact
  needs := needs
  performs visit args := by
    rw [Application.perform_run _ happly hhost, hrun, Operation.ask_eq_onStore]

theorem call_eq (h : Acts name f g) (hlength : args.length = f.arity) (m : Machine) :
    call visit name args m = Eval.onStore (f.outcome g args) m := by
  have hsome : args ≠ [] := List.ne_nil_of_length_pos (hlength ▸ h.needs)
  rw [call, named_eq h.found]
  exact Application.apply_performed (h.performs visit args) hsome hlength m

/-- A call that succeeds has done what the function does. -/
theorem of_call (h : Acts name f g) (hlength : args.length = f.arity)
    (hcall : call visit name args m = (.ok w, m')) :
    g m.store args = .ok (w, m'.store) ∧ m' = { m with store := m'.store } := by
  rw [h.call_eq hlength] at hcall
  cases hg : f.outcome g args m.store with
  | error e =>
    rw [Eval.onStore_of_error hg] at hcall
    cases hcall
  | ok made =>
    rw [Eval.onStore_of_ok hg] at hcall
    cases hcall
    exact ⟨outcome_ok hg, rfl⟩

/-- With arguments that have their types a call does what the function does. -/
theorem call_ok (h : Acts name f g) (hlength : args.length = f.arity)
    (htypes : ∀ slot ∈ f.types.zip args, slot.2.hasType m.store slot.1 = true) {s' : Store}
    (hg : g m.store args = .ok (w, s')) :
    call visit name args m = (.ok w, { m with store := s' }) := by
  rw [h.call_eq hlength, Eval.onStore_of_ok (by rw [outcome_of_hasType htypes, hg])]

/-- What is answered to a call is the answer to the question. -/
theorem answer {q : Store → List Value → Except Error Value} (h : Acts name f (Operation.asked q))
    (hlength : args.length = f.arity) (hcall : (call visit name args m).1 = .ok w) :
    q m.store args = .ok w := by
  have hcalled : call visit name args m = (.ok w, (call visit name args m).2) := Prod.ext hcall rfl
  have hasked := (h.of_call hlength hcalled).1
  unfold Operation.asked at hasked
  cases hq : q m.store args with
  | error e =>
    rw [hq] at hasked
    cases hasked
  | ok v =>
    rw [hq] at hasked
    exact congrArg (Except.ok ∘ Prod.fst) (Except.ok.inj hasked)

theorem answer_iff {q : Store → List Value → Except Error Value}
    (h : Acts name f (Operation.asked q)) (hlength : args.length = f.arity)
    (htypes : ∀ slot ∈ f.types.zip args, slot.2.hasType m.store slot.1 = true) :
    (call visit name args m).1 = .ok w ↔ q m.store args = .ok w := by
  refine ⟨h.answer hlength, fun hq => ?_⟩
  rw [h.call_ok hlength htypes (by rw [Operation.asked, hq]; rfl)]

/-- What a question answers depends on the types of the arguments and on its answer to them. -/
theorem call_congr {q : Store → List Value → Except Error Value}
    (h : Acts name f (Operation.asked q)) (hlength : args.length = f.arity)
    (hstructs : m'.store.structs = m.store.structs) (hq : q m'.store args = q m.store args) :
    (call visit name args m').1 = (call visit name args m).1 := by
  have hcheck : (Callable.native f).checkArguments m'.store args =
      (Callable.native f).checkArguments m.store args :=
    Callable.checkArguments_congr f
      (List.map_congr_left fun arg _ => Value.typeTag_of_structs hstructs arg)
  rw [h.call_eq hlength, h.call_eq hlength]
  unfold Eval.onStore NativeFunction.outcome Operation.asked
  rw [hcheck, hq]
  cases (Callable.native f).checkArguments m.store args with
  | error e => rfl
  | ok _ =>
    cases q m.store args with
    | error e => rfl
    | ok v => rfl

/-- A call of a question leaves the machine as it is. -/
theorem call_asked {q : Store → List Value → Except Error Value}
    (h : Acts name f (Operation.asked q)) (hlength : args.length = f.arity) (m : Machine) :
    (call visit name args m).2 = m := by
  rw [h.call_eq hlength]
  cases hg : f.outcome (Operation.asked q) args m.store with
  | error e => rw [Eval.onStore_of_error hg]
  | ok made =>
    have hsame : made.2 = m.store := by
      have hasked := outcome_ok hg
      unfold Operation.asked at hasked
      cases hq : q m.store args with
      | error e =>
        rw [hq] at hasked
        cases hasked
      | ok v =>
        rw [hq] at hasked
        cases hasked
        rfl
    rw [Eval.onStore_of_ok (a := made.1) (t := made.2) hg, hsame]

/-- **A call that fails changes nothing**, with any number of arguments. -/
theorem call_error (h : Acts name f g) {e : Error} (hcall : call visit name args m = (.error e, m')) :
    m' = m := by
  rcases Nat.lt_trichotomy args.length f.arity with hshort | hlength | hlong
  · -- Fewer arguments are accepted: the function is answered or curried.
    rw [call, named_eq h.found] at hcall
    cases args with
    | nil =>
      have hwaits : (([] : List Value).isEmpty && decide (0 < (Callable.native f).arity)) = true :=
        decide_eq_true h.needs
      rw [Application.apply, Eval.bind_apply, Eval.store_apply] at hcall
      dsimp only [Value.callable?] at hcall
      rw [if_pos hwaits] at hcall
      cases hcall
    | cons arg args =>
      obtain ⟨_, hcurry, -⟩ := Application.curryNative_awaits f m (Nat.le_of_lt hshort)
      rw [Application.apply_curryNative visit h.plain (by simp) hshort, hcurry] at hcall
      cases hcall
  -- All arguments: the outcome is an error or new objects, never both.
  · rw [h.call_eq hlength] at hcall
    cases hg : f.outcome g args m.store with
    | error e =>
      rw [Eval.onStore_of_error hg] at hcall
      cases hcall
      rfl
    | ok made =>
      rw [Eval.onStore_of_ok hg] at hcall
      cases hcall
  · have hsome : args ≠ [] := List.ne_nil_of_length_pos (Nat.zero_lt_of_lt hlong)
    have hrefused : (decide ((Callable.native f).arity < args.length) &&
        !(Callable.native f).variadic) = true :=
      Bool.and_eq_true_iff.2 ⟨decide_eq_true hlong, congrArg not h.exact⟩
    rw [call, named_eq h.found, Application.apply, Eval.bind_apply, Eval.store_apply] at hcall
    dsimp only [Value.callable?] at hcall
    rw [if_neg (by simp [hsome]), if_neg (by exact Nat.not_lt.2 (Nat.le_of_lt hlong)),
      if_pos hrefused] at hcall
    cases hcall
    rfl

end Acts

/-! ### The functions on arrays -/

theorem acts_length : Acts "length" (function "length" 1 false [] .length)
    (Operation.asked length) :=
  .asked (by decide) rfl rfl (by decide) (by decide) nofun fun _ _ => rfl

theorem acts_elementAt : Acts "aref" (function "aref" 2 false [.array, .int] .elementAt)
    (Operation.asked elementAt) :=
  .asked (by decide) rfl rfl (by decide) (by decide) nofun fun _ _ => rfl

theorem acts_setElement : Acts "aset" (action "aset" 3 false [.array, .int, .any] .setElement)
    setElement :=
  ⟨by decide, rfl, rfl, by decide, fun _ _ => Application.perform_run _ (by decide) nofun⟩

theorem acts_append : Acts "append!" (action "append!" 2 false [.array, .any] .append) append :=
  ⟨by decide, rfl, rfl, by decide, fun _ _ => Application.perform_run _ (by decide) nofun⟩

theorem acts_copy : Acts "copy" (action "copy" 1 false [] .copy) copy :=
  ⟨by decide, rfl, rfl, by decide, fun _ _ => Application.perform_run _ (by decide) nofun⟩

/-- The functions on arrays. -/
def arrayFunctions : List String := ["length", "aref", "aset", "append!", "copy"]

theorem call_error {visit : Visit} {name : String} (hname : name ∈ arrayFunctions)
    {args : List Value} {e : Error} {m m' : Machine}
    (hcall : call visit name args m = (.error e, m')) : m' = m := by
  simp only [arrayFunctions, List.mem_cons, List.not_mem_nil, or_false] at hname
  rcases hname with rfl | rfl | rfl | rfl | rfl
  · exact acts_length.call_error hcall
  · exact acts_elementAt.call_error hcall
  · exact acts_setElement.call_error hcall
  · exact acts_append.call_error hcall
  · exact acts_copy.call_error hcall

end Builtin

/-! ## Writes to other arrays -/

/-- A write to an array. -/
inductive ArrayWrite where
  | set (array index value : Value)
  | append (array value : Value)

namespace ArrayWrite

/-- The array that is written to. -/
def target : ArrayWrite → Value
  | set array _ _ => array
  | append array _ => array

/-- The call that writes. -/
def call (visit : Visit) : ArrayWrite → Eval Value
  | set array index value => Builtin.call visit "aset" [array, index, value]
  | append array value => Builtin.call visit "append!" [array, value]

/-- The machine after several writes, whatever comes of each. -/
def runAll (visit : Visit) (writes : List ArrayWrite) (m : Machine) : Machine :=
  writes.foldl (fun m write => (write.call visit m).2) m

/-- A write leaves the elements of every other array as they are. -/
theorem elements_call (visit : Visit) (write : ArrayWrite) (m : Machine) {w : Value}
    (hw : write.target ≠ w) : (write.call visit m).2.store.elements w = m.store.elements w := by
  rcases hcall : write.call visit m with ⟨result, m'⟩
  cases write with
  | set array index value =>
    cases result with
    | error e => rw [Builtin.acts_setElement.call_error hcall]
    | ok answer =>
      obtain ⟨-, hchanges, -⟩ := Builtin.setElement_ok (Builtin.acts_setElement.of_call rfl hcall).1
      exact hchanges.others w hw.symm
  | append array value =>
    cases result with
    | error e => rw [Builtin.acts_append.call_error hcall]
    | ok answer =>
      obtain ⟨-, hchanges, -⟩ := Builtin.append_ok (Builtin.acts_append.of_call rfl hcall).1
      exact hchanges.others w hw.symm

theorem elements_runAll (visit : Visit) {writes : List ArrayWrite} {w : Value}
    (hwrites : ∀ write ∈ writes, write.target ≠ w) (m : Machine) :
    (runAll visit writes m).store.elements w = m.store.elements w := by
  induction writes generalizing m with
  | nil => rfl
  | cons write writes ih =>
    have hrest := ih (fun write' h => hwrites write' (List.mem_cons_of_mem _ h))
      (write.call visit m).2
    exact hrest.trans (write.elements_call visit m (hwrites write (List.mem_cons_self ..)))

end ArrayWrite

/-! ## The laws -/

/-- From `m` to `m'` the elements of `array` become `new`, and nothing else changes. -/
structure Machine.Rewrites (m : Machine) (array : Value) (new : List Value) (m' : Machine) :
    Prop where
  rest : m' = { m with store := m'.store }
  store : m.store.OnlyChanges array m'.store
  elements : m'.store.elements array = new

namespace Builtin

/-- What the functions on arrays do with an array. -/
structure ArrayLaws (visit : Visit) (m : Machine) (array : Value) : Prop where
  /-- `length` answers the number of elements, if that is an integer. -/
  length_iff : ∀ n : Int64, (call visit "length" [array] m).1 = .ok (.integer n) ↔
    n.toInt = (m.store.elements array).length
  length_same : (call visit "length" [array] m).2 = m
  /-- `aref` answers the element at an index, which is an integer that is not negative and less than
  the length. -/
  aref_iff : ∀ index v, (call visit "aref" [array, index] m).1 = .ok v ↔
    ∃ i : Int64, index = .integer i ∧ 0 ≤ i.toInt ∧
      (m.store.elements array)[i.toInt.toNat]? = some v
  aref_same : ∀ index, (call visit "aref" [array, index] m).2 = m
  /-- `aset` succeeds at an index within the bounds, with a value that the array can hold. -/
  aset_iff : ∀ index v, v.Valid m.store → ((∃ w, (call visit "aset" [array, index, v] m).1 = .ok w) ↔
    ∃ i : Int64, index = .integer i ∧ InBounds i (m.store.elements array).length ∧ array.Accepts v)
  /-- What `aset` has put at an index is found there, and at every other index and in every other
  array what was there before. -/
  aset : ∀ index v w m', call visit "aset" [array, index, v] m = (.ok w, m') → w = v ∧
    (∃ i : Int64, index = .integer i ∧ InBounds i (m.store.elements array).length ∧
      m.Rewrites array ((m.store.elements array).set i.toInt.toNat v) m') ∧
    (call visit "aref" [array, index] m').1 = .ok v ∧
    (∀ other, other ≠ index →
      (call visit "aref" [array, other] m').1 = (call visit "aref" [array, other] m).1) ∧
    (call visit "length" [array] m').1 = (call visit "length" [array] m).1
  /-- `append!` succeeds with what can be put at the end. -/
  append_iff : ∀ v, v.Valid m.store → ((∃ w, (call visit "append!" [array, v] m).1 = .ok w) ↔
    (m.store.appended? array v).isSome = true)
  /-- What `append!` puts at the end comes after what was there, which stays. -/
  append : ∀ v w m', call visit "append!" [array, v] m = (.ok w, m') → w = array ∧
    (∃ added, m.store.appended? array v = some added ∧
      m.Rewrites array (m.store.elements array ++ added) m') ∧
    ∀ i : Int64, InBounds i (m.store.elements array).length →
      (call visit "aref" [array, .integer i] m').1 = (call visit "aref" [array, .integer i] m).1
  /-- `copy` makes an array of the same elements. Whatever is written afterwards, a write to one of
  the two leaves the other. -/
  copy : ∃ copied m', call visit "copy" [array] m = (.ok copied, m') ∧
    m' = { m with store := m'.store } ∧ m.store.CopiesArray array copied m'.store ∧
    ∀ writes : List ArrayWrite,
      ((∀ write ∈ writes, write.target ≠ array) →
        (ArrayWrite.runAll visit writes m').store.elements array = m.store.elements array) ∧
      ((∀ write ∈ writes, write.target ≠ copied) →
        (ArrayWrite.runAll visit writes m').store.elements copied = m.store.elements array)
  /-- A write leaves every other array, here and in any later machine. -/
  write_other : ∀ (later : Machine) (write : ArrayWrite), write.target ≠ array →
    (write.call visit later).2.store.elements array = later.store.elements array
  /-- A call that fails changes nothing, whatever its arguments. -/
  failure : ∀ name ∈ arrayFunctions, ∀ args e m', call visit name args m = (.error e, m') → m' = m

section Laws

variable {visit : Visit} {m : Machine} {array : Value}

theorem length_call_iff (harray : array.IsArray m.store) (n : Int64) :
    (call visit "length" [array] m).1 = .ok (.integer n) ↔
      n.toInt = (m.store.elements array).length := by
  rw [acts_length.answer_iff rfl (by simp [function]), length_eq harray,
    ← Decimal.int64?_eq_some_iff]
  cases Decimal.int64? (m.store.elements array).length <;> simp

/-- An integer is an index of an array. -/
theorem hasType_array_int (harray : array.IsArray m.store) (i : Int64) :
    ∀ slot ∈ [BaseType.array.tag, BaseType.int.tag].zip [array, .integer i],
      slot.2.hasType m.store slot.1 = true := by
  intro slot hslot
  rcases List.mem_cons.1 hslot with rfl | hslot
  · exact harray.hasType
  · rw [List.mem_singleton.1 hslot]
    exact TypeTag.isSupertypeOf_refl _

theorem aref_call_iff (harray : array.IsArray m.store) (index v : Value) :
    (call visit "aref" [array, index] m).1 = .ok v ↔ ∃ i : Int64, index = .integer i ∧
      0 ≤ i.toInt ∧ (m.store.elements array)[i.toInt.toNat]? = some v := by
  constructor
  · intro h
    have hread : elementAt m.store [array, index] = .ok v := acts_elementAt.answer rfl h
    rw [elementAt_eq harray] at hread
    cases hindex : arrayIndex "aref" index (m.store.elements array).length with
    | error e =>
      rw [hindex] at hread
      cases hread
    | ok k =>
      obtain ⟨i, rfl, -, -⟩ := arrayIndex_ok_iff.1 hindex
      exact ⟨i, rfl, (elementAt_ok_iff harray).1 (by rw [elementAt_eq harray, hread])⟩
  · rintro ⟨i, rfl, hv⟩
    rw [acts_elementAt.answer_iff rfl (hasType_array_int harray i)]
    exact (elementAt_ok_iff harray).2 hv

theorem aset_call_iff (hs : m.store.Valid) {index v : Value} (hv : v.Valid m.store) :
    (∃ w, (call visit "aset" [array, index, v] m).1 = .ok w) ↔ ∃ i : Int64, index = .integer i ∧
      InBounds i (m.store.elements array).length ∧ array.Accepts v := by
  constructor
  · rintro ⟨w, hw⟩
    obtain ⟨-, -, i, hi, hbounds, haccepts, -⟩ :=
      setElement_ok (acts_setElement.of_call rfl (Prod.ext hw rfl)).1
    exact ⟨i, hi, hbounds, haccepts⟩
  · rintro ⟨i, rfl, hbounds, haccepts⟩
    have harray : array.IsArray m.store := Store.isArray_of_length_pos hbounds.pos
    obtain ⟨s', hset⟩ := exists_setElement hbounds haccepts
    refine ⟨v, ?_⟩
    rw [acts_setElement.call_ok rfl ?_ hset]
    intro slot hslot
    rcases List.mem_cons.1 hslot with rfl | hslot
    · exact harray.hasType
    rcases List.mem_cons.1 hslot with rfl | hslot
    · exact TypeTag.isSupertypeOf_refl _
    · rw [List.mem_singleton.1 hslot]
      exact hv.hasType_any hs

theorem aset_call (harray : array.IsArray m.store) {index v w : Value} {m' : Machine}
    (h : call visit "aset" [array, index, v] m = (.ok w, m')) : w = v ∧
      (∃ i : Int64, index = .integer i ∧ InBounds i (m.store.elements array).length ∧
        m.Rewrites array ((m.store.elements array).set i.toInt.toNat v) m') ∧
      (call visit "aref" [array, index] m').1 = .ok v ∧
      (∀ other, other ≠ index →
        (call visit "aref" [array, other] m').1 = (call visit "aref" [array, other] m).1) ∧
      (call visit "length" [array] m').1 = (call visit "length" [array] m).1 := by
  obtain ⟨hset, hrest⟩ := acts_setElement.of_call rfl h
  obtain ⟨rfl, hchanges, i, rfl, hbounds, -, helements⟩ := setElement_ok hset
  have harray' : array.IsArray m'.store := (hchanges.isArray array).2 harray
  have hsize : (m'.store.elements array).length = (m.store.elements array).length := by
    rw [helements, List.length_set]
  refine ⟨rfl, ⟨i, rfl, hbounds, hrest, hchanges, helements⟩, ?_, fun other hne => ?_, ?_⟩
  · rw [aref_call_iff harray', helements]
    exact ⟨i, rfl, hbounds.1, List.getElem?_set_self hbounds.toNat_lt⟩
  · refine acts_elementAt.call_congr rfl hchanges.structs (elementAt_congr harray harray' hsize ?_)
    rintro j rfl hj
    have hplace : i.toInt.toNat ≠ j.toInt.toNat := fun hij => hne (hj.toNat_inj hbounds hij.symm ▸ rfl)
    rw [helements, List.getElem?_set_ne hplace]
  · refine acts_length.call_congr rfl hchanges.structs ?_
    rw [length_eq harray, length_eq harray', hsize]

theorem append_call_iff (hs : m.store.Valid) (harray : array.IsArray m.store) {v : Value}
    (hv : v.Valid m.store) : (∃ w, (call visit "append!" [array, v] m).1 = .ok w) ↔
      (m.store.appended? array v).isSome = true := by
  constructor
  · rintro ⟨w, hw⟩
    obtain ⟨-, -, added, hadded, -⟩ := append_ok (acts_append.of_call rfl (Prod.ext hw rfl)).1
    rw [hadded]
    rfl
  · intro hsome
    obtain ⟨added, hadded⟩ := Option.isSome_iff_exists.1 hsome
    obtain ⟨s', happend⟩ := exists_append hadded
    refine ⟨array, ?_⟩
    rw [acts_append.call_ok rfl ?_ happend]
    intro slot hslot
    rcases List.mem_cons.1 hslot with rfl | hslot
    · exact harray.hasType
    · rw [List.mem_singleton.1 hslot]
      exact hv.hasType_any hs

theorem append_call (harray : array.IsArray m.store) {v w : Value} {m' : Machine}
    (h : call visit "append!" [array, v] m = (.ok w, m')) : w = array ∧
      (∃ added, m.store.appended? array v = some added ∧
        m.Rewrites array (m.store.elements array ++ added) m') ∧
      ∀ i : Int64, InBounds i (m.store.elements array).length →
        (call visit "aref" [array, .integer i] m').1 =
          (call visit "aref" [array, .integer i] m).1 := by
  obtain ⟨happend, hrest⟩ := acts_append.of_call rfl h
  obtain ⟨rfl, hchanges, added, hadded, helements⟩ := append_ok happend
  have helements := helements harray
  have harray' := (hchanges.isArray w).2 harray
  refine ⟨rfl, ⟨added, hadded, hrest, hchanges, helements⟩, fun i hi => ?_⟩
  have hlt := hi.toNat_lt
  have hbefore := List.getElem?_eq_getElem hlt
  have hafter : (m'.store.elements w)[i.toInt.toNat]? = some (m.store.elements w)[i.toInt.toNat] := by
    rw [helements, List.getElem?_append_left hlt, hbefore]
  exact ((aref_call_iff harray' _ _).2 ⟨i, rfl, hi.1, hafter⟩).trans
    ((aref_call_iff harray _ _).2 ⟨i, rfl, hi.1, hbefore⟩).symm

theorem copy_call (harray : array.IsArray m.store) :
    ∃ copied m', call visit "copy" [array] m = (.ok copied, m') ∧
      m' = { m with store := m'.store } ∧ m.store.CopiesArray array copied m'.store := by
  obtain ⟨copied, s', hcopy, hcopies⟩ := exists_copy harray
  exact ⟨copied, _, acts_copy.call_ok rfl (by simp [action, function]) hcopy, rfl, hcopies⟩

/-- **The laws of arrays** hold of every vector and every string, in every machine. -/
theorem array_laws (visit : Visit) {m : Machine} {array : Value} (hs : m.store.Valid)
    (harray : array.IsArray m.store) : ArrayLaws visit m array where
  length_iff := length_call_iff harray
  length_same := acts_length.call_asked rfl m
  aref_iff := aref_call_iff harray
  aref_same _ := acts_elementAt.call_asked rfl m
  aset_iff _ _ hv := aset_call_iff hs hv
  aset _ _ _ _ h := aset_call harray h
  append_iff _ hv := append_call_iff hs harray hv
  append _ _ _ h := append_call harray h
  copy := by
    obtain ⟨copied, m', hcall, hrest, hcopies⟩ := @copy_call visit m array harray
    have hne : array ≠ copied := fun h => hcopies.fresh (h ▸ harray)
    refine ⟨copied, m', hcall, hrest, hcopies, fun writes => ⟨fun h => ?_, fun h => ?_⟩⟩
    · exact (ArrayWrite.elements_runAll visit h m').trans (hcopies.others array hne)
    · exact (ArrayWrite.elements_runAll visit h m').trans hcopies.elements
  write_other later write h := write.elements_call visit later h
  failure _ hname _ _ _ h := call_error hname h

end Laws

/-- The second element of a string is its second character, here one of two bytes. -/
theorem array_laws_text :
    let s : Store := { texts := #["né"], vectors := #[#[.vector 0, .string 0]] }
    let visit : Visit := fun _ => pure .nil
    s.Valid ∧ (Value.string 0).IsArray s ∧ ArrayLaws visit (.start {} {} s) (.string 0) ∧
      (call visit "aref" [.string 0, .integer 1] (.start {} {} s)).1 = .ok (.char 'é') := by
  intro s visit
  have hs : s.Valid := by
    refine ⟨?_, ?_, ?_, ?_⟩ <;> simp [s, Value.Valid]
  have harray : (Value.string 0).IsArray s := by simp [s, Value.IsArray]
  have helement : (s.elements (.string 0))[(Int64.toInt 1).toNat]? = some (.char 'é') := by
    have hplace : (Int64.toInt 1).toNat = 1 := by decide
    rw [hplace]
    simp [s, Store.elements, Store.text]
  have hlaws := array_laws visit (m := .start {} {} s) hs harray
  exact ⟨hs, harray, hlaws, (hlaws.aref_iff _ _).2 ⟨1, rfl, by decide, helement⟩⟩

end Builtin

end CurryLisp
