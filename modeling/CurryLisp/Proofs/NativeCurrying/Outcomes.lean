import CurryLisp.Proofs.Currying
import Mathlib.Data.List.Forall2

/-!
# Outcomes of operations on objects

The builtin functions of two and three arguments read and write objects, and nothing else of the
machine (`Operation.effect`). What they do depends neither on the closures and pairs that were made
before, nor on the ancestors of the types among their arguments.

Statements:

* `Operation.alike_effect_grown`: the same outcome among more closures and pairs.
* `Operation.alike_effect_retagged`: the same outcome for arguments that are the same but for the
  ancestors of types.
-/

namespace CurryLisp

open SpecialForm (Visit)

/-! ## The same values -/

/-- A value without the stamps of its pairs and the ancestors of its types. -/
def Value.bare : Value → Value
  | quoted inner => quoted inner.bare
  | pair _ car cdr => pair 0 car.bare cdr.bare
  | type tag => type (.reference tag.name)
  | v => v

/-- The same strings and structs, and vectors of the same values. -/
structure Store.Alike (s s' : Store) : Prop where
  texts : s'.texts = s.texts
  vectors : (s'.vectors.map fun items => items.map Value.bare) =
    s.vectors.map fun items => items.map Value.bare
  structs : s'.structs = s.structs

namespace Store.Alike

variable {s s₁ s₂ : Store}

theorem refl (s : Store) : s.Alike s := ⟨rfl, rfl, rfl⟩

theorem trans (h : s.Alike s₁) (h' : s₁.Alike s₂) : s.Alike s₂ :=
  ⟨h'.texts.trans h.texts, h'.vectors.trans h.vectors, h'.structs.trans h.structs⟩

end Store.Alike

/-- An error, or a value and the objects afterwards. -/
abbrev Outcome := Except Error (Value × Store)

/-- The same error, or the same value and the same objects. -/
inductive Outcome.Alike : Outcome → Outcome → Prop
  | failed (e : Error) : Alike (.error e) (.error e)
  | made {v v' : Value} {s s' : Store} (value : v'.bare = v.bare) (store : s.Alike s') :
      Alike (.ok (v, s)) (.ok (v', s'))

namespace Outcome.Alike

variable {r r₁ r₂ : Outcome}

theorem refl (r : Outcome) : r.Alike r := by
  rcases r with e | ⟨v, s⟩
  · exact failed e
  · exact made rfl (.refl s)

theorem trans (h : r.Alike r₁) (h' : r₁.Alike r₂) : r.Alike r₂ := by
  cases h with
  | failed e => exact h'
  | made value store =>
    cases h' with
    | made value' store' => exact made (value'.trans value) (store.trans store')

end Outcome.Alike

/-! ## What the operations do -/

namespace Eval

variable {α : Type} {f : Store → Except Error (α × Store)} {m : Machine}

theorem onStore_of_ok {a : α} {t : Store} (h : f m.store = .ok (a, t)) :
    onStore f m = (.ok a, { m with store := t }) := by
  unfold onStore
  rw [h]

theorem onStore_of_error {e : Error} (h : f m.store = .error e) : onStore f m = (.error e, m) := by
  unfold onStore
  rw [h]

end Eval

namespace Operation

/-- A question as an operation on objects. -/
def asked (g : Store → List Value → Except Error Value) (s : Store) (args : List Value) : Outcome :=
  (g s args).map (·, s)

/-- A question is answered with the objects as they are. -/
theorem ask_eq_onStore (g : Store → List Value → Except Error Value) (args : List Value) :
    Eval.ask (fun s => g s args) = Eval.onStore fun s => asked g s args := by
  funext m
  cases hm : g m.store args with
  | error e =>
    rw [Eval.onStore_of_error (e := e) (by rw [asked, hm]; rfl)]
    exact congrArg (·, m) hm
  | ok v =>
    rw [Eval.onStore_of_ok (a := v) (t := m.store) (by rw [asked, hm]; rfl)]
    exact congrArg (·, m) hm

/-- What an operation does with the objects, if it looks at nothing else and evaluates nothing. Those
of functions of one argument are left out. -/
def effect : Operation → Option (Store → List Value → Outcome)
  | .cons => some Builtin.cons
  | .add => some (asked Number.add)
  | .subtract => some (asked Number.subtract)
  | .multiply => some (asked Number.multiply)
  | .divide => some (asked Number.divide)
  | .modulo => some (asked fun _ => Number.modulo)
  | .equal => some (asked Number.equal)
  | .less => some (asked Number.less)
  | .greater => some (asked Number.greater)
  | .isType => some (asked Builtin.isType)
  | .elementAt => some (asked Builtin.elementAt)
  | .setElement => some Builtin.setElement
  | .append => some Builtin.append
  | _ => none

/-- A builtin function that needs two or three arguments has such an operation, unless it is a special
form or evaluates its arguments. -/
theorem effect_of_builtin : ∀ f ∈ Builtin.all, f.isSpecialForm = false → f.operation ≠ .evaluate →
    f.operation ≠ .apply → 2 ≤ f.arity → f.level = .full ∧ f.operation.effect.isSome = true ∧
      f.arity = if f.operation = .setElement then 3 else 2 := by
  decide

section Effects

variable {op : Operation} {g : Store → List Value → Outcome}

/-- Such an operation runs as its effect says. -/
theorem perform_effect (hop : op.effect = some g) (visit : Visit) (args : List Value) :
    Application.perform visit op args = Eval.onStore fun s => g s args := by
  cases op with
  | cons | setElement | append =>
    cases hop
    rw [Application.perform_run _ (by simp) (by simp)]
    rfl
  | add | subtract | multiply | divide | modulo | equal | less | greater | isType | elementAt =>
    cases hop
    rw [Application.perform_run _ (by simp) (by simp), ← ask_eq_onStore]
    rfl
  | _ => cases hop

/-- Structs and closures stay. -/
theorem sameRecords_effect (hop : op.effect = some g) {s t : Store} {args : List Value} {v : Value}
    (h : g s args = .ok (v, t)) : s.SameRecords t := by
  have hasked : ∀ {q : Store → List Value → Except Error Value}, asked q s args = .ok (v, t) →
      s.SameRecords t := by
    intro q h
    unfold asked at h
    cases hq : q s args with
    | error e =>
      rw [hq] at h
      cases h
    | ok found =>
      rw [hq] at h
      cases h
      exact .refl s
  cases op with
  | cons =>
    cases hop
    exact .consArgs h
  | setElement =>
    cases hop
    exact .setElement h
  | append =>
    cases hop
    exact .append h
  | add | subtract | multiply | divide | modulo | equal | less | greater | isType | elementAt =>
    cases hop
    exact hasked h
  | _ => cases hop

/-- What is answered is valid, and so are the objects afterwards. -/
theorem valid_effect (hop : op.effect = some g) {s t : Store} {args : List Value} {v : Value}
    (hs : s.Valid) (hargs : Value.AllValid s args) (h : g s args = .ok (v, t)) :
    t.Valid ∧ v.Valid t := by
  have hm : (Machine.start {} {} s).Valid := ⟨hs, .empty, fun _ h => by cases h⟩
  have hrun : Session.perform op args (Machine.start {} {} s) =
      (.ok v, { Machine.start {} {} s with store := t }) := by
    unfold Session.perform
    rw [Eval.bind_apply, Eval.get_apply]
    dsimp only
    rw [perform_effect hop, Eval.onStore_of_ok h]
  obtain ⟨-, hupholds, hanswer⟩ := Session.keeps_perform op hargs _ (.refl _) hm.upholds_none
  rw [hrun] at hupholds hanswer
  exact ⟨hupholds.store, hanswer v rfl⟩

/-! ## More closures and pairs -/

/-- The effect does not see numbers. -/
theorem made_effect (hop : op.effect = some g) {σ : Renaming} {s s' : Store} (h : s.Renamed σ s')
    (args : List Value) :
    Store.Renamed.Made σ (Value.rename σ) (g s args) (g s' (args.map (Value.rename σ))) := by
  have hasked : ∀ {q : Store → List Value → Except Error Value},
      q s' (args.map (Value.rename σ)) = (q s args).map (Value.rename σ) →
        Store.Renamed.Made σ (Value.rename σ) (asked q s args)
          (asked q s' (args.map (Value.rename σ))) := by
    intro q hq
    unfold asked
    rw [hq]
    cases q s args with
    | error e => rfl
    | ok v => exact ⟨s', rfl, h⟩
  cases op with
  | cons =>
    cases hop
    exact Builtin.cons_made h args
  | setElement =>
    cases hop
    exact Builtin.setElement_made h args
  | append =>
    cases hop
    exact Builtin.append_made h args
  | add | subtract | multiply =>
    cases hop
    exact hasked (Number.combine_rename h _ _ _ args)
  | divide =>
    cases hop
    exact hasked (Number.divide_rename h args)
  | modulo =>
    cases hop
    exact hasked (Number.modulo_rename args)
  | equal =>
    cases hop
    exact hasked (Number.equal_rename h args)
  | less | greater =>
    cases hop
    exact hasked (Number.compare_rename h _ _ _ args)
  | isType =>
    cases hop
    exact hasked (Builtin.isType_rename h args)
  | elementAt =>
    cases hop
    exact hasked (Builtin.elementAt_rename h args)
  | _ => cases hop

end Effects

end Operation

/-- Stamps apart, a value does not change where the closures in it keep their numbers. -/
theorem Value.Valid.bare_rename {σ : Renaming} {s : Store} {v : Value} (hv : v.Valid s)
    (hσ : ∀ k < s.closures.size, σ.address k = k) : (v.rename σ).bare = v.bare := by
  induction v with
  | quoted inner ih => exact congrArg Value.quoted (ih hv)
  | pair stamp car cdr ihCar ihCdr =>
    show Value.pair 0 _ _ = Value.pair 0 _ _
    rw [ihCar hv.2.1, ihCdr hv.2.2]
  | closure a => exact congrArg Value.closure (hσ a hv)
  | _ => rfl

namespace Operation

/-- **An operation has the same outcome after more closures and pairs were made.** -/
theorem alike_effect_grown {op : Operation} {g : Store → List Value → Outcome}
    (hop : op.effect = some g) {s s' : Store} (hs : s.Valid) (hgrows : s.Grows s')
    (htexts : s'.texts = s.texts) (hvectors : s'.vectors = s.vectors)
    (hstructs : s'.structs = s.structs) {args : List Value} (hargs : Value.AllValid s args) :
    Outcome.Alike (g s args) (g s' args) := by
  -- More closures and pairs are a renaming, which no value of before is changed by.
  have hσ := Renaming.fixes_between hgrows
  have hmade := made_effect hop (hs.renamed hgrows htexts hvectors hstructs) args
  rw [hargs.rename_eq hσ] at hmade
  cases hr : g s args with
  | error e =>
    rw [hr] at hmade
    rw [show g s' args = .error e from hmade]
    exact .failed e
  | ok made =>
    obtain ⟨v, t⟩ := made
    rw [hr] at hmade
    obtain ⟨t', ht', hrenamed⟩ := hmade
    obtain ⟨hvalid, hv⟩ := valid_effect hop hs hargs hr
    have hsame := sameRecords_effect hop hr
    have hfixed : ∀ k < t.closures.size, (Renaming.between s s' hgrows).address k = k := by
      rw [hsame.closures]
      exact hσ.address
    rw [ht']
    refine .made (hv.bare_rename hfixed) ⟨hrenamed.texts, ?_, ?_⟩
    · rw [hrenamed.vectors, Array.map_map]
      refine Array.map_congr_left fun items hitems => ?_
      rw [Function.comp_apply, Array.map_map]
      exact Array.map_congr_left fun v hv => (hvalid.vectors items hitems v hv).bare_rename hfixed
    · rw [(sameRecords_effect hop ht').structs, hstructs, hsame.structs]

end Operation

/-! ## Other ancestors -/

/-- The same value, or a type of the same name. -/
def Value.Retagged (v' v : Value) : Prop :=
  v' = v ∨ ∃ t u : TypeTag, v' = .type t ∧ v = .type u ∧ t.name = u.name

namespace Value.Retagged

variable {v v' : Value}

theorem refl (v : Value) : v.Retagged v := .inl rfl

theorem trans {v'' : Value} (h : v''.Retagged v') (h' : v'.Retagged v) : v''.Retagged v := by
  rcases h with rfl | ⟨t, u, rfl, rfl, hname⟩
  · exact h'
  · rcases h' with rfl | ⟨t', u', htype, rfl, hname'⟩
    · exact .inr ⟨t, u, rfl, rfl, hname⟩
    · cases htype
      exact .inr ⟨t, u', rfl, rfl, hname.trans hname'⟩

theorem bare (h : v'.Retagged v) : v'.bare = v.bare := by
  rcases h with rfl | ⟨t, u, rfl, rfl, hname⟩
  · rfl
  · rw [Value.bare, Value.bare, hname]

theorem typeTag (h : v'.Retagged v) (s : Store) : v'.typeTag s = v.typeTag s := by
  rcases h with rfl | ⟨t, u, rfl, rfl, -⟩
  · rfl
  · rfl

theorem write (h : v'.Retagged v) (s : Store) : v'.write s = v.write s := by
  rcases h with rfl | ⟨t, u, rfl, rfl, hname⟩
  · rfl
  · simp only [Value.write, Value.spell, hname]

theorem isResidual (h : v'.Retagged v) : v'.isResidual = v.isResidual := by
  rcases h with rfl | ⟨t, u, rfl, rfl, -⟩
  · rfl
  · rfl

theorem ofValue? (h : v'.Retagged v) : Number.ofValue? v' = Number.ofValue? v := by
  rcases h with rfl | ⟨t, u, rfl, rfl, -⟩
  · rfl
  · rfl

theorem ofPrimitive? (h : v'.Retagged v) : Number.ofPrimitive? v' = Number.ofPrimitive? v := by
  rcases h with rfl | ⟨t, u, rfl, rfl, -⟩
  · rfl
  · rfl

end Value.Retagged

section Retagged

variable {x x' y y' : Value} (hx : x'.Retagged x) (hy : y'.Retagged y) (s : Store)
include hx hy

namespace Number

theorem combine_retagged (name : String) (exact : Int → Int → Int)
    (floats : Float → Float → Float) :
    combine s name exact floats [x', y'] = combine s name exact floats [x, y] := by
  simp only [combine, operands, hx.ofValue?, hy.ofValue?, hx.write, hy.write]

theorem compare_retagged (name : String) (integers : Int64 → Int64 → Bool)
    (floats : Float → Float → Bool) :
    compare s name integers floats [x', y'] = compare s name integers floats [x, y] := by
  simp only [compare, operands, hx.ofPrimitive?, hy.ofPrimitive?, hx.write, hy.write]

theorem divide_retagged : divide s [x', y'] = divide s [x, y] := by
  by_cases hzero : ∃ a, [x, y] = [.integer a, .integer 0]
  · obtain ⟨a, ha⟩ := hzero
    cases ha
    rcases hx with rfl | ⟨t, u, -, ⟨⟩, -⟩
    rcases hy with rfl | ⟨t, u, -, ⟨⟩, -⟩
    rfl
  · rw [divide_of_nonzero s hzero, divide_of_nonzero s, combine_retagged hx hy]
    rintro ⟨a, ha⟩
    cases ha
    rcases hx with rfl | ⟨t, u, ⟨⟩, -⟩
    rcases hy with rfl | ⟨t, u, ⟨⟩, -⟩
    exact hzero ⟨a, rfl⟩

omit s in
theorem modulo_retagged : modulo [x', y'] = modulo [x, y] := by
  rcases hx with rfl | ⟨t, u, rfl, rfl, -⟩
  · rcases hy with rfl | ⟨t, u, rfl, rfl, -⟩
    · rfl
    · rw [modulo_of_not_integers (by simp), modulo_of_not_integers (by simp)]
  · rw [modulo_of_not_integers (by simp), modulo_of_not_integers (by simp)]

theorem equal_retagged : equal s [x', y'] = equal s [x, y] := by
  have hsame : x'.equal s y' = x.equal s y := by
    unfold Value.equal
    rcases hx with rfl | ⟨t, u, rfl, rfl, hname⟩
    · rcases hy with rfl | ⟨t, u, rfl, rfl, hname⟩
      · rfl
      · cases x' with
        | type tag => simp only [Value.equalFrom, TypeTag.same, hname]
        | _ =>
          rw [Value.equalFrom_of_kind_ne (by simp [Value.kind]),
            Value.equalFrom_of_kind_ne (by simp [Value.kind])]
    · rcases hy with rfl | ⟨t', u', rfl, rfl, hname'⟩
      · cases y' with
        | type tag => simp only [Value.equalFrom, TypeTag.same, hname]
        | _ =>
          rw [Value.equalFrom_of_kind_ne (by simp [Value.kind]),
            Value.equalFrom_of_kind_ne (by simp [Value.kind])]
      · simp only [Value.equalFrom, TypeTag.same, hname, hname']
  simp only [equal, hx.ofValue?, hy.ofValue?, hsame]

end Number

namespace Builtin

theorem isType_retagged : isType s [x', y'] = isType s [x, y] := by
  rcases hx with rfl | ⟨t, u, rfl, rfl, hname⟩
  · cases x' with
    | type tag => simp only [isType, Value.hasType, hy.typeTag]
    | _ => rfl
  · simp only [isType, Value.hasType, TypeTag.isSupertypeOf, hy.typeTag, hname]

omit hx s in
theorem arrayIndex_retagged (name : String) (length : Nat) :
    arrayIndex name y' length = arrayIndex name y length := by
  rcases hy with rfl | ⟨t, u, rfl, rfl, -⟩
  · rfl
  · rfl

omit hy in
theorem notAnArray_retagged (name : String) : notAnArray s name x' = notAnArray s name x := by
  rw [notAnArray, hx.write]
  rfl

theorem elementAt_retagged : elementAt s [x', y'] = elementAt s [x, y] := by
  rcases hx with rfl | ⟨t, u, rfl, rfl, hname⟩
  · cases x' with
    | vector a => simp only [elementAt, arrayIndex_retagged hy]
    | string a => simp only [elementAt, arrayIndex_retagged hy]
    | _ => rfl
  · exact congrArg Except.error (notAnArray_retagged (.inr ⟨t, u, rfl, rfl, hname⟩) s "aref")

theorem cons_retagged : Outcome.Alike (cons s [x, y]) (cons s [x', y']) := by
  refine .made ?_ ⟨rfl, rfl, rfl⟩
  show Value.pair 0 _ _ = Value.pair 0 _ _
  rw [hx.bare, hy.bare]

end Builtin

end Retagged

/-- The same value in a vector makes the same vectors. -/
theorem Store.alike_modify (s : Store) (a : Address) {f f' : Array Value → Array Value}
    (h : ∀ items, (f' items).map Value.bare = (f items).map Value.bare) :
    Store.Alike { s with vectors := s.vectors.modify a f }
      { s with vectors := s.vectors.modify a f' } := by
  refine ⟨rfl, Array.ext_getElem? fun i => ?_, rfl⟩
  simp only [Array.getElem?_map, Array.getElem?_modify]
  split
  · cases s.vectors[i]? with
    | none => rfl
    | some items => exact congrArg some (h items)
  · rfl

namespace Builtin

variable {x x' y y' z z' : Value}

theorem append_retagged (hx : x'.Retagged x) (hy : y'.Retagged y) (s : Store) :
    Outcome.Alike (append s [x, y]) (append s [x', y']) := by
  rcases hx with rfl | ⟨t, u, rfl, rfl, hname⟩
  · cases x' with
    | vector a =>
      refine .made rfl (s.alike_modify a fun items => ?_)
      rw [Array.map_push, Array.map_push, hy.bare]
    | string a =>
      rcases hy with rfl | ⟨t, u, rfl, rfl, hname⟩
      · exact .refl _
      · have hwrite : (Value.type t).write s = (Value.type u).write s :=
          Value.Retagged.write (.inr ⟨t, u, rfl, rfl, hname⟩) s
        simp only [append, hwrite]
        exact .refl _
    | _ => exact .refl _
  · have hrefused := notAnArray_retagged (.inr ⟨t, u, rfl, rfl, hname⟩) s "append!"
    simp only [append, hrefused]
    exact .refl _

theorem setElement_retagged (hx : x'.Retagged x) (hy : y'.Retagged y) (hz : z'.Retagged z)
    (s : Store) : Outcome.Alike (setElement s [x, y, z]) (setElement s [x', y', z']) := by
  rcases hx with rfl | ⟨t, u, rfl, rfl, hname⟩
  · cases x' with
    | vector a =>
      simp only [setElement, arrayIndex_retagged hy]
      cases arrayIndex "aset" y (s.vector a).size with
      | error e => exact .failed e
      | ok i =>
        refine .made hz.bare (s.alike_modify a fun items => ?_)
        rw [Array.map_setIfInBounds, Array.map_setIfInBounds, hz.bare]
    | string a =>
      rcases hz with rfl | ⟨t, u, rfl, rfl, hname⟩
      · simp only [setElement, arrayIndex_retagged hy]
        exact .refl _
      · have hwrite : (Value.type t).write s = (Value.type u).write s :=
          Value.Retagged.write (.inr ⟨t, u, rfl, rfl, hname⟩) s
        simp only [setElement, hwrite]
        exact .refl _
    | _ => exact .refl _
  · have hrefused := notAnArray_retagged (.inr ⟨t, u, rfl, rfl, hname⟩) s "aset"
    simp only [setElement, hrefused]
    exact .refl _

end Builtin

namespace Operation

/-- **An operation has the same outcome if types among its arguments have other ancestors.** -/
theorem alike_effect_retagged {op : Operation} {g : Store → List Value → Outcome}
    (hop : op.effect = some g) (s : Store) {args args' : List Value}
    (hlength : args.length = if op = .setElement then 3 else 2)
    (hargs : List.Forall₂ Value.Retagged args' args) : Outcome.Alike (g s args) (g s args') := by
  have hasked : ∀ {q : Store → List Value → Except Error Value} {args args' : List Value},
      q s args' = q s args → Outcome.Alike (asked q s args) (asked q s args') := by
    intro q args args' h
    unfold asked
    rw [h]
    exact .refl _
  by_cases hthree : op = .setElement
  · subst hthree
    cases hop
    rw [if_pos rfl] at hlength
    obtain ⟨x, y, z, rfl⟩ := List.length_eq_three.1 hlength
    obtain _ | ⟨hx, _ | ⟨hy, _ | ⟨hz, _ | _⟩⟩⟩ := hargs
    exact Builtin.setElement_retagged hx hy hz s
  · rw [if_neg hthree] at hlength
    obtain ⟨x, y, rfl⟩ := List.length_eq_two.1 hlength
    obtain _ | ⟨hx, _ | ⟨hy, _ | _⟩⟩ := hargs
    cases op with
    | cons =>
      cases hop
      exact Builtin.cons_retagged hx hy s
    | append =>
      cases hop
      exact Builtin.append_retagged hx hy s
    | setElement => exact absurd rfl hthree
    | add | subtract | multiply =>
      cases hop
      exact hasked (Number.combine_retagged hx hy s _ _ _)
    | divide =>
      cases hop
      exact hasked (Number.divide_retagged hx hy s)
    | modulo =>
      cases hop
      exact hasked (Number.modulo_retagged hx hy)
    | equal =>
      cases hop
      exact hasked (Number.equal_retagged hx hy s)
    | less | greater =>
      cases hop
      exact hasked (Number.compare_retagged hx hy s _ _ _)
    | isType =>
      cases hop
      exact hasked (Builtin.isType_retagged hx hy s)
    | elementAt =>
      cases hop
      exact hasked (Builtin.elementAt_retagged hx hy s)
    | _ => cases hop

end Operation

end CurryLisp
