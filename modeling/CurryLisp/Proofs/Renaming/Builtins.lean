import CurryLisp.Application
import CurryLisp.Proofs.Renaming.Equality

/-!
# Builtin functions do not see numbers

Spelling, types, arithmetic, arrays, structs and their copies: on a renamed store each function of the
library answers the renamed result and leaves a renamed store.
-/

namespace CurryLisp

variable {σ : Renaming} {s s' : Store}

/-! ## Results -/

/-- A function on stores has renamed results in renamed stores; it fails in both or in none. -/
def Store.Renamed.Made {α β : Type} (σ : Renaming) (ρ : α → β) (r : Except Error (α × Store))
    (r' : Except Error (β × Store)) : Prop :=
  match r with
  | .error e => r' = .error e
  | .ok (a, t) => ∃ t', r' = .ok (ρ a, t') ∧ t.Renamed σ t'

theorem Store.Renamed.Made.ok {α β : Type} {ρ : α → β} {p : α × Store} {p' : β × Store}
    (hresult : p'.1 = ρ p.1) (hstore : p.2.Renamed σ p'.2) :
    Store.Renamed.Made σ ρ (.ok p) (.ok p') :=
  ⟨p'.2, congrArg Except.ok (Prod.ext hresult rfl), hstore⟩

namespace Store.Renamed

/-! ## Types and spelling -/

theorem typeTag (h : s.Renamed σ s') (v : Value) : (v.rename σ).typeTag s' = v.typeTag s := by
  induction v with
  | quoted inner ih => exact ih
  | struct a =>
    show (s'.struct a).tag = (s.struct a).tag
    rw [h.struct]
    rfl
  | _ => rfl

theorem hasType (h : s.Renamed σ s') (v : Value) (t : TypeTag) :
    (v.rename σ).hasType s' t = v.hasType s t := by
  rw [Value.hasType, h.typeTag]
  rfl

theorem spell (h : s.Renamed σ s') (spelling : Spelling) (room : Nat) (v : Value) :
    (v.rename σ).spell s' spelling room = v.spell s spelling room := by
  induction room generalizing v with
  | zero => rw [Value.spell, Value.spell]
  | succ room ih =>
    cases v with
    | quoted inner => simp only [Value.rename, Value.spell, ih]
    | pair stamp car cdr =>
      simp only [Value.rename, Value.spell, Value.spine_rename, List.map_map, Option.map_map, ih,
        Function.comp_def]
    | string a => simp only [Value.rename, Value.spell, h.text]
    | vector a =>
      simp only [Value.rename, Value.spell, h.vector, Array.toList_map, List.map_map, ih,
        Function.comp_def]
    | closure a =>
      simp only [Value.rename, Value.spell, h.closure, Closure.rename, List.map_map, ih,
        Function.comp_def]
    | struct a =>
      simp only [Value.rename, Value.spell, h.struct, Struct.rename, Table.map, Field.rename,
        List.map_map, ih, Function.comp_def, Prod.map_fst, Prod.map_snd, id]
    | _ => simp only [Value.rename, Value.spell]

theorem write (h : s.Renamed σ s') (v : Value) : (v.rename σ).write s' = v.write s :=
  h.spell .written _ v

theorem print (h : s.Renamed σ s') (v : Value) : (v.rename σ).print s' = v.print s :=
  h.spell .printed _ v

theorem render (h : s.Renamed σ s') (env : Environment) (builtins types : Bool) :
    (env.rename σ).render s' builtins types = env.render s builtins types := by
  have hshown : ∀ keep : String × Value → Bool,
      (∀ entry, keep (Prod.map id (Value.rename σ) entry) = keep entry) →
        (env.rename σ).bindings.sorted.filter keep =
          (env.bindings.sorted.filter keep).map (Prod.map id (Value.rename σ)) := by
    intro keep hkeep
    rw [Environment.rename, Table.sorted_map, List.filter_map]
    congr 2
    exact funext hkeep
  unfold Environment.render
  rw [hshown _ fun entry => by rcases entry with ⟨name, value⟩; cases value <;> rfl]
  simp only [List.isEmpty_map, List.map_map, Function.comp_def, Prod.map_fst, Prod.map_snd, id,
    h.write, h.typeTag]

end Store.Renamed

/-! ## Numbers -/

namespace Number

@[simp]
theorem ofValue?_rename (v : Value) : ofValue? (v.rename σ) = ofValue? v := by
  cases v <;> rfl

@[simp]
theorem ofPrimitive?_rename (v : Value) : ofPrimitive? (v.rename σ) = ofPrimitive? v := by
  cases v <;> rfl

theorem operands_rename (h : s.Renamed σ s') {number? : Value → Option Number}
    (hnumber : ∀ v, number? (v.rename σ) = number? v) (name : String) (args : List Value) :
    operands s' name number? (args.map (Value.rename σ)) = operands s name number? args := by
  rcases args with _ | ⟨x, _ | ⟨y, _ | ⟨z, rest⟩⟩⟩
  · rfl
  · rfl
  · simp only [List.map_cons, List.map_nil, operands, hnumber, h.write]
  · simp [operands]

theorem combine_rename (h : s.Renamed σ s') (name : String) (exact : Int → Int → Int)
    (floats : Float → Float → Float) (args : List Value) :
    combine s' name exact floats (args.map (Value.rename σ)) =
      (combine s name exact floats args).map (Value.rename σ) := by
  unfold combine
  rw [operands_rename h ofValue?_rename]
  rcases operands s name ofValue? args with e | ⟨a | x, b | y⟩
  · rfl
  · simp only [bind, Except.bind]
    split <;> rfl
  · rfl
  · rfl
  · rfl

theorem map_rename_integers {args : List Value} {a b : Int64} :
    args.map (Value.rename σ) = [.integer a, .integer b] ↔ args = [.integer a, .integer b] := by
  rcases args with _ | ⟨x, _ | ⟨y, _ | ⟨z, rest⟩⟩⟩
  · simp
  · simp
  · cases x <;> cases y <;> simp [Value.rename]
  · simp

theorem divide_of_nonzero (s : Store) {args : List Value}
    (h : ¬∃ a, args = [.integer a, .integer 0]) :
    divide s args = combine s "/" Int.tdiv (· / ·) args := by
  unfold divide
  split
  · next a => exact absurd ⟨a, rfl⟩ h
  · rfl

theorem divide_rename (h : s.Renamed σ s') (args : List Value) :
    divide s' (args.map (Value.rename σ)) = (divide s args).map (Value.rename σ) := by
  by_cases hzero : ∃ a, args = [.integer a, .integer 0]
  · obtain ⟨a, rfl⟩ := hzero
    rfl
  · rw [divide_of_nonzero s hzero, divide_of_nonzero s', combine_rename h]
    rintro ⟨a, ha⟩
    exact hzero ⟨a, map_rename_integers.1 ha⟩

theorem modulo_of_not_integers {args : List Value} (h : ¬∃ a b, args = [.integer a, .integer b]) :
    modulo args = .error (.failure "mod: expected two integers") := by
  unfold modulo
  split
  · next a => exact absurd ⟨a, 0, rfl⟩ h
  · next a b _ => exact absurd ⟨a, b, rfl⟩ h
  · rfl

theorem modulo_rename (args : List Value) :
    modulo (args.map (Value.rename σ)) = (modulo args).map (Value.rename σ) := by
  by_cases hintegers : ∃ a b, args = [.integer a, .integer b]
  · obtain ⟨a, b, rfl⟩ := hintegers
    simp only [List.map_cons, List.map_nil, Value.rename]
    unfold modulo
    split
    · rfl
    · split <;> rfl
    · rfl
  · rw [modulo_of_not_integers hintegers, modulo_of_not_integers]
    · rfl
    · rintro ⟨a, b, hab⟩
      exact hintegers ⟨a, b, map_rename_integers.1 hab⟩

theorem compare_rename (h : s.Renamed σ s') (name : String) (integers : Int64 → Int64 → Bool)
    (floats : Float → Float → Bool) (args : List Value) :
    compare s' name integers floats (args.map (Value.rename σ)) =
      (compare s name integers floats args).map (Value.rename σ) := by
  unfold compare
  rw [operands_rename h ofPrimitive?_rename]
  rcases operands s name ofPrimitive? args with e | ⟨a | x, b | y⟩
  · rfl
  all_goals exact congrArg Except.ok (Value.rename_ofBool σ _).symm

theorem equal_rename (h : s.Renamed σ s') (args : List Value) :
    equal s' (args.map (Value.rename σ)) = (equal s args).map (Value.rename σ) := by
  rcases args with _ | ⟨x, _ | ⟨y, _ | ⟨z, rest⟩⟩⟩
  · rfl
  · rfl
  · simp only [List.map_cons, List.map_nil, equal, ofValue?_rename, h.equal]
    split <;> exact congrArg Except.ok (Value.rename_ofBool σ _).symm
  · simp [equal, Except.map]

theorem toInteger_rename (h : s.Renamed σ s') (args : List Value) :
    toInteger s' (args.map (Value.rename σ)) = (toInteger s args).map (Value.rename σ) := by
  rcases args with _ | ⟨v, rest⟩
  · rfl
  · have hwrite := h.write v
    cases v with
    | float x => 
      simp only [List.map_cons, Value.rename, toInteger] at hwrite ⊢
      rw [hwrite]
      split <;> rfl
    | _ => 
      simp only [List.map_cons, Value.rename, toInteger] at hwrite ⊢
      first | rfl | (rw [hwrite]; rfl)

theorem toReal_rename (args : List Value) :
    toReal (args.map (Value.rename σ)) = (toReal args).map (Value.rename σ) := by
  rcases args with _ | ⟨v, rest⟩
  · rfl
  · simp only [List.map_cons, toReal, ofPrimitive?_rename]
    split <;> rfl

theorem charOfInteger_rename (h : s.Renamed σ s') (v : Value) :
    charOfInteger s' (v.rename σ) = (charOfInteger s v).map (Value.rename σ) := by
  have hwrite := h.write v
  cases v with
  | integer n => 
    simp only [Value.rename, charOfInteger]
    split <;> rfl
  | _ => 
    simp only [Value.rename, charOfInteger] at hwrite ⊢
    rw [hwrite]
    rfl

theorem toCharacter_rename (h : s.Renamed σ s') (args : List Value) :
    toCharacter s' (args.map (Value.rename σ)) = (toCharacter s args).map (Value.rename σ) := by
  rcases args with _ | ⟨v, rest⟩
  · rfl
  · have hchar := charOfInteger_rename h v
    cases v with
    | char c => rfl
    | float x =>
      have hint := toInteger_rename h (.float x :: rest)
      simp only [List.map_cons, Value.rename, toCharacter] at hint ⊢
      rw [hint]
      cases toInteger s (.float x :: rest) with
      | error e => rfl
      | ok v => exact charOfInteger_rename h v
    | _ =>
      simp only [List.map_cons, Value.rename, toCharacter] at hchar ⊢
      exact hchar

theorem applyFunction_rename (f : MathFunction) (args : List Value) :
    applyFunction f (args.map (Value.rename σ)) = (applyFunction f args).map (Value.rename σ) := by
  rcases args with _ | ⟨v, _ | ⟨w, rest⟩⟩
  · rfl
  · cases v with
    | integer n => 
      simp only [List.map_cons, List.map_nil, Value.rename, applyFunction]
      split
      · split <;> rfl
      · rfl
    | _ => rfl
  · cases v <;> rfl

end Number

/-! ## Lists and types -/

namespace Builtin

theorem car_rename (args : List Value) : car (args.map (Value.rename σ)) = (car args).rename σ := by
  rcases args with _ | ⟨v, rest⟩
  · rfl
  · cases v <;> rfl

theorem cdr_rename (args : List Value) : cdr (args.map (Value.rename σ)) = (cdr args).rename σ := by
  rcases args with _ | ⟨v, rest⟩
  · rfl
  · cases v <;> rfl

theorem isNil_rename (args : List Value) :
    isNil (args.map (Value.rename σ)) = (isNil args).rename σ := by
  rcases args with _ | ⟨v, rest⟩
  · rfl
  · simp [isNil]

theorem negate_rename (args : List Value) :
    negate (args.map (Value.rename σ)) = (negate args).map (Value.rename σ) := by
  rcases args with _ | ⟨v, _ | ⟨w, rest⟩⟩
  · rfl
  · simp [negate, Except.map]
  · simp [negate, Except.map]

theorem last_rename (args : List Value) :
    last (args.map (Value.rename σ)) = (last args).rename σ := by
  rw [last, List.getLast?_map, last]
  cases args.getLast? <;> rfl

theorem typeOf_rename (h : s.Renamed σ s') (args : List Value) :
    typeOf s' (args.map (Value.rename σ)) = (typeOf s args).map (Value.rename σ) := by
  rcases args with _ | ⟨v, _ | ⟨w, rest⟩⟩
  · rfl
  · simp [typeOf, h.typeTag, Except.map, Value.rename]
  · simp [typeOf, Except.map]

theorem isType_rename (h : s.Renamed σ s') (args : List Value) :
    isType s' (args.map (Value.rename σ)) = (isType s args).map (Value.rename σ) := by
  rcases args with _ | ⟨v, _ | ⟨w, _ | ⟨x, rest⟩⟩⟩
  · rfl
  · cases v <;> rfl
  · cases v with
    | type tag => simp [isType, h.hasType, Except.map, Value.rename]
    | _ => rfl
  · cases v <;> rfl

/-! ## Arrays -/

theorem arrayIndex_rename (name : String) (index : Value) (length : Nat) :
    arrayIndex name (index.rename σ) length = arrayIndex name index length := by
  cases index <;> rfl

theorem notAnArray_rename (h : s.Renamed σ s') (name : String) (v : Value) :
    notAnArray s' name (v.rename σ) = notAnArray s name v := by
  rw [notAnArray, h.write]
  rfl

theorem elementAt_rename (h : s.Renamed σ s') (args : List Value) :
    elementAt s' (args.map (Value.rename σ)) = (elementAt s args).map (Value.rename σ) := by
  rcases args with _ | ⟨array, _ | ⟨index, _ | ⟨x, rest⟩⟩⟩
  · rfl
  · rfl
  · have hrefused := notAnArray_rename h "aref" array
    cases array with
    | vector a =>
      simp only [List.map_cons, List.map_nil, Value.rename, elementAt, h.vector, Array.size_map,
        arrayIndex_rename]
      cases arrayIndex "aref" index (s.vector a).size with
      | error e => rfl
      | ok i =>
        simp only [bind, Except.bind, Array.getD_eq_getD_getElem?, Array.getElem?_map]
        cases (s.vector a)[i]? <;> rfl
    | string a =>
      simp only [List.map_cons, List.map_nil, Value.rename, elementAt, h.text, arrayIndex_rename]
      cases arrayIndex "aref" index (s.text a).toList.length <;> rfl
    | _ => exact congrArg Except.error hrefused
  · simp [elementAt, Except.map]

theorem length_rename (h : s.Renamed σ s') (args : List Value) :
    length s' (args.map (Value.rename σ)) = (length s args).map (Value.rename σ) := by
  rcases args with _ | ⟨v, _ | ⟨w, rest⟩⟩
  · rfl
  · have hrefused := h.write v
    have htype := h.typeTag v
    have hlist := Value.toList?_rename σ v
    cases v with
    | pair stamp car cdr =>
      simp only [List.map_cons, List.map_nil, Value.rename, length] at hrefused hlist ⊢
      rw [hlist, hrefused]
      cases (Value.pair stamp car cdr).toList? with
      | none => rfl
      | some items =>
        simp only [Option.map_some, List.length_map]
        simp only [bind, Except.bind, pure, Except.pure]
        split <;> rfl
    | nil => rfl
    | string a =>
      simp only [List.map_cons, List.map_nil, Value.rename, length, h.text]
      simp only [bind, Except.bind, pure, Except.pure]
      split <;> rfl
    | vector a =>
      simp only [List.map_cons, List.map_nil, Value.rename, length, h.vector, Array.size_map]
      simp only [bind, Except.bind, pure, Except.pure]
      split <;> rfl
    | _ =>
      simp only [List.map_cons, List.map_nil, Value.rename, length] at htype ⊢
      rw [htype]
      rfl
  · simp [length, Except.map]

theorem textOf?_rename (h : s.Renamed σ s') (v : Value) : textOf? s' (v.rename σ) = textOf? s v := by
  cases v with
  | string a => exact congrArg some (h.text a)
  | _ => rfl

end Builtin

/-! ## Argument checks -/

namespace Callable

@[simp]
theorem arity_rename (f : Callable) : (f.rename σ).arity = f.arity := by
  cases f <;> rfl

@[simp]
theorem variadic_rename (f : Callable) : (f.rename σ).variadic = f.variadic := by
  cases f <;> rfl

@[simp]
theorem level_rename (f : Callable) : (f.rename σ).level = f.level := by
  cases f <;> rfl

@[simp]
theorem isPure_rename (f : Callable) : (f.rename σ).isPure = f.isPure := by
  cases f <;> rfl

@[simp]
theorem types_rename (f : Callable) : (f.rename σ).types = f.types := by
  cases f <;> rfl

theorem name_rename (h : s.Renamed σ s') (f : Callable) : (f.rename σ).name s' = f.name s := by
  cases f with
  | struct a =>
    show (s'.struct a).name = (s.struct a).name
    rw [h.struct]
    rfl
  | _ => rfl

theorem checkArguments_rename (h : s.Renamed σ s') (f : Callable) (args : List Value) :
    (f.rename σ).checkArguments s' (args.map (Value.rename σ)) = f.checkArguments s args := by
  have hslots : (((f.rename σ).types.zip (args.map (Value.rename σ))).take (f.rename σ).arity).findIdx?
        (fun slot => !slot.2.hasType s' slot.1) =
      ((f.types.zip args).take f.arity).findIdx? fun slot => !slot.2.hasType s slot.1 := by
    rw [types_rename, arity_rename, List.zip_map_right, ← List.map_take, List.findIdx?_map]
    congr 1
    funext slot
    exact congrArg not (h.hasType slot.2 slot.1)
  unfold checkArguments
  rw [hslots]
  simp only [name_rename h, types_rename, List.map_map, Function.comp_def, h.typeTag]

end Callable

/-! ## Structs -/

namespace Struct

/-- A copy of the value of a field: the copying of one field by itself. -/
def copyValue (source : Array Struct) (path : List Address) (made : Array Struct) :
    Value → Value × Array Struct
  | .struct a =>
    if a ∈ path then (.struct a, made)
    else
      match source[a]? with
      | some inner =>
        let copied := copyFields source (a :: path) made inner.fields.entries
        (.struct copied.2.size, copied.2.push { inner with fields := ⟨copied.1⟩ })
      | none => (.struct a, made)
  | v => (v, made)

theorem copyFields_cons (source : Array Struct) (path : List Address) (made : Array Struct)
    (name : String) (field : Field) (rest : List (String × Field)) :
    copyFields source path made ((name, field) :: rest) =
      let copied := copyValue source path made field.value
      let others := copyFields source path copied.2 rest
      ((name, { field with value := copied.1 }) :: others.1, others.2) := by
  obtain ⟨tag, value⟩ := field
  rw [copyFields]
  cases value with
  | struct a =>
    dsimp only
    by_cases hpath : a ∈ path
    · simp only [copyValue, dif_pos hpath, if_pos hpath]
    · simp only [copyValue, dif_neg hpath, if_neg hpath]
      split
      · next inner ha => simp only [ha]
      · next ha => simp only [ha]
  | _ => rfl

theorem copyFields_rename (source : Array Struct) (path : List Address) (made : Array Struct)
    (entries : List (String × Field)) :
    copyFields (source.map (rename σ)) path (made.map (rename σ))
        (entries.map (Prod.map id (Field.rename σ))) =
      ((copyFields source path made entries).1.map (Prod.map id (Field.rename σ)),
        (copyFields source path made entries).2.map (rename σ)) := by
  fun_induction copyFields source path made entries with
  | case1 => rw [List.map_nil, copyFields]
  | case2 path made name field rest value made' hv others made'' hr ihField ihRest =>
    have hcopied : copyValue (source.map (rename σ)) path (made.map (rename σ))
        (field.rename σ).value = (value.rename σ, made'.map (rename σ)) := by
      obtain ⟨tag, v⟩ := field
      cases v with
      | struct a =>
        by_cases hpath : a ∈ path
        · simp only [dif_pos hpath] at hv
          cases hv
          simp [copyValue, Field.rename, Value.rename, hpath]
        · simp only [dif_neg hpath] at hv
          split at hv
          · next inner ha =>
            cases hv
            simp [copyValue, Field.rename, Value.rename, hpath, ha, rename, Table.map,
              ihField a hpath inner ha]
          · next ha =>
            cases hv
            simp [copyValue, Field.rename, Value.rename, hpath, ha]
      | _ =>
        cases hv
        rfl
    rw [List.map_cons, Prod.map_apply, id, copyFields_cons, hcopied]
    dsimp only
    rw [ihRest, hr]
    rfl

theorem read_rename (struct : Struct) (name : String) :
    (struct.rename σ).read name = (struct.read name).map (Value.rename σ) := by
  simp only [read, rename, Table.get?_map]
  cases struct.fields.get? name <;> rfl

theorem fieldMismatch_rename (h : s.Renamed σ s') (name : String) (tag : TypeTag) (value : Value) :
    fieldMismatch s' name tag (value.rename σ) = fieldMismatch s name tag value := by
  rw [fieldMismatch, h.typeTag]
  rfl

theorem declare_rename (h : s.Renamed σ s') (name : String) (fields : Table Field)
    (specs : List FieldSpec) :
    declare s' name (fields.map (Field.rename σ)) (specs.map (FieldSpec.rename σ)) =
      (declare s name fields specs).map (Table.map (Field.rename σ)) := by
  induction specs generalizing fields with
  | nil => rfl
  | cons spec rest ih =>
    simp only [List.map_cons, declare, FieldSpec.rename, Value.isNil_rename, h.hasType,
      fieldMismatch_rename h]
    split
    · rw [← ih, ← Table.insert_map]
      rfl
    · rfl

theorem define_rename (h : s.Renamed σ s') (name : String) (specs : List FieldSpec) :
    define s' name (specs.map (FieldSpec.rename σ)) = (define s name specs).map (rename σ) := by
  have hfields : declare s' name {} (specs.map (FieldSpec.rename σ)) =
      (declare s name {} specs).map (Table.map (Field.rename σ)) := declare_rename h name {} specs
  unfold define
  rw [hfields]
  cases declare s name {} specs <;> rfl

end Struct

namespace Store.Renamed

theorem copyFields (h : s.Renamed σ s') (struct : Struct) :
    (s'.copyFields (struct.rename σ)).1 = (s.copyFields struct).1.map (Field.rename σ) ∧
      (s.copyFields struct).2.Renamed σ (s'.copyFields (struct.rename σ)).2 := by
  have hcopied := Struct.copyFields_rename (σ := σ) s.structs [] s.structs struct.fields.entries
  rw [← h.structs] at hcopied
  have hentries : (struct.rename σ).fields.entries =
      struct.fields.entries.map (Prod.map id (Field.rename σ)) := rfl
  simp only [Store.copyFields, hentries, hcopied]
  exact ⟨rfl, { h with structs := rfl }⟩

theorem copyStruct (h : s.Renamed σ s') (struct : Struct) :
    (s'.copyStruct (struct.rename σ)).1 = (s.copyStruct struct).1 ∧
      (s.copyStruct struct).2.Renamed σ (s'.copyStruct (struct.rename σ)).2 := by
  obtain ⟨hfields, hs⟩ := h.copyFields struct
  have hmade := hs.newStruct { struct with fields := (s.copyFields struct).1 }
  simp only [Store.copyStruct, hfields]
  exact hmade

theorem setFieldValue (h : s.Renamed σ s') (a : Address) (name : String) (value : Value) :
    (s.setFieldValue a name value).Renamed σ (s'.setFieldValue a name (value.rename σ)) := by
  refine { h with structs := ?_ }
  simp only [Store.setFieldValue, h.structs]
  refine Array.ext_getElem? fun i => ?_
  simp only [Array.getElem?_modify, Array.getElem?_map]
  split
  · cases s.structs[i]? with
    | none => rfl
    | some struct =>
      simp only [Option.map_some, Struct.rename, Table.get?_map]
      cases struct.fields.get? name with
      | none => rfl
      | some field =>
        simp only [Option.map_some]
        rw [← Table.insert_map]
        rfl
  · rfl

theorem setField (h : s.Renamed σ s') (a : Address) (name : String) (value : Value) :
    Made σ (Value.rename σ) (s.setField a name value) (s'.setField a name (value.rename σ)) := by
  simp only [Store.setField, h.struct, Struct.rename, Table.get?_map]
  cases (s.struct a).fields.get? name with
  | none => rfl
  | some field =>
    simp only [Option.map_some, Field.rename, h.hasType, Struct.fieldMismatch_rename h]
    split
    · exact ⟨_, rfl, h.setFieldValue a name value⟩
    · rfl

theorem setFields (h : s.Renamed σ s') (a : Address) (entries : List (String × Value)) :
    (∀ e, s.setFields a entries = .error e → s'.setFields a (Bound.rename σ entries) = .error e) ∧
      ∀ t, s.setFields a entries = .ok t →
        ∃ t', s'.setFields a (Bound.rename σ entries) = .ok t' ∧ t.Renamed σ t' := by
  induction entries generalizing s s' with
  | nil =>
    refine ⟨nofun, fun t ht => ?_⟩
    cases ht
    exact ⟨s', rfl, h⟩
  | cons entry rest ih =>
    obtain ⟨name, value⟩ := entry
    have hset := h.setField a name value
    simp only [Bound.rename, List.map_cons, Prod.map_apply, id, Store.setFields]
    cases hfirst : s.setField a name value with
    | error e =>
      rw [hfirst] at hset
      rw [show s'.setField a name (value.rename σ) = .error e from hset]
      refine ⟨fun e' he' => ?_, fun t ht => ?_⟩
      · cases he'
        rfl
      · cases ht
    | ok made =>
      rw [hfirst] at hset
      obtain ⟨t, ht, hrenamed⟩ := hset
      rw [ht]
      exact ih hrenamed

theorem derive (h : s.Renamed σ s') (name : String) (parent : Struct) (specs : List FieldSpec) :
    Made σ (Struct.rename σ) (Struct.derive s name parent specs)
      (Struct.derive s' name (parent.rename σ) (specs.map (FieldSpec.rename σ))) := by
  obtain ⟨hfields, hs⟩ := h.copyFields parent
  unfold Struct.derive
  simp only [hfields, Struct.declare_rename hs]
  cases Struct.declare (s.copyFields parent).2 name (s.copyFields parent).1 specs with
  | error e => rfl
  | ok fields => exact ⟨_, rfl, hs⟩

end Store.Renamed

/-! ## Objects -/

namespace Builtin

theorem cons_made (h : s.Renamed σ s') (args : List Value) :
    Store.Renamed.Made σ (Value.rename σ) (cons s args) (cons s' (args.map (Value.rename σ))) := by
  rcases args with _ | ⟨car, _ | ⟨cdr, _ | ⟨x, rest⟩⟩⟩
  · rfl
  · rfl
  · obtain ⟨hpair, hs⟩ := h.cons car cdr
    exact .ok hpair hs
  · simp [cons, Store.Renamed.Made]

theorem setElement_made (h : s.Renamed σ s') (args : List Value) :
    Store.Renamed.Made σ (Value.rename σ) (setElement s args)
      (setElement s' (args.map (Value.rename σ))) := by
  rcases args with _ | ⟨array, _ | ⟨index, _ | ⟨value, _ | ⟨x, rest⟩⟩⟩⟩
  · rfl
  · rfl
  · rfl
  · have hrefused := notAnArray_rename h "aset" array
    cases array with
    | vector a =>
      simp only [List.map_cons, List.map_nil, Value.rename, setElement, h.vector, Array.size_map,
        arrayIndex_rename]
      cases arrayIndex "aset" index (s.vector a).size with
      | error e => rfl
      | ok i => exact ⟨_, rfl, h.setItem a i value⟩
    | string a =>
      have hwrite := h.write value
      cases value with
      | char c =>
        simp only [List.map_cons, List.map_nil, Value.rename, setElement, h.text, arrayIndex_rename]
        cases arrayIndex "aset" index (s.text a).toList.length with
        | error e => rfl
        | ok i => exact ⟨_, rfl, h.setText a _⟩
      | _ =>
        simp only [List.map_cons, List.map_nil, Value.rename, setElement] at hwrite ⊢
        rw [hwrite]
        rfl
    | _ => exact congrArg Except.error hrefused
  · simp [setElement, Store.Renamed.Made]

theorem append_made (h : s.Renamed σ s') (args : List Value) :
    Store.Renamed.Made σ (Value.rename σ) (append s args)
      (append s' (args.map (Value.rename σ))) := by
  rcases args with _ | ⟨array, _ | ⟨value, _ | ⟨x, rest⟩⟩⟩
  · rfl
  · rfl
  · have hrefused := notAnArray_rename h "append!" array
    cases array with
    | vector a => exact ⟨_, rfl, h.pushItem a value⟩
    | string a =>
      have hwrite := h.write value
      cases value with
      | char c =>
        simp only [List.map_cons, List.map_nil, Value.rename, append, h.text]
        exact ⟨_, rfl, h.setText a _⟩
      | string b =>
        simp only [List.map_cons, List.map_nil, Value.rename, append, h.text]
        exact ⟨_, rfl, h.setText a _⟩
      | _ =>
        simp only [List.map_cons, List.map_nil, Value.rename, append] at hwrite ⊢
        rw [hwrite]
        rfl
    | _ => exact congrArg Except.error hrefused
  · simp [append, Store.Renamed.Made]

theorem joinText_made (h : s.Renamed σ s') (args : List Value) :
    Store.Renamed.Made σ (Value.rename σ) (joinText s args)
      (joinText s' (args.map (Value.rename σ))) := by
  have htexts : (textOf? s') ∘ Value.rename σ = textOf? s := funext (textOf?_rename h)
  have hfirst : ((args.map (Value.rename σ)).findIdx? fun v => (textOf? s' v).isNone) =
      args.findIdx? fun v => (textOf? s v).isNone := by
    rw [List.findIdx?_map]
    congr 1
    funext v
    exact congrArg Option.isNone (textOf?_rename h v)
  unfold joinText
  rw [hfirst]
  split
  · simp only [List.map_map, Function.comp_def, h.typeTag]
    rfl
  · rw [List.filterMap_map, htexts]
    obtain ⟨hmade, hs⟩ := h.newText (String.join (args.filterMap (textOf? s)))
    exact .ok hmade hs

theorem copy_made (h : s.Renamed σ s') (args : List Value) :
    Store.Renamed.Made σ (Value.rename σ) (copy s args) (copy s' (args.map (Value.rename σ))) := by
  rcases args with _ | ⟨v, _ | ⟨w, rest⟩⟩
  · rfl
  · cases v with
    | struct a =>
      obtain ⟨hmade, hs⟩ := h.copyStruct (s.struct a)
      simp only [List.map_cons, List.map_nil, Value.rename, copy, h.struct]
      exact .ok (congrArg Value.struct hmade) hs
    | string a =>
      obtain ⟨hmade, hs⟩ := h.newText (s.text a)
      simp only [List.map_cons, List.map_nil, Value.rename, copy, h.text]
      exact .ok hmade hs
    | vector a =>
      obtain ⟨hmade, hs⟩ := h.newVector (s.vector a)
      simp only [List.map_cons, List.map_nil, Value.rename, copy, h.vector]
      exact .ok hmade hs
    | _ => exact ⟨s', rfl, h⟩
  · simp [copy, Store.Renamed.Made]

end Builtin

end CurryLisp
