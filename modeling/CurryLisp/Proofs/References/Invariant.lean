import CurryLisp.Proofs.References
import CurryLisp.Session

/-!
# Invariants of environments and structs

An `Invariant` says something of each environment and of each struct. It is *lawful* if it survives
every change that evaluation makes to them: binding and registering names, declaring, copying and
writing structs. A machine *upholds* it if no reference dangles and it holds of every environment,
those that closures keep included, and of every struct.
-/

namespace CurryLisp

/-- What is to hold of each environment and of each struct. -/
structure Invariant where
  environment : Environment → Prop
  struct : Store → Struct → Prop

/-- Structs and closures are as they were. -/
structure Store.SameRecords (s s' : Store) : Prop where
  structs : s'.structs = s.structs
  closures : s'.closures = s.closures

namespace Store.SameRecords

theorem refl (s : Store) : s.SameRecords s := ⟨rfl, rfl⟩

theorem trans {s s₁ s₂ : Store} (h : s.SameRecords s₁) (h' : s₁.SameRecords s₂) :
    s.SameRecords s₂ :=
  ⟨h'.structs.trans h.structs, h'.closures.trans h.closures⟩

theorem chain (items : List Value) (tail : Value) (s : Store) :
    s.SameRecords (s.chain items tail).2 := by
  induction items with
  | nil => exact refl s
  | cons item rest ih => exact ih.trans ⟨rfl, rfl⟩

theorem list (items : List Value) (s : Store) : s.SameRecords (s.list items).2 :=
  chain items .nil s

section Builtins

variable {s s' : Store} {args : List Value} {v : Value}

theorem consArgs (h : Builtin.cons s args = .ok (v, s')) : s.SameRecords s' := by
  obtain ⟨car, cdr, -, -, rfl⟩ := Builtin.cons_ok h
  exact ⟨rfl, rfl⟩

theorem setElement (h : Builtin.setElement s args = .ok (v, s')) : s.SameRecords s' := by
  rcases Builtin.setElement_cases h with ⟨a, index, i, -, -, rfl⟩ | ⟨a, index, i, c, -, -, -, rfl⟩
  · exact ⟨rfl, rfl⟩
  · exact ⟨rfl, rfl⟩

theorem append (h : Builtin.append s args = .ok (v, s')) : s.SameRecords s' := by
  rcases Builtin.append_cases h with ⟨a, value, -, -, rfl⟩ | ⟨a, value, text, -, -, rfl⟩
  · exact ⟨rfl, rfl⟩
  · exact ⟨rfl, rfl⟩

theorem joinText (h : Builtin.joinText s args = .ok (v, s')) : s.SameRecords s' := by
  obtain ⟨text, -, rfl⟩ := Builtin.joinText_ok h
  exact ⟨rfl, rfl⟩

end Builtins

/-- Loading source data makes texts and pairs only. -/
theorem load (d : Datum) (s : Store) : s.SameRecords (d.load s).2 := by
  induction d generalizing s with
  | string text => exact ⟨rfl, rfl⟩
  | quoted inner ih => exact ih s
  | pair car cdr ihCar ihCdr =>
    exact ((ihCar s).trans (ihCdr _)).trans ⟨rfl, rfl⟩
  | _ => exact refl s

end Store.SameRecords

/-! Writing and declaring structs makes no closure. -/

theorem Store.closures_setField {s s' : Store} {a : Address} {name : String} {value v : Value}
    (h : s.setField a name value = .ok (v, s')) : s'.closures = s.closures := by
  obtain ⟨-, rfl, -⟩ := Store.setField_ok h
  rfl

theorem Struct.closures_derive {s s' : Store} {name : String} {parent struct : Struct}
    {specs : List FieldSpec} (h : Struct.derive s name parent specs = .ok (struct, s')) :
    s'.closures = s.closures := by
  obtain ⟨rfl, -⟩ := Struct.derive_ok h
  rfl

/-! ## What upholds an invariant -/

/-- The invariant holds of the objects of a store. -/
structure Invariant.OfStore (inv : Invariant) (s : Store) : Prop where
  structs : ∀ struct ∈ s.structs, inv.struct s struct
  closures : ∀ c ∈ s.closures, inv.environment c.env

/-- No reference in a machine dangles, and the invariant holds of its environments and objects. -/
structure Machine.Upholds (inv : Invariant) (m : Machine) : Prop extends m.Valid where
  objects : inv.OfStore m.store
  outermost : inv.environment m.global
  scopes : ∀ frame ∈ m.frames, inv.environment frame

/-- An invariant that everything keeps that evaluation does to environments and structs. -/
class Invariant.Lawful (inv : Invariant) : Prop where
  empty : inv.environment {}
  put : ∀ {env : Environment} (name : String) (value : Value), inv.environment env →
    inv.environment (env.put name value)
  remove : ∀ {env : Environment} (name : String), inv.environment env →
    inv.environment (env.remove name)
  putType : ∀ {env : Environment} (tag : TypeTag), inv.environment env →
    inv.environment (env.putType tag)
  putStruct : ∀ {env : Environment} (name : String) (a : Address), inv.environment env →
    inv.environment (env.putStruct name a)
  grows : ∀ {s s' : Store} {struct : Struct}, s.Grows s' → struct.Valid s → inv.struct s struct →
    inv.struct s' struct
  define : ∀ {s : Store} {name : String} {specs : List FieldSpec} {struct : Struct},
    Struct.define s name specs = .ok struct → inv.struct s struct
  derive : ∀ {s s' : Store} {name : String} {parent struct : Struct} {specs : List FieldSpec},
    s.Valid → inv.OfStore s → parent.Valid s → inv.struct s parent →
      FieldSpec.AllValid s specs → Struct.derive s name parent specs = .ok (struct, s') →
        inv.OfStore s' ∧ inv.struct s' struct
  copy : ∀ {s : Store} {struct : Struct}, s.Valid → inv.OfStore s → struct.Valid s →
    inv.struct s struct → inv.OfStore (s.copyStruct struct).2
  setField : ∀ {s s' : Store} {a : Address} {name : String} {value v : Value}, s.Valid →
    inv.OfStore s → value.Valid s → s.setField a name value = .ok (v, s') → inv.OfStore s'

/-- The invariant that says nothing more than that no reference dangles. -/
def Invariant.none : Invariant := ⟨fun _ => True, fun _ _ => True⟩

theorem Invariant.OfStore.none (s : Store) : Invariant.none.OfStore s :=
  ⟨fun _ _ => trivial, fun _ _ => trivial⟩

instance Invariant.none_lawful : Invariant.none.Lawful where
  empty := trivial
  put := fun _ _ _ => trivial
  remove := fun _ _ => trivial
  putType := fun _ _ => trivial
  putStruct := fun _ _ _ => trivial
  grows := fun _ _ _ => trivial
  define := fun _ => trivial
  derive := fun _ _ _ _ _ _ => ⟨.none _, trivial⟩
  copy := fun _ _ _ _ => .none _
  setField := fun _ _ _ _ => .none _

theorem Machine.Valid.upholds_none {m : Machine} (hm : m.Valid) : m.Upholds .none :=
  { hm with objects := .none _, outermost := trivial, scopes := fun _ _ => trivial }

namespace Invariant.Lawful

variable {inv : Invariant} [inv.Lawful] {env : Environment}

theorem putAll (henv : inv.environment env) (entries : List (String × Value)) :
    inv.environment (env.putAll entries) := by
  induction entries generalizing env with
  | nil => exact henv
  | cons entry rest ih => exact ih (put entry.1 entry.2 henv)

theorem putTypes (henv : inv.environment env) (tags : List TypeTag) :
    inv.environment (tags.foldl Environment.putType env) := by
  induction tags generalizing env with
  | nil => exact henv
  | cons tag rest ih => exact ih (putType tag henv)

theorem putFunctions (henv : inv.environment env) (functions : List NativeFunction) :
    inv.environment (functions.foldl (fun env f => env.put f.name (.native f)) env) := by
  induction functions generalizing env with
  | nil => exact henv
  | cons f rest ih => exact ih (put f.name (.native f) henv)

theorem initial : inv.environment .initial := by
  have htypes : inv.environment (BaseType.all.foldl (fun env b => env.putType b.tag) {}) := by
    rw [← List.foldl_map]
    exact putTypes empty _
  exact putFunctions htypes Builtin.all

theorem install (henv : inv.environment env) (p : Package) : inv.environment (p.install env) :=
  putAll (putFunctions (putTypes henv p.types) p.functions) p.symbols

end Invariant.Lawful

namespace Invariant.OfStore

variable {inv : Invariant} {s s' : Store} (hobjects : inv.OfStore s)
include hobjects

theorem struct {a : Address} (ha : a < s.structs.size) : inv.struct s (s.struct a) := by
  refine hobjects.structs _ ?_
  simp [Store.struct, Array.getD_eq_getD_getElem?, ha]

variable [inv.Lawful]

theorem closure (a : Address) : inv.environment (s.closure a).env := by
  unfold Store.closure
  rw [Array.getD_eq_getD_getElem?]
  cases hc : s.closures[a]? with
  | none => exact Lawful.empty
  | some c => exact hobjects.closures c (Array.mem_of_getElem? hc)

variable (hs : s.Valid)
include hs

/-- Where structs and closures are the same, the invariant holds as before. -/
theorem sameRecords (hgrows : s.Grows s') (h : s.SameRecords s') : inv.OfStore s' where
  structs := fun struct hstruct => by
    rw [h.structs] at hstruct
    exact Lawful.grows hgrows (hs.structs struct hstruct) (hobjects.structs struct hstruct)
  closures := fun c hc => by
    rw [h.closures] at hc
    exact hobjects.closures c hc

theorem newClosure {c : Closure} (hc : inv.environment c.env) :
    inv.OfStore (s.newClosure c).2 where
  structs := fun struct hstruct =>
    Lawful.grows (Store.Grows.newClosure c s) (hs.structs struct hstruct)
      (hobjects.structs struct hstruct)
  closures := fun found h => by
    rcases Array.mem_push.1 h with h | rfl
    · exact hobjects.closures found h
    · exact hc

theorem newStruct {struct : Struct} (hstruct : struct.Valid s) (h : inv.struct s struct) :
    inv.OfStore (s.newStruct struct).2 where
  structs := fun found hfound => by
    have hgrows := Store.Grows.newStruct struct s
    rcases Array.mem_push.1 hfound with hfound | rfl
    · exact Lawful.grows hgrows (hs.structs found hfound) (hobjects.structs found hfound)
    · exact Lawful.grows hgrows hstruct h
  closures := hobjects.closures

theorem list (items : List Value) : inv.OfStore (s.list items).2 :=
  hobjects.sameRecords hs (.list items s) (.list items s)

theorem setFields {a : Address} {entries : List (String × Value)}
    (hentries : Bound.Valid s entries) (h : s.setFields a entries = .ok s') : inv.OfStore s' := by
  refine (Store.setFields_induction (P := fun t => s.Grows t ∧ t.Valid ∧ inv.OfStore t) h
    ⟨.refl s, hs, hobjects⟩ ?_).2.2
  rintro entry hentry s₁ v s₂ ⟨hgrows, hs₁, hobjects₁⟩ hset
  have hvalue := (hentries entry hentry).grows hgrows
  exact ⟨hgrows.trans (Store.Grows.setField hset), (hs₁.setField hvalue hset).1,
    Lawful.setField hs₁ hobjects₁ hvalue hset⟩

theorem copyArgs {args : List Value} {v : Value} (hargs : Value.AllValid s args)
    (h : Builtin.copy s args = .ok (v, s')) : inv.OfStore s' := by
  have hgrows := Store.Grows.copy h
  rcases Builtin.copy_cases h with
    ⟨a, rfl, -, rfl⟩ | ⟨a, -, -, rfl⟩ | ⟨a, -, -, rfl⟩ | ⟨-, rfl⟩
  · have ha : a < s.structs.size := hargs (.struct a) (List.mem_cons_self ..)
    exact Lawful.copy hs hobjects (hs.struct ha) (hobjects.struct ha)
  · exact hobjects.sameRecords hs hgrows ⟨rfl, rfl⟩
  · exact hobjects.sameRecords hs hgrows ⟨rfl, rfl⟩
  · exact hobjects

end Invariant.OfStore

namespace Machine.Upholds

variable {inv : Invariant} {m : Machine} (hm : m.Upholds inv)
include hm

theorem activeHolds : inv.environment m.active := by
  unfold Machine.active
  split
  · exact hm.outermost
  · next frame frames hframes => exact hm.scopes frame (by rw [hframes]; exact List.mem_cons_self ..)

theorem withStore {s : Store} (hgrows : m.store.Grows s) (hs : s.Valid) (h : inv.OfStore s) :
    { m with store := s : Machine }.Upholds inv :=
  { hm.toValid.withStore hgrows hs with objects := h, outermost := hm.outermost, scopes := hm.scopes }

theorem updateActive {f : Environment → Environment}
    (hvalid : ∀ env : Environment, env.Valid m.store → (f env).Valid m.store)
    (hf : ∀ env : Environment, inv.environment env → inv.environment (f env)) :
    (m.updateActive f).Upholds inv := by
  have hupdated := hm.toValid.updateActive hvalid
  refine { hupdated with objects := ?_, outermost := ?_, scopes := ?_ }
  all_goals
    unfold Machine.updateActive
    split
  · exact hm.objects
  · exact hm.objects
  · exact hf _ hm.outermost
  · exact hm.outermost
  · exact hm.scopes
  · next frame frames hframes =>
    intro found h
    have hall := hm.scopes
    rw [hframes] at hall
    rcases List.mem_cons.1 h with rfl | h
    · exact hf frame (hall frame (List.mem_cons_self ..))
    · exact hall found (List.mem_cons_of_mem _ h)

end Machine.Upholds

/-- Notes are in no environment and in no object. -/
theorem Machine.Noted.upholds {inv : Invariant} {m m' : Machine} (h : m.Noted m')
    (hm : m.Upholds inv) : m'.Upholds inv := by
  obtain ⟨_, _, _, rfl⟩ := h
  exact { hm with }

end CurryLisp
