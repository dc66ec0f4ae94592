import CurryLisp.Proofs.Contents
import CurryLisp.Proofs.References.Session
import CurryLisp.Proofs.Sparing.Session

/-!
# Instances do not depend on each other

An instance is a copy of the template of its name. It shares with the template what the copier does not
copy: texts, vectors, and structs inside of lists, quotes and closures. Where a template holds none of
these (`Store.Settled`), where no struct in it leads back to itself, and where nothing else refers to its
structs, the template stays as it is. So instances are alike at all times.

Statements:

* `Store.Settled.alike`: what a settled struct holds stays, as long as no struct in it is written to.
* `Machine.instantiate_alike`: later instances are like the template, are made of new structs, and change
  only where one of these is written to.
* `Struct.Definition.instances_alike`: **instances of a definition depend neither on the template nor on
  each other.**
-/

namespace CurryLisp

open Session (Request serveAll)

/-! ## Settled structs -/

/-- Everything that the struct at `a` holds is copied with it or can never change: it holds no text and
no vector, and structs only in fields of structs. -/
structure Store.Settled (s : Store) (a : Address) : Prop where
  texts : ∀ b, ¬(Value.struct a).Reaches s (.string b)
  vectors : ∀ b, ¬(Value.struct a).Reaches s (.vector b)
  structs : ∀ v c, (Value.struct a).Reaches s v → v.Part s (.struct c) → ∃ b, v = .struct b

/-- What is reached from one of two alike values is like something that is reached from the other. -/
theorem Value.Alike.exists_reaches {s s' : Store} {v w w' : Value} (h : v.Alike s s' w)
    (hw : w.Reaches s' w') : ∃ v', v.Reaches s v' ∧ v'.Alike s s' w' := by
  induction hw with
  | refl => exact ⟨v, .refl, h⟩
  | @tail w₁ w₂ _ hpart ih =>
    obtain ⟨v₁, hv₁, halike⟩ := ih
    obtain ⟨hlength, hparts⟩ := List.forall₂_iff_get.1 halike.forall₂_parts
    obtain ⟨i, hi, rfl⟩ := List.getElem_of_mem (Value.part_iff_mem_parts.1 hpart)
    have hi' : i < (v₁.parts s).length := hlength ▸ hi
    exact ⟨_, hv₁.tail (Value.part_iff_mem_parts.2 (List.getElem_mem hi')), hparts i hi' hi⟩

theorem Value.exists_of_face_struct {s : Store} {v : Value}
    {shape : String × TypeTag × List (String × TypeTag)} (h : v.face s = .struct shape) :
    ∃ a, v = .struct a := by
  cases v with
  | struct a => exact ⟨a, rfl⟩
  | _ => cases h

namespace Store.Settled

variable {s s' : Store} {a b c : Address} (h : s.Settled a)
include h

/-- A struct that is reached stands in fields of structs. -/
theorem leads (hc : (Value.struct a).Reaches s (.struct c)) : s.Leads a c := by
  have hreach : ∀ v, (Value.struct a).Reaches s v → ∀ c, v = .struct c → s.Leads a c := by
    intro v hv
    induction hv with
    | refl =>
      rintro c ⟨⟩
      exact .refl
    | tail hv hpart ih =>
      rintro c rfl
      obtain ⟨d, rfl⟩ := h.structs _ c hv hpart
      obtain ⟨entry, hentry, hvalue⟩ := List.mem_map.1 (Value.part_iff_mem_parts.1 hpart)
      exact (ih d rfl).tail ⟨entry, hentry, hvalue⟩
  exact hreach _ hc c rfl

/-- **What a settled struct holds stays**, as long as no struct in it is written to. -/
theorem alike (hs : s.Valid) (ha : a < s.structs.size) (hturns : s.Turns (s.Leads a) s') :
    (Value.struct a).Alike s s' (.struct a) := by
  refine Value.alike_of_kept fun w hw => ?_
  have hvalid : w.Valid s := Value.Valid.reaches hs (v := .struct a) ha hw
  refine Value.kept_of_grows hturns.grows hvalid ?_ ?_ ?_
  · rintro b rfl
    exact h.texts b hw
  · rintro b rfl
    exact h.vectors b hw
  · rintro c rfl
    exact hturns.struct_eq (h.leads hw) hvalid

/-- What is like a settled struct is settled. -/
theorem of_alike (halike : (Value.struct a).Alike s s' (.struct b)) : s'.Settled b where
  texts := fun c hc => by
    obtain ⟨v, hv, hlike⟩ := halike.exists_reaches hc
    have hface := hlike.face_eq
    cases v with
    | string d => exact h.texts d hv
    | _ => cases hface
  vectors := fun c hc => by
    obtain ⟨v, hv, hlike⟩ := halike.exists_reaches hc
    have hface := hlike.face_eq
    cases v with
    | vector d => exact h.vectors d hv
    | _ => cases hface
  structs := fun w c hw hpart => by
    obtain ⟨v, hv, hlike⟩ := halike.exists_reaches hw
    -- The struct is a part of `w`, and its partner stands at the same place in the partner of `w`.
    obtain ⟨hlength, hparts⟩ := List.forall₂_iff_get.1 hlike.forall₂_parts
    obtain ⟨i, hi, hitem⟩ := List.getElem_of_mem (Value.part_iff_mem_parts.1 hpart)
    have hi' : i < (v.parts s).length := hlength ▸ hi
    have hface := (hparts i hi' hi).face_eq
    simp only [List.get_eq_getElem, hitem] at hface
    obtain ⟨d, hd⟩ := Value.exists_of_face_struct hface
    have hmem := List.getElem_mem hi'
    rw [hd] at hmem
    obtain ⟨e, rfl⟩ := h.structs v d hv (Value.part_iff_mem_parts.2 hmem)
    exact Value.exists_of_face_struct hlike.face_eq.symm

end Store.Settled

/-! ## Instances -/

/-- Without values for fields an instance is a copy of the template. -/
theorem Struct.instantiate_apply {m : Machine} {name : String} {a : Address}
    (ha : m.lookupStruct? name = some a) :
    instantiate name [] m = (.ok (.struct (m.store.copyStruct (m.store.struct a)).1),
      { m with store := (m.store.copyStruct (m.store.struct a)).2 }) := by
  unfold instantiate
  rw [Eval.bind_apply, template_apply, ha]
  rfl

/-- Making an instance is not noted. -/
theorem Struct.events_instantiate (name : String) (inits : List (String × Value)) (m : Machine) :
    (instantiate name inits m).2.events = m.events := by
  unfold instantiate
  rw [Eval.bind_apply, template_apply]
  cases m.lookupStruct? name with
  | none => rfl
  | some a =>
    simp only [Eval.onStore]
    split <;> rfl

/-- A definition registers what it answers under its name. -/
theorem Struct.Definition.lookupStruct?_perform {d : Definition} {m₀ m : Machine} {a : Address}
    (hd : d.perform m₀ = (.ok (.struct a), m)) : m.lookupStruct? d.name = some a := by
  rw [d.perform_eq] at hd
  cases hbuild : d.build m₀ with
  | error e =>
    rw [hbuild] at hd
    cases hd
  | ok made =>
    obtain ⟨struct, s⟩ := made
    rw [hbuild] at hd
    cases hd
    obtain ⟨hname, -⟩ := build_ok hbuild
    unfold Machine.lookupStruct? Machine.register Machine.updateActive Machine.active
    cases m₀.frames <;> simp [Environment.putStruct, hname]

/-- Where nothing is noted, nothing is registered. -/
theorem Machine.not_registered {m m' : Machine} (h : m'.events = m.events) (name : String) :
    ¬m.Registered m' name := by
  rintro ⟨new, tag, hevents, hmem⟩
  rw [h] at hevents
  rw [List.self_eq_append_left.1 hevents] at hmem
  cases hmem

/-! ### After a definition -/

section Fresh

variable {P : Address → Prop} {s : Store} (hP : ∀ a, P a → s.structs.size ≤ a)
include hP

/-- What is valid refers to no struct that is still to be made. -/
theorem Value.Valid.avoids {v : Value} (hv : v.Valid s) : v.Avoids P := by
  induction v with
  | struct a => exact fun ha => Nat.not_lt_of_le (hP a ha) hv
  | quoted inner ih => exact ih hv
  | pair stamp car cdr ihCar ihCdr => exact ⟨ihCar hv.2.1, ihCdr hv.2.2⟩
  | _ => exact trivial

theorem Closure.Valid.avoids {c : Closure} (hc : c.Valid s) : c.Avoids P where
  body := fun v hv => (hc.body v hv).avoids hP
  env := fun entry hentry => (hc.env.bindings entry hentry).avoids hP
  bound := fun entry hentry => (hc.bound entry hentry).avoids hP

end Fresh

/-- What stands in a field is valid. -/
theorem Store.Valid.field {s : Store} (hs : s.Valid) {a : Address} {entry : String × Field}
    (h : entry ∈ (s.struct a).fields.entries) : entry.2.value.Valid s := by
  by_cases ha : a < s.structs.size
  · exact (hs.struct ha).fields entry h
  · rw [Store.struct, Array.getD_eq_getD_getElem?, Array.getElem?_eq_none (Nat.le_of_not_lt ha)] at h
    cases h

/-- A new struct that holds no struct is referred to by nothing. -/
theorem Store.Valid.spares_newStruct {s : Store} (hs : s.Valid) {struct : Struct}
    (hstruct : struct.Avoids fun _ => True) :
    (∀ c, (s.newStruct struct).2.Leads s.structs.size c → c = s.structs.size) ∧
      (s.newStruct struct).2.Spares ((s.newStruct struct).2.Leads s.structs.size) := by
  -- Nothing that existed before knows the new address, and the new struct holds no struct.
  have hlink : ∀ c, ¬(s.newStruct struct).2.Link s.structs.size c := by
    rintro c ⟨entry, hentry, hvalue⟩
    rw [s.struct_newStruct] at hentry
    have havoids := hstruct entry hentry
    rw [hvalue] at havoids
    exact havoids trivial
  have hleads : ∀ c, (s.newStruct struct).2.Leads s.structs.size c → c = s.structs.size := by
    intro c hc
    rcases hc.cases_head with rfl | ⟨b, hb, -⟩
    · rfl
    · exact (hlink b hb).elim
  have hP : ∀ c, (s.newStruct struct).2.Leads s.structs.size c → s.structs.size ≤ c :=
    fun c hc => Nat.le_of_eq (hleads c hc).symm
  refine ⟨hleads, ?_⟩
  constructor
  · exact fun items hitems v hv => (hs.vectors items hitems v hv).avoids hP
  · exact fun c hc => (hs.closures c hc).avoids hP
  · exact fun v hv => (hs.constants v hv).avoids hP
  · intro c hc entry hentry
    have hne : c ≠ s.structs.size := fun heq => hc (heq ▸ .refl)
    rw [s.struct_newStruct_of_ne struct hne] at hentry
    exact (hs.field hentry).avoids hP
  · intro c hc entry hentry
    rw [hleads c hc, s.struct_newStruct] at hentry
    exact .inr ((hstruct entry hentry).mono fun _ _ => trivial)
  · intro c hc
    rw [hleads c hc]
    simp [Store.newStruct]
  · exact fun c d hc hcd => hc.tail hcd
  · intro c hc hrecurs
    obtain ⟨b, hb, -⟩ := Relation.TransGen.head'_iff.1 hrecurs
    rw [hleads c hc] at hb
    exact hlink b hb

/-- Right after a definition on its own nothing refers to the template, if the defaults hold no
structs. -/
theorem Struct.Definition.spares_perform {d : Definition} {m₀ m : Machine} {a : Address}
    (hd : d.perform m₀ = (.ok (.struct a), m)) (hparent : d.parent = none) (hm₀ : m₀.Valid)
    (hspecs : FieldSpec.AllAvoid (fun _ => True) d.specs) :
    (∀ c, m.store.Leads a c → c = a) ∧ m.Spares (m.store.Leads a) := by
  obtain ⟨name, parent, specs⟩ := d
  subst hparent
  rw [perform_eq] at hd
  simp only [build] at hd
  cases hdefined : define m₀.store name specs with
  | error e =>
    rw [hdefined] at hd
    cases hd
  | ok struct =>
    rw [hdefined] at hd
    cases hd
    obtain ⟨hleads, hspares⟩ := hm₀.store.spares_newStruct (define_avoid hspecs hdefined)
    rw [m₀.store_register]
    have hP := fun c hc => Nat.le_of_eq (hleads c hc).symm
    have hnoted : { m₀ with
        events := .structRegistered struct.name struct.tag.name :: m₀.events
        store := (m₀.store.newStruct struct).2 : Machine }.Spares
          ((m₀.store.newStruct struct).2.Leads m₀.store.structs.size) := {
      store := hspares
      global := fun entry hentry => (hm₀.global.bindings entry hentry).avoids hP
      frames := fun frame hframe entry hentry =>
        ((hm₀.frames frame hframe).bindings entry hentry).avoids hP }
    exact ⟨hleads, hnoted.updateActive fun env henv => henv⟩

section Instances

variable {m : Machine} {name : String} {a : Address} {requests : List Request}

/-- **The template of a name is copied in the same way later on**, if nothing refers to the structs in
it and no struct of the name is registered in between. The copy consists of new structs, and changes
only if one of them is written to. -/
theorem Machine.instantiate_alike (hm : m.Valid) (ha : m.lookupStruct? name = some a)
    (hsettled : m.store.Settled a) (hspares : m.Spares (m.store.Leads a))
    (hrequests : Session.ServesValid m requests)
    (havoids : ∀ request ∈ requests, request.Avoids (m.store.Leads a))
    (hname : ¬m.Registered (serveAll m requests) name) :
    ∃ b m', Struct.instantiate name [] (serveAll m requests) = (.ok (.struct b), m') ∧
      (Value.struct a).Alike m.store m'.store (.struct b) ∧
      (∀ c, m'.store.Leads b c → (serveAll m requests).store.structs.size ≤ c) ∧
      ∀ s, m'.store.Turns (m'.store.Leads b) s → (Value.struct b).Alike m'.store s (.struct b) := by
  obtain ⟨hturns, hspares'⟩ := hspares.serveAll havoids
  have hvalid := hm.serveAll hrequests
  have hlookup := (hturns.lookupStruct? hname).trans ha
  generalize serveAll m requests = later at hturns hspares' hvalid hlookup ⊢
  have hstays : (Value.struct a).Alike m.store later.store (.struct a) :=
    hsettled.alike hm.store (hspares.store.known a .refl) hturns.store
  have hlt : a < later.store.structs.size := hspares'.store.known a .refl
  have hcopied := later.store.copied_copyStruct (later.store.struct a)
  have halike := hstays.trans (hcopied.alike hvalid.store hlt)
  -- The structs of the template are the same ones as before.
  have htemplate : ∀ c, later.store.Leads a c → m.store.Leads a c :=
    fun c hc => hspares'.store.of_leads .refl hc
  -- None of them leads back to itself, so none of them is kept by the copier.
  have hnew := fun c => hcopied.size_le_of_leads (c := c) fun d hd =>
    ⟨hspares'.store.known d (htemplate d hd), hspares'.store.acyclic d (htemplate d hd)⟩
  have hvalid' := (hvalid.store.copyStruct (hvalid.store.struct hlt)).1
  refine ⟨_, _, Struct.instantiate_apply hlookup, halike, hnew, fun s hs => ?_⟩
  exact (hsettled.of_alike halike).alike hvalid' hcopied.new hs

/-- **Instances of a definition depend neither on the template nor on each other.** Where the template
holds nothing but what is copied with it or cannot change, and nothing else refers to the structs in it,
after any requests that define no struct of this name an instance is like the one that was made right
after the definition. It consists of new structs, and stays as it is under all changes that write to none
of these. -/
theorem Struct.Definition.instances_alike {d : Definition} {m₀ : Machine}
    (hd : d.perform m₀ = (.ok (.struct a), m)) (hm : m.Valid) (hsettled : m.store.Settled a)
    (hspares : m.Spares (m.store.Leads a)) (hrequests : Session.ServesValid m requests)
    (havoids : ∀ request ∈ requests, request.Avoids (m.store.Leads a))
    (hname : ¬m.Registered (serveAll m requests) d.name) :
    ∃ b m₁ b' m₂, instantiate d.name [] m = (.ok (.struct b), m₁) ∧
      instantiate d.name [] (serveAll m requests) = (.ok (.struct b'), m₂) ∧
      (Value.struct b).Alike m₁.store m₂.store (.struct b') ∧
      (∀ c, m₂.store.Leads b' c → (serveAll m requests).store.structs.size ≤ c) ∧
      ∀ s, m₂.store.Turns (m₂.store.Leads b') s →
        (Value.struct b').Alike m₂.store s (.struct b') := by
  have ha := lookupStruct?_perform hd
  -- Both instances are like the template as it was right after its definition.
  have hserved : Session.ServesValid m [] := trivial
  have hsame : ¬m.Registered (serveAll m []) d.name := Machine.not_registered rfl d.name
  obtain ⟨b, m₁, hmade, halike, -⟩ :=
    Machine.instantiate_alike hm ha hsettled hspares hserved (by simp) hsame
  obtain ⟨b', m₂, hmade', halike', hnew, hstays⟩ :=
    Machine.instantiate_alike hm ha hsettled hspares hrequests havoids hname
  exact ⟨b, m₁, b', m₂, hmade, hmade', halike.symm.trans halike', hnew, hstays⟩

end Instances

namespace Struct.Definition

/-- A struct with a number in its field. -/
def point : Definition := { name := "point", specs := [{ name := "x", default := .integer 1 }] }

/-- Another instance, with another number, changes nothing for later ones. -/
theorem instances_alike_point :
    let m := (point.perform (Machine.start .initial {} {})).2
    let requests := [Request.instantiate "point" [("x", .integer 2)]]
    point.perform (Machine.start .initial {} {}) = (.ok (.struct 0), m) ∧ m.Valid ∧
      m.store.Settled 0 ∧ m.Spares (m.store.Leads 0) ∧ Session.ServesValid m requests ∧
      (∀ request ∈ requests, request.Avoids (m.store.Leads 0)) ∧
      ¬m.Registered (serveAll m requests) point.name ∧
      ∃ b m₁ b' m₂, instantiate point.name [] m = (.ok (.struct b), m₁) ∧
        instantiate point.name [] (serveAll m requests) = (.ok (.struct b'), m₂) ∧
        (Value.struct b).Alike m₁.store m₂.store (.struct b') := by
  intro m requests
  have hd : point.perform (Machine.start .initial {} {}) = (.ok (.struct 0), m) := rfl
  have hstart : (Machine.start .initial {} {}).Valid := .start .empty
  have hrequest : (Request.defineStruct "point" point.specs).Valid {} := fun spec h => by
    obtain rfl := List.mem_singleton.1 h
    exact trivial
  have hm : m.Valid := hstart.serve hrequest
  obtain ⟨-, hspares⟩ := spares_perform hd rfl hstart fun spec h => by
    obtain rfl := List.mem_singleton.1 h
    exact trivial
  have hreach : ∀ v, (Value.struct 0).Reaches m.store v → v = .struct 0 ∨ v = .integer 1 := by
    intro v hv
    induction hv with
    | refl => exact .inl rfl
    | tail _ hpart ih =>
      rcases ih with rfl | rfl
      · exact .inr (List.mem_singleton.1 (Value.part_iff_mem_parts.1 hpart))
      · cases hpart
  have hsettled : m.store.Settled 0 := {
    texts := fun b hb => by simpa using hreach _ hb
    vectors := fun b hb => by simpa using hreach _ hb
    structs := fun v c hv hpart => by
      rcases hreach v hv with rfl | rfl
      · exact ⟨0, rfl⟩
      · cases hpart }
  have hrequests : Session.ServesValid m requests := by
    simp [requests, Session.ServesValid, Request.Valid, Value.Valid]
  have havoids : ∀ request ∈ requests, request.Avoids (m.store.Leads 0) := by
    simp [requests, Request.Avoids, Value.Avoids]
  have hname : ¬m.Registered (serveAll m requests) point.name :=
    Machine.not_registered (events_instantiate "point" [("x", .integer 2)] m) _
  obtain ⟨b, m₁, b', m₂, hmade, hmade', halike, -⟩ :=
    instances_alike hd hm hsettled hspares hrequests havoids hname
  exact ⟨hd, hm, hsettled, hspares, hrequests, havoids, hname, b, m₁, b', m₂, hmade, hmade', halike⟩

/-- A struct with a vector in its field. -/
def bag : Definition := { name := "bag", specs := [{ name := "v", default := .vector 0 }] }

/-- Instances share the vectors of the template: what is put into the vector of one of them is found in
later ones. -/
theorem not_instances_alike_bag :
    let m := (bag.perform (Machine.start .initial {} { vectors := #[#[.integer 1]] })).2
    let requests := [Request.instantiate "bag" [],
      .perform .setElement [.vector 0, .integer 0, .integer 9]]
    bag.perform (Machine.start .initial {} { vectors := #[#[.integer 1]] }) = (.ok (.struct 0), m) ∧
      m.Spares (m.store.Leads 0) ∧
      (∀ request ∈ requests, request.Avoids (m.store.Leads 0)) ∧
      ¬m.Registered (serveAll m requests) bag.name ∧
      ∃ b m₁ b' m₂, instantiate bag.name [] m = (.ok (.struct b), m₁) ∧
        (m₁.store.struct b).read "v" = .ok (.vector 0) ∧
        instantiate bag.name [] (serveAll m requests) = (.ok (.struct b'), m₂) ∧
        ¬(Value.struct b).Alike m₁.store m₂.store (.struct b') := by
  intro m requests
  have hd : bag.perform (Machine.start .initial {} { vectors := #[#[.integer 1]] }) =
    (.ok (.struct 0), m) := rfl
  have ha : m.lookupStruct? "bag" = some 0 := lookupStruct?_perform hd
  have hstore : ({ vectors := #[#[.integer 1]] } : Store).Valid := by
    constructor <;> simp [Value.Valid]
  obtain ⟨-, hspares⟩ := spares_perform hd rfl (.start hstore) fun spec h => by
    obtain rfl := List.mem_singleton.1 h
    exact trivial
  -- The copy of the template is a struct with the same vector in its field.
  let struct : Struct :=
    { name := "bag", tag := .define ":bag" (some BaseType.struct.tag),
      fields := ⟨[("v", ⟨BaseType.any.tag, .vector 0⟩)]⟩ }
  have hcopy : ∀ s : Store, s.copyStruct struct = s.newStruct struct := fun s => by
    simp [Store.copyStruct, Store.copyFields, Struct.copyFields, struct]
  let m₁ : Machine := { m with store := (m.store.newStruct struct).2 }
  have hmade : instantiate "bag" [] m = (.ok (.struct 1), m₁) := by
    have hstruct : m.store.struct 0 = struct := rfl
    rw [instantiate_apply ha, hstruct, hcopy]
    rfl
  let later : Machine := { m₁ with store := m₁.store.setItem 0 0 (.integer 9) }
  have hlater : serveAll m requests = later := by
    have hwritten : Session.perform .setElement [.vector 0, .integer 0, .integer 9] m₁ =
        (.ok (.integer 9), later) := by
      change Application.perform _ _ _ m₁ = _
      rw [Application.perform.eq_def]
      rfl
    simp only [requests, serveAll, List.foldl_cons, List.foldl_nil, Request.serve, hmade, hwritten]
  let m₂ : Machine := { later with store := (later.store.newStruct struct).2 }
  have hmade' : instantiate "bag" [] later = (.ok (.struct 2), m₂) := by
    have hstruct : later.store.struct 0 = struct := rfl
    rw [instantiate_apply (m := later) (a := 0) ha, hstruct, hcopy]
    rfl
  rw [hlater]
  refine ⟨hd, hspares, ?_, Machine.not_registered rfl _, 1, m₁, 2, m₂, hmade, rfl, hmade', ?_⟩
  · simp [requests, Request.Avoids, Value.AllAvoid, Value.Avoids]
  · intro halike
    have hitem : some (Value.Face.atom (.integer 1)) = some (.atom (.integer 9)) := halike [0, 0]
    cases hitem

end Struct.Definition

end CurryLisp
