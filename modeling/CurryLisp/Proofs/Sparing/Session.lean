import CurryLisp.Proofs.Sparing.Evaluation
import CurryLisp.Proofs.StackDiscipline

/-!
# Sessions spare structs that nothing refers to

The requests of a session that refer to none of some structs leave them alone, if nothing on the machine
refers to them. Whatever the requests are, what they do to objects is a list of changes.

Statements:

* `Machine.Spares.serveAll`: requests that refer to none of the structs `P` spare them.
* `Session.turns_serveAll`: every session changes objects one at a time.
-/

namespace CurryLisp

namespace Session

variable {P : Address → Prop}

/-! ## Computations of a session -/

theorem sparing_load (d : Datum) : Sparing P (Value.Avoids P) (load d) := by
  refine Sparing.make fun s hs => ?_
  induction d generalizing s with
  | string text => exact ⟨.single (.newText text) trivial, { hs with }, trivial⟩
  | quoted inner ih => exact ih s hs
  | pair car cdr ihCar ihCdr =>
    obtain ⟨hturns, hspares, hcar⟩ := ihCar s hs
    obtain ⟨hturns', hspares', hcdr⟩ := ihCdr _ hspares
    exact ⟨(hturns.trans hturns').trans (.single .newPair trivial), { hspares' with }, hcar, hcdr⟩
  | _ => exact ⟨.refl s, hs, trivial⟩

theorem sparing_apply {f : Value} (hf : f.Avoids P) {args : List Value}
    (hargs : Value.AllAvoid P args) : Sparing P (Value.Avoids P) (apply f args) :=
  Sparing.get fun m _ =>
    Sparing.apply (fun _ he => .visitWithin (Evaluation.room m) he) hf hargs

theorem sparing_perform (op : Operation) {args : List Value} (hargs : Value.AllAvoid P args) :
    Sparing P (Value.Avoids P) (perform op args) :=
  Sparing.get fun m _ =>
    Sparing.perform (fun _ he => .visitWithin (Evaluation.room m) he) op hargs

theorem sparing_evaluate {e : Value} (he : e.Avoids P) :
    Sparing P (Value.Avoids P) (evaluate e) := by
  intro m hm
  have hsparing := Sparing.withLevel .full (Sparing.visit he) m hm
  unfold evaluate
  rcases hx : Eval.withLevel .full (Evaluation.visit e) m with ⟨err | value, after⟩
  · rw [hx] at hsparing
    obtain ⟨hturns, hspares, -⟩ := hsparing
    -- A failure leaves no frame behind, so none is dropped.
    have hframes : after.frames.drop (after.frames.length - m.frames.length) = after.frames := by
      rw [hturns.frames, Nat.sub_self, List.drop_zero]
    dsimp only
    rw [hframes]
    refine ⟨⟨hturns.store, hturns.frames, ?_, fun name => ?_⟩, { hspares with }, fun _ h => ?_⟩
    · exact hturns.events.trans (List.suffix_cons ..)
    · exact (hturns.templates name).imp_left fun h => h.trans_left (List.suffix_cons ..)
    · cases h
  · rw [hx] at hsparing
    exact hsparing

theorem sparing_evaluateData {last : Value} (hlast : last.Avoids P) (data : List Datum) :
    Sparing P (Value.Avoids P) (evaluateData last data) := by
  induction data generalizing last with
  | nil => exact Sparing.pure hlast
  | cons d ds ih =>
    refine Sparing.bind (sparing_load d) fun e he => ?_
    exact Sparing.bind (sparing_evaluate he) fun value hvalue => ih hvalue

theorem sparing_evaluateText (text : String) :
    Sparing P (Value.Avoids P) (evaluateText text) := by
  have hnil : Value.nil.Avoids P := trivial
  refine Sparing.bind (Q := Sparing.Any) ?_ fun data _ => sparing_evaluateData hnil data
  unfold readAll
  split
  · exact Sparing.pure trivial
  · exact Sparing.throw _

/-! ## Requests -/

/-- A request refers to none of `P`, and does not put a template or an environment in the place of
another one. -/
def Request.Avoids (P : Address → Prop) : Request → Prop
  | evaluate e => e.Avoids P
  | evaluateAll es => Value.AllAvoid P es
  | apply f args => f.Avoids P ∧ Value.AllAvoid P args
  | perform _ args => Value.AllAvoid P args
  | newVector items => ∀ v ∈ items, v.Avoids P
  | install p => Bound.Avoid P p.symbols
  | put _ value => value.Avoids P
  | defineStruct _ specs | deriveStruct _ _ specs => FieldSpec.AllAvoid P specs
  | instantiate _ inits => Bound.Avoid P inits
  | reset | putStruct _ _ => False
  | evaluateText _ | load _ | remove _ | putType _ | configure _ => True

end Session

/-- A package brings no template. -/
theorem Package.structs_install (p : Package) (env : Environment) :
    (p.install env).structs = env.structs := by
  let Same (env' : Environment) : Prop := env'.structs = env.structs
  have htypes : Same (p.types.foldl Environment.putType env) :=
    List.foldlRecOn p.types _ (motive := Same) rfl fun _ hsame _ _ => hsame
  exact List.foldlRecOn p.functions _ (motive := Same) htypes fun _ hsame _ _ => hsame

/-- A package refers to what its constants refer to. -/
theorem Environment.Avoids.install {P : Address → Prop} {env : Environment} (henv : env.Avoids P)
    {p : Package} (hp : Bound.Avoid P p.symbols) : (p.install env).Avoids P := by
  have htypes : (p.types.foldl Environment.putType env).Avoids P :=
    List.foldlRecOn p.types _ (motive := Environment.Avoids P) henv fun _ henv _ _ => henv
  have hfunctions := List.foldlRecOn p.functions (fun env f => env.put f.name (.native f))
    (motive := Environment.Avoids P) htypes fun _ henv f _ => henv.put f.name trivial
  exact hfunctions.putAll hp

open Session

namespace Machine.Spares

variable {P : Address → Prop} {m : Machine} (hm : m.Spares P)
include hm

theorem evaluateAll {es : List Value} (hes : Value.AllAvoid P es) :
    m.Turns P (Session.evaluateAll es m).2 ∧ (Session.evaluateAll es m).2.Spares P := by
  induction es generalizing m with
  | nil => exact ⟨.refl m, hm⟩
  | cons e es ih =>
    obtain ⟨he, hes⟩ := List.forall_mem_cons.1 hes
    obtain ⟨hturns, hspares, -⟩ := sparing_evaluate he m hm
    obtain ⟨hturns', hspares'⟩ := ih hspares hes
    exact ⟨hturns.trans hturns', hspares'⟩

/-- **A request that refers to none of the structs `P` spares them.** -/
theorem serve {request : Request} (h : request.Avoids P) :
    m.Turns P (request.serve m) ∧ (request.serve m).Spares P := by
  have hserved : ∀ {α : Type} {Q : α → Prop} {x : Eval α}, Sparing P Q x →
      m.Turns P (x m).2 ∧ (x m).2.Spares P := by
    intro α Q x hx
    obtain ⟨hturns, hspares, -⟩ := hx m hm
    exact ⟨hturns, hspares⟩
  cases request with
  | evaluate e => exact hserved (sparing_evaluate h)
  | evaluateAll es => exact hm.evaluateAll h
  | evaluateText text => exact hserved (sparing_evaluateText text)
  | apply f args => exact hserved (sparing_apply h.1 h.2)
  | perform op args => exact hserved (sparing_perform op h)
  | load d => exact hserved (sparing_load d)
  | newVector items =>
    refine hserved (Q := Value.Avoids P) (Sparing.make fun s hs => ?_)
    exact ⟨.single (.newVector items) trivial, hs.newVector h, trivial⟩
  | reset => exact h.elim
  | install p =>
    exact hserved (Sparing.updateActive p.structs_install fun _ henv => henv.install h)
  | put name value => exact hserved (Sparing.put name h)
  | remove name => exact hserved (Sparing.remove name)
  | putType tag => exact hserved (Sparing.putType tag)
  | putStruct name template => exact h.elim
  | defineStruct name specs => exact hserved (Sparing.defineTemplate name h)
  | deriveStruct name parent specs => exact hserved (Sparing.deriveTemplate name parent h)
  | instantiate name inits => exact hserved (Sparing.instantiateStruct name h)
  | configure options => exact hserved (Sparing.setOptions options)

/-- **Requests that refer to none of the structs `P` spare them.** -/
theorem serveAll {requests : List Request} (h : ∀ request ∈ requests, request.Avoids P) :
    m.Turns P (Session.serveAll m requests) ∧ (Session.serveAll m requests).Spares P := by
  unfold Session.serveAll
  induction requests generalizing m with
  | nil => exact ⟨.refl m, hm⟩
  | cons request requests ih =>
    obtain ⟨hrequest, hrequests⟩ := List.forall_mem_cons.1 h
    obtain ⟨hturns, hspares⟩ := hm.serve hrequest
    obtain ⟨hturns', hspares'⟩ := ih hspares hrequests
    exact ⟨hturns.trans hturns', hspares'⟩

end Machine.Spares

/-! ## Every session -/

/-- Every value refers to no struct of an empty set. -/
theorem Value.avoids_nothing (v : Value) : v.Avoids fun _ => False := by
  induction v with
  | struct a => exact id
  | quoted inner ih => exact ih
  | pair stamp car cdr ihCar ihCdr => exact ⟨ihCar, ihCdr⟩
  | _ => exact trivial

theorem Store.spares_nothing (s : Store) : s.Spares fun _ => False where
  vectors := fun _ _ v _ => v.avoids_nothing
  closures := fun _ _ => ⟨fun v _ => v.avoids_nothing, fun entry _ => entry.2.avoids_nothing,
    fun entry _ => entry.2.avoids_nothing⟩
  constants := fun v _ => v.avoids_nothing
  others := fun _ _ entry _ => entry.2.value.avoids_nothing
  fields := fun _ ha => ha.elim
  known := fun _ ha => ha.elim
  closed := fun _ _ ha => ha.elim
  acyclic := fun _ ha => ha.elim

theorem Machine.spares_nothing (m : Machine) : m.Spares fun _ => False where
  store := m.store.spares_nothing
  global := fun entry _ => entry.2.avoids_nothing
  frames := fun _ _ entry _ => entry.2.avoids_nothing

/-- A request does to objects a list of changes. -/
theorem Session.turns_serve (m : Machine) (request : Request) :
    m.store.Turns (fun _ => False) (request.serve m).store := by
  -- Every request avoids the empty set of structs, but for two that change no object.
  have hserve : request.Avoids (fun _ => False) ∨ (request.serve m).store = m.store := by
    cases request with
    | evaluate e => exact .inl e.avoids_nothing
    | evaluateAll es => exact .inl fun v _ => v.avoids_nothing
    | apply f args => exact .inl ⟨f.avoids_nothing, fun v _ => v.avoids_nothing⟩
    | perform op args => exact .inl fun v _ => v.avoids_nothing
    | newVector items => exact .inl fun v _ => v.avoids_nothing
    | install p => exact .inl fun entry _ => entry.2.avoids_nothing
    | put name value => exact .inl value.avoids_nothing
    | defineStruct name specs => exact .inl fun spec _ => spec.default.avoids_nothing
    | deriveStruct name parent specs => exact .inl fun spec _ => spec.default.avoids_nothing
    | instantiate name inits => exact .inl fun entry _ => entry.2.avoids_nothing
    | reset => exact .inr rfl
    | putStruct name template =>
      refine .inr ?_
      unfold Request.serve Machine.updateActive
      cases m.frames <;> rfl
    | evaluateText _ | load _ | remove _ | putType _ | configure _ => exact .inl trivial
  rcases hserve with havoids | hsame
  · exact (m.spares_nothing.serve havoids).1.store
  · rw [hsame]
    exact .refl _

/-- **Whatever a session does to objects is a list of changes.** -/
theorem Session.turns_serveAll (m : Machine) (requests : List Request) :
    m.store.Turns (fun _ => False) (serveAll m requests).store := by
  unfold serveAll
  induction requests generalizing m with
  | nil => exact .refl _
  | cons request requests ih => exact (turns_serve m request).trans (ih (request.serve m))

end CurryLisp
