import CurryLisp.Proofs.References.Evaluation
import CurryLisp.Proofs.StackDiscipline

/-!
# No reference dangles in a session

A machine that starts in the initial environment is valid, and each request keeps it valid that names
no object which does not exist. So a machine is valid between all requests of a session, and so is what
a lawful invariant says of it.

Statements:

* `Session.apply_valid`: what an application answers is valid.
* `Machine.Upholds.serveAll`: every session keeps every lawful invariant.
* `Machine.Valid.serveAll`: every session keeps a machine valid.
-/

namespace CurryLisp

theorem Store.Valid.empty : ({} : Store).Valid :=
  ⟨fun _ h => by simp at h, fun _ h => by simp at h, fun _ h => by simp at h, fun _ h => by simp at h⟩

/-- A machine is valid at the start of a session. -/
theorem Machine.Valid.start {options : Options} {s : Store} (hs : s.Valid) :
    (Machine.start .initial options s).Valid :=
  ⟨hs, .initial, fun _ h => by cases h⟩

/-- At the start of a session a lawful invariant holds if it holds of the objects. -/
theorem Machine.Upholds.start {inv : Invariant} [inv.Lawful] {options : Options} {s : Store}
    (hs : s.Valid) (hobjects : inv.OfStore s) :
    (Machine.start .initial options s).Upholds inv :=
  { Machine.Valid.start hs with
    objects := hobjects
    outermost := Invariant.Lawful.initial
    scopes := fun _ h => by cases h }

theorem Store.Grows.load (d : Datum) (s : Store) : s.Grows (d.load s).2 := by
  induction d generalizing s with
  | string text => exact newText text s
  | quoted inner ih => exact ih s
  | pair car cdr ihCar ihCdr => exact ((ihCar s).trans (ihCdr _)).trans (cons _ _ _)
  | _ => exact refl s

/-- What is loaded is new. -/
theorem Store.Valid.load (d : Datum) {s : Store} (hs : s.Valid) :
    (d.load s).2.Valid ∧ (d.load s).1.Valid (d.load s).2 := by
  induction d generalizing s with
  | string text => exact hs.newText text
  | quoted inner ih => exact ih hs
  | pair car cdr ihCar ihCdr =>
    obtain ⟨hvalid, hcar⟩ := ihCar hs
    obtain ⟨hvalid', hcdr⟩ := ihCdr hvalid
    exact hvalid'.cons (hcar.grows (.load cdr _)) hcdr
  | _ => exact ⟨hs, trivial⟩

namespace Session

variable {inv : Invariant} {s : Store}

/-! ## Computations of a session -/

theorem keeps_load [inv.Lawful] (d : Datum) : Keeps inv s Value.Valid (load d) :=
  Keeps.make (fun s' => .load d s') (fun _ _ hvalid => hvalid.load d)
    fun s' _ hvalid hobjects => hobjects.sameRecords hvalid (.load d s') (.load d s')

theorem keeps_apply [inv.Lawful] {f : Value} (hf : f.Valid s) {args : List Value}
    (hargs : Value.AllValid s args) : Keeps inv s Value.Valid (apply f args) :=
  Keeps.get fun m hm _ =>
    Keeps.apply (fun _ _ he => .visitWithin (Evaluation.room m) he) (hf.grows hm) (hargs.grows hm)

theorem keeps_perform [inv.Lawful] (op : Operation) {args : List Value} (hargs : Value.AllValid s args) :
    Keeps inv s Value.Valid (perform op args) :=
  Keeps.get fun m hm _ =>
    Keeps.perform (fun _ _ he => .visitWithin (Evaluation.room m) he) op (hargs.grows hm)

theorem keeps_evaluate [inv.Lawful] {e : Value} (he : e.Valid s) : Keeps inv s Value.Valid (evaluate e) := by
  intro m hs hm
  have hvisit : Keeps inv s Value.Valid (Evaluation.visit e) :=
    Keeps.get fun m hm _ => .visitWithin (Evaluation.room m) (he.grows hm)
  have hkeeps := Keeps.withLevel .full hvisit m hs hm
  unfold evaluate
  rcases hx : Eval.withLevel .full (Evaluation.visit e) m with ⟨err | value, after⟩
  · rw [hx] at hkeeps
    obtain ⟨hgrows, hvalid, -⟩ := hkeeps
    refine ⟨hgrows, { hvalid with
      frames := fun frame hframe => hvalid.frames frame (List.mem_of_mem_drop hframe)
      scopes := fun frame hframe => hvalid.scopes frame (List.mem_of_mem_drop hframe) }, ?_⟩
    exact fun _ h => by cases h
  · rw [hx] at hkeeps
    exact hkeeps

theorem keeps_evaluateData [inv.Lawful] {last : Value} (hlast : last.Valid s) (data : List Datum) :
    Keeps inv s Value.Valid (evaluateData last data) := by
  induction data generalizing s last with
  | nil => exact Keeps.value hlast
  | cons d ds ih =>
    refine Keeps.bind (keeps_load d) fun s₁ e _ he => ?_
    exact Keeps.bind (keeps_evaluate he) fun s₂ value _ hvalue => ih hvalue

theorem keeps_evaluateText [inv.Lawful] (text : String) : Keeps inv s Value.Valid (evaluateText text) := by
  have hnil : ∀ s' : Store, Value.nil.Valid s' := fun _ => trivial
  refine Keeps.bind (P := Keeps.Any) ?_ fun s' data _ _ => keeps_evaluateData (hnil s') data
  unfold readAll
  split
  · exact Keeps.pure fun _ _ => trivial
  · exact Keeps.throw _

/-- **No reference dangles after a value was applied**, and none in what was answered. -/
theorem apply_valid {m m' : Machine} (hm : m.Valid) {f v : Value} (hf : f.Valid m.store)
    {args : List Value} (hargs : Value.AllValid m.store args) (h : apply f args m = (.ok v, m')) :
    m'.Valid ∧ v.Valid m'.store := by
  obtain ⟨-, hupholds, hanswer⟩ := keeps_apply hf hargs m (.refl _) hm.upholds_none
  rw [h] at hupholds hanswer
  exact ⟨hupholds.toValid, hanswer v rfl⟩

theorem evaluateAll_upholds [inv.Lawful] {m : Machine} (hm : m.Upholds inv) {es : List Value}
    (hes : Value.AllValid m.store es) :
    m.store.Grows (evaluateAll es m).2.store ∧ (evaluateAll es m).2.Upholds inv := by
  induction es generalizing m with
  | nil => exact ⟨.refl _, hm⟩
  | cons e es ih =>
    obtain ⟨hgrows, hupholds, -⟩ := keeps_evaluate (hes e (List.mem_cons_self ..)) m (.refl _) hm
    obtain ⟨hgrows', hupholds'⟩ :=
      ih hupholds fun v hv => (hes v (List.mem_cons_of_mem _ hv)).grows hgrows
    exact ⟨hgrows.trans hgrows', hupholds'⟩

/-! ## Requests -/

/-- A request names no object that does not exist. -/
def Request.Valid (s : Store) : Request → Prop
  | evaluate e => e.Valid s
  | evaluateAll es => Value.AllValid s es
  | apply f args => f.Valid s ∧ Value.AllValid s args
  | perform _ args => Value.AllValid s args
  | newVector items => ∀ v ∈ items, v.Valid s
  | install p => Bound.Valid s p.symbols
  | put _ value => value.Valid s
  | putStruct _ template => template < s.structs.size
  | defineStruct _ specs | deriveStruct _ _ specs => FieldSpec.AllValid s specs
  | instantiate _ inits => Bound.Valid s inits
  | _ => True

/-- Each request is valid when it is served. -/
def ServesValid : Machine → List Request → Prop
  | _, [] => True
  | m, request :: requests => request.Valid m.store ∧ ServesValid (request.serve m) requests

end Session

theorem Environment.Valid.install {s : Store} {env : Environment} (henv : env.Valid s) {p : Package}
    (hp : Bound.Valid s p.symbols) : (p.install env).Valid s := by
  have htypes : ∀ (tags : List TypeTag) {env : Environment}, env.Valid s →
      (tags.foldl Environment.putType env).Valid s := by
    intro tags
    induction tags with
    | nil => exact fun henv => henv
    | cons tag tags ih => exact fun henv => ih (henv.putType tag)
  exact ((htypes p.types henv).putFunctions p.functions).putAll hp

open Session

namespace Machine.Upholds

variable {inv : Invariant} [inv.Lawful] {m : Machine}

omit [inv.Lawful] in
/-- A change of the innermost environment makes no object. -/
theorem served_updateActive (hm : m.Upholds inv) {f : Environment → Environment}
    (hvalid : ∀ env : Environment, env.Valid m.store → (f env).Valid m.store)
    (hf : ∀ env : Environment, inv.environment env → inv.environment (f env)) :
    m.store.Grows (m.updateActive f).store ∧ (m.updateActive f).Upholds inv := by
  refine ⟨?_, hm.updateActive hvalid hf⟩
  unfold Machine.updateActive
  split <;> exact .refl _

/-- **Each request keeps every lawful invariant**, and removes no object. -/
theorem serve (hm : m.Upholds inv) {request : Request} (h : request.Valid m.store) :
    m.store.Grows (request.serve m).store ∧ (request.serve m).Upholds inv := by
  have hgrows := Store.Grows.refl m.store
  have hserved : ∀ {α : Type} {P : Store → α → Prop} {x : Eval α}, Keeps inv m.store P x →
      m.store.Grows (x m).2.store ∧ (x m).2.Upholds inv := by
    intro α P x hx
    obtain ⟨hgrown, hupholds, -⟩ := hx m hgrows hm
    exact ⟨hgrown, hupholds⟩
  cases request with
  | evaluate e => exact hserved (keeps_evaluate h)
  | evaluateAll es => exact evaluateAll_upholds hm h
  | evaluateText text => exact hserved (keeps_evaluateText text)
  | apply f args => exact hserved (keeps_apply h.1 h.2)
  | perform op args => exact hserved (keeps_perform op h)
  | load d => exact hserved (keeps_load d)
  | newVector items =>
    have hnew := Store.Grows.newVector items m.store
    refine ⟨hnew, hm.withStore hnew (hm.store.newVector h).1 ?_⟩
    exact hm.objects.sameRecords hm.store hnew ⟨rfl, rfl⟩
  | reset =>
    refine ⟨hgrows, ⟨hm.store, .initial, fun _ h => by cases h⟩, hm.objects, ?_, fun _ h => by cases h⟩
    exact Invariant.Lawful.initial
  | install p =>
    exact hm.served_updateActive (fun env henv => henv.install h)
      fun env henv => Invariant.Lawful.install henv p
  | put name value =>
    exact hm.served_updateActive (fun env henv => henv.put name h)
      fun env henv => Invariant.Lawful.put name value henv
  | remove name =>
    exact hm.served_updateActive (fun env henv => henv.remove name)
      fun env henv => Invariant.Lawful.remove name henv
  | putType tag =>
    exact hm.served_updateActive (fun env henv => henv.putType tag)
      fun env henv => Invariant.Lawful.putType tag henv
  | putStruct name template =>
    exact hm.served_updateActive (fun env henv => henv.putStruct name h)
      fun env henv => Invariant.Lawful.putStruct name template henv
  | defineStruct name specs => exact hserved (Keeps.defineTemplate name h)
  | deriveStruct name parent specs => exact hserved (Keeps.deriveTemplate name parent h)
  | instantiate name inits => exact hserved (Keeps.instantiateStruct name h)
  | configure options => exact ⟨hgrows, { hm with }⟩

/-- **A lawful invariant holds between all requests of a session.** -/
theorem serveAll (hm : m.Upholds inv) {requests : List Request} (h : ServesValid m requests) :
    (Session.serveAll m requests).Upholds inv := by
  unfold Session.serveAll
  induction requests generalizing m with
  | nil => exact hm
  | cons request requests ih => exact ih (hm.serve h.1).2 h.2

end Machine.Upholds

namespace Machine.Valid

variable {m : Machine}

/-- **Each request keeps a machine valid.** -/
theorem serve (hm : m.Valid) {request : Request} (h : request.Valid m.store) :
    (request.serve m).Valid := (hm.upholds_none.serve h).2.toValid

/-- **Between requests no reference dangles.** -/
theorem serveAll (hm : m.Valid) {requests : List Request} (h : ServesValid m requests) :
    (Session.serveAll m requests).Valid := (hm.upholds_none.serveAll h).toValid

end Machine.Valid

end CurryLisp
