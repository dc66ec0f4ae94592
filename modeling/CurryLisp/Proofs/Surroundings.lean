import CurryLisp.Proofs.Natives

/-!
# What a computation does not see

A call runs in a frame of its own. It does not see the frames around that one, and no computation sees
reports: the toggles that ask for notes, the nesting of a note and the notes themselves.

Two runs are compared, on machines that share the frames which the computation has made itself and
may differ in the frames around them and in their reports (`Machine.Alike`). `Stable c P x`: on such
machines `x` answers the same and leaves such machines. The functions in reach are followed through
both runs. Only a function of the host that is shown the number of frames could tell the machines
apart (`Surroundings.blind`).

There is one rule for each computation. They are put together in `Stable.apply` and
`Stable.visitWithin`. The rules that hold of any two runs are those of `Relates`.
-/

namespace CurryLisp

open SpecialForm (Visit)

/-! ## Surroundings -/

/-- The frames around two runs, and what else the runs may tell apart. -/
structure Surroundings where
  /-- The frames around the first run. -/
  below : List Environment
  /-- The frames around the second run. -/
  below' : List Environment
  /-- Whether both runs report alike. -/
  reports : Prop
  /-- Whether both runs set the same options and note the same changes, whatever they note of steps. -/
  changes : Prop
  /-- The native functions in reach. -/
  ok : NativeFunction → Prop
  /-- The functions of the host. -/
  hosts : Array HostFunction
  /-- No function of the host tells the numbers of frames apart. -/
  blind : below.length = below'.length ∨ ∀ f ∈ hosts, f.IgnoresFrames

/-- The machines share `n` frames of their own and everything but their surroundings. -/
structure Machine.Alike (c : Surroundings) (n : Nat) (m m' : Machine) : Prop where
  frames : ∃ own, own.length = n ∧ m.frames = own ++ c.below ∧ m'.frames = own ++ c.below' ∧
    ∀ frame ∈ own, frame.UsesOnly c.ok
  /-- Without a frame of their own, both are at the global environment. -/
  top : n = 0 → c.below = [] ∧ c.below' = []
  global : m'.global = m.global
  level : m'.level = m.level
  scoping : m'.options.scoping = m.options.scoping
  maxDepth : m'.options.maxDepth = m.options.maxDepth
  depth : m'.depth = m.depth
  placeholders : m'.placeholders = m.placeholders
  store : m'.store = m.store
  printed : m'.printed = m.printed
  reports : c.reports → m'.options = m.options ∧ m'.indent = m.indent ∧ m'.events = m.events
  changes : c.changes →
    m'.options = m.options ∧ Event.changes m'.events = Event.changes m.events
  globalUses : m.global.UsesOnly c.ok
  storeUses : m.store.UsesOnly c.ok
  hosts : m.store.hosts = c.hosts

/-- At the top level the global environment changes. -/
theorem Machine.updateActive_nil {m : Machine} (h : m.frames = [])
    (f : Environment → Environment) : m.updateActive f = { m with global := f m.global } := by
  unfold Machine.updateActive
  split
  · rfl
  · next hframes =>
    rw [h] at hframes
    cases hframes

/-- Above the top level the innermost frame changes. -/
theorem Machine.updateActive_cons {m : Machine} {frame : Environment} {rest : List Environment}
    (h : m.frames = frame :: rest) (f : Environment → Environment) :
    m.updateActive f = { m with frames := f frame :: rest } := by
  unfold Machine.updateActive
  split
  · next hframes =>
    rw [h] at hframes
    cases hframes
  · next hframes =>
    rw [h] at hframes
    cases hframes
    rfl

namespace Machine.Alike

variable {c : Surroundings} {n : Nat} {m m' : Machine} (h : m.Alike c n m')
include h

/-- The innermost environment is the same, and in reach. -/
theorem active_eq : m'.active = m.active ∧ m.active.UsesOnly c.ok := by
  obtain ⟨own, hlength, hm, hm', huses⟩ := h.frames
  unfold Machine.active
  rw [hm, hm']
  cases own with
  | nil =>
    obtain ⟨hbelow, hbelow'⟩ := h.top hlength.symm
    rw [hbelow, hbelow']
    exact ⟨h.global, h.globalUses⟩
  | cons frame rest => exact ⟨rfl, huses frame (List.mem_cons_self ..)⟩

theorem active : m'.active = m.active := h.active_eq.1

theorem activeUses : m.active.UsesOnly c.ok := h.active_eq.2

theorem lookup? (name : String) : m'.lookup? name = m.lookup? name := by
  unfold Machine.lookup?
  rw [h.active, h.global]

theorem lookupType? (name : String) : m'.lookupType? name = m.lookupType? name := by
  unfold Machine.lookupType?
  rw [h.active, h.global]

theorem lookupStruct? (name : String) : m'.lookupStruct? name = m.lookupStruct? name := by
  unfold Machine.lookupStruct?
  rw [h.active, h.global]

/-- What a name leads to is in reach. -/
theorem lookupUses {name : String} {v : Value} (hv : m.lookup? name = some v) :
    v.UsesOnly c.ok := by
  unfold Machine.lookup? at hv
  cases hactive : m.active.bindings.get? name with
  | some found =>
    rw [hactive] at hv
    cases hv
    exact Environment.UsesOnly.get? h.activeUses hactive
  | none =>
    rw [hactive] at hv
    exact Environment.UsesOnly.get? h.globalUses hv

theorem scopeDepth (hbelow : c.below.length = c.below'.length) : m'.scopeDepth = m.scopeDepth := by
  obtain ⟨own, -, hm, hm', -⟩ := h.frames
  unfold Machine.scopeDepth
  rw [hm, hm', List.length_append, List.length_append, hbelow]

/-- A function of the host asks for the same. -/
theorem request (slot : Nat) (args : List Value) :
    (m'.store.host slot).request (Application.hostView m' args) =
      (m.store.host slot).request (Application.hostView m args) := by
  have hview : Application.hostView m' args =
      { Application.hostView m args with scopeDepth := m'.scopeDepth } := by
    simp only [Application.hostView, h.store, h.level, h.active]
  rw [hview, h.store]
  rcases c.blind with hbelow | hblind
  · rw [h.scopeDepth hbelow]
    rfl
  · rw [← h.hosts] at hblind
    have hhost : (m.store.host slot).IgnoresFrames := by
      rw [Store.host, Array.getD_eq_getD_getElem?]
      cases hslot : m.store.hosts[slot]? with
      | none => exact fun _ _ => rfl
      | some f => exact hblind f (Array.mem_of_getElem? hslot)
    exact hhost _ _

/-- The same change of the innermost environment. -/
theorem updateActive {f : Environment → Environment}
    (hf : ∀ env, env.UsesOnly c.ok → (f env).UsesOnly c.ok) :
    (m.updateActive f).Alike c n (m'.updateActive f) := by
  obtain ⟨own, hlength, hm, hm', huses⟩ := h.frames
  cases own with
  | nil =>
    obtain ⟨hbelow, hbelow'⟩ := h.top hlength.symm
    rw [updateActive_nil (hm.trans hbelow), updateActive_nil (hm'.trans hbelow')]
    exact { h with global := congrArg f h.global, globalUses := hf _ h.globalUses }
  | cons frame rest =>
    rw [updateActive_cons hm, updateActive_cons hm']
    refine { h with frames := ⟨f frame :: rest, hlength, rfl, rfl, fun found hfound => ?_⟩ }
    rcases List.mem_cons.1 hfound with rfl | hfound
    · exact hf frame (huses frame (List.mem_cons_self ..))
    · exact huses found (List.mem_cons_of_mem _ hfound)

/-- A frame of their own is put in front. -/
theorem push {frame : Environment} (hframe : frame.UsesOnly c.ok) :
    Alike c (n + 1) { m with frames := frame :: m.frames }
      { m' with frames := frame :: m'.frames } := by
  obtain ⟨own, hlength, hm, hm', huses⟩ := h.frames
  refine { h with frames := ⟨frame :: own, ?_, ?_, ?_, fun found hfound => ?_⟩, top := nofun }
  · rw [List.length_cons, hlength]
  · rw [hm]
    rfl
  · rw [hm']
    rfl
  · rcases List.mem_cons.1 hfound with rfl | hfound
    · exact hframe
    · exact huses found hfound

omit h in
/-- A frame of their own is dropped. -/
theorem drop (h : m.Alike c (n + 1) m') (htop : n = 0 → c.below = [] ∧ c.below' = []) :
    Alike c n { m with frames := m.frames.tail } { m' with frames := m'.frames.tail } := by
  obtain ⟨own, hlength, hm, hm', huses⟩ := h.frames
  cases own with
  | nil => cases hlength
  | cons frame rest =>
    refine { h with frames := ⟨rest, ?_, ?_, ?_, fun found hfound => ?_⟩, top := htop }
    · exact Nat.succ.inj hlength
    · rw [hm]
      rfl
    · rw [hm']
      rfl
    · exact huses found (List.mem_cons_of_mem _ hfound)

omit h in
/-- Below a single frame of their own are the frames around. -/
theorem tail_eq (h : m.Alike c 1 m') : m.frames.tail = c.below ∧ m'.frames.tail = c.below' := by
  obtain ⟨own, hlength, hm, hm', -⟩ := h.frames
  obtain ⟨frame, rfl⟩ := List.length_eq_one_iff.1 hlength
  rw [hm, hm']
  exact ⟨rfl, rfl⟩

/-- Where reports are compared, the machines differ in their frames only. -/
theorem eq_of_reports (hreports : c.reports) : m' = { m with frames := m'.frames } := by
  obtain ⟨hoptions, hindent, hevents⟩ := h.reports hreports
  rw [← h.global, ← h.level, ← hoptions, ← hindent, ← h.depth, ← h.placeholders, ← h.store,
    ← h.printed, ← hevents]

/-- Where reports are not compared, anything may be noted of steps. -/
theorem reported (hreports : ¬ c.reports) (indent indent' : Nat) {events events' : List Event}
    (hevents : Event.changes events = Event.changes m.events)
    (hevents' : Event.changes events' = Event.changes m'.events) :
    Alike c n { m with indent, events } { m' with indent := indent', events := events' } := by
  refine { h with reports := fun h => absurd h hreports, changes := fun hchanges => ?_ }
  obtain ⟨hoptions, hsame⟩ := h.changes hchanges
  exact ⟨hoptions, hevents'.trans (hsame.trans hevents.symm)⟩

end Machine.Alike

/-! ## Runs on related machines -/

/-- On machines that are related by `R`, `x` answers the same and leaves machines that are related; of
what it answers, `P` holds. -/
def Relates {α : Type} (R : Machine → Machine → Prop) (P : α → Prop) (x : Eval α) : Prop :=
  ∀ m m', R m m' → (x m').1 = (x m).1 ∧ R (x m).2 (x m').2 ∧ ∀ a, (x m).1 = .ok a → P a

namespace Relates

variable {α β : Type} {R : Machine → Machine → Prop} {P P' : α → Prop} {Q : β → Prop}

theorem pure {a : α} (ha : P a) : Relates R P (Pure.pure a) :=
  fun _ _ h => ⟨rfl, h, fun _ hr => by cases hr; exact ha⟩

theorem throw (e : Error) : Relates R P (throw e) := fun _ _ h => ⟨rfl, h, fun _ hr => by cases hr⟩

theorem imp (himp : ∀ a, P a → P' a) {x : Eval α} (hx : Relates R P x) : Relates R P' x := by
  intro m m' h
  obtain ⟨hsame, hrelated, hanswer⟩ := hx m m' h
  exact ⟨hsame, hrelated, fun a ha => himp a (hanswer a ha)⟩

theorem bind {x : Eval α} {f : α → Eval β} (hx : Relates R P x)
    (hf : ∀ a, P a → Relates R Q (f a)) : Relates R Q (x >>= f) := by
  intro m m' h
  obtain ⟨hsame, hrelated, hanswer⟩ := hx m m' h
  rw [Eval.bind_apply, Eval.bind_apply]
  rcases hm : x m with ⟨e | a, m₁⟩
  · rcases hm' : x m' with ⟨result, m₁'⟩
    rw [hm, hm'] at hsame hrelated
    obtain rfl : result = .error e := hsame
    exact ⟨rfl, hrelated, fun _ hr => by cases hr⟩
  · rcases hm' : x m' with ⟨result, m₁'⟩
    rw [hm, hm'] at hsame hrelated
    rw [hm] at hanswer
    obtain rfl : result = .ok a := hsame
    exact hf a (hanswer a rfl) m₁ m₁' hrelated

/-- What is read of the machine must be the same in both runs. -/
theorem get {f : Machine → Eval β} (hf : ∀ m m', R m m' → f m' = f m ∧ Relates R Q (f m)) :
    Relates R Q (get >>= f) := by
  intro m m' h
  obtain ⟨hsame, hrelates⟩ := hf m m' h
  change (f m' m').1 = (f m m).1 ∧ R (f m m).2 (f m' m').2 ∧ ∀ a, (f m m).1 = .ok a → Q a
  rw [hsame]
  exact hrelates m m' h

end Relates

/-! ## Stable computations -/

/-- On machines that are alike `x` answers the same, and leaves machines that are alike; of what it
answers, `P` holds. -/
def Stable {α : Type} (c : Surroundings) (P : α → Prop) (x : Eval α) : Prop :=
  ∀ n m m', m.Alike c n m' →
    (x m').1 = (x m).1 ∧ (x m).2.Alike c n (x m').2 ∧ ∀ a, (x m).1 = .ok a → P a

/-- Of an answer that uses no function, nothing is said. -/
abbrev Stable.Any {α : Type} (_ : α) : Prop := True

namespace Stable

variable {α β : Type} {c : Surroundings} {P : α → Prop} {Q : β → Prop}

/-! ### Primitive computations -/

theorem pure {a : α} (ha : P a) : Stable c P (Pure.pure a) := fun _ => Relates.pure ha

theorem throw (e : Error) : Stable c P (throw e) := fun _ => Relates.throw e

theorem bind {x : Eval α} {f : α → Eval β} (hx : Stable c P x) (hf : ∀ a, P a → Stable c Q (f a)) :
    Stable c Q (x >>= f) := fun n => Relates.bind (hx n) fun a ha => hf a ha n

/-- What is read of the machine must be the same in both runs. -/
theorem get {f : Machine → Eval β}
    (hf : ∀ n m m', m.Alike c n m' → f m' = f m ∧ Stable c Q (f m)) : Stable c Q (get >>= f) :=
  fun n => Relates.get fun m m' h => ⟨(hf n m m' h).1, (hf n m m' h).2 n⟩

theorem store {f : Store → Eval β} (hf : ∀ s, s.UsesOnly c.ok → Stable c Q (f s)) :
    Stable c Q (Eval.store >>= f) :=
  get fun _ m _ h => ⟨by rw [h.store], hf m.store h.storeUses⟩

theorem ofExcept {r : Except Error α} (hr : ∀ a, r = .ok a → P a) :
    Stable c P (MonadExcept.ofExcept r) := by
  cases r with
  | error e => exact throw e
  | ok a => exact pure (hr a rfl)

theorem ask {f : Store → Except Error α} (hf : ∀ s a, s.UsesOnly c.ok → f s = .ok a → P a) :
    Stable c P (Eval.ask f) := by
  intro n m m' h
  unfold Eval.ask
  rw [h.store]
  exact ⟨rfl, h, fun a ha => hf m.store a h.storeUses ha⟩

theorem make {f : Store → α × Store} (hgrows : ∀ s : Store, s.Grows (f s).2)
    (hf : ∀ s, s.UsesOnly c.ok → (f s).2.UsesOnly c.ok ∧ P (f s).1) : Stable c P (Eval.make f) := by
  intro n m m' h
  obtain ⟨huses, hanswer⟩ := hf m.store h.storeUses
  have hhosts := (hgrows m.store).hosts.trans h.hosts
  rw [Eval.make_apply, Eval.make_apply, h.store]
  exact ⟨rfl, { h with store := rfl, storeUses := huses, hosts := hhosts },
    fun _ hr => by cases hr; exact hanswer⟩

theorem onStore {f : Store → Except Error (α × Store)}
    (hgrows : ∀ (s : Store) a t, f s = .ok (a, t) → s.Grows t)
    (hf : ∀ s a t, s.UsesOnly c.ok → f s = .ok (a, t) → t.UsesOnly c.ok ∧ P a) :
    Stable c P (Eval.onStore f) := by
  intro n m m' h
  unfold Eval.onStore
  rw [h.store]
  cases hr : f m.store with
  | error e => exact ⟨rfl, h, fun _ h => by cases h⟩
  | ok made =>
    obtain ⟨a, t⟩ := made
    obtain ⟨huses, hanswer⟩ := hf m.store a t h.storeUses hr
    have hhosts := (hgrows m.store a t hr).hosts.trans h.hosts
    exact ⟨rfl, { h with store := rfl, storeUses := huses, hosts := hhosts },
      fun _ h => by cases h; exact hanswer⟩

theorem updateActive {f : Environment → Environment}
    (hf : ∀ env, env.UsesOnly c.ok → (f env).UsesOnly c.ok) : Stable c Any (Eval.updateActive f) :=
  fun _ _ _ h => ⟨rfl, h.updateActive hf, fun _ _ => trivial⟩

theorem write (text : String) : Stable c Any (Eval.write text) :=
  fun _ _ _ h => ⟨rfl, { h with printed := congrArg (· ++ text) h.printed }, fun _ _ => trivial⟩

theorem note (e : Event) : Stable c Any (Eval.note e) := by
  intro n m m' h
  refine ⟨rfl, { h with reports := fun hreports => ?_, changes := fun hchanges => ?_ },
    fun _ _ => trivial⟩
  · obtain ⟨hoptions, hindent, hevents⟩ := h.reports hreports
    exact ⟨hoptions, hindent, congrArg (e :: ·) hevents⟩
  · obtain ⟨hoptions, hevents⟩ := h.changes hchanges
    exact ⟨hoptions, Event.changes_cons e hevents⟩

theorem placeholder : Stable c Any Eval.placeholder := by
  intro n m m' h
  change (Except.ok ("%" ++ toString (m'.placeholders + 1)) : Except Error String) =
    .ok ("%" ++ toString (m.placeholders + 1)) ∧ _
  rw [h.placeholders]
  exact ⟨rfl, { h with placeholders := congrArg (· + 1) h.placeholders }, fun _ _ => trivial⟩

theorem withLevel (level : Level) {x : Eval α} (hx : Stable c P x) :
    Stable c P (Eval.withLevel level x) := by
  intro n m m' h
  obtain ⟨hsame, halike, hanswer⟩ :=
    hx n (m.atLevel level) (m'.atLevel level) { h with level := rfl }
  exact ⟨hsame, { halike with level := h.level }, hanswer⟩

theorem withScope {frame : Environment} (hframe : frame.UsesOnly c.ok) {x : Eval α}
    (hx : Stable c P x) : Stable c P (Eval.withScope frame x) := by
  intro n m m' h
  obtain ⟨hsame, halike, hanswer⟩ := hx (n + 1) _ _ (h.push hframe)
  exact ⟨hsame, halike.drop h.top, hanswer⟩

/-! ### Options -/

omit P Q in
/-- Setting an option by its name depends on no other option, and changes no other one. -/
theorem set_alike {o o' : Options} (hscoping : o'.scoping = o.scoping)
    (hmaxDepth : o'.maxDepth = o.maxDepth) (name : String) (enabled : Bool) :
    (∃ e, o.set name enabled = .error e ∧ o'.set name enabled = .error e) ∨
      ∃ p p', o.set name enabled = .ok p ∧ o'.set name enabled = .ok p' ∧
        p'.scoping = p.scoping ∧ p'.maxDepth = p.maxDepth := by
  unfold Options.set
  split
  · exact .inr ⟨_, _, rfl, rfl, rfl, hmaxDepth⟩
  · split
    · exact .inr ⟨_, _, rfl, rfl, hscoping, hmaxDepth⟩
    · split
      · exact .inr ⟨_, _, rfl, rfl, hscoping, hmaxDepth⟩
      · split
        · exact .inr ⟨_, _, rfl, rfl, hscoping, hmaxDepth⟩
        · split
          · exact .inr ⟨_, _, rfl, rfl, hscoping, hmaxDepth⟩
          · split
            · exact .inr ⟨_, _, rfl, rfl, hscoping, hmaxDepth⟩
            · exact .inl ⟨_, rfl, rfl⟩

/-- A program sets an option that it names, whatever the options are that it does not see. -/
theorem changeOption (name : String) (enabled : Bool) {x : Eval β} (hx : Stable c Q x) :
    Stable c Q (do
      let options ← MonadExcept.ofExcept ((← MonadState.get).options.set name enabled)
      modify fun m => { m with options }
      x) := by
  intro n m m' h
  rw [Eval.bind_apply, Eval.bind_apply, Eval.get_apply, Eval.get_apply]
  dsimp only
  rw [Eval.bind_apply, Eval.bind_apply, Eval.ofExcept_apply, Eval.ofExcept_apply]
  obtain ⟨e, hm, hm'⟩ | ⟨p, p', hm, hm', hscoping, hmaxDepth⟩ :=
    set_alike h.scoping h.maxDepth name enabled
  · rw [hm, hm']
    exact ⟨rfl, h, fun _ hr => by cases hr⟩
  · rw [hm, hm']
    have hsame : m'.options = m.options → p' = p := fun hoptions => by
      rw [hoptions, hm] at hm'
      cases hm'
      rfl
    refine hx n { m with options := p } { m' with options := p' }
      { h with
        scoping := hscoping, maxDepth := hmaxDepth
        reports := fun hreports => ?_, changes := fun hchanges => ?_ }
    · obtain ⟨hoptions, hindent, hevents⟩ := h.reports hreports
      exact ⟨hsame hoptions, hindent, hevents⟩
    · obtain ⟨hoptions, hevents⟩ := h.changes hchanges
      exact ⟨hsame hoptions, hevents⟩

/-! ### Special forms -/

section SpecialForms

variable {visit : Visit}
  (hv : ∀ e, e.UsesOnly c.ok → Stable c (Value.UsesOnly c.ok) (visit e))
include hv

theorem fully {e : Value} (he : e.UsesOnly c.ok) :
    Stable c (Value.UsesOnly c.ok) (SpecialForm.fully visit e) := withLevel .full (hv e he)

theorem sequence {es : List Value} (hes : Value.AllUseOnly c.ok es) :
    Stable c (Value.UsesOnly c.ok) (SpecialForm.sequence visit es) := by
  induction es with
  | nil => exact pure trivial
  | cons e rest ih =>
    have he := hes e (List.mem_cons_self ..)
    cases rest with
    | nil => exact hv e he
    | cons e' rest =>
      exact bind (hv e he) fun _ _ => ih fun v hmem => hes v (List.mem_cons_of_mem _ hmem)

omit hv in
theorem operandName (form : String) (operand : Value) :
    Stable c Any (SpecialForm.operandName form operand) := by
  unfold SpecialForm.operandName
  split
  · exact pure trivial
  · exact store fun _ _ => throw _

omit hv in
theorem headD {args : List Value} (hargs : Value.AllUseOnly c.ok args) :
    (args.headD .nil).UsesOnly c.ok := by
  cases args with
  | nil => exact trivial
  | cons v rest => exact hargs v (List.mem_cons_self ..)

omit hv in
theorem dropped {args : List Value} (hargs : Value.AllUseOnly c.ok args) (n : Nat) :
    Value.AllUseOnly c.ok (args.drop n) := fun v hmem => hargs v (List.mem_of_mem_drop hmem)

omit hv in
theorem lambda {args : List Value} (hargs : Value.AllUseOnly c.ok args) :
    Stable c (Value.UsesOnly c.ok) (SpecialForm.lambda args) := by
  refine store fun s _ => ?_
  split
  · exact throw _
  · refine bind (P := Any) (ofExcept fun _ _ => trivial) fun names _ => ?_
    refine get fun n m m' h => ⟨by simp only [h.active], ?_⟩
    exact make (fun s => .newClosure _ s)
      fun s hs => hs.newClosure ⟨dropped hargs 1, h.activeUses, .nil⟩

theorem define {args : List Value} (hargs : Value.AllUseOnly c.ok args) :
    Stable c (Value.UsesOnly c.ok) (SpecialForm.define visit args) := by
  unfold SpecialForm.define
  split
  · next name e =>
    refine bind (operandName _ _) fun name _ => ?_
    refine bind (fully hv (hargs e (by simp))) fun v hvalue => ?_
    exact bind (updateActive fun env henv => henv.put name hvalue) fun _ _ => pure hvalue
  · exact throw _

omit hv in
theorem undefine (args : List Value) :
    Stable c (Value.UsesOnly c.ok) (SpecialForm.undefine args) := by
  induction args with
  | nil => exact pure trivial
  | cons operand rest ih =>
    refine bind (operandName _ _) fun name _ => ?_
    exact bind (updateActive fun env henv => henv.remove name) fun _ _ => ih

theorem bindings {entries : List Value} (hentries : Value.AllUseOnly c.ok entries) :
    Stable c (Bound.UseOnly c.ok) (SpecialForm.bindings visit entries) := by
  induction entries with
  | nil => exact pure .nil
  | cons entry rest ih =>
    unfold SpecialForm.bindings
    split
    · next name e hlist =>
      have hentry := hentries entry (List.mem_cons_self ..)
      refine bind (fully hv (.of_mem_toList? hlist hentry (by simp))) fun v hvalue => ?_
      refine bind (ih fun x hx => hentries x (List.mem_cons_of_mem _ hx)) fun bound hbound => ?_
      refine pure fun found hfound => ?_
      rcases List.mem_cons.1 hfound with rfl | hfound
      · exact hvalue
      · exact hbound found hfound
    · exact store fun _ _ => throw _

theorem bindLocal {args : List Value} (hargs : Value.AllUseOnly c.ok args) :
    Stable c (Value.UsesOnly c.ok) (SpecialForm.bindLocal visit args) := by
  simp only [SpecialForm.bindLocal]
  split
  · exact store fun _ _ => throw _
  · next entries hlist =>
    have hentries : Value.AllUseOnly c.ok entries := fun x hx => .of_mem_toList? hlist (headD hargs) hx
    refine bind (bindings hv hentries) fun bound hbound => ?_
    refine get fun n m m' h => ⟨by simp only [h.active], ?_⟩
    exact withScope (h.activeUses.putAll hbound) (sequence hv (dropped hargs 1))

theorem choose {args : List Value} (hargs : Value.AllUseOnly c.ok args) :
    Stable c (Value.UsesOnly c.ok) (SpecialForm.choose visit args) := by
  unfold SpecialForm.choose
  split
  · next condition yes no =>
    refine bind (fully hv (hargs condition (by simp))) fun v _ => ?_
    split
    · exact fully hv (hargs yes (by simp))
    · exact fully hv (hargs no (by simp))
  · exact throw _

theorem both {v : Value} (hvalue : v.UsesOnly c.ok) {args : List Value}
    (hargs : Value.AllUseOnly c.ok args) :
    Stable c (Value.UsesOnly c.ok) (SpecialForm.both visit v args) := by
  induction args generalizing v with
  | nil => exact pure hvalue
  | cons e es ih =>
    refine bind (fully hv (hargs e (List.mem_cons_self ..))) fun v hvalue => ?_
    split
    · exact ih hvalue fun x hx => hargs x (List.mem_cons_of_mem _ hx)
    · exact pure hvalue

theorem either {args : List Value} (hargs : Value.AllUseOnly c.ok args) :
    Stable c (Value.UsesOnly c.ok) (SpecialForm.either visit args) := by
  induction args with
  | nil => exact pure trivial
  | cons e es ih =>
    refine bind (fully hv (hargs e (List.mem_cons_self ..))) fun v hvalue => ?_
    split
    · exact pure hvalue
    · exact ih fun x hx => hargs x (List.mem_cons_of_mem _ hx)

omit hv in
theorem quote {args : List Value} (hargs : Value.AllUseOnly c.ok args) :
    Stable c (Value.UsesOnly c.ok) (SpecialForm.quote args) := by
  unfold SpecialForm.quote
  split
  · next e => exact pure (hargs e (by simp))
  · exact throw _

omit hv in
theorem fieldType (tag : Option TypeTag) : Stable c Any (SpecialForm.fieldType tag) := by
  unfold SpecialForm.fieldType
  split
  · exact pure trivial
  · refine get fun n m m' h => ⟨by simp only [h.lookupType?], ?_⟩
    split
    · exact pure trivial
    · exact throw _

theorem fieldSpecs (form : String) {entries : List Value}
    (hentries : Value.AllUseOnly c.ok entries) :
    Stable c (FieldSpec.AllUseOnly c.ok) (SpecialForm.fieldSpecs visit form entries) := by
  induction entries with
  | nil => exact pure fun _ h => by cases h
  | cons entry rest ih =>
    unfold SpecialForm.fieldSpecs
    split
    · exact store fun _ _ => throw _
    · next name tag default hparts =>
      have hentry := hentries entry (List.mem_cons_self ..)
      have hrest := ih fun x hx => hentries x (List.mem_cons_of_mem _ hx)
      refine bind (fieldType _) fun tag _ => ?_
      have hdefault : ∀ v : Value, v.UsesOnly c.ok → Stable c (FieldSpec.AllUseOnly c.ok)
          (SpecialForm.fieldSpecs visit form rest >>= fun specs =>
            Pure.pure ({ name, tag, default := v } :: specs)) := by
        intro v hvalue
        refine bind hrest fun specs hspecs => pure fun spec hspec => ?_
        rcases List.mem_cons.1 hspec with rfl | hspec
        · exact hvalue
        · exact hspecs spec hspec
      dsimp only
      split
      · next e _ => exact bind (fully hv (hentry.fieldParts? hparts)) hdefault
      · exact bind (pure trivial) hdefault

theorem fieldList (form : String) {fields : Value} (hfields : fields.UsesOnly c.ok) :
    Stable c (FieldSpec.AllUseOnly c.ok) (SpecialForm.fieldList visit form fields) := by
  unfold SpecialForm.fieldList
  split
  · next entries hlist => exact fieldSpecs hv form fun x hx => .of_mem_toList? hlist hfields hx
  · exact store fun _ _ => throw _

omit hv in
theorem register {struct : Struct} (hstruct : struct.UsesOnly c.ok) :
    Stable c (Value.UsesOnly c.ok) (Struct.register struct) := by
  refine bind (note _) fun _ _ => ?_
  refine bind (P := Any) (make (fun s => .newStruct struct s)
    fun s hs => ⟨hs.newStruct hstruct, trivial⟩) fun template _ => ?_
  exact bind (updateActive fun env henv => henv) fun _ _ => pure trivial

omit hv in
theorem template (name : String) : Stable c Any (Struct.template name) := by
  refine get fun n m m' h => ⟨by simp only [h.lookupStruct?], ?_⟩
  split
  · exact pure trivial
  · exact throw _

omit hv in
theorem defineTemplate (name : String) {specs : List FieldSpec}
    (hspecs : FieldSpec.AllUseOnly c.ok specs) :
    Stable c (Value.UsesOnly c.ok) (Struct.defineTemplate name specs) :=
  bind (ask fun _ _ _ h => Struct.define_usesOnly hspecs h) fun _ hstruct => register hstruct

omit hv in
theorem deriveTemplate (name parent : String) {specs : List FieldSpec}
    (hspecs : FieldSpec.AllUseOnly c.ok specs) :
    Stable c (Value.UsesOnly c.ok) (Struct.deriveTemplate name parent specs) := by
  refine bind (template parent) fun a _ => ?_
  refine bind (P := Struct.UsesOnly c.ok) ?_ fun _ hstruct => register hstruct
  exact onStore (fun _ _ _ h => .derive h)
    fun s _ _ hs h => Struct.derive_usesOnly hs (hs.struct a) hspecs h

omit hv in
theorem instantiateStruct (name : String) {inits : List (String × Value)}
    (hinits : Bound.UseOnly c.ok inits) :
    Stable c (Value.UsesOnly c.ok) (Struct.instantiate name inits) := by
  refine bind (template name) fun a _ => onStore (fun s v t h => ?_) fun s v t hs h => ?_
  · obtain ⟨made, hset, h⟩ := exists_of_bind_eq_ok h
    cases h
    exact (Store.Grows.copyStruct s (s.struct a)).trans (.setFields hset)
  obtain ⟨made, hset, h⟩ := exists_of_bind_eq_ok h
  cases h
  exact ⟨(hs.copyStruct (hs.struct a)).setFields hinits hset, trivial⟩

theorem defineStruct {args : List Value} (hargs : Value.AllUseOnly c.ok args) :
    Stable c (Value.UsesOnly c.ok) (SpecialForm.defineStruct visit args) := by
  unfold SpecialForm.defineStruct
  split
  · next name fields =>
    refine bind (operandName _ _) fun name _ => ?_
    exact bind (fieldList hv _ (hargs fields (by simp))) fun specs hspecs =>
      defineTemplate name hspecs
  · exact throw _

theorem deriveStruct {args : List Value} (hargs : Value.AllUseOnly c.ok args) :
    Stable c (Value.UsesOnly c.ok) (SpecialForm.deriveStruct visit args) := by
  unfold SpecialForm.deriveStruct
  split
  · next name parent fields =>
    refine bind (operandName _ _) fun name _ => bind (operandName _ _) fun parent _ => ?_
    exact bind (fieldList hv _ (hargs fields (by simp))) fun specs hspecs =>
      deriveTemplate name parent hspecs
  · exact throw _

theorem initializers {inits : List Value} (hinits : Value.AllUseOnly c.ok inits) :
    Stable c (Bound.UseOnly c.ok) (SpecialForm.initializers visit inits) := by
  induction inits with
  | nil => exact pure .nil
  | cons init rest ih =>
    unfold SpecialForm.initializers
    split
    · next field e hlist =>
      have hinit := hinits init (List.mem_cons_self ..)
      refine bind (fully hv (.of_mem_toList? hlist hinit (by simp))) fun v hvalue => ?_
      refine bind (ih fun x hx => hinits x (List.mem_cons_of_mem _ hx)) fun made hmade => ?_
      refine pure fun found hfound => ?_
      rcases List.mem_cons.1 hfound with rfl | hfound
      · exact hvalue
      · exact hmade found hfound
    · exact store fun _ _ => throw _

theorem instantiate {args : List Value} (hargs : Value.AllUseOnly c.ok args) :
    Stable c (Value.UsesOnly c.ok) (SpecialForm.instantiate visit args) := by
  refine bind (operandName _ _) fun name _ => ?_
  exact bind (initializers hv (dropped hargs 1)) fun inits hinits => instantiateStruct name hinits

theorem setOption {args : List Value} (hargs : Value.AllUseOnly c.ok args) :
    Stable c (Value.UsesOnly c.ok) (SpecialForm.setOption visit args) := by
  unfold SpecialForm.setOption
  split
  · next name e =>
    refine bind (operandName _ _) fun name _ => ?_
    refine bind (fully hv (hargs e (by simp))) fun v _ => ?_
    refine changeOption name v.isTruthy (bind (note _) fun _ _ => pure ?_)
    exact .of_isPlain (Value.isPlain_ofBool _)
  · exact throw _

/-! ### Operations and applications -/

omit hv in
/-- The answer to a question uses only what values and vectors use. -/
theorem question {op : Operation} (hop : op.isQuestion = true) (args : List Value) :
    Stable c (Value.UsesOnly c.ok) (op.run visit args) := by
  obtain ⟨f, hrun, hknown⟩ := Operation.exists_ask hop args
  rw [hrun]
  refine ask fun s v hs hv => ?_
  exact (hknown (Value.UsesOnly c.ok) s (fun _ => .of_isPlain) (fun _ => trivial) hs.vector).of_ok hv

theorem run (op : Operation) {args : List Value} (hargs : Value.AllUseOnly c.ok args) :
    Stable c (Value.UsesOnly c.ok) (op.run visit args) := by
  cases op with
  | lambda => exact lambda hargs
  | define => exact define hv hargs
  | undefine => exact undefine args
  | bindLocal => exact bindLocal hv hargs
  | choose => exact choose hv hargs
  | both => exact both hv (v := .truth) trivial hargs
  | either => exact either hv hargs
  | quote => exact quote hargs
  | defineStruct => exact defineStruct hv hargs
  | deriveStruct => exact deriveStruct hv hargs
  | instantiate => exact instantiate hv hargs
  | setOption => exact setOption hv hargs
  | cons => exact onStore (fun _ _ _ h => .consArgs h) fun _ _ _ hs h => hs.consArgs hargs h
  | car => exact pure (Store.UsesOnly.car hargs)
  | cdr => exact pure (Store.UsesOnly.cdr hargs)
  | list => exact make (fun s => .list args s) fun _ hs => hs.chain hargs trivial
  | isNil => exact pure (.of_isPlain (isPlain_isNil args))
  | last => exact pure (holds_last (P := Value.UsesOnly c.ok) trivial hargs)
  | length | add | subtract | multiply | divide | modulo | equal | less | greater | negate
  | toInteger | toFloat | toCharacter | typeOf | isType | elementAt | math => exact question rfl args
  | vector =>
    exact make (fun s => .newVector _ s)
      fun _ hs => hs.newVector fun v hmem => hargs v (by simpa using hmem)
  | setElement =>
    exact onStore (fun _ _ _ h => .setElement h) fun _ _ _ hs h => hs.setElement hargs h
  | append => exact onStore (fun _ _ _ h => .append h) fun _ _ _ hs h => hs.append hargs h
  | joinText => exact onStore (fun _ _ _ h => .joinText h) fun _ _ _ hs h => hs.joinText h
  | copy => exact onStore (fun _ _ _ h => .copy h) fun _ _ _ hs h => hs.copy hargs h
  | evaluate =>
    rw [Operation.run.eq_def]
    dsimp only
    split
    · next e => exact fully hv (hargs e (by simp))
    · exact throw _
  | print => exact store fun _ _ => bind (write _) fun _ _ => pure trivial
  | printLine => exact store fun _ _ => bind (write _) fun _ _ => pure trivial
  | fail => exact store fun _ _ => throw _
  | apply | host => exact pure trivial

theorem visitAll {es : List Value} (hes : Value.AllUseOnly c.ok es) :
    Stable c (Value.AllUseOnly c.ok) (Application.visitAll visit es) := by
  unfold Application.visitAll
  induction es with
  | nil => exact pure .nil
  | cons e es ih =>
    rw [List.mapM_cons]
    refine bind (hv e (hes e (List.mem_cons_self ..))) fun v hvalue => ?_
    refine bind (ih fun x hx => hes x (List.mem_cons_of_mem _ hx)) fun vs hvs => ?_
    refine pure fun found hfound => ?_
    rcases List.mem_cons.1 hfound with rfl | hfound
    · exact hvalue
    · exact hvs found hfound

omit hv in
theorem baseEnvironment {k : Closure} (hk : k.UsesOnly c.ok) :
    Stable c (Environment.UsesOnly c.ok) (Application.baseEnvironment k) := by
  refine get fun n m m' h => ⟨by simp only [h.scoping, h.active], ?_⟩
  split
  · exact pure hk.env
  · exact pure h.activeUses

omit hv in
/-- What stands beside a name in a zipped list is in reach. -/
theorem zip {args : List Value} (hargs : Value.AllUseOnly c.ok args) (names : List String) :
    Bound.UseOnly c.ok (names.zip args) :=
  fun entry hentry => hargs entry.2 (List.of_mem_zip hentry).2

theorem callClosure {k : Closure} (hk : k.UsesOnly c.ok) {args : List Value}
    (hargs : Value.AllUseOnly c.ok args) :
    Stable c (Value.UsesOnly c.ok) (Application.callClosure visit k args) := by
  refine bind (baseEnvironment hk) fun base hbase => ?_
  exact withScope ((Environment.UsesOnly.putAll hbase hk.bound).putAll (zip hargs k.params))
    (withLevel _ (sequence hv hk.body))

omit hv in
/-- The frame in which the body of a curried closure is reduced is in reach. -/
theorem reducingFrame {base : Environment} (hbase : base.UsesOnly c.ok) {k : Closure}
    (hk : k.UsesOnly c.ok) {args : List Value} (hargs : Value.AllUseOnly c.ok args) :
    Bound.UseOnly c.ok (k.bound ++ (k.params.take args.length).zip args) ∧
      ((base.putAll (k.bound ++ (k.params.take args.length).zip args)).putAll
        ((k.params.drop args.length).map fun name => (name, .symbol name))).UsesOnly c.ok := by
  have hbound : Bound.UseOnly c.ok (k.bound ++ (k.params.take args.length).zip args) := by
    intro entry hentry
    rcases List.mem_append.1 hentry with hentry | hentry
    · exact hk.bound entry hentry
    · exact zip hargs _ entry hentry
  refine ⟨hbound, (hbase.putAll hbound).putAll fun entry hentry => ?_⟩
  obtain ⟨name, -, rfl⟩ := List.mem_map.1 hentry
  exact trivial

theorem curryClosure {k : Closure} (hk : k.UsesOnly c.ok) {args : List Value}
    (hargs : Value.AllUseOnly c.ok args) :
    Stable c (Value.UsesOnly c.ok) (Application.curryClosure visit k args) := by
  refine bind (baseEnvironment hk) fun base hbase => ?_
  obtain ⟨hbound, hframe⟩ := reducingFrame hbase hk hargs
  refine bind (withScope hframe (withLevel _ (visitAll hv hk.body))) fun body hbody => ?_
  refine bind (note _) fun _ _ => ?_
  exact make (fun s => .newClosure _ s) fun s hs => hs.newClosure ⟨hbody, hk.env, hbound⟩

omit hv in
theorem callOperands {args : List Value} (hargs : Value.AllUseOnly c.ok args) :
    Stable c (fun made => Value.AllUseOnly c.ok made.1 ∧ Bound.UseOnly c.ok made.2)
      (Application.callOperands args) := by
  induction args with
  | nil => exact pure ⟨.nil, .nil⟩
  | cons arg args ih =>
    have harg := hargs arg (List.mem_cons_self ..)
    have hrest := ih fun x hx => hargs x (List.mem_cons_of_mem _ hx)
    unfold Application.callOperands
    split
    · refine bind placeholder fun name _ => bind hrest fun made hmade => ?_
      refine pure ⟨fun v hmem => ?_, fun entry hentry => ?_⟩
      · rcases List.mem_cons.1 hmem with rfl | hmem
        · exact trivial
        · exact hmade.1 v hmem
      · rcases List.mem_cons.1 hentry with rfl | hentry
        · exact harg
        · exact hmade.2 entry hentry
    · refine bind hrest fun made hmade => pure ⟨fun v hmem => ?_, hmade.2⟩
      rcases List.mem_cons.1 hmem with rfl | hmem
      · exact harg
      · exact hmade.1 v hmem

omit hv in
theorem placeholders (n : Nat) : Stable c Any (Application.placeholders n) := by
  induction n with
  | zero => exact pure trivial
  | succ n ih => exact bind placeholder fun _ _ => bind ih fun _ _ => pure trivial

omit hv in
theorem curryNative {f : NativeFunction} (hf : c.ok f) {args : List Value}
    (hargs : Value.AllUseOnly c.ok args) :
    Stable c (Value.UsesOnly c.ok) (Application.curryNative f args) := by
  refine bind (callOperands hargs) fun made hmade => bind (placeholders _) fun params _ => ?_
  have hcall : Value.AllUseOnly c.ok (.native f :: made.1 ++ params.map .symbol) := by
    intro v hmem
    rcases List.mem_append.1 hmem with hmem | hmem
    · rcases List.mem_cons.1 hmem with rfl | hmem
      · exact hf
      · exact hmade.1 v hmem
    · obtain ⟨name, -, rfl⟩ := List.mem_map.1 hmem
      exact trivial
  refine bind (P := Value.UsesOnly c.ok)
    (make (fun s => .list _ s) fun s hs => hs.chain hcall trivial) ?_
  intro call hcall
  refine bind (note _) fun _ _ => make (fun s => .newClosure _ s)
    fun s hs => hs.newClosure ⟨fun v hmem => ?_, .nil, hmade.2⟩
  rw [List.mem_singleton.1 hmem]
  exact hcall

omit hv in
theorem fieldName (operand : Value) : Stable c Any (Application.fieldName operand) := by
  unfold Application.fieldName
  split
  · exact pure trivial
  · exact pure trivial
  · exact store fun _ _ => throw _
  · exact store fun _ _ => throw _

omit hv in
theorem callStruct (a : Address) {args : List Value} (hargs : Value.AllUseOnly c.ok args) :
    Stable c (Value.UsesOnly c.ok) (Application.callStruct a args) := by
  unfold Application.callStruct
  split
  · refine bind (fieldName _) fun name _ => ask fun s v hs h => ?_
    exact Struct.read_usesOnly (hs.struct a) h
  · next field v =>
    refine bind (fieldName _) fun name _ => onStore (fun s v t h => .setField h)
      fun s v t hs h => ?_
    exact hs.setField (hargs _ (by simp)) h
  · exact store fun _ _ => throw _

omit hv in
/-- The closure that a value is uses only what objects use. -/
theorem closure_of_callable? {s : Store} {head : Value} {k : Closure} (hs : s.UsesOnly c.ok)
    (h : head.callable? s = some (.closure k)) : k.UsesOnly c.ok := by
  cases head with
  | closure a =>
    cases h
    exact hs.closure a
  | _ => cases h

omit hv in
/-- The native function that a value is is in reach. -/
theorem native_of_callable? {s : Store} {head : Value} {g : NativeFunction}
    (hhead : head.UsesOnly c.ok) (h : head.callable? s = some (.native g)) : c.ok g := by
  cases head with
  | native f =>
    cases h
    exact hhead
  | _ => cases h

theorem curry {f : Callable} (hnative : ∀ g, f = .native g → c.ok g)
    (hclosure : ∀ k, f = .closure k → k.UsesOnly c.ok) {args : List Value}
    (hargs : Value.AllUseOnly c.ok args) :
    Stable c (Value.UsesOnly c.ok) (Application.curry visit f args) := by
  unfold Application.curry
  split
  · exact curryClosure hv (hclosure _ rfl) hargs
  · split
    · exact throw _
    · exact curryNative (hnative _ rfl) hargs
  · exact store fun _ _ => throw _

omit hv in
theorem notCallable (v : Value) : Stable c P (Application.notCallable v : Eval α) :=
  store fun _ _ => throw _

omit hv in
theorem hostAnswer {args : List Value} (hargs : Value.AllUseOnly c.ok args) (a : HostAnswer) :
    Stable c (Value.UsesOnly c.ok) (Application.hostAnswer args a) := by
  induction a with
  | text text => exact make (fun s => .newText text s) fun s hs => hs.newText text
  | level => exact get fun n m m' h => ⟨by rw [h.level], pure trivial⟩
  | argument position => exact pure (holds_getD (P := Value.UsesOnly c.ok) trivial hargs position)
  | constant slot => exact store fun s hs => pure (hs.constant slot)
  | pair car cdr ihCar ihCdr =>
    refine bind ihCar fun car hcar => bind ihCdr fun cdr hcdr => ?_
    exact make (fun s => .cons s car cdr)
      fun s hs => hs.chain (List.forall_mem_singleton.2 hcar) hcdr
  | _ => exact pure trivial

omit hv in
theorem hostBind {args : List Value} (hargs : Value.AllUseOnly c.ok args) :
    Stable c (Value.UsesOnly c.ok) (Application.hostBind args) := by
  unfold Application.hostBind
  split
  · next name v =>
    refine bind (updateActive fun env henv => ?_) fun _ _ => pure trivial
    exact henv.put name (hargs v (by simp))
  · exact pure trivial

omit hv in
theorem callHost (slot : Nat) {args : List Value} (hargs : Value.AllUseOnly c.ok args)
    {applied : Eval Value} (happlied : Stable c (Value.UsesOnly c.ok) applied) :
    Stable c (Value.UsesOnly c.ok) (Application.callHost slot args applied) := by
  refine get fun n m m' h => ⟨by rw [h.request], ?_⟩
  split
  · exact hostAnswer hargs _
  · exact throw _
  · exact hostBind hargs
  · exact happlied

/-- **An application does not see its surroundings.** -/
theorem apply {head : Value} (hhead : head.UsesOnly c.ok) {args : List Value}
    (hargs : Value.AllUseOnly c.ok args) :
    Stable c (Value.UsesOnly c.ok) (Application.apply visit head args) := by
  refine (Application.applies_induction
    (P := fun head args => head.UsesOnly c.ok → Value.AllUseOnly c.ok args →
      Stable c (Value.UsesOnly c.ok) (Application.apply visit head args))
    (Q := fun op args => Value.AllUseOnly c.ok args →
      Stable c (Value.UsesOnly c.ok) (Application.perform visit op args))
    ?called ?list ?improper ?arity ?nobody ?first ?run).1 head args hhead hargs
  case called =>
    intro head args ih hhead hargs
    rw [Application.apply]
    refine store fun s hs => ?_
    split
    · exact notCallable _
    · next f hf =>
      split
      · exact pure hhead
      · split
        · refine curry hv ?_ ?_ hargs
          · rintro g rfl
            exact native_of_callable? hhead hf
          · rintro k rfl
            exact closure_of_callable? hs hf
        · split
          · exact store fun _ _ => throw _
          · refine bind (P := Any) (ask fun _ _ _ _ => trivial) fun _ _ => ?_
            cases f with
            | native g => exact ih g hargs
            | closure k => exact callClosure hv (closure_of_callable? hs hf) hargs
            | struct a => exact callStruct a hargs
  case list =>
    intro f list items hitems ih hargs
    rw [Application.perform_list hitems]
    refine ih (hargs f (by simp)) fun v hmem => ?_
    exact .of_mem_toList? hitems (hargs list (by simp)) hmem
  case improper =>
    intro f list hlist _
    rw [Application.perform_improper hlist]
    exact store fun _ _ => throw _
  case arity =>
    intro args hargs _
    rw [Application.perform.eq_2 visit args hargs]
    exact throw _
  case nobody =>
    intro slot hargs
    rw [Application.perform]
    exact callHost slot hargs (notCallable _)
  case first =>
    intro slot f rest ih hargs
    obtain ⟨hf, hrest⟩ := List.forall_mem_cons.1 hargs
    rw [Application.perform]
    exact callHost slot hargs (ih hf hrest)
  case run =>
    intro op args happly hhost hargs
    rw [Application.perform_run op happly hhost]
    exact run hv op hargs

/-! ### Steps -/

omit hv in
theorem resolveType (tag : TypeTag) :
    Stable c (Value.UsesOnly c.ok) (Evaluation.resolveType tag) := by
  refine get fun n m m' h => ⟨by simp only [h.lookupType?, h.level], ?_⟩
  split
  · exact pure trivial
  · split
    · exact pure trivial
    · exact throw _

omit hv in
theorem visitSymbol (name : String) :
    Stable c (Value.UsesOnly c.ok) (Evaluation.visitSymbol name) := by
  refine get fun n m m' h => ⟨by simp only [h.lookup?, h.level], ?_⟩
  split
  · exact pure trivial
  · split
    · next v hfound =>
      split
      · exact pure trivial
      · split
        · exact resolveType _
        · exact pure (h.lookupUses hfound)
    · split
      · exact pure trivial
      · exact throw _

theorem visitQuoted {e inner : Value} (he : e.UsesOnly c.ok) (hinner : inner.UsesOnly c.ok) :
    Stable c (Value.UsesOnly c.ok) (Evaluation.visitQuoted visit e inner) := by
  refine get fun n m m' h => ⟨by simp only [h.level], ?_⟩
  split
  · exact withLevel _ (hv inner hinner)
  · exact pure he

omit hv in
theorem rebuild {head : Value} (hhead : head.UsesOnly c.ok) {args : List Value}
    (hargs : Value.AllUseOnly c.ok args) :
    Stable c (Value.UsesOnly c.ok) (Evaluation.rebuild head args) := by
  refine make (fun s => .list _ s) fun s hs => hs.chain (fun v hmem => ?_) trivial
  rcases List.mem_cons.1 hmem with rfl | hmem
  · exact hhead
  · exact hargs v hmem

theorem structOperands {args : List Value} (hargs : Value.AllUseOnly c.ok args) :
    Stable c (Value.AllUseOnly c.ok) (Evaluation.structOperands visit args) := by
  unfold Evaluation.structOperands
  split
  · next field v rest =>
    refine bind (fully hv (hargs v (by simp))) fun found hfound => pure fun x hx => ?_
    rcases List.mem_cons.1 hx with rfl | hx
    · exact hargs x (List.mem_cons_self ..)
    · rcases List.mem_cons.1 hx with rfl | hx
      · exact hfound
      · exact hargs x (by simp [hx])
  · exact pure hargs

theorem visitApplication {head : Value} (hhead : head.UsesOnly c.ok) (f : Callable)
    {operands : List Value} (hoperands : Value.AllUseOnly c.ok operands) :
    Stable c (Value.UsesOnly c.ok) (Evaluation.visitApplication visit head f operands) := by
  refine get fun n m m' h => ⟨by simp only [h.level], ?_⟩
  dsimp only
  split
  · exact rebuild hhead hoperands
  · refine bind (withLevel _ (visitAll hv hoperands)) fun args hargs => ?_
    split
    · exact rebuild hhead hargs
    · split
      · exact bind (structOperands hv hargs) fun args hargs => apply hv hhead hargs
      · exact bind (P := Value.AllUseOnly c.ok) (pure hargs) fun args hargs => apply hv hhead hargs

theorem visitPair {e car cdr : Value} (he : e.UsesOnly c.ok) (hcar : car.UsesOnly c.ok)
    (hcdr : cdr.UsesOnly c.ok) :
    Stable c (Value.UsesOnly c.ok) (Evaluation.visitPair visit e car cdr) := by
  refine get fun n m m' h => ⟨by simp only [h.level], ?_⟩
  split
  · exact pure he
  · split
    · exact store fun _ _ => throw _
    · next operands hlist =>
      have hoperands : Value.AllUseOnly c.ok operands :=
        fun v hmem => .of_mem_toList? hlist hcdr hmem
      refine bind (hv car hcar) fun head hhead => store fun s _ => ?_
      split
      · exact visitApplication hv hhead _ hoperands
      · refine get fun n m m' h => ⟨by simp only [h.level], ?_⟩
        split
        · exact bind (visitAll hv hoperands) fun args hargs => rebuild hhead hargs
        · exact notCallable _

theorem step {e : Value} (he : e.UsesOnly c.ok) :
    Stable c (Value.UsesOnly c.ok) (Evaluation.step visit e) := by
  unfold Evaluation.step
  split
  · exact visitPair hv he he.1 he.2
  · next inner => exact visitQuoted hv he (show inner.UsesOnly c.ok from he)
  · exact visitSymbol _
  · refine get fun n m m' h => ⟨by simp only [h.level], ?_⟩
    split
    · exact pure trivial
    · exact resolveType _
  · exact pure he

end SpecialForms

/-! ### Nested steps -/

theorem noteIf (p : Prop) [Decidable p] (e : Event) :
    Stable c Any (if p then Eval.note e else Pure.pure () : Eval Unit) := by
  split
  · exact note e
  · exact pure trivial

theorem noteEntry (hreports : c.reports) (e : Value) :
    Stable c Any (Evaluation.noteEntry e) := by
  refine get fun n m m' h => ?_
  obtain ⟨hoptions, hindent, -⟩ := h.reports hreports
  refine ⟨by simp only [hoptions, hindent, h.store, h.level], ?_⟩
  dsimp only
  split
  · exact bind (note _) fun _ _ => noteIf _ _
  · exact noteIf _ _

theorem noteExit (hreports : c.reports) (result : Except Error Value) :
    Stable c Any (Evaluation.noteExit result) := by
  refine get fun n m m' h => ?_
  obtain ⟨hoptions, hindent, -⟩ := h.reports hreports
  refine ⟨by simp only [hoptions, hindent, h.store, h.active], ?_⟩
  dsimp only
  split
  · split
    · exact bind (note _) fun _ _ => noteIf _ _
    · exact bind (note _) fun _ _ => noteIf _ _
  · exact noteIf _ _

/-- The notes on a step tell the runs apart only where they report differently, and then they take
no part in the step. -/
theorem observed {P : Value → Prop} (e : Value) {x : Eval Value} (hx : Stable c P x) :
    Stable c P (Evaluation.observed e x) := by
  by_cases hreports : c.reports
  · have hcaught : Stable c (fun r => ∀ v, r = .ok v → P v)
        (liftM (Eval.bracket (fun m => { m with indent := m.indent + 1 })
          (fun m => { m with indent := m.indent - 1 }) x).run : Eval (Except Error Value)) := by
      intro n m m' h
      obtain ⟨hoptions, hindent, hevents⟩ := h.reports hreports
      obtain ⟨hsame, halike, hanswer⟩ := hx n { m with indent := m.indent + 1 }
        { m' with indent := m'.indent + 1 }
        { h with reports := fun _ => ⟨hoptions, congrArg (· + 1) hindent, hevents⟩ }
      refine ⟨congrArg Except.ok hsame, { halike with reports := fun _ => ?_ }, fun r hr => ?_⟩
      · obtain ⟨hoptions, hindent, hevents⟩ := halike.reports hreports
        exact ⟨hoptions, congrArg (· - 1) hindent, hevents⟩
      · cases hr
        exact hanswer
    refine get fun n m m' h => ⟨by simp only [(h.reports hreports).1], ?_⟩
    split
    · refine bind (noteEntry hreports e) fun _ _ => bind hcaught fun result hresult => ?_
      exact bind (noteExit hreports result) fun _ _ => ofExcept hresult
    · exact hx
  -- The runs may note different things, so the notes are taken off on both sides.
  · intro n m m' h
    obtain ⟨events, indent, hm, hevents⟩ := Evaluation.begun_eq e m
    obtain ⟨events', indent', hm', hevents'⟩ := Evaluation.begun_eq e m'
    have hbegun : (Evaluation.begun e m).Alike c n (Evaluation.begun e m') := by
      rw [hm, hm']
      exact h.reported hreports _ _ hevents hevents'
    obtain ⟨hsame, halike, hanswer⟩ := hx n _ _ hbegun
    obtain ⟨events, indent, hobserved, hevents⟩ := Evaluation.observed_apply e x m
    obtain ⟨events', indent', hobserved', hevents'⟩ := Evaluation.observed_apply e x m'
    rw [hobserved, hobserved']
    exact ⟨hsame, halike.reported hreports _ _ hevents hevents', hanswer⟩

theorem nested {P : α → Prop} (room : Nat) {x : Eval α} (hx : Stable c P x) :
    Stable c P (Evaluation.nested room x) := by
  intro n m m' h
  rw [Evaluation.nested_eq, Eval.bracket_apply, Eval.bracket_apply]
  obtain ⟨hsame, halike, hanswer⟩ := hx n { m with depth := m.depth + 1 }
    { m' with depth := m'.depth + 1 } { h with depth := congrArg (· + 1) h.depth }
  exact ⟨hsame, { halike with depth := congrArg (· - 1) halike.depth }, hanswer⟩

/-- **An evaluation does not see its surroundings.** -/
theorem visitWithin (room : Nat) {e : Value} (he : e.UsesOnly c.ok) :
    Stable c (Value.UsesOnly c.ok) (Evaluation.visitWithin room e) := by
  induction room generalizing e with
  | zero => exact get fun n m m' h => ⟨by simp only [h.maxDepth], throw _⟩
  | succ room ih => exact nested room (observed e (step (fun e he => ih he) he))

theorem visit {e : Value} (he : e.UsesOnly c.ok) :
    Stable c (Value.UsesOnly c.ok) (Evaluation.visit e) :=
  get fun _ _ _ h => ⟨by simp only [Evaluation.room, h.maxDepth, h.depth], visitWithin _ he⟩

end Stable

end CurryLisp
