import CurryLisp.Proofs.Notes

/-!
# Computations on objects alone

Most native functions look at their arguments and at the objects, and at nothing else of the machine.
What such a computation does is the same on any two machines with the same objects and the same number
of placeholders (`Detached`), whatever their environments and levels are. The others evaluate code or
look at environments (`Operation.isContextual`); of a function of the host it has to be said that it
does not (`HostFunction.IgnoresNames`).

Statement:

* `Detached.apply`: a native function that ignores names is applied apart from environments, also where
  it is curried.
-/

namespace CurryLisp

open SpecialForm (Visit)

/-- Operations that can evaluate code, or look at environments, options or the level. -/
def Operation.isContextual : Operation → Bool
  | lambda | define | undefine | bindLocal | choose | both | either => true
  | defineStruct | deriveStruct | instantiate | setOption => true
  | evaluate | apply | host _ => true
  | _ => false

/-- The operation neither evaluates code nor looks at environments, among these functions of the host. -/
def Operation.IgnoresNames (hosts : Array HostFunction) : Operation → Prop
  | host slot => (hosts.getD slot default).IgnoresNames
  | op => op.isContextual = false

theorem Operation.ignoresNames_of_not_contextual {op : Operation} (h : op.isContextual = false)
    (hosts : Array HostFunction) : op.IgnoresNames hosts := by
  cases op with
  | host slot => cases h
  | _ => exact h

/-- A native function that may run ahead of time neither evaluates code nor looks at environments. -/
def NativeFunction.IgnoresNames (hosts : Array HostFunction) (f : NativeFunction) : Prop :=
  f.isPure = true → f.level = .full → f.operation.IgnoresNames hosts

/-- The builtin functions are declared pure rightly. -/
theorem Builtin.ignoresNames (hosts : Array HostFunction) :
    ∀ f ∈ Builtin.all, f.IgnoresNames hosts := by
  have hall : ∀ f ∈ Builtin.all,
      f.isPure = true → f.level = .full → f.operation.isContextual = false := by decide
  exact fun f hf hpure hlevel =>
    Operation.ignoresNames_of_not_contextual (hall f hf hpure hlevel) hosts

/-! ## What a computation adds to a machine -/

/-- The end of a computation on objects: its result, the objects and placeholders that it leaves, and
what it prints and notes. -/
structure Addition (α : Type) where
  result : Except Error α
  store : Store
  placeholders : Nat
  printed : String := ""
  events : List Event := []

/-- What the computation ends in on this machine. -/
def Addition.on {α : Type} (d : Addition α) (m : Machine) : Except Error α × Machine :=
  (d.result, { m with
    store := d.store
    placeholders := d.placeholders
    printed := m.printed ++ d.printed
    events := d.events ++ m.events })

/-- Among these functions of the host, what `x` does depends on the objects and on the number of
placeholders only. -/
def Detached {α : Type} (hosts : Array HostFunction) (x : Eval α) : Prop :=
  ∀ (s : Store) n, s.hosts = hosts → ∃ d : Addition α, d.store.hosts = hosts ∧
    ∀ m : Machine, m.store = s → m.placeholders = n → x m = d.on m

namespace Detached

variable {α β : Type} {hosts : Array HostFunction}

/-- A computation that prints nothing. -/
theorem quiet {x : Eval α} (d : Store → Nat → Addition α) (hquiet : ∀ s n, (d s n).printed = "")
    (hgrows : ∀ (s : Store) n, s.Grows (d s n).store)
    (h : ∀ m, x m = ((d m.store m.placeholders).result, { m with
      store := (d m.store m.placeholders).store
      placeholders := (d m.store m.placeholders).placeholders
      events := (d m.store m.placeholders).events ++ m.events })) : Detached hosts x := by
  refine fun s n hhosts => ⟨d s n, (hgrows s n).hosts.trans hhosts, fun m hs hn => ?_⟩
  subst hs hn
  unfold Addition.on
  rw [hquiet, String.append_empty]
  exact h m

theorem pure (a : α) : Detached hosts (Pure.pure a) :=
  quiet (fun s n => { result := .ok a, store := s, placeholders := n }) (fun _ _ => rfl)
    (fun s _ => .refl s) fun _ => rfl

theorem throw (e : Error) : Detached hosts (throw e : Eval α) :=
  quiet (fun s n => { result := .error e, store := s, placeholders := n }) (fun _ _ => rfl)
    (fun s _ => .refl s) fun _ => rfl

/-- What is printed and noted adds up. -/
theorem bind {x : Eval α} {f : α → Eval β} (hx : Detached hosts x)
    (hf : ∀ a, Detached hosts (f a)) : Detached hosts (x >>= f) := by
  intro s n hhosts
  obtain ⟨d, hkept, hd⟩ := hx s n hhosts
  cases hresult : d.result with
  | error e =>
    refine ⟨{ d with result := .error e }, hkept, fun m hs hn => ?_⟩
    rw [Eval.bind_apply, hd m hs hn, Addition.on, hresult]
    rfl
  | ok a =>
    obtain ⟨d', hkept', hd'⟩ := hf a d.store d.placeholders hkept
    refine ⟨{ d' with printed := d.printed ++ d'.printed, events := d'.events ++ d.events },
      hkept', fun m hs hn => ?_⟩
    rw [Eval.bind_apply, hd m hs hn, Addition.on, hresult]
    refine (hd' _ rfl rfl).trans ?_
    unfold Addition.on
    dsimp only
    rw [String.append_assoc, List.append_assoc]

theorem store : Detached hosts Eval.store :=
  quiet (fun s n => { result := .ok s, store := s, placeholders := n }) (fun _ _ => rfl)
    (fun s _ => .refl s) fun _ => rfl

theorem ask (f : Store → Except Error α) : Detached hosts (Eval.ask f) :=
  quiet (fun s n => { result := f s, store := s, placeholders := n }) (fun _ _ => rfl)
    (fun s _ => .refl s) fun _ => rfl

theorem make {f : Store → α × Store} (hf : ∀ s : Store, s.Grows (f s).2) :
    Detached hosts (Eval.make f) :=
  quiet (fun s n => { result := .ok (f s).1, store := (f s).2, placeholders := n }) (fun _ _ => rfl)
    (fun s _ => hf s) fun _ => rfl

/-- A computation on the objects that fails leaves them as they were. -/
theorem onStore {f : Store → Except Error (α × Store)}
    (hf : ∀ (s : Store) a s', f s = .ok (a, s') → s.Grows s') : Detached hosts (Eval.onStore f) := by
  intro s n hhosts
  unfold Eval.onStore Addition.on
  cases hmade : f s with
  | ok made =>
    refine ⟨{ result := .ok made.1, store := made.2, placeholders := n },
      (hf _ _ _ hmade).hosts.trans hhosts, fun m hs hn => ?_⟩
    rw [hs, hmade, String.append_empty, ← hn]
    rfl
  | error e =>
    refine ⟨{ result := .error e, store := s, placeholders := n }, hhosts, fun m hs hn => ?_⟩
    rw [hs, hmade, String.append_empty, ← hs, ← hn]
    rfl

theorem placeholder : Detached hosts Eval.placeholder :=
  quiet (fun s n => { result := .ok ("%" ++ toString (n + 1)), store := s, placeholders := n + 1 })
    (fun _ _ => rfl) (fun s _ => .refl s) fun _ => rfl

theorem note (e : Event) : Detached hosts (Eval.note e) :=
  quiet (fun s n => { result := .ok (), store := s, placeholders := n, events := [e] })
    (fun _ _ => rfl) (fun s _ => .refl s) fun _ => rfl

theorem write (text : String) : Detached hosts (Eval.write text) := by
  refine fun s n hhosts =>
    ⟨{ result := .ok (), store := s, placeholders := n, printed := text }, hhosts,
      fun m hs hn => ?_⟩
  subst hs hn
  rfl

/-! ## Native functions -/

/-- An operation that is not contextual looks at its arguments and the objects. -/
theorem run (visit : Visit) {op : Operation} (hop : op.isContextual = false) (args : List Value) :
    Detached hosts (op.run visit args) := by
  rw [Operation.run.eq_def]
  cases op with
  | cons => exact onStore fun s v s' h => Store.Grows.consArgs h
  | setElement => exact onStore fun s v s' h => Store.Grows.setElement h
  | append => exact onStore fun s v s' h => Store.Grows.append h
  | joinText => exact onStore fun s v s' h => Store.Grows.joinText h
  | copy => exact onStore fun s v s' h => Store.Grows.copy h
  | list => exact make fun s => Store.Grows.list args s
  | vector => exact make fun s => Store.Grows.newVector _ s
  | car | cdr | isNil | last => exact pure _
  | length | add | subtract | multiply | divide | modulo | equal | less | greater | negate
  | toInteger | toFloat | toCharacter | typeOf | isType | elementAt | math => exact ask _
  | print | printLine => exact bind store fun _ => bind (write _) fun _ => pure _
  | fail => exact bind store fun _ => throw _
  | quote =>
    change Detached hosts (SpecialForm.quote args)
    unfold SpecialForm.quote
    split
    · exact pure _
    · exact throw _
  | _ => cases hop

/-- An answer that does not show the level. -/
theorem hostAnswer (args : List Value) {a : HostAnswer} (ha : a.showsLevel = false) :
    Detached hosts (Application.hostAnswer args a) := by
  induction a with
  | text text => exact make fun s => Store.Grows.newText text s
  | level => cases ha
  | constant slot => exact bind store fun _ => pure _
  | pair car cdr ihCar ihCdr =>
    obtain ⟨hcar, hcdr⟩ := Bool.or_eq_false_iff.1 ha
    exact bind (ihCar hcar) fun car => bind (ihCdr hcdr) fun cdr =>
      make fun s => Store.Grows.cons s car cdr
  | _ => exact pure _

/-- What a function of the host that ignores names asks for depends on the objects only. -/
theorem callHost {slot : Nat} (hslot : (hosts.getD slot default).IgnoresNames) (args : List Value)
    (applied : Eval Value) : Detached hosts (Application.callHost slot args applied) := by
  intro s n hhosts
  let view : HostView := ⟨args.map fun v => v.write s, 0, .full, ""⟩
  have hrequest : ∀ m : Machine, m.store = s → (m.store.host slot).request
      (Application.hostView m args) = (hosts.getD slot default).request view := by
    rintro m rfl
    rw [Store.host, hhosts]
    exact hslot.alike view _ rfl
  have hcontext := hslot.context view
  obtain ⟨x, hx, hcalled⟩ : ∃ x : Eval Value, Detached hosts x ∧
      ∀ m : Machine, m.store = s → Application.callHost slot args applied m = x m := by
    unfold Application.callHost
    cases hview : (hosts.getD slot default).request view with
    | answer a =>
      rw [hview] at hcontext
      refine ⟨_, hostAnswer args hcontext, fun m hs => ?_⟩
      rw [Eval.bind_apply, Eval.get_apply]
      dsimp only
      rw [hrequest m hs, hview]
    | fail text =>
      refine ⟨_, throw (.failure text), fun m hs => ?_⟩
      rw [Eval.bind_apply, Eval.get_apply]
      dsimp only
      rw [hrequest m hs, hview]
    | bind | apply =>
      rw [hview] at hcontext
      cases hcontext
  obtain ⟨d, hkept, hd⟩ := hx s n hhosts
  exact ⟨d, hkept, fun m hs hn => (hcalled m hs).trans (hd m hs hn)⟩

theorem callOperands (args : List Value) : Detached hosts (Application.callOperands args) := by
  induction args with
  | nil => exact pure _
  | cons arg args ih =>
    unfold Application.callOperands
    split
    · exact bind placeholder fun _ => bind ih fun _ => pure _
    · exact bind ih fun _ => pure _

theorem placeholders (n : Nat) : Detached hosts (Application.placeholders n) := by
  induction n with
  | zero => exact pure _
  | succ n ih => exact bind placeholder fun _ => bind ih fun _ => pure _

theorem curryNative (f : NativeFunction) (args : List Value) :
    Detached hosts (Application.curryNative f args) := by
  refine bind (callOperands args) fun made => bind (placeholders _) fun params => ?_
  exact bind (make fun s => Store.Grows.list _ s) fun call => bind (note _) fun _ =>
    make fun s => Store.Grows.newClosure _ s

/-- An operation that ignores names. -/
theorem perform (visit : Visit) {op : Operation} (hop : op.IgnoresNames hosts)
    (args : List Value) : Detached hosts (Application.perform visit op args) := by
  cases op with
  | host slot => cases args with
    | nil => rw [Application.perform]; exact callHost hop _ _
    | cons f rest => rw [Application.perform]; exact callHost hop _ _
  | apply => cases hop
  | _ =>
    rw [Application.perform_run _ (by simp) (by simp)]
    exact run visit hop args

/-- **The application of a native function that ignores names sees objects only**, with any number of
arguments. -/
theorem apply (visit : Visit) {f : NativeFunction} (hf : f.operation.IgnoresNames hosts)
    (args : List Value) : Detached hosts (Application.apply visit (.native f) args) := by
  rw [Application.apply]
  refine bind store fun s => ?_
  dsimp only [Value.callable?]
  split
  · exact pure _
  · split
    · show Detached hosts (if f.isSpecialForm then _ else _)
      split
      · exact throw _
      · exact curryNative f args
    · split
      · exact bind store fun _ => throw _
      · exact bind (ask _) fun _ => perform visit hf args

end Detached

end CurryLisp
