import CurryLisp.Proofs.AheadOfTime
import CurryLisp.Proofs.Counting
import CurryLisp.Proofs.Currying.Placeholders
import CurryLisp.Proofs.Currying.Reduction
import CurryLisp.Proofs.Rereading

/-!
# Runs beside each other

The body of a closure is reduced ahead of time, from a machine `a₀` on, and the reduction ends in `z`.
Later the body is evaluated in one machine, `m`, and the reduced body in another one, `m'`, which has
the closures that the reduction made of native functions. `Beside a₀ z σ a m m'` says how far both are
when the reduction was at `a`: but for the number of placeholders, `m'` is `m` under the renaming `σ`,
and the closures, pairs and placeholders that the reduction made after `a` are still to come in `m`.

Statements:

* `Beside.follows`: what does not see numbers goes on beside each other.
* `Beside.curryNative`: a native function becomes the closure that it became in the reduction.
* `Beside.calculation`: what was calculated in the reduction is calculated again.
-/

namespace CurryLisp

open SpecialForm (Visit)

/-! ## Moments of a reduction -/

/-- There are new closures, pairs, placeholders and notes in `m'`; what names, arrays and structs hold
is what they hold in `m`. -/
structure Machine.Prepares (m m' : Machine) : Prop where
  global : m'.global = m.global
  frames : m'.frames = m.frames
  texts : m'.store.texts = m.store.texts
  vectors : m'.store.vectors = m.store.vectors
  structs : m'.store.structs = m.store.structs
  grows : m.store.Grows m'.store
  placeholders : m.placeholders ≤ m'.placeholders

namespace Machine.Prepares

variable {m m₁ m₂ : Machine}

theorem refl (m : Machine) : m.Prepares m := ⟨rfl, rfl, rfl, rfl, rfl, .refl _, Nat.le_refl _⟩

theorem trans (h : m.Prepares m₁) (h' : m₁.Prepares m₂) : m.Prepares m₂ where
  global := h'.global.trans h.global
  frames := h'.frames.trans h.frames
  texts := h'.texts.trans h.texts
  vectors := h'.vectors.trans h.vectors
  structs := h'.structs.trans h.structs
  grows := h.grows.trans h'.grows
  placeholders := Nat.le_trans h.placeholders h'.placeholders

theorem lookup? (h : m.Prepares m₁) (name : String) : m₁.lookup? name = m.lookup? name := by
  unfold Machine.lookup? Machine.active
  rw [h.global, h.frames]

end Machine.Prepares

theorem Machine.Noted.prepares {m m' : Machine} (h : m.Noted m') : m.Prepares m' := by
  obtain ⟨_, _, _, rfl⟩ := h
  exact { Machine.Prepares.refl m with }

/-- A quiet change prepares what comes. -/
theorem Machine.Quiet.prepares {m m' : Machine} (h : m.Quiet m') : m.Prepares m' := by
  obtain ⟨made, hmade⟩ := h.closures
  have hgrows : m.store.Grows m'.store := by
    refine ⟨?_, ?_, ?_, fun a _ => ?_, ?_, fun a ha => ?_, h.constants, h.hosts, h.pairs⟩
    · rw [h.texts]
    · rw [h.vectors]
    · rw [h.structs]
    · rw [Store.struct, Store.struct, h.structs]
    · rw [hmade, Array.size_append]
      exact Nat.le_add_right ..
    · simp only [Store.closure, Array.getD_eq_getD_getElem?, hmade, Array.getElem?_append_left ha]
  exact ⟨h.global, h.frames, h.texts, h.vectors, h.structs, hgrows, h.placeholders⟩

/-- A reduction on standard machines that began in `a₀` has come to `a`. -/
structure Stage (a₀ a : Machine) : Prop where
  start : a₀.Valid
  level : a.level = .ahead
  standard : a.isStandard = true
  valid : a.Valid
  since : a₀.Prepares a

namespace Stage

variable {a₀ a a' : Machine}

theorem noted (h : Stage a₀ a) (ha : a.Noted a') : Stage a₀ a' where
  start := h.start
  level := ha.level.trans h.level
  standard := by
    obtain ⟨_, _, _, rfl⟩ := ha
    exact h.standard
  valid := ha.valid h.valid
  since := h.since.trans ha.prepares

/-- Another step of the reduction. -/
theorem next {α : Type} (h : Stage a₀ a) {P : α → Prop} {Q : Store → α → Prop} {x : Eval α} {v : α}
    (hx : Ahead P x) (hkeeps : Keeps .none a.store Q x) (hv : x a = (.ok v, a')) :
    Stage a₀ a' ∧ a.Prepares a' ∧ P v ∧ Q a'.store v := by
  obtain ⟨hquiet, hlevel, hstandard, hP⟩ := hx.ok h.level h.standard hv
  obtain ⟨-, hupholds, hQ⟩ := hkeeps a (.refl _) h.valid.upholds_none
  rw [hv] at hupholds hQ
  exact ⟨⟨h.start, hlevel, hstandard, hupholds.toValid, h.since.trans hquiet.prepares⟩,
    hquiet.prepares, hP, hQ v rfl⟩

end Stage

/-! ## Runs beside each other -/

/-- While the reduction was at `a`, the evaluation of the body is at `m`, and that of the reduced body
at `m'`. -/
structure Beside (a₀ z : Machine) (σ : Renaming) (a m m' : Machine) : Prop where
  stage : Stage a₀ a
  before : a.Prepares z
  level : m.level = .full
  valid : m.Valid
  grows : a₀.store.Grows m.store
  renamed : m.Renamed σ (m'.counting m.placeholders)
  /-- What is older than the reduction has kept its number. -/
  fixes : σ.Fixes a₀.store
  /-- The second run has the closures that the reduction made. -/
  closures : ∀ k, k < z.store.closures.size → m'.store.closures[k]? = z.store.closures[k]?
  /-- The first run has none yet of those that the reduction made after `a`. -/
  address : Renaming.Avoids σ.address a.store.closures.size z.store.closures.size
  stamp : Renaming.Avoids σ.stamp a.store.pairs z.store.pairs
  counted : m'.placeholders = m.placeholders + (z.placeholders - a.placeholders)
  /-- As long as the reduction makes more placeholders, both have made the same. -/
  waiting : a.placeholders < z.placeholders → m.placeholders = a.placeholders

/-- How two runs ended that were beside each other when the first one had the objects `s`. If the first
one has a result, they are beside each other again, and the reduction was at `a`. -/
def EndedBeside {α β : Type} (a₀ z a : Machine) (σ : Renaming) (s : Store) (ρ : Renaming → α → β)
    (end₁ : Except Error α × Machine) (end₂ : Except Error β × Machine) : Prop :=
  s.Grows end₁.2.store ∧ ∃ τ : Renaming, σ.Agrees τ s ∧
    Ended τ (ρ τ) end₁ (end₂.1, end₂.2.counting end₁.2.placeholders) ∧
    ∀ v, end₁.1 = .ok v → Beside a₀ z τ a end₁.2 end₂.2

theorem Value.any_isResidual_rename (σ : Renaming) (vs : List Value) :
    (vs.map (rename σ)).any isResidual = vs.any isResidual := by
  rw [List.any_map]
  exact congrArg (List.any vs) (funext (isResidual_rename σ))

theorem Machine.counting_counting (m : Machine) (n k : Nat) :
    (m.counting n).counting k = m.counting k := rfl

theorem Machine.counting_self (m : Machine) : m.counting m.placeholders = m := rfl

/-- Renamed machines are renamed after another number of placeholders, too. -/
theorem Machine.Renamed.counting {σ : Renaming} {m m' : Machine} (h : m.Renamed σ m') (n : Nat) :
    (m.counting n).Renamed σ (m'.counting n) := { h with placeholders := rfl }

/-! ### What goes on beside each other -/

/-- A computation removes no object, keeps the level, and sees the number of placeholders only where it
makes one. -/
def Orderly {α : Type} (x : Eval α) : Prop :=
  Counts x ∧ Along (fun m m' => m.store.Grows m'.store) x ∧ Along Machine.Framed x

theorem Orderly.pervasive : Pervasive Orderly :=
  Counts.pervasive.and (Store.Grows.policy.pervasive.and Machine.Framed.policy.pervasive)

namespace EndedBeside

variable {a₀ z a a' : Machine} {σ : Renaming} {s : Store} {α α' β β' : Type}
  {ρ : Renaming → α → β} {end₁ : Except Error α × Machine} {end₂ : Except Error β × Machine}

/-- Nothing is said of a run that runs out of depth. -/
theorem overrun {e : Error} (hgrows : s.Grows end₁.2.store) (he : end₁.1 = .error e)
    (hover : e.isOverrun = true) : EndedBeside a₀ z a σ s ρ end₁ end₂ :=
  ⟨hgrows, σ, .refl σ s, .inl ⟨e, he, hover⟩, fun v hv => by rw [he] at hv; cases hv⟩

/-- It does not matter where the reduction was when the first run failed. -/
theorem failed (h : EndedBeside a₀ z a σ s ρ end₁ end₂) (hfailed : ∀ v, end₁.1 ≠ .ok v) :
    EndedBeside a₀ z a' σ s ρ end₁ end₂ := by
  obtain ⟨hgrows, τ, hτ, hended, -⟩ := h
  exact ⟨hgrows, τ, hτ, hended, fun v hv => absurd hv (hfailed v)⟩

/-- Runs that ended beside each other go on. -/
theorem bind {x : Eval α} {y : Eval β} {f : α → Eval α'} {g : β → Eval β'}
    {ρ' : Renaming → α' → β'} {m m' : Machine} (hx : EndedBeside a₀ z a σ s ρ (x m) (y m'))
    (hf : ∀ v τ m₁ m₁', x m = (.ok v, m₁) → y m' = (.ok (ρ τ v), m₁') → σ.Agrees τ s →
      Beside a₀ z τ a m₁ m₁' →
        EndedBeside a₀ z a' τ m₁.store ρ' (f v m₁) (g (ρ τ v) m₁')) :
    EndedBeside a₀ z a' σ s ρ' ((x >>= f) m) ((y >>= g) m') := by
  obtain ⟨hgrown, τ, hτ, hended, hbeside⟩ := hx
  rw [Eval.bind_apply, Eval.bind_apply]
  rcases hxm : x m with ⟨e | v, m₁⟩
  · rw [hxm] at hended hgrown
    refine ⟨hgrown, τ, hτ, ?_, fun v hv => (by cases hv)⟩
    rcases hended with ⟨e', he', hover⟩ | ⟨hresult, hm⟩
    · cases he'
      exact .inl ⟨e, rfl, hover⟩
    · rcases hym : y m' with ⟨r, m₁'⟩
      rw [hym] at hresult hm
      obtain rfl : r = .error e := hresult
      exact .inr ⟨rfl, hm⟩
  · rw [hxm] at hended hbeside hgrown
    rcases hended with ⟨e', he', hover⟩ | ⟨hresult, hm⟩
    · cases he'
    · rcases hym : y m' with ⟨r, m₁'⟩
      rw [hym] at hresult hbeside
      obtain rfl : r = .ok (ρ τ v) := hresult
      obtain ⟨hgrows, υ, hυ, hended', hbeside'⟩ := hf v τ m₁ m₁' hxm hym hτ (hbeside v rfl)
      exact ⟨hgrown.trans hgrows, υ, hτ.trans hυ hgrown, hended', hbeside'⟩

end EndedBeside

namespace Beside

variable {a₀ z a a' m m' : Machine} {σ : Renaming}

/-- Notes and nesting do not matter. -/
theorem noted {a₁ m₁ m₁' : Machine} (h : Beside a₀ z σ a m m') (ha : a.Noted a₁) (hm : m.Noted m₁)
    (hm' : m'.Noted m₁') : Beside a₀ z σ a₁ m₁ m₁' := by
  have hstage := h.stage.noted ha
  have hbefore := ha.symm.prepares.trans h.before
  have hvalid := hm.valid h.valid
  obtain ⟨_, _, _, rfl⟩ := ha
  obtain ⟨_, _, _, rfl⟩ := hm
  obtain ⟨_, _, _, rfl⟩ := hm'
  exact { h with
    stage := hstage
    before := hbefore
    valid := hvalid
    renamed := { h.renamed with } }

/-- The reduction went on without new placeholders. -/
theorem advance (h : Beside a₀ z σ a m m') (hstage : Stage a₀ a') (hprepares : a.Prepares a')
    (hbefore : a'.Prepares z) (hcount : a'.placeholders = a.placeholders) : Beside a₀ z σ a' m m' :=
  { h with
    stage := hstage
    before := hbefore
    address := h.address.mono hprepares.grows.closures (Nat.le_refl _)
    stamp := h.stamp.mono hprepares.grows.pairs (Nat.le_refl _)
    counted := by rw [hcount, h.counted]
    waiting := by
      rw [hcount]
      exact h.waiting }

theorem store (h : Beside a₀ z σ a m m') : m.store.Renamed σ m'.store := h.renamed.store

theorem level' (h : Beside a₀ z σ a m m') : m'.level = .full := h.renamed.level.trans h.level

/-- Runs that end where they are. -/
theorem done {α β : Type} (h : Beside a₀ z σ a m m') (ρ : Renaming → α → β) (v : α) :
    EndedBeside a₀ z a σ m.store ρ (.ok v, m) (.ok (ρ σ v), m') :=
  ⟨.refl _, σ, .refl σ _, .inr ⟨rfl, h.renamed⟩, fun _ _ => h⟩

theorem closures_lt (h : Beside a₀ z σ a m m') {k : Address} (hk : k < z.store.closures.size) :
    k < m'.store.closures.size := by
  by_contra hout
  have hnone := h.closures k hk
  rw [Array.getElem?_eq_none (Nat.le_of_not_lt hout), Array.getElem?_eq_getElem hk] at hnone
  cases hnone

/-- The same types are registered in both runs. -/
theorem settles_iff (h : Beside a₀ z σ a m m') (v : Value) : m'.Settles v ↔ m.Settles v := by
  refine and_congr_right fun _ => forall_congr' fun tag => ?_
  rw [← h.renamed.lookupType?]
  rfl

/-- Runs are beside each other again where one is renamed to the other and they made the same number of
placeholders. -/
theorem ended {α β : Type} (h : Beside a₀ z σ a m m') {ρ : Renaming → α → β}
    {end₁ : Except Error α × Machine} {end₂ : Except Error β × Machine}
    (hgrows : m.store.Grows end₁.2.store) (hgrows' : m'.store.Grows end₂.2.store)
    (hlevel : end₁.2.level = m.level) (hvalid : ∀ v, end₁.1 = .ok v → end₁.2.Valid)
    (hended : Ended σ (ρ σ) end₁ (end₂.1, end₂.2.counting end₁.2.placeholders))
    (hcount : ∀ v, end₁.1 = .ok v →
      end₂.2.placeholders = end₁.2.placeholders + (z.placeholders - a.placeholders) ∧
        (a.placeholders < z.placeholders → end₁.2.placeholders = a.placeholders)) :
    EndedBeside a₀ z a σ m.store ρ end₁ end₂ := by
  refine ⟨hgrows, σ, .refl σ _, hended, fun v hv => ?_⟩
  obtain ⟨hcounted, hwaiting⟩ := hcount v hv
  rcases hended with ⟨e, he, -⟩ | ⟨-, hrenamed⟩
  · rw [hv] at he
    cases he
  · exact {
      stage := h.stage
      before := h.before
      level := hlevel.trans h.level
      valid := hvalid v hv
      grows := h.grows.trans hgrows
      renamed := hrenamed
      fixes := h.fixes
      closures := fun k hk => by
        rw [hgrows'.getElem?_closures (h.closures_lt hk), h.closures k hk]
      address := h.address
      stamp := h.stamp
      counted := hcounted
      waiting := hwaiting }

/-- **What does not see numbers goes on beside each other**, as long as no placeholder comes before one
that the reduction made. -/
theorem follows {α β : Type} (h : Beside a₀ z σ a m m') {ρ : Renaming → α → β} {x : Eval α}
    {y : Eval β} (hxy : Follows σ (ρ σ) x y) (hx : Orderly x) (hy : Orderly y)
    (hcount : a.placeholders < z.placeholders → (x m).2.placeholders ≤ a.placeholders)
    (hvalid : ∀ v m₁, x m = (.ok v, m₁) → m₁.Valid) :
    EndedBeside a₀ z a σ m.store ρ (x m) (y m') := by
  obtain ⟨hcounts, hgrows, hframed⟩ := hx
  obtain ⟨hcounts', hgrows', -⟩ := hy
  have hended := hxy m _ h.renamed
  have hbefore := h.before.placeholders
  have hcounted := h.counted
  suffices hrun : Ended σ (ρ σ) (x m) ((y m').1, (y m').2.counting (x m).2.placeholders) ∧
      ∀ v, (x m).1 = .ok v →
        (y m').2.placeholders = (x m).2.placeholders + (z.placeholders - a.placeholders) ∧
          (a.placeholders < z.placeholders → (x m).2.placeholders = a.placeholders) from
    h.ended (hgrows m) (hgrows' m') (hframed m).level
      (fun v hv => hvalid v _ (Prod.ext hv rfl)) hrun.1 hrun.2
  rcases hended with ⟨e, he, hover⟩ | ⟨hresult, hrenamed⟩
  · exact ⟨.inl ⟨e, he, hover⟩, fun v hv => by rw [he] at hv; cases hv⟩
  have hsame := hrenamed.placeholders
  by_cases hlast : a.placeholders < z.placeholders
  · -- Some placeholder is still to come, so none is made now.
    have hwaiting := h.waiting hlast
    have hmore := (hcounts m).1
    have hnone := hcount hlast
    rw [hcounts'.rerun (m := m') (n := m.placeholders) (by omega)]
    refine ⟨.inr ⟨hresult, ?_⟩, fun _ _ => ⟨?_, fun _ => by omega⟩⟩
    · rw [Machine.counting_counting, ← hsame, Machine.counting_self]
      exact hrenamed
    · show m'.placeholders = _
      omega
  · have hequal : m'.placeholders = m.placeholders := by omega
    rw [← hequal, Machine.counting_self] at hresult hrenamed hsame
    refine ⟨.inr ⟨hresult, ?_⟩, fun _ _ => ⟨by omega, fun h => absurd h hlast⟩⟩
    rw [← hsame, Machine.counting_self]
    exact hrenamed

/-! ### What a calculation reads -/

/-- What arrays and structs held when the reduction began is not changed by the renaming. -/
theorem contents (h : Beside a₀ z σ a m m') :
    (a.store.vectors.map fun items => items.map (Value.rename σ)) = a.store.vectors ∧
      a.store.structs.map (Struct.rename σ) = a.store.structs := by
  have hsame := Store.Renamed.refl a₀.store
  obtain ⟨hvectors, hstructs, -⟩ := h.stage.start.store.objects_congr h.fixes.agrees
  rw [h.stage.since.vectors, h.stage.since.structs]
  exact ⟨hvectors.trans hsame.vectors.symm, hstructs.trans hsame.structs.symm⟩

theorem items (h : Beside a₀ z σ a m m') (k : Address) :
    (a.store.vector k).map (Value.rename σ) = a.store.vector k := by
  have hk := congrArg (·[k]?) h.contents.1
  rw [Array.getElem?_map] at hk
  rw [Store.vector, Array.getD_eq_getD_getElem?]
  cases hitems : a.store.vectors[k]? with
  | none => exact Array.map_empty
  | some items =>
    rw [hitems] at hk
    exact Option.some.inj hk

/-- An object that stays in the first run stays in the second one. -/
theorem stays (h : Beside a₀ z σ a m m') {v : Value} (hv : v.Stays a.store m.store) :
    v.Stays a.store m'.store := by
  cases v with
  | string k => exact (congrArg (·[k]?) h.store.texts).trans hv
  | vector k =>
    have hitems : m.store.vectors[k]? = a.store.vectors[k]? := hv
    show m'.store.vectors[k]? = _
    rw [h.store.vectors, Array.getElem?_map, hitems, ← Array.getElem?_map, h.contents.1]
  | struct k =>
    have hstruct : m.store.structs[k]? = a.store.structs[k]? := hv
    show m'.store.structs[k]? = _
    rw [h.store.structs, Array.getElem?_map, hstruct, ← Array.getElem?_map, h.contents.2]
  | _ => trivial

/-- The type of a value is the same in the reduction and in the second run. -/
theorem typeTag (h : Beside a₀ z σ a m m') {v : Value} (hv : v.Valid a.store) :
    v.typeTag m'.store = v.typeTag a.store := by
  induction v with
  | quoted inner ih => exact ih hv
  | struct k =>
    have hk : k < a₀.store.structs.size := by
      rw [← h.stage.since.structs]
      exact hv
    have hsame : a.store.struct k = a₀.store.struct k :=
      congrArg (·.getD k default) h.stage.since.structs
    show (m'.store.struct k).tag = (a.store.struct k).tag
    rw [h.store.struct, hsame]
    exact h.grows.tag hk
  | _ => rfl

/-- **A calculation that reads in the first run what it read in the reduction reads it in the second
one, too.** -/
theorem unchanged (h : Beside a₀ z σ a m m') {op : Operation} {args : List Value}
    (hargs : Value.AllValid a.store args) (hreads : op.Rereads a.store m.store args) :
    op.Unchanged a.store m'.store args := by
  refine ⟨fun arg harg => h.typeTag (hargs arg harg), ?_, fun arg harg k hk => ?_⟩
  · unfold Operation.Rereads at hreads ⊢
    split
    · dsimp only at hreads
      rw [h.store.text]
      exact hreads
    · dsimp only at hreads
      rw [h.store.vector, Array.size_map]
      exact hreads
    · dsimp only at hreads
      rw [h.store.text]
      exact hreads
    · dsimp only at hreads
      rw [h.store.vector, Array.getElem?_map, hreads, ← Array.getElem?_map, h.items]
    · dsimp only at hreads
      exact fun v hv => h.stays (hreads v hv)
    · trivial
  · -- Closures of the reduction are in the second run from its beginning.
    have hk' : k < a.store.closures.size := (hargs arg harg).reaches h.stage.valid.store hk
    have hgrows := h.before.grows
    rw [h.closures k (Nat.lt_of_lt_of_le hk' hgrows.closures), hgrows.getElem?_closures hk']

/-! ### Native functions -/

/-- The next closure of the first run, and the pairs in its body, are those of the reduction, so the
second run has them already. -/
theorem reserved (h : Beside a₀ z σ a m m') {f : NativeFunction} {vs : List Value}
    (hvs : Value.AllValid m.store vs) (hshort : vs.length < f.arity)
    (hafter : (f.supplied (vs.map (Value.rename σ)) a).Prepares z) :
    m.placeholders = a.placeholders ∧
    (f.pendingCall (vs.map (Value.rename σ)) a.placeholders).length =
      (f.pendingCall vs m.placeholders).length ∧
    ∃ (ha : Renaming.Avoids σ.address a.store.closures.size (a.store.closures.size + 1))
      (hi : Renaming.Avoids σ.stamp a.store.pairs
        (a.store.pairs + (f.pendingCall vs m.placeholders).length)),
      m'.store.closures[a.store.closures.size]? =
        some ((f.waiting vs m.placeholders m.store).rename (σ.reaching m.store ha hi)) := by
  have hlength : (vs.map (Value.rename σ)).length = vs.length := List.length_map _
  have hmissing : a.placeholders + (f.arity - (vs.map (Value.rename σ)).length) ≤ z.placeholders :=
    hafter.placeholders
  have hwaiting := h.waiting (by omega)
  have hpending : (f.pendingCall (vs.map (Value.rename σ)) a.placeholders).length =
      (f.pendingCall vs m.placeholders).length := by
    rw [hwaiting, NativeFunction.pendingCall_rename, List.length_map]
  have hpairs : a.store.pairs + (f.pendingCall (vs.map (Value.rename σ)) a.placeholders).length ≤
      z.store.pairs := hafter.grows.pairs
  rw [hpending] at hpairs
  have hclosures : a.store.closures.size + 1 ≤ z.store.closures.size := by
    have hgrown := hafter.grows.closures
    rwa [NativeFunction.supplied, Store.withClosure, Array.size_push] at hgrown
  have ha := h.address.mono (Nat.le_refl _) hclosures
  have hi := h.stamp.mono (Nat.le_refl _) hpairs
  refine ⟨hwaiting, hpending, ha, hi, ?_⟩
  have hmade : a.store.closures.size < (f.supplied (vs.map (Value.rename σ)) a).store.closures.size := by
    simp [NativeFunction.supplied, Store.withClosure]
  rw [h.closures _ hclosures, hafter.grows.getElem?_closures hmade,
    NativeFunction.waiting_rename fun j hj => Renaming.reaching_stamp ha hi hj,
    hvs.rename_congr (Renaming.agrees_reaching (s := m.store) ha hi), hwaiting]
  exact Array.getElem?_push_size

/-- **A native function becomes in the first run the closure that it became in the reduction**, which
the second run has already. -/
theorem curryNative (h : Beside a₀ z σ a m m') {f : NativeFunction} {vs : List Value} {r : Value}
    (hvs : Value.AllValid m.store vs) (hsettled : vs.any Value.isResidual = false)
    (hshort : vs.length < f.arity)
    (hr : Application.curryNative f (vs.map (Value.rename σ)) a = (.ok r, a'))
    (hstage : Stage a₀ a') (hafter : a'.Prepares z) :
    EndedBeside a₀ z a' σ m.store Value.rename (Application.curryNative f vs m) (.ok r, m') := by
  have hsettled' := (Value.any_isResidual_rename σ vs).trans hsettled
  have hkeeps : Keeps .none m.store Value.Valid (Application.curryNative f vs) := .curryNative f hvs
  obtain ⟨hgrows, hvalid, -⟩ := hkeeps m (.refl _) h.valid.upholds_none
  rw [Application.curryNative_settled f hsettled] at hgrows hvalid ⊢
  rw [Application.curryNative_settled f hsettled'] at hr
  cases hr
  obtain ⟨hwaiting, hpending, ha, hi, hmade⟩ := h.reserved hvs hshort hafter
  have hτ := Renaming.agrees_reaching (s := m.store) ha hi
  have hrenamed : (f.supplied vs m).Renamed (σ.reaching m.store ha hi)
      (m'.counting (f.supplied vs m).placeholders) :=
    { (h.renamed.agreeing h.valid hτ (h.valid.store.reaching h.store ha hi hmade)).counting
        (f.supplied vs m).placeholders with }
  refine ⟨hgrows, σ.reaching m.store ha hi, hτ, .inr ⟨?_, hrenamed⟩, fun _ _ => ?_⟩
  · exact congrArg (fun k => Except.ok (Value.closure k)) (Renaming.reaching_address ha hi).symm
  · have hcounted := h.counted
    have hlength : (vs.map (Value.rename σ)).length = vs.length := List.length_map _
    have hmissing : a.placeholders + (f.arity - (vs.map (Value.rename σ)).length) ≤ z.placeholders :=
      hafter.placeholders
    exact {
      stage := hstage
      before := hafter
      level := h.level
      valid := hvalid.toValid
      grows := h.grows.trans hgrows
      renamed := hrenamed
      fixes := h.fixes.of_agrees hτ h.grows
      closures := h.closures
      address := by
        rw [NativeFunction.supplied, Store.withClosure, Array.size_push]
        exact h.address.divert _ _
      stamp := by
        show Renaming.Avoids _ (a.store.pairs + _) _
        rw [hpending]
        exact h.stamp.divert _ _
      counted := by
        show m'.placeholders = m.placeholders + _ + (z.placeholders - (a.placeholders + _))
        omega
      waiting := fun _ => by
        show m.placeholders + _ = a.placeholders + _
        omega }

/-- **What was calculated in the reduction is calculated again**, where it reads what it read. -/
theorem calculation (h : Beside a₀ z σ a m m') {visit : Visit}
    (hv : ∀ e, Follows σ (Value.rename σ) (visit e) (visit (e.rename σ)))
    (hvisit : ∀ e, Orderly (visit e)) {f : NativeFunction} {vs : List Value} {r : Value}
    (hop : f.operation.isCalculation = true)
    (hargs : Value.AllValid a.store (vs.map (Value.rename σ)))
    (hsome : vs ≠ [] ∨ f.arity = 0) (harity : f.arity ≤ vs.length)
    (hvariadic : vs.length ≤ f.arity ∨ f.variadic = true)
    (hcheck : (Callable.native f).checkArguments a.store (vs.map (Value.rename σ)) = .ok ())
    (hr : Application.perform visit f.operation (vs.map (Value.rename σ)) a = (.ok r, a'))
    (hresidual : r.isResidual = false)
    (hreads : f.operation.Rereads a.store m.store (vs.map (Value.rename σ)))
    (hvalid : ∀ v m₁, Application.apply visit (.native f) vs m = (.ok v, m₁) → m₁.Valid) :
    a' = a ∧ EndedBeside a₀ z a σ m.store Value.rename
      (Application.apply visit (.native f) vs m) (.ok r, m') := by
  have hsome' : vs.map (Value.rename σ) ≠ [] ∨ f.arity = 0 := hsome.imp_left (by simp)
  have hlength : (vs.map (Value.rename σ)).length = vs.length := List.length_map _
  have hunchanged := h.unchanged hargs hreads
  have hagain : ∀ m₂ : Machine, m₂.store = m'.store → a' = a ∧
      Application.apply visit (.native f) (vs.map (Value.rename σ)) m₂ = (.ok r, m₂) := by
    intro m₂ hm₂
    refine Application.apply_again hop hsome' (by omega) (hvariadic.imp_left fun _ => by omega) hcheck hr
      hresidual ?_
    rw [hm₂]
    exact hunchanged
  have hfollows := Follows.apply hv (.native f) vs
  have hx := Orderly.pervasive.apply hvisit (.native f) vs
  have hy := Orderly.pervasive.apply hvisit (.native f) (vs.map (Value.rename σ))
  obtain ⟨rfl, hdone⟩ := hagain m' rfl
  refine ⟨rfl, ?_⟩
  rw [← hdone]
  rcases hfollows m _ h.renamed with ⟨e, he, hover⟩ | ⟨-, hrenamed⟩
  · exact .overrun (hx.2.1 m) he hover
  · -- The second run makes no placeholder, so neither does the first one.
    refine h.follows hfollows hx hy (fun hlast => ?_) hvalid
    have hsame := hrenamed.placeholders
    change (Application.apply visit (.native f) (vs.map (Value.rename σ)) _).2.placeholders = _ at hsame
    rw [(hagain (m'.counting m.placeholders) rfl).2] at hsame
    rw [← hsame, ← h.waiting hlast]
    exact Nat.le_refl _

/-- **A pure function that stood for a value in the reduction** answers this value in the first run, if it
reads what it read. -/
theorem native (h : Beside a₀ z σ a m m') {visit : Visit}
    (hv : ∀ e, Follows σ (Value.rename σ) (visit e) (visit (e.rename σ)))
    (hvisit : ∀ e, Orderly (visit e)) {f : NativeFunction} {vs : List Value} {r : Value}
    (hf : f.isStandard = true) (hlevel : f.level = .full) (hvs : Value.AllValid m.store vs)
    (hargs : Value.AllValid a.store (vs.map (Value.rename σ)))
    (hcalculates : (Value.native f).calculates (vs.map (Value.rename σ)) = true)
    (hr : Application.apply visit (.native f) (vs.map (Value.rename σ)) a = (.ok r, a'))
    (hresidual : r.isResidual = false)
    (hreads : f.operation.Rereads a.store m.store (vs.map (Value.rename σ)))
    (hstage : Stage a₀ a') (hafter : a'.Prepares z)
    (hvalid : ∀ v m₁, Application.apply visit (.native f) vs m = (.ok v, m₁) → m₁.Valid) :
    EndedBeside a₀ z a' σ m.store Value.rename (Application.apply visit (.native f) vs m)
      (.ok r, m') := by
  have hform : f.isSpecialForm = false := by
    rw [NativeFunction.isSpecialForm, hlevel]
    rfl
  obtain ⟨hpure, hsettled⟩ : f.isPure = true ∧ (vs.map (Value.rename σ)).any Value.isResidual = false := by
    simpa [Value.calculates] using hcalculates
  have hlength : (vs.map (Value.rename σ)).length = vs.length := List.length_map _
  rcases Application.apply_native_ok hform hr with
    ⟨hnone, harity, rfl, rfl⟩ | ⟨hsome, hshort, hcurry⟩ | ⟨hsome, harity, hvariadic, hcheck, hperform⟩
  · obtain rfl := List.map_eq_nil_iff.1 hnone
    rw [Application.apply_nothing visit harity]
    exact h.done Value.rename (.native f)
  · rw [hlength] at hshort
    rw [Value.any_isResidual_rename] at hsettled
    rw [Application.apply_curryNative visit hform (by simpa using hsome) hshort]
    exact h.curryNative hvs hsettled hshort hcurry hstage hafter
  · rw [hlength] at harity hvariadic
    obtain ⟨rfl, hended⟩ := h.calculation hv hvisit (isCalculation_of_isPure hf hpure hlevel) hargs
      (hsome.imp_left (by simp)) harity hvariadic hcheck hperform hresidual hreads hvalid
    exact hended

end Beside

/-- What is noted at the end does not matter. -/
theorem EndedBeside.noted {a₀ z a a' m₁ m₂ m₁' m₂' : Machine} {σ : Renaming} {s : Store}
    {α β : Type} {ρ : Renaming → α → β} {r : Except Error α} {r' : Except Error β}
    (h : EndedBeside a₀ z a σ s ρ (r, m₁) (r', m₁')) (ha : a.Noted a') (hm : m₁.Noted m₂)
    (hm' : m₁'.Noted m₂') : EndedBeside a₀ z a' σ s ρ (r, m₂) (r', m₂') := by
  obtain ⟨hgrows, τ, hτ, hended, hbeside⟩ := h
  refine ⟨hm.store ▸ hgrows, τ, hτ, ?_, fun v hv => (hbeside v hv).noted ha hm hm'⟩
  rcases hended with hover | ⟨hresult, hrenamed⟩
  · exact .inl hover
  · obtain ⟨_, _, _, rfl⟩ := hm
    obtain ⟨_, _, _, rfl⟩ := hm'
    exact .inr ⟨hresult, { hrenamed with }⟩

end CurryLisp
