import CurryLisp.Proofs.References
import CurryLisp.Proofs.Renaming

/-!
# Renamings that agree

A store is not concerned with numbers that it has not given out yet. Two renamings that agree on those
given out in a store rename alike whatever is valid there (`Renaming.Agrees`), and one that leaves them
changes nothing (`Renaming.Fixes`).

So the numbers still to come may be given in another way. `Renaming.between` moves them behind those of
a store that has grown. `Renaming.reaching` gives the next ones to a closure, and to the pairs in its
body, that the renamed store holds already.

Statements:

* `Store.Valid.renamed`: a valid store does not see that closures and pairs were made.
* `Store.Valid.reaching`: making a closure leads to one that was made before.
-/

namespace CurryLisp

/-! ## Agreement -/

namespace Renaming

/-- Both renamings give the numbers that were given out in `s` the same numbers. -/
structure Agrees (σ τ : Renaming) (s : Store) : Prop where
  address : ∀ k, k < s.closures.size → τ.address k = σ.address k
  stamp : ∀ i, i < s.pairs → τ.stamp i = σ.stamp i

/-- The renaming leaves the numbers that were given out in `s`. -/
structure Fixes (σ : Renaming) (s : Store) : Prop where
  address : ∀ k, k < s.closures.size → σ.address k = k
  stamp : ∀ i, i < s.pairs → σ.stamp i = i

variable {σ τ υ : Renaming} {s s' : Store}

theorem Agrees.refl (σ : Renaming) (s : Store) : σ.Agrees σ s := ⟨fun _ _ => rfl, fun _ _ => rfl⟩

/-- What was given out in a store was given out in one that has grown from it. -/
theorem Agrees.trans (h : σ.Agrees τ s) (h' : τ.Agrees υ s') (hgrows : s.Grows s') :
    σ.Agrees υ s where
  address := fun k hk => by
    rw [h'.address k (Nat.lt_of_lt_of_le hk hgrows.closures), h.address k hk]
  stamp := fun i hi => by rw [h'.stamp i (Nat.lt_of_lt_of_le hi hgrows.pairs), h.stamp i hi]

theorem Fixes.same (s : Store) : Renaming.same.Fixes s := ⟨fun _ _ => rfl, fun _ _ => rfl⟩

theorem Fixes.agrees (h : σ.Fixes s) : Renaming.same.Agrees σ s := ⟨h.address, h.stamp⟩

/-- A renaming that leaves numbers agrees with another one if that leaves them, too. -/
theorem Fixes.of_agrees (h : σ.Fixes s) (h' : σ.Agrees τ s') (hgrows : s.Grows s') : τ.Fixes s where
  address := fun k hk => by
    rw [h'.address k (Nat.lt_of_lt_of_le hk hgrows.closures), h.address k hk]
  stamp := fun i hi => by rw [h'.stamp i (Nat.lt_of_lt_of_le hi hgrows.pairs), h.stamp i hi]

theorem Fixes.andThen (hσ : σ.Fixes s) (hτ : τ.Fixes s') (h : s.Grows s') : (σ.andThen τ).Fixes s where
  address := fun k hk => by
    show τ.address (σ.address k) = k
    rw [hσ.address k hk, hτ.address k (Nat.lt_of_lt_of_le hk h.closures)]
  stamp := fun i hi => by
    show τ.stamp (σ.stamp i) = i
    rw [hσ.stamp i hi, hτ.stamp i (Nat.lt_of_lt_of_le hi h.pairs)]

end Renaming

/-! ### What agreeing renamings do -/

section Agreeing

variable {σ τ : Renaming} {s : Store} (h : σ.Agrees τ s)
include h

theorem Value.Valid.rename_congr {v : Value} (hv : v.Valid s) : v.rename τ = v.rename σ := by
  induction v with
  | quoted inner ih => exact congrArg Value.quoted (ih hv)
  | pair stamp car cdr ihCar ihCdr =>
    obtain ⟨hstamp, hcar, hcdr⟩ := hv
    rw [Value.rename, Value.rename, h.stamp stamp hstamp, ihCar hcar, ihCdr hcdr]
  | closure a => exact congrArg Value.closure (h.address a hv)
  | _ => rfl

theorem Value.AllValid.rename_congr {vs : List Value} (hvs : AllValid s vs) :
    vs.map (Value.rename τ) = vs.map (Value.rename σ) :=
  List.map_congr_left fun v hv => (hvs v hv).rename_congr h

theorem Bound.Valid.rename_congr {entries : List (String × Value)} (hentries : Bound.Valid s entries) :
    Bound.rename τ entries = Bound.rename σ entries :=
  List.map_congr_left fun entry hentry =>
    congrArg (Prod.mk entry.1) ((hentries entry hentry).rename_congr h)

theorem Environment.Valid.rename_congr {env : Environment} (henv : env.Valid s) :
    env.rename τ = env.rename σ := by
  have hbindings := henv.bindings.rename_congr h
  exact congrArg (fun entries => { env with bindings := ⟨entries⟩ : Environment }) hbindings

theorem Closure.Valid.rename_congr {c : Closure} (hc : c.Valid s) : c.rename τ = c.rename σ := by
  rw [Closure.rename, hc.body.rename_congr h, hc.env.rename_congr h, hc.bound.rename_congr h,
    ← Closure.rename]

theorem Struct.Valid.rename_congr {struct : Struct} (hstruct : struct.Valid s) :
    struct.rename τ = struct.rename σ := by
  have hfields : struct.fields.entries.map (Prod.map id (Field.rename τ)) =
      struct.fields.entries.map (Prod.map id (Field.rename σ)) := by
    refine List.map_congr_left fun entry hentry => ?_
    obtain ⟨name, tag, value⟩ := entry
    show (name, ({ tag, value := value.rename τ } : Field)) = _
    rw [(hstruct.fields _ hentry).rename_congr h]
    rfl
  exact congrArg (fun entries => { struct with fields := ⟨entries⟩ : Struct }) hfields

end Agreeing

/-! ### What does not change under a renaming -/

section Fixed

variable {σ : Renaming} {s : Store} (hσ : σ.Fixes s)
include hσ

theorem Value.Valid.rename_eq {v : Value} (hv : v.Valid s) : v.rename σ = v :=
  (hv.rename_congr hσ.agrees).trans v.rename_same

theorem Value.AllValid.rename_eq {vs : List Value} (hvs : AllValid s vs) :
    vs.map (Value.rename σ) = vs := by
  rw [hvs.rename_congr hσ.agrees, Value.rename_same_eq, List.map_id]

end Fixed

/-! ## Stores and machines under agreeing renamings -/

section Agreeing

variable {σ τ : Renaming} {s : Store} (h : σ.Agrees τ s) (hs : s.Valid)
include h hs

/-- What the objects of a valid store hold, closures apart, is renamed alike. -/
theorem Store.Valid.objects_congr :
    (s.vectors.map fun items => items.map (Value.rename τ)) =
        s.vectors.map (fun items => items.map (Value.rename σ)) ∧
      s.structs.map (Struct.rename τ) = s.structs.map (Struct.rename σ) ∧
      s.constants.map (Value.rename τ) = s.constants.map (Value.rename σ) := by
  refine ⟨Array.map_congr_left fun items hitems => Array.map_congr_left fun v hv => ?_,
    Array.map_congr_left fun struct hstruct => ?_, Array.map_congr_left fun v hv => ?_⟩
  · exact (hs.vectors items hitems v hv).rename_congr h
  · exact (hs.structs struct hstruct).rename_congr h
  · exact (hs.constants v hv).rename_congr h

theorem Store.Valid.closure_congr (k : Address) :
    s.closures[k]?.map (Closure.rename τ) = s.closures[k]?.map (Closure.rename σ) := by
  cases hk : s.closures[k]? with
  | none => rfl
  | some c => exact congrArg some ((hs.closures c (Array.mem_of_getElem? hk)).rename_congr h)

end Agreeing

/-- Environments of a valid machine are renamed alike, also among other objects. -/
theorem Machine.Renamed.agreeing {σ τ : Renaming} {m m' : Machine} (h : m.Renamed σ m')
    (hm : m.Valid) (hτ : σ.Agrees τ m.store) {s s' : Store} (hs : s.Renamed τ s') :
    Machine.Renamed τ { m with store := s } { m' with store := s' } := by
  refine { h with global := ?_, frames := ?_, store := hs }
  · exact h.global.trans (hm.global.rename_congr hτ).symm
  · refine h.frames.trans (List.map_congr_left fun frame hframe => ?_)
    exact ((hm.frames frame hframe).rename_congr hτ).symm

/-- A closure stays at its address. -/
theorem Store.Grows.getElem?_closures {s s' : Store} (h : s.Grows s') {k : Address}
    (hk : k < s.closures.size) : s'.closures[k]? = s.closures[k]? := by
  have hk' := Nat.lt_of_lt_of_le hk h.closures
  have hclosure := h.closure k hk
  simp only [Store.closure, Array.getD_eq_getD_getElem?, Array.getElem?_eq_getElem hk,
    Array.getElem?_eq_getElem hk', Option.getD_some] at hclosure
  rw [Array.getElem?_eq_getElem hk', Array.getElem?_eq_getElem hk, hclosure]

/-! ## Numbers that are moved up -/

namespace Renaming

/-- Numbers from `n` on are moved up to those from `n'` on. -/
def moveUp (n n' k : Nat) : Nat := if k < n then k else n' + (k - n)

theorem moveUp_injective {n n' : Nat} (h : n ≤ n') : Function.Injective (moveUp n n') := by
  intro j k hjk
  unfold moveUp at hjk
  split at hjk
  · split at hjk <;> omega
  · split at hjk <;> omega

/-- What was given out in `s` keeps its number; what is made in `s` has the number of what is made in
`s'`. -/
def between (s s' : Store) (h : s.Grows s') : Renaming where
  address := moveUp s.closures.size s'.closures.size
  stamp := moveUp s.pairs s'.pairs
  address_injective := moveUp_injective h.closures
  stamp_injective := moveUp_injective h.pairs

theorem fixes_between {s s' : Store} (h : s.Grows s') : (between s s' h).Fixes s where
  address := fun _ h => if_pos h
  stamp := fun _ h => if_pos h

end Renaming

/-- A valid store does not see that closures and pairs were made. -/
theorem Store.Valid.renamed {s s' : Store} (hs : s.Valid) (h : s.Grows s')
    (htexts : s'.texts = s.texts) (hvectors : s'.vectors = s.vectors)
    (hstructs : s'.structs = s.structs) : s.Renamed (.between s s' h) s' := by
  have hσ := (Renaming.fixes_between h).agrees
  have hsame := Store.Renamed.refl s
  obtain ⟨hvectors', hstructs', hconstants'⟩ := hs.objects_congr hσ
  refine ⟨htexts, ?_, ?_, ?_, h.hosts, fun a => ?_, fun i => ?_, fun i => ?_⟩
  · exact hvectors.trans (hsame.vectors.trans hvectors'.symm)
  · exact hstructs.trans (hsame.structs.trans hstructs'.symm)
  · exact h.constants.trans (hsame.constants.trans hconstants'.symm)
  · show s'.closures[Renaming.moveUp s.closures.size s'.closures.size a]? = _
    rw [hs.closure_congr hσ, ← hsame.closures a]
    unfold Renaming.moveUp
    by_cases ha : a < s.closures.size
    · rw [if_pos ha, h.getElem?_closures ha]
      rfl
    · rw [if_neg ha, Array.getElem?_eq_none (Nat.le_add_right ..)]
      exact (Array.getElem?_eq_none (Nat.le_of_not_lt ha)).symm
  · show Renaming.moveUp _ _ _ = _
    unfold Renaming.moveUp
    rw [if_neg (by omega), Nat.add_sub_cancel_left]
  · show Renaming.moveUp _ _ _ = _
    unfold Renaming.moveUp
    rw [if_neg (by omega), Nat.add_sub_cancel_left]

/-- A valid machine does not see it, either. -/
theorem Machine.Valid.renamed {m : Machine} (hm : m.Valid) {s : Store} (h : m.store.Grows s)
    (htexts : s.texts = m.store.texts) (hvectors : s.vectors = m.store.vectors)
    (hstructs : s.structs = m.store.structs) (events : List Event) :
    m.Renamed (.between m.store s h) { m with store := s, events } :=
  { (Machine.Renamed.refl m).agreeing hm (Renaming.fixes_between h).agrees
      (hm.store.renamed h htexts hvectors hstructs) with }

/-! ## Numbers that are reached again -/

namespace Renaming

/-- No number from `first` on, below `last`, is given out by `f`. -/
def Avoids (f : Nat → Nat) (first last : Nat) : Prop := ∀ k, f k < first ∨ last ≤ f k

/-- As `f`, but the next numbers from `n` on, `count` of them, are those from `first` on. -/
def divert (f : Nat → Nat) (n first count k : Nat) : Nat :=
  if k < n then f k else if k < n + count then first + (k - n) else f (k - count)

theorem avoids_moveUp {n n' last : Nat} (h : last ≤ n') : Avoids (moveUp n n') n last := by
  intro k
  unfold moveUp
  split <;> omega

theorem divert_injective {f : Nat → Nat} (hf : Function.Injective f) {n first count : Nat}
    (hfree : Avoids f first (first + count)) : Function.Injective (divert f n first count) := by
  intro j k hjk
  have hj := hfree j
  have hk := hfree k
  have hj' := hfree (j - count)
  have hk' := hfree (k - count)
  unfold divert at hjk
  split at hjk
  · split at hjk
    · exact hf hjk
    · split at hjk
      · omega
      · have := hf hjk
        omega
  · split at hjk
    · split at hjk
      · omega
      · split at hjk <;> omega
    · split at hjk
      · have := hf hjk
        omega
      · split at hjk
        · omega
        · have := hf hjk
          omega

/-- Fewer numbers are avoided then. -/
theorem Avoids.divert {f : Nat → Nat} {first last : Nat} (h : Avoids f first last) (n count : Nat) :
    Avoids (divert f n first count) (first + count) last := by
  intro k
  have hk := h k
  have hk' := h (k - count)
  unfold Renaming.divert
  split
  · omega
  · split <;> omega

theorem Avoids.mono {f : Nat → Nat} {first first' last last' : Nat} (h : Avoids f first last)
    (hfirst : first ≤ first') (hlast : last' ≤ last) : Avoids f first' last' := by
  intro k
  have hk := h k
  omega

/-- The next closure of `s` has the number `a`, and the next `count` pairs have the stamps from `i`
on. -/
def reaching (σ : Renaming) (s : Store) {a i count : Nat} (ha : Avoids σ.address a (a + 1))
    (hi : Avoids σ.stamp i (i + count)) : Renaming where
  address := divert σ.address s.closures.size a 1
  stamp := divert σ.stamp s.pairs i count
  address_injective := divert_injective σ.address_injective ha
  stamp_injective := divert_injective σ.stamp_injective hi

variable {σ : Renaming} {s : Store} {a i count : Nat} (ha : Avoids σ.address a (a + 1))
  (hi : Avoids σ.stamp i (i + count))

theorem agrees_reaching : σ.Agrees (σ.reaching s ha hi) s where
  address := fun _ h => if_pos h
  stamp := fun _ h => if_pos h

theorem reaching_address : (σ.reaching s ha hi).address s.closures.size = a := by
  show divert _ _ _ _ _ = _
  simp [divert]

theorem reaching_stamp {j : Nat} (hj : j < count) :
    (σ.reaching s ha hi).stamp (s.pairs + j) = i + j := by
  show divert _ _ _ _ _ = _
  rw [divert, if_neg (by omega), if_pos (by omega), Nat.add_sub_cancel_left]

theorem reaching_address_later (j : Nat) :
    (σ.reaching s ha hi).address (s.closures.size + 1 + j) = σ.address (s.closures.size + j) := by
  show divert _ _ _ _ (s.closures.size + 1 + j) = _
  have hj : s.closures.size + 1 + j - 1 = s.closures.size + j := by omega
  rw [divert, if_neg (by omega), if_neg (by omega), hj]

theorem reaching_stamp_later (j : Nat) :
    (σ.reaching s ha hi).stamp (s.pairs + count + j) = σ.stamp (s.pairs + j) := by
  show divert _ _ _ _ (s.pairs + count + j) = _
  rw [divert, if_neg (by omega), if_neg (by omega)]
  exact congrArg σ.stamp (by omega)

end Renaming

/-- The store after a closure was made, and the pairs in its body. -/
def Store.withClosure (s : Store) (c : Closure) (pairs : Nat) : Store :=
  { s with closures := s.closures.push c, pairs }

/-- **Making a closure leads to one that was made before**, if the renamed store holds it. -/
theorem Store.Valid.reaching {σ : Renaming} {s s' : Store} (hs : s.Valid) (h : s.Renamed σ s')
    {a i count : Nat} (ha : Renaming.Avoids σ.address a (a + 1))
    (hi : Renaming.Avoids σ.stamp i (i + count)) {c : Closure}
    (hc : s'.closures[a]? = some (c.rename (σ.reaching s ha hi))) :
    (s.withClosure c (s.pairs + count)).Renamed (σ.reaching s ha hi) s' := by
  have hτ := Renaming.agrees_reaching (s := s) ha hi
  obtain ⟨hvectors, hstructs, hconstants⟩ := hs.objects_congr hτ
  refine ⟨h.texts, h.vectors.trans hvectors.symm, h.structs.trans hstructs.symm,
    h.constants.trans hconstants.symm, h.hosts, fun k => ?_, fun j => ?_, fun j => ?_⟩
  · -- The new closure is the one reached; no later one is known on either side.
    show s'.closures[_]? = (s.closures.push c)[k]?.map _
    rcases Nat.lt_trichotomy k s.closures.size with hk | rfl | hk
    · rw [hτ.address k hk, h.closures, Array.getElem?_push, if_neg (Nat.ne_of_lt hk),
        hs.closure_congr hτ]
    · rw [Renaming.reaching_address, hc, Array.getElem?_push_size]
      rfl
    · obtain ⟨j, rfl⟩ := Nat.exists_eq_add_of_le (Nat.succ_le_of_lt hk)
      rw [Nat.succ_eq_add_one, Renaming.reaching_address_later, h.closures,
        Array.getElem?_eq_none (by omega), Array.getElem?_eq_none (by simp)]
      rfl
  · show (σ.reaching s ha hi).address ((s.closures.push c).size + j) = _
    rw [Array.size_push, Renaming.reaching_address_later, h.nextClosure]
  · show (σ.reaching s ha hi).stamp (s.pairs + count + j) = _
    rw [Renaming.reaching_stamp_later, h.nextPair]

end CurryLisp
