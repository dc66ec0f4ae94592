import CurryLisp.Proofs.Applying
import CurryLisp.Proofs.Renaming.Agreement

/-!
# Placeholders of curried functions

A native function that receives only its first arguments becomes a closure. Its parameters are
placeholders, which are numbered through (`placeholderName`), and its body is the whole call. If no
argument stands for code, the arguments stand in the call as they are (`NativeFunction.waiting`).

Statements:

* `Application.curryNative_apply`: what becomes of a native function that is curried,
* `Application.curryNative_settled`: the same, if no argument stands for code,
* `NativeFunction.waiting_rename`: the closures that are made with the same number of placeholders are
  the same but for the stamps of the pairs.
-/

namespace CurryLisp

open SpecialForm (Visit)

/-! ## New lists -/

namespace Store

/-- The objects after so many more pairs were made. -/
def spend (pairs : Nat) (s : Store) : Store := { s with pairs := s.pairs + pairs }

theorem list_snd (items : List Value) (s : Store) : (s.list items).2 = s.spend items.length := by
  induction items with
  | nil => rfl
  | cons item rest ih =>
    have hlist : (s.list (item :: rest)).2 = (s.list rest).2.spend 1 := rfl
    rw [hlist, ih]
    rfl

/-- Lists of renamed items are renamed, if the stamps are that they receive. -/
theorem list_rename {σ : Renaming} {s s' : Store} {items : List Value}
    (h : ∀ j, j < items.length → σ.stamp (s.pairs + j) = s'.pairs + j) :
    (s.list items).1.rename σ = (s'.list (items.map (Value.rename σ))).1 := by
  induction items with
  | nil => rfl
  | cons item rest ih =>
    have hstamp := h rest.length (by simp)
    have hrest := ih fun j hj => h j (Nat.lt_of_lt_of_le hj (by simp))
    change Value.pair (σ.stamp (s.list rest).2.pairs) (item.rename σ) ((s.list rest).1.rename σ) =
      .pair (s'.list (rest.map (Value.rename σ))).2.pairs (item.rename σ)
        (s'.list (rest.map (Value.rename σ))).1
    rw [list_snd, list_snd, List.length_map, hrest]
    exact congrArg (fun stamp => Value.pair stamp _ _) hstamp

end Store

/-! ## Currying a native function -/

/-- The placeholder with this number. -/
def placeholderName (n : Nat) : String := "%" ++ toString n

theorem placeholderName_injective : Function.Injective placeholderName := by
  intro n k h
  have htext : toString n = toString k := (String.append_right_inj "%").1 h
  have hdigits : Nat.toDigits 10 n = Nat.toDigits 10 k := by
    simpa [toString] using congrArg String.toList htext
  rw [← Nat.ofDigitChars_ten_toDigits (n := n), hdigits, Nat.ofDigitChars_ten_toDigits]

namespace Application

theorem placeholders_apply (n : Nat) (m : Machine) :
    placeholders n m = (.ok ((List.range' (m.placeholders + 1) n).map placeholderName),
      { m with placeholders := m.placeholders + n }) := by
  induction n generalizing m with
  | zero => rfl
  | succ n ih =>
    unfold placeholders
    rw [Eval.bind_apply]
    change (placeholders n >>= fun names => _ : Eval (List String))
      { m with placeholders := m.placeholders + 1 } = _
    rw [Eval.bind_apply, ih]
    show _ = (_, { m with placeholders := m.placeholders + (n + 1) })
    rw [Nat.add_comm n 1, ← Nat.add_assoc, Nat.add_comm 1 n, List.range'_succ, List.map_cons]
    rfl

/-- What becomes of a native function that is curried. -/
theorem curryNative_apply (f : NativeFunction) {args operands : List Value}
    {bound : List (String × Value)} {count : Nat} {m : Machine} (hoperands : callOperands args m =
      (.ok (operands, bound), { m with placeholders := m.placeholders + count })) :
    let params := (List.range' (m.placeholders + count + 1) (f.arity - args.length)).map placeholderName
    let call := m.store.list (.native f :: operands ++ params.map .symbol)
    curryNative f args m = (.ok (.closure call.2.closures.size), { m with
      store := (call.2.newClosure { params, body := [call.1], bound }).2
      placeholders := m.placeholders + count + (f.arity - args.length)
      events := .nativeCurried f.name (f.arity - args.length) :: m.events }) := by
  unfold curryNative
  rw [Eval.bind_apply, hoperands]
  dsimp only
  rw [Eval.bind_apply, placeholders_apply]
  rfl

end Application

/-! ## Arguments that stand for no code -/

namespace NativeFunction

/-- The call of a native function whose other arguments are the placeholders after the first `n`. -/
def pendingCall (f : NativeFunction) (args : List Value) (n : Nat) : List Value :=
  .native f :: args ++
    ((List.range' (n + 1) (f.arity - args.length)).map placeholderName).map .symbol

/-- The closure that a native function becomes which has received these arguments, if `n` placeholders
were made before. -/
def waiting (f : NativeFunction) (args : List Value) (n : Nat) (s : Store) : Closure where
  params := (List.range' (n + 1) (f.arity - args.length)).map placeholderName
  body := [(s.list (f.pendingCall args n)).1]

/-- The machine after that. -/
def supplied (f : NativeFunction) (args : List Value) (m : Machine) : Machine :=
  { m with
    store := m.store.withClosure (f.waiting args m.placeholders m.store)
      (m.store.pairs + (f.pendingCall args m.placeholders).length)
    placeholders := m.placeholders + (f.arity - args.length)
    events := .nativeCurried f.name (f.arity - args.length) :: m.events }

theorem pendingCall_rename (σ : Renaming) (f : NativeFunction) (args : List Value) (n : Nat) :
    f.pendingCall (args.map (Value.rename σ)) n = (f.pendingCall args n).map (Value.rename σ) := by
  unfold pendingCall
  rw [List.length_map, List.map_append, List.map_cons, List.map_map (g := Value.rename σ)]
  rfl

/-- Such closures are the same but for the stamps of the pairs. -/
theorem waiting_rename {σ : Renaming} {f : NativeFunction} {args : List Value} {n : Nat}
    {s s' : Store}
    (h : ∀ j, j < (f.pendingCall args n).length → σ.stamp (s.pairs + j) = s'.pairs + j) :
    (f.waiting args n s).rename σ = f.waiting (args.map (Value.rename σ)) n s' := by
  unfold waiting Closure.rename
  rw [pendingCall_rename, ← Store.list_rename h, List.length_map]
  rfl

end NativeFunction

namespace Application

/-- Arguments that stand for no code need no placeholders. -/
theorem callOperands_settled {args : List Value} (hargs : args.any Value.isResidual = false)
    (m : Machine) : callOperands args m = (.ok (args, []), m) := by
  induction args with
  | nil => rfl
  | cons arg args ih =>
    rw [List.any_cons, Bool.or_eq_false_iff] at hargs
    unfold callOperands
    rw [if_neg (by simp [hargs.1]), Eval.bind_apply, ih hargs.2]
    rfl

/-- Supplied with such arguments, a native function becomes the closure that waits for the others. -/
theorem curryNative_settled (f : NativeFunction) {args : List Value}
    (hargs : args.any Value.isResidual = false) (m : Machine) :
    curryNative f args m = (.ok (.closure m.store.closures.size), f.supplied args m) := by
  have hoperands : callOperands args m =
      (.ok (args, []), { m with placeholders := m.placeholders + 0 }) := callOperands_settled hargs m
  have hcurry := curryNative_apply f hoperands
  dsimp only at hcurry
  rw [Store.list_snd] at hcurry
  exact hcurry

end Application

end CurryLisp
