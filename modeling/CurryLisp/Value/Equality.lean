import CurryLisp.Store
import CurryLisp.Unseen

/-!
# Equality of values

Two values are equal if they cannot be told apart by looking at them: the same atoms, the same shape,
objects with equal contents. An object is equal to itself without a look inside, and so is a pair, even
if it holds a number that differs from itself.

Objects may contain themselves. `Value.equalFrom` keeps a list of comparisons that are still to be made
and remembers which pairs of objects it has opened; a pair met again is not opened again, so the
comparison ends: every step either opens a pair for the first time or leaves less to compare.
-/

namespace CurryLisp

/-- Two objects under comparison. -/
inductive Opened where
  | vectors (a b : Address)
  | structs (a b : Address)
  | closures (a b : Address)
  deriving DecidableEq, Repr

namespace Opened

/-- Every pair of addresses below `n` and `m`. -/
def grid (make : Address → Address → Opened) (n : Nat) : List Opened :=
  (List.range n).flatMap fun a => (List.range n).map (make a)

theorem mem_grid {make : Address → Address → Opened} {n a b : Nat} (ha : a < n) (hb : b < n) :
    make a b ∈ grid make n := by
  simp only [grid, List.mem_flatMap, List.mem_range, List.mem_map]
  exact ⟨a, ha, b, hb, rfl⟩

/-- Every pair of objects of one kind. -/
def pairsOf (s : Store) : List Opened :=
  grid vectors s.vectors.size ++ grid structs s.structs.size ++ grid closures s.closures.size

theorem vectors_mem_pairsOf {s : Store} {a b : Address} {xs ys : Array Value}
    (ha : s.vectors[a]? = some xs) (hb : s.vectors[b]? = some ys) : vectors a b ∈ pairsOf s := by
  have ha := (Array.getElem?_eq_some_iff.1 ha).1
  have hb := (Array.getElem?_eq_some_iff.1 hb).1
  simp [pairsOf, mem_grid ha hb]

theorem structs_mem_pairsOf {s : Store} {a b : Address} {x y : Struct}
    (ha : s.structs[a]? = some x) (hb : s.structs[b]? = some y) : structs a b ∈ pairsOf s := by
  have ha := (Array.getElem?_eq_some_iff.1 ha).1
  have hb := (Array.getElem?_eq_some_iff.1 hb).1
  simp [pairsOf, mem_grid ha hb]

theorem closures_mem_pairsOf {s : Store} {a b : Address} {x y : Closure}
    (ha : s.closures[a]? = some x) (hb : s.closures[b]? = some y) :
    closures a b ∈ pairsOf s := by
  have ha := (Array.getElem?_eq_some_iff.1 ha).1
  have hb := (Array.getElem?_eq_some_iff.1 hb).1
  simp [pairsOf, mem_grid ha hb]

end Opened

namespace Value

/-! ## What must be equal inside two objects -/

/-- Items that must be equal in pairs, if there are equally many. -/
def pairUp (xs ys : List Value) : Option (List (Value × Value)) :=
  if xs.length = ys.length then some (xs.zip ys) else none

/-- The field values that must be equal for two structs to be equal, if names and types agree. -/
def pairFields (x y : Struct) : Option (List (Value × Value)) :=
  if x.name = y.name && x.fields.size = y.fields.size then
    x.fields.entries.mapM fun entry => do
      let theirs ← y.fields.get? entry.1
      if entry.2.tag.same theirs.tag then some (entry.2.value, theirs.value) else none
  else none

/-- The values that must be equal for two closures to be equal, if their names agree. The environments
they were made in do not matter. -/
def pairClosures (x y : Closure) : Option (List (Value × Value)) := do
  let body ← pairUp x.body y.body
  let bound ← pairUp (x.bound.map (·.2)) (y.bound.map (·.2))
  if x.params = y.params && x.bound.map (·.1) = y.bound.map (·.1) then some (body ++ bound)
  else none

/-! ## The comparison -/

/-- Number of nodes in the comparisons to be made. -/
def workSize : List (Value × Value) → Nat
  | [] => 0
  | (x, y) :: work => x.size + y.size + workSize work

@[simp]
theorem workSize_cons (x y : Value) (work : List (Value × Value)) :
    workSize ((x, y) :: work) = x.size + y.size + workSize work := rfl

/-- Whether all comparisons in `work` hold, where the objects in `opened` are taken as equal. -/
def equalFrom (s : Store) (opened : List Opened) : List (Value × Value) → Bool
  | [] => true
  | (nil, nil) :: work => equalFrom s opened work
  | (truth, truth) :: work => equalFrom s opened work
  | (integer m, integer n) :: work => m == n && equalFrom s opened work
  | (float x, float y) :: work => x == y && equalFrom s opened work
  | (char c, char d) :: work => c == d && equalFrom s opened work
  | (symbol m, symbol n) :: work => m == n && equalFrom s opened work
  | (type t, type u) :: work => t.same u && equalFrom s opened work
  | (native f, native g) :: work => f.name == g.name && equalFrom s opened work
  | (string a, string b) :: work => (a == b || s.text a == s.text b) && equalFrom s opened work
  | (quoted x, quoted y) :: work => equalFrom s opened ((x, y) :: work)
  | (pair p a b, pair q c d) :: work =>
    if p = q then equalFrom s opened work else equalFrom s opened ((a, c) :: (b, d) :: work)
  | (vector a, vector b) :: work =>
    if _hopened : a = b ∨ .vectors a b ∈ opened then equalFrom s opened work
    else
      match _ha : s.vectors[a]?, _hb : s.vectors[b]? with
      | some xs, some ys =>
        match pairUp xs.toList ys.toList with
        | some inside => equalFrom s (.vectors a b :: opened) (inside ++ work)
        | none => false
      | _, _ => false
  | (struct a, struct b) :: work =>
    if _hopened : a = b ∨ .structs a b ∈ opened then equalFrom s opened work
    else
      match _ha : s.structs[a]?, _hb : s.structs[b]? with
      | some x, some y =>
        match pairFields x y with
        | some inside => equalFrom s (.structs a b :: opened) (inside ++ work)
        | none => false
      | _, _ => false
  | (closure a, closure b) :: work =>
    if _hopened : a = b ∨ .closures a b ∈ opened then equalFrom s opened work
    else
      match _ha : s.closures[a]?, _hb : s.closures[b]? with
      | some x, some y =>
        match pairClosures x y with
        | some inside => equalFrom s (.closures a b :: opened) (inside ++ work)
        | none => false
      | _, _ => false
  | _ :: _ => false
termination_by work => (unseen (Opened.pairsOf s) opened, workSize work)
decreasing_by
  all_goals first
    | (apply Prod.Lex.right; simp only [workSize_cons, size]; omega)
    | (apply Prod.Lex.left
       first
         | exact unseen_cons_lt (Opened.vectors_mem_pairsOf _ha _hb) fun h => _hopened (.inr h)
         | exact unseen_cons_lt (Opened.structs_mem_pairsOf _ha _hb) fun h => _hopened (.inr h)
         | exact unseen_cons_lt (Opened.closures_mem_pairsOf _ha _hb)
             fun h => _hopened (.inr h))

/-- Whether two values are equal. -/
def equal (s : Store) (x y : Value) : Bool := equalFrom s [] [(x, y)]

end Value

end CurryLisp
