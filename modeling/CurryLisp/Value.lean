import CurryLisp.Operation

/-!
# Values

A `Value` is a tree of atoms, quotes and pairs. Strings, vectors, structs and closures are shared
objects: a value holds their address in a store. Pairs are immutable, but two pairs are told apart by
the stamp that each receives when it is made, since a pair is always equal to itself.
-/

namespace CurryLisp

/-- The place of a shared object among the objects of its kind. -/
abbrev Address := Nat

/-- A value of the language. `nil` is also the empty list and the value false. -/
inductive Value where
  | nil
  | truth
  | integer (n : Int64)
  | float (x : Float)
  | char (c : Char)
  | symbol (name : String)
  | type (tag : TypeTag)
  /-- A subtree that evaluates to itself. -/
  | quoted (inner : Value)
  | pair (stamp : Nat) (car cdr : Value)
  | string (address : Address)
  | vector (address : Address)
  | struct (address : Address)
  | closure (address : Address)
  | native (f : NativeFunction)
  deriving Inhabited

namespace Value

/-- The value of a truth value. -/
def ofBool : Bool → Value
  | true => truth
  | false => nil

/-- Whether a value is `nil`. -/
def isNil : Value → Bool
  | nil => true
  | _ => false

/-- Everything except `nil` counts as true. -/
def isTruthy (v : Value) : Bool := !v.isNil

/-- Whether a value, met as an expression, still stands for code: symbols, applications and quotes. -/
def isResidual : Value → Bool
  | symbol _ | pair .. | quoted _ => true
  | _ => false

/-- The name of a symbol. -/
def symbolName? : Value → Option String
  | symbol name => some name
  | _ => none

/-- What kind of node a value is, in a trace. -/
def kind : Value → String
  | nil => "nil"
  | truth => "true"
  | integer _ => "integer"
  | float _ => "float"
  | char _ => "char"
  | symbol _ => "symbol"
  | type _ => "type"
  | quoted _ => "quoted"
  | pair .. => "pair"
  | string _ => "string"
  | vector _ => "vector"
  | struct _ => "struct"
  | closure _ => "closure"
  | native _ => "native-function"

/-! ## Size -/

/-- Number of nodes of the tree. -/
def size : Value → Nat
  | quoted inner => inner.size + 1
  | pair _ car cdr => car.size + cdr.size + 1
  | _ => 1

theorem size_pos (v : Value) : 0 < v.size := by
  cases v <;> simp [size]

/-- Number of nodes of several trees. -/
def totalSize : List Value → Nat
  | [] => 0
  | v :: vs => v.size + totalSize vs

@[simp]
theorem totalSize_nil : totalSize [] = 0 := rfl

@[simp]
theorem totalSize_cons (v : Value) (vs : List Value) :
    totalSize (v :: vs) = v.size + totalSize vs := rfl

/-! ## Chains of pairs -/

/-- The items of a chain and the value at its end, if that is not `nil`. -/
def spine : Value → List Value × Option Value
  | nil => ([], none)
  | pair _ car cdr => (car :: cdr.spine.1, cdr.spine.2)
  | v => ([], some v)

/-- The items of a proper list. -/
def toList? (v : Value) : Option (List Value) :=
  match v.spine with
  | (items, none) => some items
  | (_, some _) => none

/-- The items of a list have what pairs pass on to their parts. -/
theorem forall_mem_toList? {P : Value → Prop}
    (hpair : ∀ stamp car cdr, P (pair stamp car cdr) → P car ∧ P cdr) {v : Value} {items : List Value}
    (h : v.toList? = some items) (hv : P v) : ∀ item ∈ items, P item := by
  have hspine : ∀ item ∈ v.spine.1, P item := by
    clear h
    induction v with
    | pair stamp car cdr _ ih =>
      obtain ⟨hcar, hcdr⟩ := hpair stamp car cdr hv
      exact List.forall_mem_cons.2 ⟨hcar, ih hcdr⟩
    | _ => exact fun _ hitem => by cases hitem
  unfold toList? at h
  split at h
  · next found heq =>
    cases h
    rwa [heq] at hspine
  · cases h

theorem totalSize_spine_lt (v : Value) : totalSize v.spine.1 < v.size := by
  induction v with
  | pair stamp car cdr _ ih =>
    simp only [spine, totalSize_cons, size]
    omega
  | _ => simp [spine, size]

/-- The items of a list are smaller than the list. -/
theorem totalSize_toList?_lt {v : Value} {items : List Value} (h : v.toList? = some items) :
    totalSize items < v.size := by
  unfold toList? at h
  split at h
  · next found heq =>
    cases h
    have := totalSize_spine_lt v
    rwa [heq] at this
  · cases h

end Value

end CurryLisp
