import CurryLisp.Environment
import CurryLisp.Host

/-!
# The store

The store holds every shared object: strings, vectors, structs and closures, each kind in the order in
which its objects were made. It also holds the functions of the host and the constants of packages,
which no program changes, and counts the pairs made so far, so that each pair receives a stamp of its
own.

Objects are never removed, so an address stays valid.
-/

namespace CurryLisp

/-- A slot of a struct. -/
structure Field where
  tag : TypeTag
  value : Value
  deriving Inhabited

/-- A struct template or instance. -/
structure Struct where
  name : String
  tag : TypeTag
  fields : Table Field

instance : Inhabited Struct := ⟨⟨"", default, {}⟩⟩

/-- A function of the language: its parameters and body, the environment it was made in, and the
arguments it has received already, which are bound on every call. -/
structure Closure where
  params : List String
  body : List Value
  env : Environment := {}
  bound : List (String × Value) := []

instance : Inhabited Closure := ⟨⟨[], [], {}, []⟩⟩

/-- Every shared object. -/
structure Store where
  texts : Array String := #[]
  vectors : Array (Array Value) := #[]
  structs : Array Struct := #[]
  closures : Array Closure := #[]
  constants : Array Value := #[]
  hosts : Array HostFunction := #[]
  /-- Number of pairs made so far. -/
  pairs : Nat := 0

namespace Store

/-! ## Looking at objects -/

/-- The text of a string. -/
def text (s : Store) (a : Address) : String := s.texts.getD a ""

/-- The items of a vector. -/
def vector (s : Store) (a : Address) : Array Value := s.vectors.getD a #[]

/-- A struct. -/
def struct (s : Store) (a : Address) : Struct := s.structs.getD a default

/-- A closure. -/
def closure (s : Store) (a : Address) : Closure := s.closures.getD a default

/-- The constant of a package. -/
def constant (s : Store) (slot : Nat) : Value := s.constants.getD slot .nil

/-- A function of the host. -/
def host (s : Store) (slot : Nat) : HostFunction := s.hosts.getD slot default

/-! ## Making objects -/

/-- A new string. -/
def newText (text : String) (s : Store) : Value × Store :=
  (.string s.texts.size, { s with texts := s.texts.push text })

/-- A new vector. -/
def newVector (items : Array Value) (s : Store) : Value × Store :=
  (.vector s.vectors.size, { s with vectors := s.vectors.push items })

/-- The address of a new struct. -/
def newStruct (struct : Struct) (s : Store) : Address × Store :=
  (s.structs.size, { s with structs := s.structs.push struct })

/-- A new closure. -/
def newClosure (closure : Closure) (s : Store) : Value × Store :=
  (.closure s.closures.size, { s with closures := s.closures.push closure })

/-- The place of a new constant of a package. -/
def newConstant (value : Value) (s : Store) : Nat × Store :=
  (s.constants.size, { s with constants := s.constants.push value })

/-- A new function of the host, as the operation that calls it. -/
def newHost (f : HostFunction) (s : Store) : Operation × Store :=
  (.host s.hosts.size, { s with hosts := s.hosts.push f })

/-- A new pair. -/
def cons (s : Store) (car cdr : Value) : Value × Store :=
  (.pair s.pairs car cdr, { s with pairs := s.pairs + 1 })

/-- A new chain of `items` that ends in `tail`. -/
def chain (items : List Value) (tail : Value) (s : Store) : Value × Store :=
  items.foldr (fun item made => made.2.cons item made.1) (tail, s)

/-- A new proper list. -/
def list (items : List Value) (s : Store) : Value × Store := s.chain items .nil

/-! ## Changing objects -/

/-- Replaces the text of a string. -/
def setText (a : Address) (text : String) (s : Store) : Store :=
  { s with texts := s.texts.setIfInBounds a text }

/-- Replaces the item at `i` of a vector. -/
def setItem (a : Address) (i : Nat) (value : Value) (s : Store) : Store :=
  { s with vectors := s.vectors.modify a fun items => items.setIfInBounds i value }

/-- Puts an item at the end of a vector. -/
def pushItem (a : Address) (value : Value) (s : Store) : Store :=
  { s with vectors := s.vectors.modify a fun items => items.push value }

/-- Replaces the value of a field that the struct has. -/
def setFieldValue (a : Address) (name : String) (value : Value) (s : Store) : Store :=
  { s with structs := s.structs.modify a fun struct =>
      match struct.fields.get? name with
      | some field => { struct with fields := struct.fields.insert name { field with value } }
      | none => struct }

end Store

end CurryLisp
