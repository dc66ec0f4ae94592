/-!
# Type tags

Types are nominal: a `TypeTag` is a name with the names of its ancestors, nearest first. Two tags are
the same type if their names are equal, and one is a supertype of another if its name is among the
other's own and ancestors' names.

The seventeen base types form this tree:

* `:any`
  * `:atom`
    * `:symbol`, `:t`, `:type`, `:function`
    * `:primitive` with `:char` and `:number`, which has `:int` and `:float`
    * `:array` with `:string` and `:vector`
  * `:cons` with `:nil`
  * `:struct`
-/

namespace CurryLisp

/-- A type: its name, colon included, and the names of its ancestors, nearest first. -/
structure TypeTag where
  name : String
  ancestors : List String := []
  deriving DecidableEq, Repr, Inhabited

namespace TypeTag

/-- The names of the type and its ancestors, nearest first. -/
def chain (t : TypeTag) : List String := t.name :: t.ancestors

/-- A new type under `parent`; without a parent it is a root. -/
def define (name : String) : Option TypeTag → TypeTag
  | some parent => ⟨name, parent.chain⟩
  | none => ⟨name, []⟩

/-- A type known by its name only. -/
def reference (name : String) : TypeTag := ⟨name, []⟩

/-- Whether two tags name the same type. -/
def same (a b : TypeTag) : Bool := a.name = b.name

/-- Whether `b` is `a` or descends from it. -/
def isSupertypeOf (a b : TypeTag) : Bool := b.chain.contains a.name

theorem isSupertypeOf_refl (t : TypeTag) : t.isSupertypeOf t = true := by
  simp [isSupertypeOf, chain]

theorem isSupertypeOf_define (name : String) (parent : TypeTag) :
    parent.isSupertypeOf (define name (some parent)) = true := by
  simp [isSupertypeOf, define, chain]

/-- A tag as it is shown for inspection, with the name of its parent. -/
def debug (t : TypeTag) : String :=
  match t.ancestors with
  | [] => "TypeTag(" ++ t.name ++ ")"
  | parent :: _ => "TypeTag(" ++ t.name ++ " < " ++ parent ++ ")"

end TypeTag

/-- The types that every environment starts with. -/
inductive BaseType where
  | any
  | atom
  | cons
  | nil
  | truth
  | symbol
  | type
  | function
  | primitive
  | number
  | int
  | float
  | char
  | array
  | string
  | vector
  | struct
  deriving DecidableEq, Repr

namespace BaseType

/-- Every base type, each behind its parent. -/
def all : List BaseType :=
  [any, atom, cons, nil, truth, symbol, type, function, primitive, number, int, float, char, array,
   string, vector, struct]

/-- The name of a base type. -/
def name : BaseType → String
  | any => ":any"
  | atom => ":atom"
  | cons => ":cons"
  | nil => ":nil"
  | truth => ":t"
  | symbol => ":symbol"
  | type => ":type"
  | function => ":function"
  | primitive => ":primitive"
  | number => ":number"
  | int => ":int"
  | float => ":float"
  | char => ":char"
  | array => ":array"
  | string => ":string"
  | vector => ":vector"
  | struct => ":struct"

/-- The ancestors of a base type, nearest first. -/
def ancestors : BaseType → List BaseType
  | any => []
  | atom | cons | struct => [any]
  | nil => [cons, any]
  | truth | symbol | type | function | primitive | array => [atom, any]
  | number | char => [primitive, atom, any]
  | int | float => [number, primitive, atom, any]
  | string | vector => [array, atom, any]

/-- The tag of a base type. -/
def tag (b : BaseType) : TypeTag := ⟨b.name, b.ancestors.map name⟩

/-- The ancestors of a base type are its parent and the parent's ancestors. -/
theorem ancestors_eq (b : BaseType) :
    b.ancestors = [] ∨ ∃ parent, b.ancestors = parent :: parent.ancestors := by
  cases b <;> first | exact .inl rfl | exact .inr ⟨_, rfl⟩

end BaseType

end CurryLisp
