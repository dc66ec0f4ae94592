import CurryLisp.Datum
import CurryLisp.Store

/-!
# How values are spelled

`Value.write` spells a value as source text, as far as it has any; `Value.print` spells it for program
output, where strings and characters stand for themselves; `Value.debug` shows the kind of a value
before its spelling. Objects that contain themselves are spelled down to a fixed nesting
(`Spelling.maxNesting`).

The type of a value is found here too, since that of a struct is in the store.
-/

namespace CurryLisp

namespace Value

/-! ## Types -/

/-- The type of a value; a quote has the type of what it quotes. -/
def typeTag (s : Store) : Value → TypeTag
  | nil => BaseType.nil.tag
  | truth => BaseType.truth.tag
  | integer _ => BaseType.int.tag
  | float _ => BaseType.float.tag
  | char _ => BaseType.char.tag
  | symbol _ => BaseType.symbol.tag
  | type _ => BaseType.type.tag
  | quoted inner => inner.typeTag s
  | pair .. => BaseType.cons.tag
  | string _ => BaseType.string.tag
  | vector _ => BaseType.vector.tag
  | struct a => (s.struct a).tag
  | closure _ | native _ => BaseType.function.tag

/-- The type of a value is that of its kind, or that of a struct. -/
theorem typeTag_of_structs {s s' : Store} (h : s'.structs = s.structs) (v : Value) :
    v.typeTag s' = v.typeTag s := by
  induction v with
  | quoted inner ih => exact ih
  | struct a => simp only [typeTag, Store.struct, h]
  | _ => rfl

/-- Whether a value has the type `t` or a descendant of it. -/
def hasType (s : Store) (v : Value) (t : TypeTag) : Bool := t.isSupertypeOf (v.typeTag s)

/-! ## Spelling -/

/-- The spelling of a value, `room` levels deep. -/
def spell (s : Store) (spelling : Spelling) : Nat → Value → String
  | 0, _ => Spelling.ellipsis
  | _ + 1, nil => "nil"
  | _ + 1, truth => "t"
  | _ + 1, integer n => toString n.toInt
  | _ + 1, float x => Decimal.written x
  | _ + 1, char c => spelling.char c
  | _ + 1, symbol name => name
  | _ + 1, type tag => tag.name
  | _ + 1, string a => spelling.string (s.text a)
  | _ + 1, native f => f.name
  | room + 1, quoted inner => Text.apostrophe.toString ++ spell s spelling room inner
  | room + 1, pair _ car cdr =>
    Spelling.chain (spell s spelling room car :: cdr.spine.1.map (spell s spelling room))
      (cdr.spine.2.map (spell s spelling room))
  | room + 1, vector a =>
    "[" ++ " ".intercalate ((s.vector a).toList.map (spell s spelling room)) ++ "]"
  | room + 1, closure a =>
    let c := s.closure a
    "(\\ (" ++ " ".intercalate c.params ++ ")" ++
      String.join (c.body.map fun e => " " ++ spell s spelling room e) ++ ")"
  | room + 1, struct a =>
    let st := s.struct a
    "#<struct " ++ st.name ++
      String.join (st.fields.entries.map fun entry =>
        " (" ++ entry.1 ++ " " ++ spell s spelling room entry.2.value ++ ")") ++ ">"

/-- A value as source text. -/
def write (s : Store) (v : Value) : String := v.spell s .written (Spelling.maxNesting + 1)

/-- A value as program output. -/
def print (s : Store) (v : Value) : String := v.spell s .printed (Spelling.maxNesting + 1)

/-- The kind of a value and its spelling. -/
def debug (s : Store) : Value → String
  | nil => "Nil"
  | truth => "True"
  | integer n => "Integer(" ++ toString n.toInt ++ ")"
  | float x => "Float(" ++ Decimal.shown x ++ ")"
  | char c => "Char(" ++ Text.charDebug c ++ ")"
  | symbol name => "Symbol(" ++ name ++ ")"
  | type tag => "Type(" ++ tag.name ++ ")"
  | quoted inner => "Quoted(" ++ inner.debug s ++ ")"
  | string a => "String(" ++ Text.stringDebug (s.text a) ++ ")"
  | native f => "Native(" ++ f.name ++ ")"
  | v@(pair ..) => "List(" ++ v.write s ++ ")"
  | v@(vector _) => "Vector(" ++ v.write s ++ ")"
  | v@(closure _) => "Closure(" ++ v.write s ++ ")"
  | v@(struct _) => "Struct(" ++ v.write s ++ ")"

end Value

/-- A struct as it is shown for inspection. -/
def Struct.debug (st : Struct) : String :=
  "Struct \x7b name: " ++ Text.stringDebug st.name ++ ", tag: " ++ st.tag.debug ++ ", fields: " ++
    Text.stringListDebug st.fields.keys ++ " \x7d"

namespace Environment

/-- The bindings as a `let` form, sorted by name. Native functions are listed only if `builtins` is
set; `types` appends the type of each value. -/
def render (env : Environment) (s : Store) (builtins types : Bool) : String :=
  let shown := env.bindings.sorted.filter fun entry =>
    match entry.2 with
    | .native _ => builtins
    | _ => true
  if shown.isEmpty then "empty"
  else
    let entries := shown.map fun entry =>
      "(" ++ entry.1 ++ " " ++ entry.2.write s ++
        (if types then " " ++ (entry.2.typeTag s).name else "") ++ ")"
    "(let (" ++ " ".intercalate entries ++ "))"

/-- An environment as it is shown for inspection. -/
def debug (env : Environment) : String :=
  "Environment \x7b bindings: " ++ Text.stringListDebug (env.bindings.sorted.map (·.1)) ++
    ", types: " ++ toString env.types.size ++ ", structs: " ++ toString env.structs.size ++ " \x7d"

end Environment

end CurryLisp
