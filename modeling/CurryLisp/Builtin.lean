import CurryLisp.Operation

/-!
# The builtin functions

`Builtin.all` lists the native functions that every environment starts with. Functions that write
output, change shared values, build fresh mutable ones or evaluate code are not pure, so they never run
before a curried function is called in full.
-/

namespace CurryLisp.Builtin

/-- A form that takes its operands as written. -/
def form (name : String) (arity : Nat) (variadic : Bool) (operation : Operation) :
    NativeFunction :=
  { name, arity, variadic, level := .asWritten, isPure := false, operation }

/-- A pure function of reduced arguments. -/
def function (name : String) (arity : Nat) (variadic : Bool) (types : List BaseType)
    (operation : Operation) : NativeFunction :=
  { name, arity, variadic, types := types.map BaseType.tag, operation }

/-- A function that is not pure. -/
def action (name : String) (arity : Nat) (variadic : Bool) (types : List BaseType)
    (operation : Operation) : NativeFunction :=
  { function name arity variadic types operation with isPure := false }

/-- Every builtin function. -/
def all : List NativeFunction :=
  [ form "\\" 2 true .lambda,
    form "define" 2 false .define,
    form "undefine" 1 true .undefine,
    form "let" 2 true .bindLocal,
    form "if" 3 false .choose,
    form "and" 1 true .both,
    form "or" 1 true .either,
    form "quote" 1 false .quote,
    form "defstruct" 2 false .defineStruct,
    form "substruct" 3 false .deriveStruct,
    form "new" 1 true .instantiate,
    form "set-option" 2 false .setOption,
    function "cons" 2 false [] .cons,
    function "car" 1 false [.cons] .car,
    function "cdr" 1 false [.cons] .cdr,
    function "list" 0 true [] .list,
    function "null?" 1 false [] .isNil,
    function "length" 1 false [] .length,
    function "+" 2 false [.number, .number] .add,
    function "-" 2 false [.number, .number] .subtract,
    function "*" 2 false [.number, .number] .multiply,
    function "/" 2 false [.number, .number] .divide,
    function "mod" 2 false [.int, .int] .modulo,
    function "=" 2 false [] .equal,
    function "<" 2 false [.primitive, .primitive] .less,
    function ">" 2 false [.primitive, .primitive] .greater,
    function "not" 1 false [] .negate,
    function "int" 1 false [.primitive] .toInteger,
    function "float" 1 false [.primitive] .toFloat,
    function "char" 1 false [.primitive] .toCharacter,
    function "typeof" 1 false [] .typeOf,
    function "is?" 2 false [.type, .any] .isType,
    action "vector" 0 true [] .vector,
    function "aref" 2 false [.array, .int] .elementAt,
    action "aset" 3 false [.array, .int, .any] .setElement,
    action "append!" 2 false [.array, .any] .append,
    action "string-append" 0 true [] .joinText,
    action "eval" 1 false [] .evaluate,
    action "apply" 2 false [.any, .cons] .apply,
    function "begin" 0 true [] .last,
    action "copy" 1 false [] .copy,
    action "print" 0 true [] .print,
    action "println" 0 true [] .printLine,
    action "error" 0 true [] .fail ]

/-- The builtin function of this name. -/
def find? (name : String) : Option NativeFunction := all.find? fun f => f.name = name

end CurryLisp.Builtin
