/-!
# Reading errors

A `ParseError` says what kind of fault the reader met, in words, and where the input allows it also
the character found and the text around it. The text around an offset is at most a hundred characters
long and starts twenty before it; marks show where the input goes on (`ParseError.window`).
-/

namespace CurryLisp

/-- The kinds of fault in source text. -/
inductive ParseErrorKind where
  /-- Text that no rule of the grammar accepts. -/
  | invalidText
  /-- The input ends before the expression does. -/
  | incomplete
  /-- Lists and quotes are nested too deeply. -/
  | tooDeeplyNested
  /-- More text follows a complete expression. -/
  | trailingContent
  /-- A form that begins with `#` and that the reader does not know. -/
  | unsupported
  /-- A number that has no representation. -/
  | outOfRange
  deriving DecidableEq, Repr

/-- A fault in source text. -/
structure ParseError where
  kind : ParseErrorKind
  /-- The fault in words. -/
  text : String
  /-- The character or token at the fault. -/
  found : Option String := none
  /-- The text around the fault. -/
  context : Option String := none
  deriving DecidableEq, Repr

namespace ParseError

/-- Most characters that a window shows. -/
def windowSize : Nat := 100

/-- Characters that a window shows before the fault. -/
def windowLead : Nat := 20

/-- The mark for text that a window leaves out. -/
def windowMark : List Char := ['[', '.', '.', '.', ']']

/-- Line ends inside a window would break a report of one line. -/
def onOneLine (cs : List Char) : List Char :=
  cs.flatMap fun c => if c = '\n' then ['\\', 'n'] else if c = '\r' then [] else [c]

/-- The part of `input` around `offset`, with a mark at each end where text is left out. -/
def window (input : List Char) (offset : Nat) : List Char :=
  let start := offset - windowLead
  let shown := (input.drop start).take windowSize
  onOneLine ((if 0 < start then windowMark else []) ++ shown ++
    (if start + shown.length < input.length then windowMark else []))

/-- An error with the text around `offset`. -/
def withContext (kind : ParseErrorKind) (text : String) (input : List Char) (offset : Nat)
    (found : Option String) : ParseError :=
  { kind, text, found, context := some (String.ofList (window input offset)) }

/-- The whole report: the fault, then what was found and the text around it, a line each. -/
def message (e : ParseError) : String :=
  "ParseError: " ++ e.text ++
    (match e.found with
      | some found => "\nFound: " ++ found
      | none => "") ++
    (match e.context with
      | some context => "\nContext: " ++ context
      | none => "")

end ParseError

end CurryLisp
