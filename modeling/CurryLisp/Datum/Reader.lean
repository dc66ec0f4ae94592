import CurryLisp.Datum.Token
import CurryLisp.ParseError

/-!
# Reading source text

The reader is a pushdown machine over lexemes. Each frame of its stack is a list or a quote that is
still open; `Reading.advance` takes one lexeme and either opens a frame, completes a datum or finds a
fault. `Datum.read` accepts exactly one datum, `Datum.readAll` any number of them.

The stack may hold `maxDepth` frames less one. A fault is reported with its offset in bytes; the text
around it is chosen by that same number counted in characters.
-/

namespace CurryLisp

namespace Reading

/-- Nesting at which reading stops. -/
def maxDepth : Nat := 256

/-- An expression that is still open. -/
inductive Frame where
  /-- A list, with its items so far in reverse. -/
  | list (items : List Datum)
  /-- A list behind its point, with its items in reverse. -/
  | tail (items : List Datum)
  /-- A quote. -/
  | quote

/-- What the reader waits for. -/
inductive Pending where
  /-- An expression, inside these frames. -/
  | expression (stack : List Frame)
  /-- The end of a list whose tail is complete, inside these frames. -/
  | closing (items : List Datum) (last : Datum) (stack : List Frame)

/-- The outcome of a lexeme. -/
inductive Progress where
  | more (pending : Pending)
  /-- A datum outside all lists is complete. -/
  | complete (d : Datum)

/-- The list of `items`, which are in reverse, before `tail`. -/
def chainReverse (items : List Datum) (tail : Datum) : Datum :=
  items.foldl (fun tail item => .pair item tail) tail

/-- A complete datum takes its place in the innermost frame; a quote is completed by it. -/
def place (d : Datum) : List Frame → Progress
  | [] => .complete d
  | .quote :: stack => place (.quoted d) stack
  | .list items :: stack => .more (.expression (.list (d :: items) :: stack))
  | .tail items :: stack => .more (.closing items d stack)

/-- Where an expression that is nested too deeply begins: in a list separators have been passed
before the nesting is looked at. -/
def deepStart (unread start : List Char) : List Frame → List Char
  | .list _ :: _ => start
  | _ => unread

/-- An expression begins with this lexeme; `unread` is the text behind the lexeme before it. -/
def beginExpression (unread : List Char) (l : Lexeme) (stack : List Frame) :
    Except Fault Progress :=
  if maxDepth ≤ stack.length then .error ⟨.tooDeep, deepStart unread l.start stack⟩
  else
    match l.token with
    | .open => .ok (.more (.expression (.list [] :: stack)))
    | .quote => .ok (.more (.expression (.quote :: stack)))
    | .atom d => .ok (place d stack)
    | .fault fault => .error fault
    | .close | .point => .error ⟨.misplaced, l.start⟩

/-- Takes one lexeme. -/
def advance (unread : List Char) (l : Lexeme) : Pending → Except Fault Progress
  | .expression (.list items :: stack) =>
    match l.token with
    | .close => .ok (place (chainReverse items .nil) stack)
    | .point =>
      if items.isEmpty then beginExpression unread l (.list items :: stack)
      else .ok (.more (.expression (.tail items :: stack)))
    | _ => beginExpression unread l (.list items :: stack)
  | .expression stack => beginExpression unread l stack
  | .closing items last stack =>
    match l.token with
    | .close => .ok (place (chainReverse items last) stack)
    | _ => .error ⟨.misplaced, l.start⟩

/-- The fault of text that ends while the reader waits. -/
def atEnd (unread : List Char) : Pending → Fault
  | .expression stack =>
    if maxDepth ≤ stack.length then ⟨.tooDeep, deepStart unread [] stack⟩ else ⟨.misplaced, []⟩
  | .closing .. => ⟨.misplaced, []⟩

/-- The first datum, and the lexemes behind it. -/
def first (unread : List Char) : List Lexeme → Pending → Except Fault (Datum × List Lexeme)
  | [], pending => .error (atEnd unread pending)
  | l :: ls, pending =>
    match advance unread l pending with
    | .error fault => .error fault
    | .ok (.complete d) => .ok (d, ls)
    | .ok (.more pending) => first l.rest ls pending

/-- Every datum. The text may end outside all lists only. -/
def each (unread : List Char) : List Lexeme → Pending → Except Fault (List Datum)
  | [], .expression [] => .ok []
  | [], pending => .error (atEnd unread pending)
  | l :: ls, pending =>
    match advance unread l pending with
    | .error fault => .error fault
    | .ok (.complete d) => (each l.rest ls (.expression [])).map (d :: ·)
    | .ok (.more pending) => each l.rest ls pending

end Reading

/-! ## Reports -/

/-- Length of a text in bytes. -/
def byteLength (cs : List Char) : Nat := cs.foldr (fun c length => c.utf8Size + length) 0

/-- The report of a fault in `input`. -/
def Fault.report (input : List Char) (f : Fault) : ParseError :=
  let offset := byteLength input - byteLength f.rest
  let place := toString offset
  let found := f.rest.head?.map Char.toString
  match f.kind with
  | .tooDeep => .withContext .tooDeeplyNested
      ("expression too deeply nested (max depth: " ++ toString Reading.maxDepth ++ ")")
      input offset found
  | .outOfRange => .withContext .outOfRange
      ("integer literal out of range at position " ++ place) input offset found
  | .unknownForm => .withContext .unsupported
      ("unsupported # syntax at position " ++ place) input offset found
  | .unknownEscape => .withContext .invalidText
      ("unknown escape sequence at position " ++ place) input offset found
  | .misplaced =>
    if f.rest.all Text.isBlank then
      .withContext .incomplete "unexpected end of input" input offset found
    else .withContext .invalidText ("invalid syntax at position " ++ place) input offset found

/-- The report of text behind a complete datum. -/
def trailingReport (input rest : List Char) : ParseError :=
  .withContext .trailingContent
    ("unexpected remaining input: '" ++ String.ofList (Text.trimEnd rest) ++ "'")
    input (byteLength input - byteLength rest) (rest.head?.map Char.toString)

namespace Datum

/-- Reads text that holds exactly one datum. -/
def read (text : String) : Except ParseError Datum :=
  let input := text.toList
  match Reading.first input (Token.scanAll input) (.expression []) with
  | .error fault => .error (fault.report input)
  | .ok (d, []) => .ok d
  | .ok (_, l :: _) => .error (trailingReport input l.start)

/-- Reads every datum of a text, in order. -/
def readAll (text : String) : Except ParseError (List Datum) :=
  let input := text.toList
  (Reading.each input (Token.scanAll input) (.expression [])).mapError (·.report input)

end Datum

end CurryLisp
