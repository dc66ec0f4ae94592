import CurryLisp.Decimal.Layout
import CurryLisp.Text.Quoted

/-!
# Source data

A `Datum` is an expression as it stands in source text: an atom, a quoted datum or a chain of pairs.
Nothing in it is shared or mutable. `Datum.write` spells a datum as source text and `Datum.print`
spells it for the reader of a program's output, where strings and characters stand for themselves.

Both spellings stop at a nesting of `maxNesting`, deeper than any datum that was read.
-/

namespace CurryLisp

/-- How a string or a character is spelled: with its quotes, or bare. -/
inductive Spelling where
  | written
  | printed
  deriving DecidableEq, Repr

namespace Spelling

/-- A character in this spelling. -/
def char : Spelling → Char → String
  | .written, c => Text.charLiteral c
  | .printed, c => c.toString

/-- A string in this spelling. -/
def string : Spelling → String → String
  | .written, text => Text.stringLiteral text
  | .printed, text => text

/-- Nesting that is still spelled out. -/
def maxNesting : Nat := 512

/-- What stands for anything nested more deeply. -/
def ellipsis : String := "..."

/-- A chain of pairs: its items, and what stands in the place of the final `nil`. -/
def chain (items : List String) (tail : Option String) : String :=
  "(" ++ " ".intercalate items ++
    (match tail with
      | some last => " . " ++ last
      | none => "") ++ ")"

end Spelling

/-- An expression as it stands in source text. `nil` is also the empty list and the value false. -/
inductive Datum where
  | nil
  | truth
  | integer (n : Int64)
  | float (x : Float)
  | char (c : Char)
  | string (text : String)
  | symbol (name : String)
  /-- A reference to a type by its name, colon included. -/
  | type (name : String)
  | quoted (inner : Datum)
  | pair (car cdr : Datum)

namespace Datum

/-! ## Chains of pairs -/

/-- The items of a chain and the datum at its end, if that is not `nil`. -/
def spine : Datum → List Datum × Option Datum
  | nil => ([], none)
  | pair car cdr => (car :: cdr.spine.1, cdr.spine.2)
  | d => ([], some d)

/-- The chain of `items` that ends in `tail`. -/
def chain (items : List Datum) (tail : Datum) : Datum := items.foldr pair tail

/-! ## Spelling -/

/-- The spelling of a datum, `room` levels deep. -/
def spell (spelling : Spelling) : Nat → Datum → String
  | 0, _ => Spelling.ellipsis
  | _ + 1, nil => "nil"
  | _ + 1, truth => "t"
  | _ + 1, integer n => toString n.toInt
  | _ + 1, float x => Decimal.written x
  | _ + 1, char c => spelling.char c
  | _ + 1, string text => spelling.string text
  | _ + 1, symbol name => name
  | _ + 1, type name => name
  | room + 1, quoted inner => Text.apostrophe.toString ++ spell spelling room inner
  | room + 1, pair car cdr =>
    Spelling.chain (spell spelling room car :: cdr.spine.1.map (spell spelling room))
      (cdr.spine.2.map (spell spelling room))

/-- A datum as source text. -/
def write (d : Datum) : String := d.spell .written (Spelling.maxNesting + 1)

/-- A datum as program output. -/
def print (d : Datum) : String := d.spell .printed (Spelling.maxNesting + 1)

end Datum

end CurryLisp
