import CurryLisp.Text.Hidden

/-!
# Quoted text

How a character or a string is spelled in source text (`charLiteral`, `stringLiteral`) and how it is
shown for inspection (`charDebug`, `stringDebug`), where hidden characters are escaped by their code.
-/

namespace CurryLisp.Text

/-! ## Literals of the language -/

/-- The characters that are written by name. -/
def namedChars : List (String × Char) := [("space", ' '), ("newline", '\n'), ("tab", '\t')]

/-- A character as it is written in source text: `#\a`, `#\space`. -/
def charLiteral (c : Char) : String :=
  match namedChars.find? fun entry => entry.2 = c with
  | some entry => "#\\" ++ entry.1
  | none => "#\\" ++ c.toString

/-- The letter that follows the backslash where `c` is escaped in a string literal. -/
def escapeLetter (c : Char) : Option Char :=
  if c = '"' then some '"'
  else if c = '\\' then some '\\'
  else if c = '\n' then some 'n'
  else if c = '\t' then some 't'
  else if c = '\r' then some 'r'
  else none

/-- The character that an escape letter stands for. -/
def escapedChar (letter : Char) : Option Char :=
  if letter = 'n' then some '\n'
  else if letter = 't' then some '\t'
  else if letter = 'r' then some '\r'
  else if letter = '\\' then some '\\'
  else if letter = '"' then some '"'
  else none

/-- Every escape that is written is read back. -/
theorem escapedChar_escapeLetter {c letter : Char} (h : escapeLetter c = some letter) :
    escapedChar letter = some c := by
  unfold escapeLetter at h
  repeat' split at h
  all_goals first | (cases h; subst_vars; decide) | cases h

/-- The inside of a string literal. -/
def escape (cs : List Char) : List Char :=
  cs.flatMap fun c => match escapeLetter c with
    | some letter => ['\\', letter]
    | none => [c]

theorem escape_cons (c : Char) (cs : List Char) :
    escape (c :: cs) = (match escapeLetter c with
      | some letter => ['\\', letter]
      | none => [c]) ++ escape cs := rfl

/-- A string as it is written in source text. -/
def stringLiteral (text : String) : String :=
  "\"" ++ String.ofList (escape text.toList) ++ "\""

/-! ## Text shown for inspection -/

/-- Lower-case hexadecimal digits of `n`. -/
def hexDigits (n : Nat) : String := String.ofList (Nat.toDigits 16 n)

/-- A character inside `quote`s: the quote and the backslash are escaped, hidden characters are
spelled by a letter or by their code. Every other character stands for itself. -/
def debugEscape (quote c : Char) : String :=
  if c = quote || c = '\\' then "\\" ++ c.toString
  else if c = '\t' then "\\t"
  else if c = '\r' then "\\r"
  else if c = '\n' then "\\n"
  else if c.toNat = 0 then "\\0"
  else if isHidden c then "\\u\x7b" ++ hexDigits c.toNat ++ "\x7d"
  else c.toString

/-- The mark that encloses a single character. -/
def apostrophe : Char := Char.ofNat 0x27

/-- A character between apostrophes. -/
def charDebug (c : Char) : String :=
  apostrophe.toString ++ debugEscape apostrophe c ++ apostrophe.toString

/-- A string between quotation marks. -/
def stringDebug (text : String) : String :=
  "\"" ++ String.join (text.toList.map (debugEscape '"')) ++ "\""

/-- A list of strings, each between quotation marks. -/
def stringListDebug (texts : List String) : String :=
  "[" ++ ", ".intercalate (texts.map stringDebug) ++ "]"

end CurryLisp.Text
