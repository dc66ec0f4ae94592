import CurryLisp.Datum
import CurryLisp.Decimal.Reading
import CurryLisp.Text.Alphanumeric
import CurryLisp.Text.Blank

/-!
# Tokens of source text

`Token.scanAll` cuts source text into lexemes. Where a token ends depends only on the characters that
follow it, never on the nesting, so the text is cut before any list is built. A token that is
malformed becomes a `fault` that says where in the text it lies; nothing behind it is scanned.

Every token takes at least one character (`scan_rest_le`), which is why scanning ends.
-/

namespace CurryLisp

/-- What is wrong with a piece of source text. -/
inductive FaultKind where
  /-- Lists and quotes are nested too deeply. -/
  | tooDeep
  /-- A number without a representation. -/
  | outOfRange
  /-- An unknown form behind `#`. -/
  | unknownForm
  /-- An unknown letter behind a backslash. -/
  | unknownEscape
  /-- Text, or the end of the text, where it cannot stand. -/
  | misplaced
  deriving DecidableEq, Repr

/-- A fault and the text from it on. -/
structure Fault where
  kind : FaultKind
  rest : List Char
  deriving DecidableEq, Repr

/-- A token of source text. -/
inductive Token where
  | open
  | close
  | quote
  /-- The point before the tail of a list. -/
  | point
  | atom (d : Datum)
  | fault (f : Fault)

/-- A token in its place: the text from its first character on, and the text behind it. -/
structure Lexeme where
  start : List Char
  token : Token
  rest : List Char

namespace Token

/-! ## Separators -/

/-- The text behind white space and comments; a comment runs from `;` to the end of its line. -/
def skipGaps (inComment : Bool) : List Char → List Char
  | [] => []
  | c :: cs =>
    if inComment then skipGaps (c != '\n') cs
    else if Text.isGap c then skipGaps false cs
    else if c = ';' then skipGaps true cs
    else c :: cs

theorem skipGaps_length_le (inComment : Bool) (cs : List Char) :
    (skipGaps inComment cs).length ≤ cs.length := by
  induction cs generalizing inComment with
  | nil => simp [skipGaps]
  | cons c cs ih =>
    unfold skipGaps
    split
    · exact Nat.le_succ_of_le (ih _)
    · split
      · exact Nat.le_succ_of_le (ih _)
      · split
        · exact Nat.le_succ_of_le (ih _)
        · exact Nat.le_refl _

/-! ## Words -/

/-- The characters of symbols that are neither letters nor digits. -/
def symbolMarks : List Char :=
  ['+', '-', '*', '/', '<', '>', '=', '!', '?', '_', '$', '&', '^', '~', '.', '\\']

/-- A character of a symbol. -/
def isSymbolChar (c : Char) : Bool := Text.isAlphanumeric c || symbolMarks.contains c

/-- Whether the text goes on with a character of a symbol. -/
def startsWithSymbolChar : List Char → Bool
  | [] => false
  | c :: _ => isSymbolChar c

/-- Words that are symbols: those that do not look like a number. -/
def isSymbolName : List Char → Bool
  | [] => true
  | [c] => !c.isDigit && c != '.'
  | c :: d :: _ => !c.isDigit && !((c = '+' || c = '-' || c = '.') && d.isDigit)

/-- The datum that a symbol stands for in source text: `t` and `nil` are constants. -/
def ofSymbolName (name : List Char) : Datum :=
  if name = ['t'] then .truth
  else if name = ['n', 'i', 'l'] then .nil
  else .symbol (String.ofList name)

/-! ## Numbers -/

/-- A sign in front of the text, `true` for minus, and the text behind it. -/
def takeSign : List Char → Bool × List Char
  | '+' :: cs => (false, cs)
  | '-' :: cs => (true, cs)
  | cs => (false, cs)

/-- A fraction in front of the text and the text behind it. A point without a digit behind it is not
a fraction. -/
def takeFraction : List Char → Option (List Char × List Char)
  | '.' :: cs =>
    let digits := cs.takeWhile Char.isDigit
    if digits.isEmpty then none else some (digits, cs.dropWhile Char.isDigit)
  | _ => none

/-- An exponent in front of the text and the text behind it. -/
def takeExponent : List Char → Option (Int × List Char)
  | c :: cs =>
    if c = 'e' || c = 'E' then
      let (negative, cs) := takeSign cs
      let digits := cs.takeWhile Char.isDigit
      if digits.isEmpty then none
      else
        let n : Int := Decimal.ofDigits 10 digits
        some (if negative then -n else n, cs.dropWhile Char.isDigit)
    else none
  | [] => none

/-- A number in front of a word: its datum unless it is out of range, and the rest of the word.
Digits alone are an integer; a fraction or an exponent makes it a double. -/
def takeNumber (word : List Char) : Option (Option Datum × List Char) :=
  let (negative, cs) := takeSign word
  let whole := cs.takeWhile Char.isDigit
  if whole.isEmpty then none
  else
    let afterWhole := cs.dropWhile Char.isDigit
    let fraction := takeFraction afterWhole
    let afterFraction := match fraction with
      | some (_, rest) => rest
      | none => afterWhole
    let exponent := takeExponent afterFraction
    let rest := match exponent with
      | some (_, rest) => rest
      | none => afterFraction
    if fraction.isNone && exponent.isNone then
      let n : Int := Decimal.ofDigits 10 whole
      some ((Decimal.int64? (if negative then -n else n)).map Datum.integer, rest)
    else
      let places := (fraction.map (·.1)).getD []
      let digits := (whole ++ places).dropWhile (· = '0')
      let scale := (exponent.map (·.1)).getD 0 - places.length
      let x := Decimal.nearestDouble (Decimal.ofDigits 10 digits) digits.length scale
      some (some (.float (if negative then -x else x)), rest)

/-- The token of a word of symbol characters; `start` is the text from the word on. -/
def ofWord (start word : List Char) : Token :=
  match takeNumber word with
  | some (none, _) => .fault ⟨.outOfRange, start⟩
  | some (some number, []) => .atom number
  | some (some _, _ :: _) => .fault ⟨.misplaced, start⟩
  | none =>
    if word = ['.'] then .point
    else if word != [] && isSymbolName word then .atom (ofSymbolName word)
    else .fault ⟨.misplaced, start⟩

/-! ## Strings and forms behind `#` -/

/-- The rest of a string literal: its characters and the text behind the closing quote. -/
def scanString : List Char → Except Fault (List Char × List Char)
  | [] => .error ⟨.misplaced, []⟩
  | '"' :: cs => .ok ([], cs)
  | ['\\'] => .error ⟨.misplaced, []⟩
  | '\\' :: letter :: cs =>
    match Text.escapedChar letter with
    | some c => (scanString cs).map fun found => (c :: found.1, found.2)
    | none => .error ⟨.unknownEscape, '\\' :: letter :: cs⟩
  | c :: cs => (scanString cs).map fun found => (c :: found.1, found.2)

/-- The inside of a string literal is read back, whatever follows the literal. -/
theorem scanString_escape (cs rest : List Char) :
    scanString (Text.escape cs ++ '"' :: rest) = .ok (cs, rest) := by
  induction cs with
  | nil => rfl
  | cons c cs ih =>
    rw [Text.escape_cons]
    cases h : Text.escapeLetter c with
    | some letter => simp [scanString, Text.escapedChar_escapeLetter h, ih, Except.map]
    | none =>
      have hquote : c ≠ '"' := by rintro rfl; cases h
      have hbackslash : c ≠ '\\' := by rintro rfl; cases h
      simp [scanString, hbackslash, ih, Except.map]

/-- The text behind the name of a character, if the text starts with that name and the name ends
there. -/
def afterCharName (name : String) (cs : List Char) : Option (List Char) :=
  let letters := name.toList
  if letters.isPrefixOf cs && !startsWithSymbolChar (cs.drop letters.length) then
    some (cs.drop letters.length)
  else none

/-- A token if no symbol character follows it, otherwise an unknown form. -/
def delimited (start rest : List Char) (d : Datum) : Token × List Char :=
  if startsWithSymbolChar rest then (.fault ⟨.unknownForm, start⟩, rest) else (.atom d, rest)

/-- A character literal behind `#\`. -/
def scanChar (start cs : List Char) : Token × List Char :=
  match Text.namedChars.findSome? fun entry => (afterCharName entry.1 cs).map (entry.2, ·) with
  | some (c, rest) => (.atom (.char c), rest)
  | none =>
    match cs with
    | [] => (.fault ⟨.misplaced, []⟩, [])
    | c :: rest => delimited start rest (.char c)

/-- A hexadecimal integer behind `#x`. -/
def scanHex (start cs : List Char) : Token × List Char :=
  let digits := cs.takeWhile Decimal.isHexDigit
  let rest := cs.dropWhile Decimal.isHexDigit
  if digits.isEmpty then (.fault ⟨.unknownForm, start⟩, rest)
  else
    match Decimal.int64? (Decimal.ofDigits 16 digits) with
    | some n => delimited start rest (.integer n)
    | none => (.fault ⟨.outOfRange, start⟩, rest)

/-- A form behind `#`. -/
def scanHash (start : List Char) : List Char → Token × List Char
  | [] => (.fault ⟨.unknownForm, start⟩, [])
  | c :: cs =>
    if c = '\\' then scanChar start cs
    else if c = 'x' || c = 'X' then scanHex start cs
    else if c = 't' then delimited start cs .truth
    else if c = 'f' then delimited start cs .nil
    else (.fault ⟨.unknownForm, start⟩, cs)

/-! ## All tokens -/

/-- The token that begins with the character `c`, and the text behind it. -/
def scan (c : Char) (cs : List Char) : Token × List Char :=
  if c = '(' then (.open, cs)
  else if c = ')' then (.close, cs)
  else if c = Text.apostrophe then (.quote, cs)
  else if c = '#' then scanHash (c :: cs) cs
  else if c = '"' then
    match scanString cs with
    | .ok (text, rest) => (.atom (.string (String.ofList text)), rest)
    | .error f => (.fault f, [])
  else if c = ':' then
    let name := cs.takeWhile isSymbolChar
    if name.isEmpty then (.fault ⟨.misplaced, c :: cs⟩, cs)
    else (.atom (.type (String.ofList (c :: name))), cs.dropWhile isSymbolChar)
  else if isSymbolChar c then
    (ofWord (c :: cs) (c :: cs.takeWhile isSymbolChar), cs.dropWhile isSymbolChar)
  else (.fault ⟨.misplaced, c :: cs⟩, cs)

theorem dropWhile_length_le (p : Char → Bool) (cs : List Char) :
    (cs.dropWhile p).length ≤ cs.length :=
  (List.dropWhile_suffix p).length_le

/-- A mapped result is the image of a result. -/
theorem exists_of_map_eq_ok {ε α β : Type} {f : α → β} {x : Except ε α} {y : β}
    (h : x.map f = .ok y) : ∃ z, x = .ok z ∧ f z = y := by
  cases x with
  | error e => cases h
  | ok z => exact ⟨z, rfl, by cases h; rfl⟩

theorem scanString_rest_le {cs : List Char} {found : List Char × List Char}
    (h : scanString cs = .ok found) : found.2.length ≤ cs.length := by
  fun_induction scanString cs generalizing found with
  | case1 => cases h
  | case2 => cases h; exact Nat.le_succ _
  | case3 => cases h
  | case4 _ _ _ _ ih =>
    obtain ⟨z, hz, rfl⟩ := exists_of_map_eq_ok h
    exact Nat.le_succ_of_le (Nat.le_succ_of_le (@ih z hz))
  | case5 => cases h
  | case6 _ _ _ _ _ ih =>
    obtain ⟨z, hz, rfl⟩ := exists_of_map_eq_ok h
    exact Nat.le_succ_of_le (@ih z hz)

theorem delimited_rest (start rest : List Char) (d : Datum) :
    (delimited start rest d).2 = rest := by
  unfold delimited
  split <;> rfl

theorem afterCharName_length_le {name : String} {cs rest : List Char}
    (h : afterCharName name cs = some rest) : rest.length ≤ cs.length := by
  simp only [afterCharName] at h
  split at h
  · cases h; simp
  · cases h

theorem scanChar_rest_le (start cs : List Char) : (scanChar start cs).2.length ≤ cs.length := by
  unfold scanChar
  split
  · next c rest h =>
    obtain ⟨entry, _, hentry⟩ := List.exists_of_findSome?_eq_some h
    obtain ⟨found, hfound, heq⟩ := Option.map_eq_some_iff.1 hentry
    cases heq
    exact afterCharName_length_le hfound
  · split
    · simp
    · simp [delimited_rest]

theorem scanHex_rest_le (start cs : List Char) : (scanHex start cs).2.length ≤ cs.length := by
  have hdrop := dropWhile_length_le Decimal.isHexDigit cs
  unfold scanHex
  dsimp only
  split
  · exact hdrop
  · split
    · rw [delimited_rest]; exact hdrop
    · exact hdrop

theorem scanHash_rest_le (start cs : List Char) : (scanHash start cs).2.length ≤ cs.length := by
  cases cs with
  | nil => exact Nat.le_refl _
  | cons c cs =>
    have hchar := scanChar_rest_le start cs
    have hhex := scanHex_rest_le start cs
    have hlen : cs.length ≤ (c :: cs).length := Nat.le_succ _
    rw [scanHash]
    split
    · exact Nat.le_trans hchar hlen
    · split
      · exact Nat.le_trans hhex hlen
      · split
        · rw [delimited_rest]; exact hlen
        · split
          · rw [delimited_rest]; exact hlen
          · exact hlen

/-- A token takes at least its first character. -/
theorem scan_rest_le (c : Char) (cs : List Char) : (scan c cs).2.length ≤ cs.length := by
  have hhash := scanHash_rest_le (c :: cs) cs
  have hdrop := dropWhile_length_le isSymbolChar cs
  unfold scan
  split
  · exact Nat.le_refl _
  · split
    · exact Nat.le_refl _
    · split
      · exact Nat.le_refl _
      · split
        · exact hhash
        · split
          · split
            · next h => exact scanString_rest_le h
            · exact Nat.zero_le _
          · split
            · dsimp only
              split
              · exact Nat.le_refl _
              · exact hdrop
            · split
              · exact hdrop
              · exact Nat.le_refl _

/-- Whether scanning ends at this token. -/
def isFault : Token → Bool
  | fault _ => true
  | _ => false

/-- The lexemes of source text, up to the first fault. -/
def scanAll (cs : List Char) : List Lexeme :=
  match _hskipped : skipGaps false cs with
  | [] => []
  | c :: tail =>
    let found := scan c tail
    ⟨c :: tail, found.1, found.2⟩ :: (if found.1.isFault then [] else scanAll found.2)
termination_by cs.length
decreasing_by
  have hskip := skipGaps_length_le false cs
  have hscan := scan_rest_le c tail
  rw [_hskipped, List.length_cons] at hskip
  omega

end Token

end CurryLisp
