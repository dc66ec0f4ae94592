import CurryLisp.Datum.Reader
import Mathlib

/-!
# Scanning what was written

Each atom is written as one token: scanning its text gives that token back and leaves alone whatever
follows, as long as that does not go on with a character of a symbol.

Statements:

* `Decimal.written_eq`: the text of a finite double is an optional minus, digits, a point and digits.
* `Scans`: a text is scanned to these tokens in front of a rest.
* `scans_word`, `scans_integer`, `scans_double`, `scans_char`, `scans_string`, `scans_type`: what atoms
  are scanned to.
-/

namespace CurryLisp

/-! ## Characters -/

namespace Token

/-- Characters of symbols differ from all other characters. -/
theorem ne_of_isSymbolChar {c d : Char} (hc : isSymbolChar c = true) (hd : isSymbolChar d = false) :
    c ≠ d := by
  rintro rfl
  rw [hc] at hd
  cases hd

theorem isGap_of_isSymbolChar {c : Char} (hc : isSymbolChar c = true) : Text.isGap c = false := by
  have hspace := ne_of_isSymbolChar hc (d := ' ') (by decide)
  have htab := ne_of_isSymbolChar hc (d := '\t') (by decide)
  have hline := ne_of_isSymbolChar hc (d := '\n') (by decide)
  have hreturn := ne_of_isSymbolChar hc (d := '\r') (by decide)
  simp [Text.isGap, hspace, htab, hline, hreturn]

theorem isSymbolChar_of_isDigit {c : Char} (hc : c.isDigit = true) : isSymbolChar c = true := by
  have hlt : c.toNat < 0x80 := by
    simp only [Char.isDigit, Bool.and_eq_true, decide_eq_true_eq] at hc
    have := hc.2
    have : c.val.toNat ≤ 57 := this
    show c.val.toNat < 128
    omega
  have halnum : c.isAlphanum = true := by simp [Char.isAlphanum, hc]
  rw [isSymbolChar, Text.isAlphanumeric_eq_isAlphanum hlt, halnum, Bool.true_or]

/-! ## Words -/

/-- A word ends where no character of a symbol follows. -/
theorem takeWhile_word {word rest : List Char} (hword : word.all isSymbolChar = true)
    (hrest : startsWithSymbolChar rest = false) :
    (word ++ rest).takeWhile isSymbolChar = word ∧
      (word ++ rest).dropWhile isSymbolChar = rest := by
  rw [List.all_eq_true] at hword
  rw [List.takeWhile_append_of_pos hword, List.dropWhile_append_of_pos hword]
  cases rest with
  | nil => simp
  | cons c cs =>
    have hc : ¬ isSymbolChar c = true := by
      rw [show isSymbolChar c = false from hrest]
      exact Bool.false_ne_true
    simp [hc]

/-- Digits end where another character follows. -/
theorem takeWhile_digits {digits : List Char} (hdigits : ∀ c ∈ digits, c.isDigit = true)
    (rest : List Char) (hrest : ∀ c ∈ rest.head?, c.isDigit = false) :
    (digits ++ rest).takeWhile Char.isDigit = digits ∧
      (digits ++ rest).dropWhile Char.isDigit = rest := by
  rw [List.takeWhile_append_of_pos hdigits, List.dropWhile_append_of_pos hdigits]
  cases rest with
  | nil => simp
  | cons c cs => simp [hrest c rfl]

/-- A word of symbol characters is scanned as a whole. -/
theorem scan_word {c : Char} {cs rest : List Char} (hword : (c :: cs).all isSymbolChar = true)
    (hrest : startsWithSymbolChar rest = false) :
    scan c (cs ++ rest) = (ofWord (c :: cs ++ rest) (c :: cs), rest) := by
  rw [List.all_cons, Bool.and_eq_true] at hword
  obtain ⟨hc, hcs⟩ := hword
  obtain ⟨htake, hdrop⟩ := takeWhile_word hcs hrest
  have hopen := ne_of_isSymbolChar hc (d := '(') (by decide)
  have hclose := ne_of_isSymbolChar hc (d := ')') (by decide)
  have hquote := ne_of_isSymbolChar hc (d := Text.apostrophe) (by decide)
  have hhash := ne_of_isSymbolChar hc (d := '#') (by decide)
  have hstring := ne_of_isSymbolChar hc (d := '"') (by decide)
  have hcolon := ne_of_isSymbolChar hc (d := ':') (by decide)
  rw [scan, if_neg hopen, if_neg hclose, if_neg hquote, if_neg hhash, if_neg hstring,
    if_neg hcolon, if_pos hc, htake, hdrop, List.cons_append]

end Token

/-! ## Numbers -/

namespace Decimal

theorem foldl_digits {digits : List Char} (h : ∀ c ∈ digits, c.isDigit = true) (n : Nat) :
    digits.foldl (fun n c => n * 10 + digitValue c) n = Nat.ofDigitChars 10 digits n := by
  induction digits generalizing n with
  | nil => rfl
  | cons c cs ih =>
    have hc : digitValue c = c.toNat - '0'.toNat := by
      rw [digitValue, if_pos (h c (List.mem_cons_self ..))]
    rw [List.foldl_cons, ih (fun d hd => h d (List.mem_cons_of_mem _ hd)), hc,
      Nat.ofDigitChars_cons, Nat.mul_comm]

theorem isDigit_of_mem_toDigits {n : Nat} {c : Char} (h : c ∈ Nat.toDigits 10 n) :
    c.isDigit = true :=
  Nat.isDigit_of_mem_toDigits (by decide) (by decide) h

/-- Digits are read from left to right. -/
theorem ofDigits_append {cs ds : List Char} (hds : ∀ c ∈ ds, c.isDigit = true) :
    ofDigits 10 (cs ++ ds) = Nat.ofDigitChars 10 ds (ofDigits 10 cs) := by
  rw [ofDigits, List.foldl_append, foldl_digits hds]
  rfl

/-- The digits of a number are read as the number. -/
theorem ofDigits_toDigits (n : Nat) : ofDigits 10 (Nat.toDigits 10 n) = n := by
  rw [ofDigits, foldl_digits fun c => isDigit_of_mem_toDigits, Nat.ofDigitChars_ten_toDigits]

/-- Every 64-bit integer is in range. -/
theorem int64?_toInt (n : Int64) : int64? n.toInt = some n := by
  rw [int64?, if_pos ⟨n.minValue_le_toInt, n.toInt_le⟩, Int64.ofInt_toInt]

/-- The sign in front of a number's text. -/
def minus (negative : Bool) : List Char := if negative then ['-'] else []

/-- At least one character, and digits only. -/
structure AreDigits (cs : List Char) : Prop where
  ne_nil : cs ≠ []
  isDigit : ∀ c ∈ cs, c.isDigit = true

theorem AreDigits.toDigits (n : Nat) : AreDigits (Nat.toDigits 10 n) :=
  ⟨Nat.toDigits_ne_nil, fun _ => isDigit_of_mem_toDigits⟩

theorem AreDigits.zero : AreDigits ['0'] := ⟨by simp, by simp⟩

/-- The text of an integer is an optional minus and digits. -/
theorem toList_toString_int (n : Int) :
    (toString n).toList = minus (n < 0) ++ Nat.toDigits 10 n.natAbs := by
  cases n with
  | ofNat m => simp [minus, toString, Int.repr]
  | negSucc m =>
    have hneg : Int.negSucc m < 0 := Int.negSucc_lt_zero m
    simp [minus, hneg, toString, Int.repr]

theorem isDigit_of_mem_zeros {n : Nat} {c : Char} (h : c ∈ (zeros n).toList) :
    c.isDigit = true := by
  rw [zeros, String.toList_ofList] at h
  rw [List.eq_of_mem_replicate h]
  decide

theorem ofDigits_append_zeros (cs : List Char) (n : Nat) :
    ofDigits 10 (cs ++ (zeros n).toList) = 10 ^ n * ofDigits 10 cs := by
  rw [ofDigits_append fun c => isDigit_of_mem_zeros, zeros, String.toList_ofList,
    Nat.ofDigitChars_replicate_zero]

theorem ofDigits_zeros_append {ds : List Char} (hds : ∀ c ∈ ds, c.isDigit = true) (n : Nat) :
    ofDigits 10 ((zeros n).toList ++ ds) = ofDigits 10 ds := by
  have hzeros := ofDigits_append_zeros [] n
  rw [List.nil_append] at hzeros
  have hempty : ofDigits 10 [] = 0 := rfl
  rw [ofDigits_append hds, hzeros, hempty, Nat.mul_zero, ofDigits, foldl_digits hds]

section AreDigits

variable {cs : List Char} (h : AreDigits cs)
include h

theorem AreDigits.append_zeros (n : Nat) : AreDigits (cs ++ (zeros n).toList) := by
  refine ⟨by simp [h.ne_nil], fun c hc => ?_⟩
  rcases List.mem_append.1 hc with hc | hc
  · exact h.isDigit c hc
  · exact isDigit_of_mem_zeros hc

theorem AreDigits.zeros_append (n : Nat) : AreDigits ((zeros n).toList ++ cs) := by
  refine ⟨by simp [h.ne_nil], fun c hc => ?_⟩
  rcases List.mem_append.1 hc with hc | hc
  · exact isDigit_of_mem_zeros hc
  · exact h.isDigit c hc

theorem AreDigits.take {n : Nat} (hn : 0 < n) : AreDigits (cs.take n) where
  ne_nil := by simp [h.ne_nil, Nat.ne_of_gt hn]
  isDigit := fun c hc => h.isDigit c (List.mem_of_mem_take hc)

theorem AreDigits.drop {n : Nat} (hn : n < cs.length) : AreDigits (cs.drop n) where
  ne_nil := by simpa using hn
  isDigit := fun c hc => h.isDigit c (List.mem_of_mem_drop hc)

end AreDigits

/-- The positional text of digits has a point between digits, which read as the number that is
written. -/
theorem positional_eq (d : Digits) :
    ∃ whole places, (positional d).toList = whole ++ '.' :: places ∧
      AreDigits whole ∧ AreDigits places ∧
      ofDigits 10 (whole ++ places) * 10 ^ (-d.exponent).toNat =
        d.value * 10 ^ (d.exponent.toNat + places.length) := by
  have hdigits := AreDigits.toDigits d.value
  have hvalue := ofDigits_toDigits d.value
  unfold positional
  generalize Nat.toDigits 10 d.value = digits at hdigits hvalue
  have hlength : 0 < digits.length := List.length_pos_iff.2 hdigits.ne_nil
  dsimp only
  split
  · next hexponent =>
    -- Zeros are appended to the digits.
    have hzero : ['0'] = (zeros 1).toList := by decide
    have hnone : (-d.exponent).toNat = 0 := by omega
    refine ⟨digits ++ (zeros d.exponent.toNat).toList, ['0'], by simp, hdigits.append_zeros _,
      AreDigits.zero, ?_⟩
    rw [hzero, ofDigits_append_zeros, ofDigits_append_zeros, hvalue, hnone, Nat.pow_zero,
      Nat.mul_one, ← Nat.mul_assoc, ← Nat.pow_add, Nat.mul_comm, Nat.add_comm 1]
    rfl
  · next hexponent =>
    have hplaces : 0 < (-d.exponent).toNat := by omega
    have hnone : d.exponent.toNat = 0 := by omega
    generalize (-d.exponent).toNat = n at hplaces
    rw [hnone]
    split
    · next hn =>
      -- The point stands between the digits.
      refine ⟨digits.take (digits.length - n), digits.drop (digits.length - n), by simp,
        hdigits.take (by omega), hdigits.drop (by omega), ?_⟩
      rw [List.take_append_drop, hvalue, List.length_drop]
      congr 2
      omega
    · -- Zeros are written in front of the digits.
      have hzeros : ['0'] ++ ((zeros (n - digits.length)).toList ++ digits) =
          (zeros (1 + (n - digits.length))).toList ++ digits := by
        simp [zeros, Nat.add_comm 1, List.replicate_succ]
      refine ⟨['0'], (zeros (n - digits.length)).toList ++ digits, by simp, AreDigits.zero,
        hdigits.zeros_append _, ?_⟩
      have hcount : n = 0 + ((zeros (n - digits.length)).toList ++ digits).length := by
        simp [zeros]
        omega
      rw [hzeros, ofDigits_zeros_append hdigits.isDigit, hvalue, ← hcount]

/-- **The text of a finite double is an optional minus, digits, a point and digits.** -/
theorem written_eq {x : Float} (hx : x.isFinite = true) :
    ∃ negative whole places, (written x).toList = minus negative ++ (whole ++ '.' :: places) ∧
      AreDigits whole ∧ AreDigits places := by
  have hsign : (sign (Binary.ofFloat x)).toList = minus (Binary.ofFloat x).negative := by
    unfold sign minus
    split <;> rfl
  refine ⟨(Binary.ofFloat x).negative, ?_⟩
  unfold written
  rw [if_pos hx]
  dsimp only
  split
  · refine ⟨Nat.toDigits 10 (Binary.ofFloat x).wholePart, ['0'], ?_, AreDigits.toDigits _,
      AreDigits.zero⟩
    simp [hsign]
  · obtain ⟨whole, places, heq, hwhole, hplaces, -⟩ :=
      positional_eq (Digits.shortest (Binary.ofFloat x))
    exact ⟨whole, places, by rw [String.toList_append, hsign, heq], hwhole, hplaces⟩

/-- The double that digits around a point are read as. -/
def ofPlaces (whole places : List Char) : Float :=
  let digits := (whole ++ places).dropWhile (· = '0')
  nearestDouble (ofDigits 10 digits) digits.length (-places.length)

end Decimal

namespace Token

open Decimal (minus AreDigits)

theorem takeSign_minus_append {digits : List Char} (hdigits : AreDigits digits) (negative : Bool)
    (rest : List Char) :
    takeSign (minus negative ++ (digits ++ rest)) = (negative, digits ++ rest) := by
  cases negative with
  | true => rfl
  | false =>
    cases digits with
    | nil => exact absurd rfl hdigits.ne_nil
    | cons c cs =>
      have hc := hdigits.isDigit c (List.mem_cons_self ..)
      have hplus : c ≠ '+' := by
        rintro rfl
        cases hc
      have hminus : c ≠ '-' := by
        rintro rfl
        cases hc
      simp [minus, takeSign, hplus, hminus]

/-- Digits with an optional minus are read as the integer they spell. -/
theorem takeNumber_integer (n : Int64) :
    takeNumber (toString n.toInt).toList = some (some (.integer n), []) := by
  have hdigits := AreDigits.toDigits n.toInt.natAbs
  have hsign := takeSign_minus_append hdigits (n.toInt < 0) []
  obtain ⟨htake, hdrop⟩ := takeWhile_digits hdigits.isDigit [] (by simp)
  have hvalue : (if n.toInt < 0 then -(n.toInt.natAbs : Int) else n.toInt.natAbs) = n.toInt := by
    split
    · omega
    · omega
  rw [List.append_nil] at hsign htake hdrop
  have hempty := List.isEmpty_eq_false_iff.2 hdigits.ne_nil
  rw [takeNumber, Decimal.toList_toString_int, hsign]
  simp only [htake, hdrop, hempty, takeFraction, takeExponent, Option.isNone_none, Bool.and_self,
    if_true, Bool.false_eq_true, if_false, Decimal.ofDigits_toDigits, decide_eq_true_eq, hvalue,
    Decimal.int64?_toInt, Option.map_some]

/-- Digits around a point, with an optional minus, are read as the nearest double. -/
theorem takeNumber_decimal {whole places : List Char} (hwhole : AreDigits whole)
    (hplaces : AreDigits places) (negative : Bool) :
    takeNumber (minus negative ++ (whole ++ '.' :: places)) =
      some (some (.float (if negative then -Decimal.ofPlaces whole places
        else Decimal.ofPlaces whole places)), []) := by
  have hsign := takeSign_minus_append hwhole negative ('.' :: places)
  obtain ⟨htake, hdrop⟩ := takeWhile_digits hwhole.isDigit ('.' :: places) (by simp)
  obtain ⟨htake', hdrop'⟩ := takeWhile_digits hplaces.isDigit [] (by simp)
  rw [List.append_nil] at htake' hdrop'
  rw [takeNumber, hsign]
  simp only [htake, hdrop]
  simp [hwhole.ne_nil, hplaces.ne_nil, takeFraction, takeExponent, htake', hdrop',
    Decimal.ofPlaces]

end Token

/-- The double that the text of a finite double is read as. -/
def Decimal.readBack (x : Float) : Float :=
  match Token.takeNumber (Decimal.written x).toList with
  | some (some (.float y), _) => y
  | _ => x

theorem Token.takeNumber_written {x : Float} (hx : x.isFinite = true) :
    takeNumber (Decimal.written x).toList = some (some (.float (Decimal.readBack x)), []) := by
  obtain ⟨negative, whole, places, heq, hwhole, hplaces⟩ := Decimal.written_eq hx
  have hy := takeNumber_decimal hwhole hplaces negative
  rw [← heq] at hy
  rw [Decimal.readBack, hy]

namespace Token

/-! ## Scanning -/

/-- In front of `rest` the text is scanned to these tokens, and scanning goes on with `rest`. -/
def Scans (text : List Char) (tokens : List Token) (rest : List Char) : Prop :=
  ∃ lexemes, scanAll (text ++ rest) = lexemes ++ scanAll rest ∧ lexemes.map (·.token) = tokens

theorem Scans.nil (rest : List Char) : Scans [] [] rest := ⟨[], rfl, rfl⟩

theorem Scans.append {text text' : List Char} {tokens tokens' : List Token} {rest : List Char}
    (h : Scans text tokens (text' ++ rest)) (h' : Scans text' tokens' rest) :
    Scans (text ++ text') (tokens ++ tokens') rest := by
  obtain ⟨lexemes, hscan, htokens⟩ := h
  obtain ⟨lexemes', hscan', htokens'⟩ := h'
  refine ⟨lexemes ++ lexemes', ?_, ?_⟩
  · rw [List.append_assoc, hscan, hscan', List.append_assoc]
  · rw [List.map_append, htokens, htokens']

/-- A token without a gap in front of it. -/
theorem Scans.single {c : Char} {cs rest : List Char} {token : Token}
    (hgap : Text.isGap c = false) (hcomment : c ≠ ';') (hscan : scan c (cs ++ rest) = (token, rest))
    (hfault : token.isFault = false) : Scans (c :: cs) [token] rest := by
  have hskip : skipGaps false (c :: cs ++ rest) = c :: (cs ++ rest) := by
    simp [skipGaps, hgap, hcomment]
  refine ⟨[⟨c :: (cs ++ rest), token, rest⟩], ?_, rfl⟩
  rw [scanAll.eq_def]
  split
  · next h =>
    rw [hskip] at h
    cases h
  · next c' tail h =>
    rw [hskip] at h
    cases h
    simp [hscan, hfault]

/-- A space between tokens is passed over. -/
theorem Scans.space (rest : List Char) : Scans [' '] [] rest := by
  refine ⟨[], ?_, rfl⟩
  have hskip : skipGaps false ([' '] ++ rest) = skipGaps false rest := rfl
  rw [scanAll.eq_def, scanAll.eq_def rest, hskip, List.nil_append]

/-- A word is scanned as one token. -/
theorem Scans.word {c : Char} {cs rest : List Char} {token : Token}
    (hword : (c :: cs).all isSymbolChar = true) (hrest : startsWithSymbolChar rest = false)
    (htoken : ∀ start, ofWord start (c :: cs) = token) (hfault : token.isFault = false) :
    Scans (c :: cs) [token] rest := by
  have hc := List.all_eq_true.1 hword c (List.mem_cons_self ..)
  refine Scans.single (isGap_of_isSymbolChar hc) (ne_of_isSymbolChar hc (by decide)) ?_ hfault
  rw [scan_word hword hrest, htoken]

/-! ### Atoms -/

/-- A name that is read as a symbol, and not as the constants `t` or `nil`. -/
def isSymbol (name : String) : Bool :=
  !name.toList.isEmpty && name.toList.all isSymbolChar && isSymbolName name.toList &&
    name != "t" && name != "nil"

/-- Without a digit in front there is no number. -/
theorem takeNumber_of_head {word : List Char}
    (h : ∀ c ∈ (takeSign word).2.head?, c.isDigit = false) : takeNumber word = none := by
  have hwhole : (takeSign word).2.takeWhile Char.isDigit = [] := by
    cases hcs : (takeSign word).2 with
    | nil => rfl
    | cons c cs =>
      rw [hcs] at h
      simp [h c rfl]
  rw [takeNumber]
  simp [hwhole]

/-- No name of a symbol begins like a number. -/
theorem takeNumber_symbol {word : List Char} (h : isSymbolName word = true) :
    takeNumber word = none := by
  refine takeNumber_of_head fun d hd => ?_
  unfold takeSign at hd
  split at hd
  · next cs =>
    cases cs with
    | nil => cases hd
    | cons e cs =>
      cases hd
      simpa [isSymbolName] using h
  · next cs =>
    cases cs with
    | nil => cases hd
    | cons e cs =>
      cases hd
      simpa [isSymbolName] using h
  · cases word with
    | nil => cases hd
    | cons c cs =>
      cases hd
      cases cs with
      | nil =>
        simp only [isSymbolName, Bool.and_eq_true, Bool.not_eq_true'] at h
        exact h.1
      | cons e cs =>
        simp only [isSymbolName, Bool.and_eq_true, Bool.not_eq_true'] at h
        exact h.1

theorem scans_symbol {name : String} (hname : isSymbol name = true) {rest : List Char}
    (hrest : startsWithSymbolChar rest = false) :
    Scans name.toList [.atom (.symbol name)] rest := by
  simp only [isSymbol, Bool.and_eq_true, bne_iff_ne, ne_eq, Bool.not_eq_true',
    List.isEmpty_eq_false_iff] at hname
  obtain ⟨⟨⟨⟨hne, hchars⟩, hsymbol⟩, htruth⟩, hnil⟩ := hname
  have htruth' : name.toList ≠ ['t'] := fun h => htruth (String.toList_inj.1 h)
  have hnil' : name.toList ≠ ['n', 'i', 'l'] := fun h => hnil (String.toList_inj.1 h)
  have htoken : ∀ start, ofWord start name.toList = .atom (.symbol name) := by
    intro start
    have hpoint : name.toList ≠ ['.'] := by
      intro h
      rw [h] at hsymbol
      cases hsymbol
    rw [ofWord, takeNumber_symbol hsymbol]
    simp [hpoint, hne, hsymbol, ofSymbolName, htruth', hnil']
  cases hcs : name.toList with
  | nil => exact absurd hcs hne
  | cons c cs =>
    rw [hcs] at hchars htoken
    exact Scans.word hchars hrest htoken rfl

/-- A number of symbol characters is scanned as one token. -/
theorem scans_number {word : List Char} {d : Datum} (hword : ∀ c ∈ word, isSymbolChar c = true)
    (hnumber : takeNumber word = some (some d, [])) {rest : List Char}
    (hrest : startsWithSymbolChar rest = false) : Scans word [.atom d] rest := by
  cases word with
  | nil => cases hnumber
  | cons c cs =>
    refine Scans.word (List.all_eq_true.2 hword) hrest (fun start => ?_) rfl
    rw [ofWord, hnumber]

theorem isSymbolChar_of_mem_minus {negative : Bool} {c : Char}
    (hc : c ∈ Decimal.minus negative) :
    isSymbolChar c = true := by
  cases negative with
  | true =>
    rw [List.mem_singleton.1 hc]
    decide
  | false => cases hc

theorem scans_integer (n : Int64) {rest : List Char} (hrest : startsWithSymbolChar rest = false) :
    Scans (toString n.toInt).toList [.atom (.integer n)] rest := by
  refine scans_number (fun c hc => ?_) (takeNumber_integer n) hrest
  rw [Decimal.toList_toString_int] at hc
  rcases List.mem_append.1 hc with hc | hc
  · exact isSymbolChar_of_mem_minus hc
  · exact isSymbolChar_of_isDigit (Decimal.isDigit_of_mem_toDigits hc)

/-- A finite double is scanned to the double that its text is read as. -/
theorem scans_double {x : Float} (hx : x.isFinite = true) {rest : List Char}
    (hrest : startsWithSymbolChar rest = false) :
    Scans (Decimal.written x).toList [.atom (.float (Decimal.readBack x))] rest := by
  refine scans_number (fun c hc => ?_) (takeNumber_written hx) hrest
  obtain ⟨negative, whole, places, heq, hwhole, hplaces⟩ := Decimal.written_eq hx
  rw [heq] at hc
  rcases List.mem_append.1 hc with hc | hc
  · exact isSymbolChar_of_mem_minus hc
  · rcases List.mem_append.1 hc with hc | hc
    · exact isSymbolChar_of_isDigit (hwhole.isDigit c hc)
    · rcases List.mem_cons.1 hc with rfl | hc
      · decide
      · exact isSymbolChar_of_isDigit (hplaces.isDigit c hc)

theorem scans_type {name : String} {word : List Char} (hname : name.toList = ':' :: word)
    (hne : word ≠ []) (hword : word.all isSymbolChar = true) {rest : List Char}
    (hrest : startsWithSymbolChar rest = false) : Scans name.toList [.atom (.type name)] rest := by
  obtain ⟨htake, hdrop⟩ := takeWhile_word hword hrest
  have hofList : String.ofList (':' :: word) = name := by rw [← hname, String.ofList_toList]
  rw [hname]
  refine Scans.single (by decide) (by decide) ?_ rfl
  simp [scan, Text.apostrophe, htake, hdrop, hne, hofList]

theorem scans_string (text : String) (rest : List Char) :
    Scans (Text.stringLiteral text).toList [.atom (.string text)] rest := by
  have htext : (Text.stringLiteral text).toList = '"' :: (Text.escape text.toList ++ ['"']) := by
    simp [Text.stringLiteral]
  rw [htext]
  refine Scans.single (by decide) (by decide) ?_ rfl
  have hstring := scanString_escape text.toList rest
  simp [scan, Text.apostrophe, hstring]

/-! ### Characters -/

/-- A name of several letters does not begin where only the first one can stand. -/
theorem afterCharName_cons (name : String) {c d : Char} {cs rest : List Char}
    (hname : name.toList = c :: d :: cs) (hd : isSymbolChar d = true) (e : Char)
    (hrest : startsWithSymbolChar rest = false) : afterCharName name (e :: rest) = none := by
  have hprefix : (c :: d :: cs).isPrefixOf (e :: rest) = false := by
    cases rest with
    | nil => simp [List.isPrefixOf]
    | cons f rest =>
      have hne : d ≠ f := ne_of_isSymbolChar hd hrest
      simp [List.isPrefixOf, hne]
  simp [afterCharName, hname, hprefix]

theorem afterCharName_self (name : String) {rest : List Char}
    (hrest : startsWithSymbolChar rest = false) :
    afterCharName name (name.toList ++ rest) = some rest := by
  simp [afterCharName, hrest]

/-- Another letter in front excludes a name. -/
theorem afterCharName_of_ne {name : String} {c d : Char} {cs rest : List Char}
    (hname : name.toList = c :: cs) (hne : c ≠ d) : afterCharName name (d :: rest) = none := by
  simp [afterCharName, hname, List.isPrefixOf, hne]

theorem scanChar_of_named {start cs rest : List Char} {c : Char}
    (h : (Text.namedChars.findSome? fun entry => (afterCharName entry.1 cs).map (entry.2, ·)) =
      some (c, rest)) : scanChar start cs = (.atom (.char c), rest) := by
  unfold scanChar
  rw [h]

/-- The literal of a character is scanned to the character. -/
theorem scanChar_charLiteral (start : List Char) (c : Char) {rest : List Char}
    (hrest : startsWithSymbolChar rest = false) :
    ∃ cs, (Text.charLiteral c).toList = '#' :: '\\' :: cs ∧
      scanChar start (cs ++ rest) = (.atom (.char c), rest) := by
  have hspace := afterCharName_self "space" hrest
  have hnewline := afterCharName_self "newline" hrest
  have htab := afterCharName_self "tab" hrest
  by_cases h₁ : c = ' '
  · subst h₁
    refine ⟨"space".toList, by decide, scanChar_of_named ?_⟩
    simp only [Text.namedChars, List.findSome?, hspace, Option.map_some]
  · by_cases h₂ : c = '\n'
    · subst h₂
      have hno : afterCharName "space" ("newline".toList ++ rest) = none :=
        afterCharName_of_ne rfl (by decide)
      refine ⟨"newline".toList, by decide, scanChar_of_named ?_⟩
      simp only [Text.namedChars, List.findSome?, hno, hnewline, Option.map_some, Option.map_none]
    · by_cases h₃ : c = '\t'
      · subst h₃
        have hno : afterCharName "space" ("tab".toList ++ rest) = none :=
          afterCharName_of_ne rfl (by decide)
        have hno' : afterCharName "newline" ("tab".toList ++ rest) = none :=
          afterCharName_of_ne rfl (by decide)
        refine ⟨"tab".toList, by decide, scanChar_of_named ?_⟩
        simp only [Text.namedChars, List.findSome?, hno, hno', htab, Option.map_some,
          Option.map_none]
      · have hspace' := afterCharName_cons "space" rfl (by decide) c hrest
        have hnewline' := afterCharName_cons "newline" rfl (by decide) c hrest
        have htab' := afterCharName_cons "tab" rfl (by decide) c hrest
        refine ⟨[c], ?_, ?_⟩
        · simp [Text.charLiteral, Text.namedChars, Ne.symm h₁, Ne.symm h₂, Ne.symm h₃]
        · rw [List.singleton_append, scanChar]
          simp [Text.namedChars, hspace', hnewline', htab', delimited, hrest]

theorem scans_char (c : Char) {rest : List Char} (hrest : startsWithSymbolChar rest = false) :
    Scans (Text.charLiteral c).toList [.atom (.char c)] rest := by
  obtain ⟨cs, hcs, hscan⟩ :=
    scanChar_charLiteral ('#' :: '\\' :: ((Text.charLiteral c).toList.drop 2 ++ rest)) c hrest
  rw [hcs] at hscan ⊢
  refine Scans.single (by decide) (by decide) ?_ rfl
  simpa [scan, Text.apostrophe, scanHash] using hscan

theorem scans_nil {rest : List Char} (hrest : startsWithSymbolChar rest = false) :
    Scans "nil".toList [.atom .nil] rest :=
  Scans.word (by decide) hrest (fun _ => rfl) rfl

theorem scans_truth {rest : List Char} (hrest : startsWithSymbolChar rest = false) :
    Scans "t".toList [.atom .truth] rest :=
  Scans.word (by decide) hrest (fun _ => rfl) rfl

theorem scans_ellipsis {rest : List Char} (hrest : startsWithSymbolChar rest = false) :
    Scans Spelling.ellipsis.toList [.atom (.symbol Spelling.ellipsis)] rest :=
  Scans.word (by decide) hrest (fun _ => rfl) rfl

end Token

end CurryLisp
