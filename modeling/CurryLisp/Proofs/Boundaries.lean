import CurryLisp.Proofs.Lexical

/-!
# Where tokens end

A token ends by the character behind it. Once it has ended, more text behind the rest changes neither the
token nor where it ends; a token that ends with the text still ends there if no character of a symbol
follows.

Statements:

* `Extends.scan`: a token that is not a fault stays as it is if the text goes on.
* `scans_newline`: a text without faults is scanned to the same tokens in front of a line end.
* `scanAll_append_of_mem`: what stands before a lexeme is scanned to the same tokens, however the text
  goes on behind the lexeme.
* `exists_scan_of_mem`: each lexeme is scanned where the text goes on behind separators.
-/

namespace CurryLisp

namespace Token

/-! ## Words -/

/-- What has ended before `rest` ends there also if `more` follows. -/
abbrev Ends (rest more : List Char) : Prop := rest = [] → startsWithSymbolChar more = false

theorem startsWithSymbolChar_append {rest more : List Char} (h : Ends rest more) :
    startsWithSymbolChar (rest ++ more) = startsWithSymbolChar rest := by
  cases rest with
  | nil => exact h rfl
  | cons c cs => rfl

/-- A run of characters that has ended stays as it is. -/
theorem takeWhile_append_of_ends {p : Char → Bool} (hp : ∀ c, p c = true → isSymbolChar c = true)
    {cs more : List Char} (h : Ends (cs.dropWhile p) more) :
    (cs ++ more).takeWhile p = cs.takeWhile p ∧
      (cs ++ more).dropWhile p = cs.dropWhile p ++ more := by
  induction cs with
  | nil =>
    have hmore := h rfl
    cases more with
    | nil => exact ⟨rfl, rfl⟩
    | cons c more =>
      have hc : ¬p c = true := fun hc => by
        rw [startsWithSymbolChar, hp c hc] at hmore
        cases hmore
      simp [hc]
  | cons c cs ih =>
    by_cases hc : p c = true
    · rw [List.dropWhile_cons_of_pos hc] at h
      obtain ⟨htake, hdrop⟩ := ih h
      simp [hc, htake, hdrop]
    · simp [hc]

/-- The name of a character is found where it is the whole word. -/
theorem afterCharName_eq {name : String} (hname : name.toList.all isSymbolChar = true)
    (cs : List Char) :
    afterCharName name cs =
      if cs.takeWhile isSymbolChar = name.toList then some (cs.dropWhile isSymbolChar) else none := by
  unfold afterCharName
  dsimp only
  by_cases hprefix : name.toList <+: cs
  · obtain ⟨rest, rfl⟩ := hprefix
    have hletters : name.toList.isPrefixOf (name.toList ++ rest) = true :=
      List.isPrefixOf_iff_prefix.2 (List.prefix_append _ _)
    rw [hletters, List.drop_left, Bool.true_and]
    cases hrest : startsWithSymbolChar rest with
    | false =>
      obtain ⟨htake, hdrop⟩ := takeWhile_word hname hrest
      rw [htake, hdrop, if_pos rfl]
      rfl
    | true =>
      have hlonger : (name.toList ++ rest).takeWhile isSymbolChar ≠ name.toList := by
        rw [List.takeWhile_append_of_pos (List.all_eq_true.1 hname)]
        cases rest with
        | nil => cases hrest
        | cons c rest =>
          have hc : isSymbolChar c = true := hrest
          simp [hc]
      rw [if_neg hlonger]
      rfl
  · have hletters : name.toList.isPrefixOf cs = false := by
      rw [← Bool.not_eq_true, List.isPrefixOf_iff_prefix]
      exact hprefix
    have hword : cs.takeWhile isSymbolChar ≠ name.toList := fun h =>
      hprefix (h ▸ List.takeWhile_prefix isSymbolChar)
    rw [hletters, if_neg hword]
    rfl

theorem afterCharName_append {name : String} (hname : name.toList.all isSymbolChar = true)
    {cs more : List Char} (h : Ends (cs.dropWhile isSymbolChar) more) :
    afterCharName name (cs ++ more) = (afterCharName name cs).map (· ++ more) := by
  obtain ⟨htake, hdrop⟩ := takeWhile_append_of_ends (fun _ hc => hc) h
  rw [afterCharName_eq hname, afterCharName_eq hname, htake, hdrop]
  split <;> rfl

/-! ## Tokens -/

theorem isSymbolChar_of_isAlphanum {c : Char} (hc : c.isAlphanum = true) (hle : c ≤ 'z') :
    isSymbolChar c = true := by
  have hlt : c.toNat < 0x80 := Nat.lt_of_le_of_lt hle (by decide)
  rw [isSymbolChar, Text.isAlphanumeric_eq_isAlphanum hlt, hc, Bool.true_or]

theorem isSymbolChar_of_isHexDigit {c : Char} (hc : Decimal.isHexDigit c = true) :
    isSymbolChar c = true := by
  simp only [Decimal.isHexDigit, Bool.or_eq_true, Bool.and_eq_true, decide_eq_true_eq] at hc
  rcases hc with (hdigit | ⟨hlow, hhigh⟩) | ⟨hlow, hhigh⟩
  · exact isSymbolChar_of_isDigit hdigit
  · have hz : c ≤ 'z' := Char.le_trans hhigh (by decide)
    have hlower : c.isLower = true := by
      simp only [Char.isLower, Bool.and_eq_true, decide_eq_true_eq]
      exact ⟨hlow, hz⟩
    exact isSymbolChar_of_isAlphanum (by simp [Char.isAlphanum, Char.isAlpha, hlower]) hz
  · have hZ : c ≤ 'Z' := Char.le_trans hhigh (by decide)
    have hupper : c.isUpper = true := by
      simp only [Char.isUpper, decide_eq_true_eq]
      exact ⟨hlow, hZ⟩
    exact isSymbolChar_of_isAlphanum (by simp [Char.isAlphanum, Char.isAlpha, hupper])
      (Char.le_trans hZ (by decide))

/-- `found'` is `found` with `more` behind it, unless that is a fault or goes on in `more`. -/
def Extends (more : List Char) (found found' : Token × List Char) : Prop :=
  found.1.isFault = false → Ends found.2 more → found' = (found.1, found.2 ++ more)

variable {more : List Char}

theorem startsWithSymbolChar_of_delimited {start rest : List Char} {d : Datum}
    (h : (delimited start rest d).1.isFault = false) : startsWithSymbolChar rest = false := by
  cases hrest : startsWithSymbolChar rest with
  | false => rfl
  | true => simp [delimited, hrest, isFault] at h

theorem Extends.delimited (start start' rest : List Char) (d : Datum) :
    Extends more (delimited start rest d) (delimited start' (rest ++ more) d) := by
  intro hfault hends
  have hrest := startsWithSymbolChar_of_delimited hfault
  rw [delimited_rest] at hends
  simp [Token.delimited, startsWithSymbolChar_append hends, hrest]

theorem findSome?_afterCharName_append {entries : List (String × Char)}
    (hnames : ∀ entry ∈ entries, entry.1.toList.all isSymbolChar = true) {cs : List Char}
    (h : Ends (cs.dropWhile isSymbolChar) more) :
    (entries.findSome? fun entry => (afterCharName entry.1 (cs ++ more)).map (entry.2, ·)) =
      (entries.findSome? fun entry => (afterCharName entry.1 cs).map (entry.2, ·)).map
        fun found => (found.1, found.2 ++ more) := by
  induction entries with
  | nil => rfl
  | cons entry entries ih =>
    obtain ⟨hname, hnames⟩ := List.forall_mem_cons.1 hnames
    rw [List.findSome?_cons, List.findSome?_cons, afterCharName_append hname h, ih hnames]
    cases afterCharName entry.1 cs <;> rfl

theorem Extends.scanChar (start start' cs : List Char) :
    Extends more (scanChar start cs) (scanChar start' (cs ++ more)) := by
  intro hfault hends
  have hnames : ∀ entry ∈ Text.namedChars, entry.1.toList.all isSymbolChar = true := by decide
  unfold Token.scanChar at hfault hends ⊢
  split at hfault
  · next c rest hfound =>
    simp only [hfound] at hends ⊢
    obtain ⟨entry, hentry, heq⟩ := List.exists_of_findSome?_eq_some hfound
    rw [afterCharName_eq (hnames entry hentry)] at heq
    have hword : Ends (cs.dropWhile isSymbolChar) more := by
      split at heq
      · cases heq
        exact hends
      · cases heq
    rw [findSome?_afterCharName_append hnames hword, hfound]
    rfl
  · next hnone =>
    simp only [hnone] at hends ⊢
    cases cs with
    | nil => cases hfault
    | cons c rest =>
      have hrest := startsWithSymbolChar_of_delimited hfault
      -- The character is a word of its own, or the word ends in front of it.
      have hword : Ends ((c :: rest).dropWhile isSymbolChar) more := by
        intro hnil
        obtain rfl : rest = [] := by
          cases rest with
          | nil => rfl
          | cons d rest =>
            have hd := List.dropWhile_eq_nil_iff.1 hnil d (by simp)
            rw [startsWithSymbolChar, hd] at hrest
            cases hrest
        exact hends (delimited_rest ..)
      rw [findSome?_afterCharName_append hnames hword, hnone]
      exact Extends.delimited start start' rest (.char c) hfault hends

theorem Extends.scanHex (start start' cs : List Char) :
    Extends more (scanHex start cs) (scanHex start' (cs ++ more)) := by
  intro hfault hends
  have hrest : (Token.scanHex start cs).2 = cs.dropWhile Decimal.isHexDigit := by
    unfold Token.scanHex
    dsimp only
    split
    · rfl
    · split
      · exact delimited_rest ..
      · rfl
  -- The digits end within `cs`, so they are the same with more text behind.
  rw [hrest] at hends
  obtain ⟨htake, hdrop⟩ := takeWhile_append_of_ends (fun _ => isSymbolChar_of_isHexDigit) hends
  unfold Token.scanHex at hfault ⊢
  dsimp only at hfault ⊢
  rw [htake, hdrop]
  split at hfault
  · cases hfault
  · next hdigits =>
    rw [if_neg hdigits]
    split at hfault
    · next n hn =>
      simp only [if_neg hdigits, hn]
      exact Extends.delimited start start' _ _ hfault (by rwa [delimited_rest])
    · cases hfault

theorem Extends.scanHash (start start' cs : List Char) :
    Extends more (scanHash start cs) (scanHash start' (cs ++ more)) := by
  intro hfault hends
  cases cs with
  | nil => cases hfault
  | cons c cs =>
    rw [List.cons_append]
    simp only [Token.scanHash] at hfault hends ⊢
    split_ifs at hfault hends ⊢
    · exact Extends.scanChar start start' cs hfault hends
    · exact Extends.scanHex start start' cs hfault hends
    · exact Extends.delimited start start' cs _ hfault hends
    · exact Extends.delimited start start' cs _ hfault hends
    · cases hfault

/-- A backslash in a string is the last character or has a letter behind it. -/
theorem ne_backslash {c : Char} {cs : List Char} (hlast : c = '\\' → cs = [] → False)
    (hescape : ∀ letter rest, c = '\\' → cs = letter :: rest → False) : c ≠ '\\' := by
  rintro rfl
  cases cs with
  | nil => exact hlast rfl rfl
  | cons letter rest => exact hescape letter rest rfl rfl

theorem scanString_append {cs : List Char} {found : List Char × List Char}
    (h : scanString cs = .ok found) : scanString (cs ++ more) = .ok (found.1, found.2 ++ more) := by
  fun_induction scanString cs generalizing found with
  | case1 => cases h
  | case2 =>
    cases h
    rfl
  | case3 => cases h
  | case4 letter cs c hc ih =>
    obtain ⟨z, hz, rfl⟩ := exists_of_map_eq_ok h
    simp [scanString, hc, ih hz, Except.map]
  | case5 => cases h
  | case6 c cs hquote hlast hescape ih =>
    obtain ⟨z, hz, rfl⟩ := exists_of_map_eq_ok h
    have hbackslash := ne_backslash hlast hescape
    simp [scanString, hbackslash, ih hz, Except.map]

/-- The place of a word matters to its faults only. -/
theorem ofWord_eq_of_isFault {start word : List Char} (h : (ofWord start word).isFault = false)
    (start' : List Char) : ofWord start' word = ofWord start word := by
  unfold ofWord at h ⊢
  cases hnumber : takeNumber word with
  | none =>
    simp only [hnumber] at h ⊢
    split_ifs at h ⊢
    · rfl
    · rfl
    · cases h
  | some found =>
    obtain ⟨number, rest⟩ := found
    cases number with
    | none => simp [hnumber, isFault] at h
    | some number =>
      cases rest with
      | nil => rfl
      | cons c rest => simp [hnumber, isFault] at h

/-- **What follows a token does not change it.** -/
theorem Extends.scan (c : Char) (cs : List Char) :
    Extends more (scan c cs) (scan c (cs ++ more)) := by
  intro hfault hends
  unfold Token.scan at hfault hends ⊢
  -- By the first character: parentheses and quotes, forms behind `#`, strings, types, words.
  split_ifs at hfault hends ⊢
  · rfl
  · rfl
  · rfl
  · exact Extends.scanHash (c :: cs) (c :: (cs ++ more)) cs hfault hends
  · cases hstring : scanString cs with
    | error f =>
      rw [hstring] at hfault
      cases hfault
    | ok found =>
      rw [scanString_append hstring]
  · have hname : (cs.takeWhile isSymbolChar).isEmpty = false := by
      cases hempty : (cs.takeWhile isSymbolChar).isEmpty with
      | false => rfl
      | true => simp [hempty, isFault] at hfault
    simp only [hname] at hends ⊢
    obtain ⟨htake, hdrop⟩ := takeWhile_append_of_ends (fun _ hc => hc) hends
    rw [htake, hdrop]
    simp only [hname]
    rfl
  · obtain ⟨htake, hdrop⟩ := takeWhile_append_of_ends (fun _ hc => hc) hends
    rw [htake, hdrop, ofWord_eq_of_isFault hfault]
  · cases hfault

/-! ## Separators -/

variable {cs rest : List Char} {inComment : Bool} {c : Char}

theorem skipGaps_append (h : skipGaps inComment cs = c :: rest) (more : List Char) :
    skipGaps inComment (cs ++ more) = c :: (rest ++ more) := by
  fun_induction skipGaps inComment cs with
  | case1 => cases h
  | case2 d cs ih => simpa [skipGaps] using ih h
  | case3 inComment d cs hcomment hgap ih => simpa [skipGaps, hcomment, hgap] using ih h
  | case4 inComment cs hcomment hgap ih => simpa [skipGaps, hcomment, hgap] using ih h
  | case5 inComment d cs hcomment hgap hstart =>
    cases h
    simp [skipGaps, hcomment, hgap, hstart]

/-- A line end separates, behind a comment too. -/
theorem skipGaps_append_newline (h : skipGaps inComment cs = []) (more : List Char) :
    skipGaps inComment (cs ++ '\n' :: more) = skipGaps false more := by
  fun_induction skipGaps inComment cs with
  | case1 inComment => cases inComment <;> rfl
  | case2 d cs ih => simpa [skipGaps] using ih h
  | case3 inComment d cs hcomment hgap ih => simpa [skipGaps, hcomment, hgap] using ih h
  | case4 inComment cs hcomment hgap ih => simpa [skipGaps, hcomment, hgap] using ih h
  | case5 => cases h

/-- What is behind separators starts with none. -/
theorem head_of_skipGaps (h : skipGaps inComment cs = c :: rest) : Text.isGap c = false ∧ c ≠ ';' := by
  fun_induction skipGaps inComment cs with
  | case1 => cases h
  | case2 d cs ih => exact ih h
  | case3 inComment d cs _ _ ih => exact ih h
  | case4 inComment cs _ _ ih => exact ih h
  | case5 inComment d cs _ hgap hstart =>
    cases h
    exact ⟨by simpa using hgap, hstart⟩

theorem skipGaps_of_head (h : Text.isGap c = false ∧ c ≠ ';') (cs : List Char) :
    skipGaps false (c :: cs) = c :: cs := by
  simp [skipGaps, h.1, h.2]

/-! ## Texts -/

/-- Scanning begins behind separators. -/
theorem scanAll_congr {cs cs' : List Char} (h : skipGaps false cs = skipGaps false cs') :
    scanAll cs = scanAll cs' := by
  rw [scanAll.eq_def, scanAll.eq_def cs', h]

theorem scanAll_of_skipGaps (h : skipGaps false cs = []) : scanAll cs = [] := by
  rw [scanAll.eq_def]
  split
  · rfl
  · next hskip =>
    rw [h] at hskip
    cases hskip

theorem scanAll_cons (h : skipGaps false cs = c :: rest) :
    scanAll cs = ⟨c :: rest, (scan c rest).1, (scan c rest).2⟩ ::
      (if (scan c rest).1.isFault then [] else scanAll (scan c rest).2) := by
  rw [scanAll.eq_def]
  split
  · next hskip =>
    rw [h] at hskip
    cases hskip
  · next hskip =>
    rw [h] at hskip
    cases hskip
    rfl

/-- The first token stays as it is if the text goes on. -/
theorem scanAll_append_cons (h : skipGaps false cs = c :: rest) {more : List Char}
    (hfault : (scan c rest).1.isFault = false) (hends : Ends (scan c rest).2 more) :
    scanAll (cs ++ more) =
      ⟨c :: (rest ++ more), (scan c rest).1, (scan c rest).2 ++ more⟩ ::
        scanAll ((scan c rest).2 ++ more) := by
  rw [scanAll_cons (skipGaps_append h more), Extends.scan c rest hfault hends]
  simp [hfault]

/-- **A text without faults is scanned to the same tokens in front of a line end.** -/
theorem scans_newline (h : ∀ l ∈ scanAll cs, l.token.isFault = false) (more : List Char) :
    Scans cs ((scanAll cs).map (·.token)) ('\n' :: more) := by
  induction cs using scanAll.induct with
  | case1 cs hskip =>
    refine ⟨[], ?_, by rw [scanAll_of_skipGaps hskip, List.map_nil]⟩
    exact scanAll_congr (skipGaps_append_newline hskip more)
  | case2 cs c rest hskip found ih =>
    have hscan := scanAll_cons hskip
    have hfault : (scan c rest).1.isFault = false := h _ (hscan ▸ List.mem_cons_self ..)
    rw [hfault, if_neg Bool.false_ne_true] at hscan
    obtain ⟨lexemes, hlexemes, htokens⟩ := ih fun l hl => h l (hscan ▸ List.mem_cons_of_mem _ hl)
    refine ⟨⟨c :: (rest ++ '\n' :: more), (scan c rest).1, (scan c rest).2 ++ '\n' :: more⟩ ::
      lexemes, ?_, ?_⟩
    · rw [scanAll_append_cons hskip hfault fun _ => rfl, hlexemes, List.cons_append]
    · rw [hscan, List.map_cons, List.map_cons, htokens]

theorem Scans.newline (rest : List Char) : Scans ['\n'] [] rest :=
  ⟨[], scanAll_congr rfl, rfl⟩

theorem Scans.open (rest : List Char) : Scans ['('] [.open] rest :=
  Scans.single (by decide) (by decide) rfl rfl

theorem Scans.close (rest : List Char) : Scans [')'] [.close] rest :=
  Scans.single (by decide) (by decide) rfl rfl

theorem Scans.quote (rest : List Char) : Scans [Text.apostrophe] [.quote] rest :=
  Scans.single (by decide) (by decide) rfl rfl

/-- A whole text is scanned to its tokens. -/
theorem Scans.whole (text : List Char) : Scans text ((scanAll text).map (·.token)) [] := by
  have hnil : scanAll [] = [] := scanAll_of_skipGaps rfl
  exact ⟨scanAll text, by rw [List.append_nil, hnil, List.append_nil], rfl⟩

theorem Scans.map_token {text : List Char} {tokens : List Token} (h : Scans text tokens []) :
    (scanAll text).map (·.token) = tokens := by
  obtain ⟨lexemes, hlexemes, htokens⟩ := h
  have hnil : scanAll [] = [] := scanAll_of_skipGaps rfl
  rw [List.append_nil, hnil, List.append_nil] at hlexemes
  rw [hlexemes, htokens]

/-- **What stands before a lexeme is scanned to the same tokens, however the text goes on.** -/
theorem scanAll_append_of_mem {before after : List Lexeme} {l : Lexeme}
    (h : scanAll cs = before ++ l :: after) (more : List Char) :
    ∃ lexemes, scanAll (cs ++ more) = lexemes ++ scanAll (l.start ++ more) ∧
      lexemes.map (·.token) = before.map (·.token) := by
  induction before generalizing cs with
  | nil =>
    cases hskip : skipGaps false cs with
    | nil =>
      rw [scanAll_of_skipGaps hskip] at h
      cases h
    | cons c rest =>
      rw [scanAll_cons hskip] at h
      cases h
      refine ⟨[], scanAll_congr ?_, rfl⟩
      rw [skipGaps_append hskip]
      exact (skipGaps_of_head (head_of_skipGaps hskip) _).symm
  | cons first before ih =>
    cases hskip : skipGaps false cs with
    | nil =>
      rw [scanAll_of_skipGaps hskip] at h
      cases h
    | cons c rest =>
      rw [scanAll_cons hskip, List.cons_append] at h
      obtain ⟨rfl, hbefore⟩ := List.cons.inj h
      split at hbefore
      · simp at hbefore
      · next hfault =>
        rw [Bool.not_eq_true] at hfault
        -- A lexeme follows, so the token has not ended with the text.
        have hends : Ends (scan c rest).2 more := by
          intro hnil
          rw [hnil, scanAll_of_skipGaps rfl] at hbefore
          simp at hbefore
        obtain ⟨lexemes, hlexemes, htokens⟩ := ih hbefore
        refine ⟨⟨c :: (rest ++ more), (scan c rest).1, (scan c rest).2 ++ more⟩ :: lexemes, ?_, ?_⟩
        · rw [scanAll_append_cons hskip hfault hends, hlexemes, List.cons_append]
        · rw [List.map_cons, List.map_cons, htokens]

/-! ## What is left of a text -/

theorem afterCharName_suffix {name : String} {cs rest : List Char}
    (h : afterCharName name cs = some rest) : rest <:+ cs := by
  simp only [afterCharName] at h
  split at h
  · cases h
    exact List.drop_suffix _ _
  · cases h

theorem scanChar_rest_suffix (start cs : List Char) : (scanChar start cs).2 <:+ cs := by
  unfold scanChar
  split
  · next h =>
    obtain ⟨entry, -, hentry⟩ := List.exists_of_findSome?_eq_some h
    obtain ⟨found, hfound, heq⟩ := Option.map_eq_some_iff.1 hentry
    cases heq
    exact afterCharName_suffix hfound
  · split
    · exact List.suffix_refl _
    · rw [delimited_rest]
      exact List.suffix_cons _ _

theorem scanHex_rest_suffix (start cs : List Char) : (scanHex start cs).2 <:+ cs := by
  have hdrop : cs.dropWhile Decimal.isHexDigit <:+ cs := List.dropWhile_suffix _
  unfold scanHex
  dsimp only
  split
  · exact hdrop
  · split
    · rwa [delimited_rest]
    · exact hdrop

theorem scanHash_rest_suffix (start cs : List Char) : (scanHash start cs).2 <:+ cs := by
  cases cs with
  | nil => exact List.suffix_refl _
  | cons c cs =>
    have hcs : cs <:+ c :: cs := List.suffix_cons _ _
    rw [scanHash]
    split_ifs
    · exact (scanChar_rest_suffix start cs).trans hcs
    · exact (scanHex_rest_suffix start cs).trans hcs
    · rwa [delimited_rest]
    · rwa [delimited_rest]
    · exact hcs

theorem scanString_rest_suffix {cs : List Char} {found : List Char × List Char}
    (h : scanString cs = .ok found) : found.2 <:+ cs := by
  fun_induction scanString cs generalizing found with
  | case1 => cases h
  | case2 =>
    cases h
    exact List.suffix_cons _ _
  | case3 => cases h
  | case4 letter cs c hc ih =>
    obtain ⟨z, hz, rfl⟩ := exists_of_map_eq_ok h
    exact (ih hz).trans ((List.suffix_cons _ _).trans (List.suffix_cons _ _))
  | case5 => cases h
  | case6 c cs _ _ _ ih =>
    obtain ⟨z, hz, rfl⟩ := exists_of_map_eq_ok h
    exact (ih hz).trans (List.suffix_cons _ _)

/-- What is behind a token is left of the text. -/
theorem scan_rest_suffix (c : Char) (cs : List Char) : (scan c cs).2 <:+ cs := by
  have hrefl : cs <:+ cs := List.suffix_refl _
  have hdrop : cs.dropWhile isSymbolChar <:+ cs := List.dropWhile_suffix _
  unfold scan
  split_ifs
  · exact hrefl
  · exact hrefl
  · exact hrefl
  · exact scanHash_rest_suffix _ _
  · split
    · next h => exact scanString_rest_suffix h
    · exact List.nil_suffix
  · dsimp only
    split
    · exact hrefl
    · exact hdrop
  · exact hdrop
  · exact hrefl

theorem skipGaps_suffix (inComment : Bool) (cs : List Char) : skipGaps inComment cs <:+ cs := by
  fun_induction skipGaps inComment cs with
  | case1 => exact List.suffix_refl _
  | case2 d cs ih => exact ih.trans (List.suffix_cons _ _)
  | case3 inComment d cs _ _ ih => exact ih.trans (List.suffix_cons _ _)
  | case4 inComment cs _ _ ih => exact ih.trans (List.suffix_cons _ _)
  | case5 => exact List.suffix_refl _

/-- A lexeme starts behind separators, and its token is scanned there. -/
theorem exists_scan_of_mem {cs : List Char} {l : Lexeme} (hl : l ∈ scanAll cs) :
    ∃ c rest, l.start = c :: rest ∧ c :: rest <:+ cs ∧ (Text.isGap c = false ∧ c ≠ ';') ∧
      l.token = (scan c rest).1 := by
  induction cs using scanAll.induct with
  | case1 cs hskip =>
    rw [scanAll_of_skipGaps hskip] at hl
    cases hl
  | case2 cs c rest hskip found ih =>
    have hsuffix := skipGaps_suffix false cs
    rw [hskip] at hsuffix
    rw [scanAll_cons hskip] at hl
    rcases List.mem_cons.1 hl with rfl | hl
    · exact ⟨c, rest, rfl, hsuffix, head_of_skipGaps hskip, rfl⟩
    · split at hl
      · cases hl
      · obtain ⟨c', rest', hstart, hsuffix', hhead, htoken⟩ := ih hl
        have hrest := (scan_rest_suffix c rest).trans (List.suffix_cons c rest)
        exact ⟨c', rest', hstart, hsuffix'.trans (hrest.trans hsuffix), hhead, htoken⟩

end Token

end CurryLisp
