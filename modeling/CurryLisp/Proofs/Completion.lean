import CurryLisp.Proofs.Boundaries
import CurryLisp.Proofs.ReaderSteps

/-!
# Texts that can be completed

A text that ends before its expression does is completed by what the open expressions and the token at
the end still lack. A text that is reported to end too early though white space is left of it which does
not separate tokens cannot be completed by anything.

Statements:

* `scan_unfinished`: a token that the end of the text cuts off can be finished.
* `Reading.exists_completion`: what is open can be closed.
* `Datum.read_append_of_incomplete`: **an incomplete text can be completed exactly if nothing of it is
  left**, in particular if its white space separates tokens.
-/

namespace CurryLisp

namespace Token

/-! ## Unfinished tokens -/

theorem eq_error_of_map {ε α β : Type} {f : α → β} {x : Except ε α} {e : ε}
    (h : x.map f = .error e) : x = .error e := by
  cases x with
  | error e' =>
    cases h
    rfl
  | ok y => cases h

/-- A string literal that the text cuts off can be closed. -/
theorem scanString_unfinished {cs rest : List Char} (h : scanString cs = .error ⟨.misplaced, rest⟩) :
    rest = [] ∧ ∃ more text, ∀ after, scanString (cs ++ (more ++ after)) = .ok (text, after) := by
  fun_induction scanString cs with
  | case1 =>
    cases h
    exact ⟨rfl, ['"'], [], fun _ => rfl⟩
  | case2 => cases h
  | case3 =>
    cases h
    exact ⟨rfl, ['n', '"'], ['\n'], fun _ => rfl⟩
  | case4 letter cs c hc ih =>
    obtain ⟨hrest, more, text, htext⟩ := ih (eq_error_of_map h)
    refine ⟨hrest, more, c :: text, fun after => ?_⟩
    simp [scanString, hc, htext after, Except.map]
  | case5 => cases h
  | case6 c cs hquote hlast hescape ih =>
    obtain ⟨hrest, more, text, htext⟩ := ih (eq_error_of_map h)
    have hbackslash := ne_backslash hlast hescape
    refine ⟨hrest, more, c :: text, fun after => ?_⟩
    simp [scanString, hbackslash, htext after, Except.map]

theorem not_misplaced_delimited {start rest rest' : List Char} {d : Datum} :
    (delimited start rest d).1 ≠ .fault ⟨.misplaced, rest'⟩ := by
  unfold delimited
  split <;> simp

/-- A character literal that the text cuts off can be finished. -/
theorem scanHash_unfinished {start cs rest : List Char}
    (h : (scanHash start cs).1 = .fault ⟨.misplaced, rest⟩) :
    rest = [] ∧ ∃ more d, ∀ start' after, startsWithSymbolChar after = false →
      scanHash start' (cs ++ (more ++ after)) = (.atom d, after) := by
  cases cs with
  | nil => cases h
  | cons c cs =>
    rw [scanHash] at h
    split_ifs at h
    · next hc =>
      subst hc
      unfold scanChar at h
      split at h
      · cases h
      · split at h
        · cases h
          refine ⟨rfl, ['a'], .char 'a', fun start' after hafter => ?_⟩
          obtain ⟨literal, hliteral, hscan⟩ := scanChar_charLiteral start' 'a' hafter
          obtain rfl : ['a'] = literal := by simpa [Text.charLiteral, Text.namedChars] using hliteral
          exact hscan
        · exact absurd h not_misplaced_delimited
    · unfold scanHex at h
      dsimp only at h
      split at h
      · cases h
      · split at h
        · exact absurd h not_misplaced_delimited
        · cases h
    · exact absurd h not_misplaced_delimited
    · exact absurd h not_misplaced_delimited
    · cases h

/-- A word at fault is at fault from its start on. -/
theorem rest_of_ofWord {start word : List Char} {f : Fault} (h : ofWord start word = .fault f) :
    f.rest = start := by
  unfold ofWord at h
  split at h
  · cases h
    rfl
  · cases h
  · cases h
    rfl
  · split_ifs at h
    cases h
    rfl

/-- **A token that the end of the text cuts off can be finished.** Any other misplaced text is misplaced
from the first character of the token on. -/
theorem scan_unfinished {c : Char} {cs rest : List Char}
    (h : (scan c cs).1 = .fault ⟨.misplaced, rest⟩) :
    rest = c :: cs ∨ rest = [] ∧ ∃ more d, ∀ after, startsWithSymbolChar after = false →
      scan c (cs ++ (more ++ after)) = (.atom d, after) := by
  unfold scan at h
  split_ifs at h
  · next hc =>
    subst hc
    obtain ⟨hrest, more, d, hfinished⟩ := scanHash_unfinished h
    exact .inr ⟨hrest, more, d, fun after hafter => hfinished _ after hafter⟩
  · next hc =>
    subst hc
    split at h
    · cases h
    · next hstring =>
      cases h
      obtain ⟨hrest, more, text, hfinished⟩ := scanString_unfinished hstring
      refine .inr ⟨hrest, more, .string (String.ofList text), fun after _ => ?_⟩
      simp [scan, Text.apostrophe, hfinished after]
  · dsimp only at h
    split at h
    · cases h
      exact .inl rfl
    · cases h
  · exact .inl (rest_of_ofWord h)
  · cases h
    exact .inl rfl

end Token

namespace Reading

open Token (Scans)

/-! ## Open expressions -/

theorem scans_closers (n : Nat) (rest : List Char) :
    Scans (List.replicate n ')') (List.replicate n .close) rest := by
  induction n with
  | zero => exact Scans.nil rest
  | succ n ih => exact (Scans.close _).append ih

/-- The frames around a complete datum can be closed. -/
theorem exists_run_of_place (d : Datum) (stack : List Frame) :
    ∃ n d', Run (place d stack) (List.replicate n .close) (.complete d') := by
  induction stack generalizing d with
  | nil => exact ⟨0, d, .done _⟩
  | cons frame stack ih =>
    cases frame with
    | quote => exact ih (.quoted d)
    | list items =>
      obtain ⟨n, d', hrun⟩ := ih (chainReverse (d :: items) .nil)
      exact ⟨n + 1, d', .step (.close (d :: items) stack) hrun⟩
    | tail items =>
      obtain ⟨n, d', hrun⟩ := ih (chainReverse items d)
      exact ⟨n + 1, d', .step (.closeTail items d stack) hrun⟩

/-- **What is open can be closed** where there is room for one more expression. -/
theorem exists_completion {pending : Pending} {unread : List Char}
    (h : atEnd unread pending = ⟨.misplaced, []⟩) :
    ∃ text tokens d, Scans text tokens [] ∧ Run (.more pending) tokens (.complete d) := by
  cases pending with
  | expression stack =>
    have hroom : stack.length < maxDepth := by
      simp only [atEnd] at h
      split at h
      · cases h
      · next hroom => exact Nat.not_le.1 hroom
    obtain ⟨n, d, hrun⟩ := exists_run_of_place (chainReverse [] .nil) stack
    have hopen : Run (.more (.expression stack)) [.open] (.more (.expression (.list [] :: stack))) :=
      .step (.open hroom) (.done _)
    exact ⟨_, _, d, (Scans.open _).append (scans_closers (n + 1) []),
      hopen.trans (.step (.close [] stack) hrun)⟩
  | closing items last stack =>
    obtain ⟨n, d, hrun⟩ := exists_run_of_place (chainReverse items last) stack
    exact ⟨_, _, d, scans_closers (n + 1) [], .step (.closeTail items last stack) hrun⟩

/-- Where text is misplaced, it is so from a lexeme on, or the token of the lexeme is at fault. -/
theorem misplaced_of_beginExpression {unread rest : List Char} {l : Lexeme} {stack : List Frame}
    (h : beginExpression unread l stack = .error ⟨.misplaced, rest⟩) :
    rest = l.start ∨ l.token = .fault ⟨.misplaced, rest⟩ ∧ stack.length < maxDepth := by
  unfold beginExpression at h
  split at h
  · cases h
  · next hroom =>
    split at h
    · cases h
    · cases h
    · cases h
    · next htoken =>
      cases h
      exact .inr ⟨htoken, Nat.not_le.1 hroom⟩
    · cases h
      exact .inl rfl
    · cases h
      exact .inl rfl

theorem misplaced_of_advance {unread rest : List Char} {l : Lexeme} {pending : Pending}
    (h : advance unread l pending = .error ⟨.misplaced, rest⟩) :
    rest = l.start ∨ l.token = .fault ⟨.misplaced, rest⟩ ∧
      ∃ stack, pending = .expression stack ∧ stack.length < maxDepth := by
  have hbegin : ∀ {stack : List Frame},
      beginExpression unread l stack = .error ⟨.misplaced, rest⟩ →
      rest = l.start ∨ l.token = .fault ⟨.misplaced, rest⟩ ∧
        ∃ stack', Pending.expression stack = .expression stack' ∧ stack'.length < maxDepth :=
    fun h => (misplaced_of_beginExpression h).imp_right fun hfault =>
      ⟨hfault.1, _, rfl, hfault.2⟩
  unfold advance at h
  split at h
  · split at h
    · cases h
    · split at h
      · exact hbegin h
      · cases h
    · exact hbegin h
  · exact hbegin h
  · split at h
    · cases h
    · cases h
      exact .inl rfl

end Reading

/-! ## Reports of incomplete texts -/

theorem Fault.kind_report {input : List Char} {f : Fault} :
    (f.report input).kind = .incomplete ↔ f.kind = .misplaced ∧ f.rest.all Text.isBlank = true := by
  obtain ⟨kind, rest⟩ := f
  cases kind with
  | misplaced =>
    simp only [report]
    split <;> simp_all [ParseError.withContext]
  | _ => simp [report, ParseError.withContext]

theorem Fault.found_report (input : List Char) (f : Fault) :
    (f.report input).found = f.rest.head?.map Char.toString := by
  obtain ⟨kind, rest⟩ := f
  cases kind with
  | misplaced =>
    simp only [report]
    split <;> rfl
  | _ => rfl

/-- No token begins with white space. -/
theorem Token.scan_of_isBlank {c : Char} (hc : Text.isBlank c = true) (cs : List Char) :
    scan c cs = (.fault ⟨.misplaced, c :: cs⟩, cs) := by
  have hcodes : ∀ n ∈ Text.blankCodes, isSymbolChar (Char.ofNat n) = false := by decide +kernel
  have hsymbol : isSymbolChar c = false := by
    rw [← Char.ofNat_toNat c]
    exact hcodes c.toNat (List.contains_iff_mem.1 hc)
  have hne : ∀ {d}, Text.isBlank d = false → c ≠ d := by
    rintro d hd rfl
    rw [hc] at hd
    cases hd
  rw [scan, if_neg (hne (by decide)), if_neg (hne (by decide)), if_neg (hne (by decide)),
    if_neg (hne (by decide)), if_neg (hne (by decide)), if_neg (hne (by decide)), hsymbol,
    if_neg Bool.false_ne_true]

namespace Datum

open Reading (Run Step)
open Token (Scans)

variable {text : String} {e : ParseError}

/-- An incomplete text is at fault where nothing but white space is left. -/
theorem exists_fault_of_incomplete (h : read text = .error e) (hkind : e.kind = .incomplete) :
    ∃ rest, Reading.first text.toList (Token.scanAll text.toList) (.expression []) =
        .error ⟨.misplaced, rest⟩ ∧
      rest.all Text.isBlank = true ∧ e.found = rest.head?.map Char.toString := by
  unfold read at h
  dsimp only at h
  split at h
  · next f hfirst =>
    cases h
    obtain ⟨kind, rest⟩ := f
    obtain ⟨rfl, hblank⟩ := Fault.kind_report.1 hkind
    exact ⟨rest, hfirst, hblank, Fault.found_report _ _⟩
  · cases h
  · cases h
    cases hkind

/-- The fault is the end of the text, where something is open, or a lexeme: a token that is cut off, or
one that begins with what is left of the text. -/
inductive Lacks (text : List Char) : List Char → Prop
  | end {pending : Reading.Pending} {unread : List Char}
    (hrun : Run (.more (.expression [])) ((Token.scanAll text).map (·.token)) (.more pending))
    (hopen : Reading.atEnd unread pending = ⟨.misplaced, []⟩) : Lacks text []
  | token {before after : List Lexeme} {l : Lexeme} {stack : List Reading.Frame} {more : List Char}
    {d : Datum} (hlexemes : Token.scanAll text = before ++ l :: after)
    (hrun : Run (.more (.expression [])) (before.map (·.token)) (.more (.expression stack)))
    (hroom : stack.length < Reading.maxDepth)
    (hfinished : ∀ rest, Token.startsWithSymbolChar rest = false →
      Scans (l.start ++ more) [.atom d] rest) : Lacks text []
  | left {l : Lexeme} (hl : l ∈ Token.scanAll text) : Lacks text l.start

theorem lacks_of_first {rest : List Char}
    (h : Reading.first text.toList (Token.scanAll text.toList) (.expression []) =
      .error ⟨.misplaced, rest⟩) : Lacks text.toList rest := by
  obtain ⟨before, after, last, unread, hlexemes, hrun, ⟨rfl, hend⟩ | ⟨l, after, rfl, hadvance⟩⟩ :=
    Reading.exists_run_of_first_error h
  · rw [List.append_nil] at hlexemes
    obtain rfl : rest = [] := by
      unfold Reading.atEnd at hend
      split at hend
      · split at hend
        · cases hend
        · cases hend
          rfl
      · cases hend
        rfl
    -- The tokens are all read, and an expression is still open.
    exact .end (hlexemes ▸ hrun) hend.symm
  · have hl : l ∈ Token.scanAll text.toList := hlexemes ▸ List.mem_append_right _ (by simp)
    rcases Reading.misplaced_of_advance hadvance with rfl | ⟨htoken, stack, rfl, hroom⟩
    · exact .left hl
    · obtain ⟨c, cs, hstart, -, ⟨hgap, hcomment⟩, hscan⟩ := Token.exists_scan_of_mem hl
      rcases Token.scan_unfinished (hscan.symm.trans htoken) with rfl | ⟨rfl, more, d, hfinished⟩
      · exact hstart ▸ .left hl
      -- The last token was cut off by the end of the text and can be finished.
      · have hscans : ∀ rest, Token.startsWithSymbolChar rest = false →
            Scans (l.start ++ more) [.atom d] rest := by
          intro rest hrest
          rw [hstart, List.cons_append]
          exact Scans.single hgap hcomment (by rw [List.append_assoc, hfinished rest hrest]) rfl
        exact .token hlexemes hrun hroom hscans

/-- A text of which nothing is left can be completed. -/
theorem Lacks.exists_completion {rest : List Char} (h : Lacks text.toList rest) (hrest : rest = []) :
    ∃ more d, read (text ++ more) = .ok d := by
  cases h with
  | «end» hrun hopen =>
    -- The text may end in a comment, which a line end closes.
    obtain ⟨more, tokens, d, hscan, hcompleted⟩ := Reading.exists_completion hopen
    have htext : (text ++ String.ofList ('\n' :: more)).toList = text.toList ++ (['\n'] ++ more) := by
      simp
    have hnewline : Scans text.toList _ ('\n' :: (more ++ [])) :=
      Token.scans_newline (fun l hl => hrun.not_fault _ (List.mem_map_of_mem hl)) _
    have hmore := hnewline.append ((Scans.newline _).append hscan)
    rw [← htext] at hmore
    exact ⟨_, d, read_eq_ok_iff.2 (hmore.map_token ▸ hrun.trans hcompleted)⟩
  | @token before after l stack more d hlexemes hrun hroom hfinished =>
    -- The token is finished in its place, without a line end, and then the frames are closed.
    obtain ⟨n, d', hclosed⟩ := Reading.exists_run_of_place d stack
    have hclosers : Token.startsWithSymbolChar (List.replicate n ')' ++ []) = false := by
      cases n with
      | zero => rfl
      | succ n => exact (by decide : Token.isSymbolChar ')' = false)
    have hend := (hfinished _ hclosers).append (Reading.scans_closers n [])
    obtain ⟨lexemes, hall, htokens⟩ :=
      Token.scanAll_append_of_mem hlexemes (more ++ List.replicate n ')')
    refine ⟨String.ofList (more ++ List.replicate n ')'), d', ?_⟩
    rw [read_eq_ok_iff, String.toList_append, String.toList_ofList, hall, List.map_append, htokens,
      ← List.append_assoc, hend.map_token]
    exact hrun.trans (.step (.atom hroom d) hclosed)
  | @left l hl =>
    obtain ⟨c, cs, hstart, -⟩ := Token.exists_scan_of_mem hl
    rw [hrest] at hstart
    cases hstart

/-- White space that is left over begins a lexeme and does not separate tokens. -/
theorem Lacks.exists_of_blank {text rest : List Char} (h : Lacks text rest) (hne : rest ≠ [])
    (hblank : rest.all Text.isBlank = true) :
    ∃ l ∈ Token.scanAll text, ∃ c cs, l.start = c :: cs ∧ c ∈ text ∧ Text.isBlank c = true ∧
      Text.isGap c = false := by
  cases h with
  | «end» => exact absurd rfl hne
  | token => exact absurd rfl hne
  | @left l hl =>
    obtain ⟨c, cs, hstart, hsuffix, ⟨hgap, -⟩, -⟩ := Token.exists_scan_of_mem hl
    rw [hstart] at hblank
    exact ⟨l, hl, c, cs, hstart, hsuffix.subset (List.mem_cons_self ..),
      List.all_eq_true.1 hblank c (List.mem_cons_self ..), hgap⟩

/-- A text with white space in the place of a token is not read, however it goes on. -/
theorem not_read_append_of_blank {l : Lexeme} (hl : l ∈ Token.scanAll text.toList) {c : Char}
    {cs : List Char} (hstart : l.start = c :: cs) (hblank : Text.isBlank c = true)
    (hgap : Text.isGap c = false) (more : String) (d : Datum) : read (text ++ more) ≠ .ok d := by
  intro h
  obtain ⟨before, after, hlexemes⟩ := List.append_of_mem hl
  obtain ⟨lexemes, hall, -⟩ := Token.scanAll_append_of_mem hlexemes more.toList
  have hcomment : c ≠ ';' := by
    rintro rfl
    exact absurd hblank (by decide)
  have hskip := Token.skipGaps_of_head ⟨hgap, hcomment⟩ (cs ++ more.toList)
  rw [hstart, List.cons_append, Token.scanAll_cons hskip, Token.scan_of_isBlank hblank] at hall
  have hrun := read_eq_ok_iff.1 h
  rw [String.toList_append, hall] at hrun
  have hfault := hrun.not_fault (.fault ⟨.misplaced, c :: (cs ++ more.toList)⟩) (by simp)
  cases hfault

/-- **What an incomplete text lacks.** A text that is reported as incomplete can be completed exactly if
the report names no character, so exactly if all of the text was understood. That is so if the only white
space in the text is such as separates tokens. -/
theorem read_append_of_incomplete (h : read text = .error e) (hkind : e.kind = .incomplete) :
    ((∃ more d, read (text ++ more) = .ok d) ↔ e.found = none) ∧
      ((∀ c ∈ text.toList, Text.isBlank c = true → Text.isGap c = true) →
        ∃ more d, read (text ++ more) = .ok d) := by
  obtain ⟨rest, hfirst, hblank, hfound⟩ := exists_fault_of_incomplete h hkind
  have hlacks := lacks_of_first hfirst
  have hnone : e.found = none ↔ rest = [] := by
    rw [hfound, Option.map_eq_none_iff, List.head?_eq_none_iff]
  rw [hnone]
  refine ⟨⟨fun hread => ?_, hlacks.exists_completion⟩, fun hgaps => ?_⟩
  · by_contra hne
    -- What is left begins with white space that is no separator, and that stays so.
    obtain ⟨l, hl, c, cs, hstart, -, hblank, hgap⟩ := hlacks.exists_of_blank hne hblank
    obtain ⟨more, d, hread⟩ := hread
    exact not_read_append_of_blank hl hstart hblank hgap more d hread
  · refine hlacks.exists_completion ?_
    by_contra hne
    obtain ⟨-, -, c, -, -, hc, hblank, hgap⟩ := hlacks.exists_of_blank hne hblank
    rw [hgaps c hc hblank] at hgap
    cases hgap

/-- A list that ends in an unfinished string, `(a "b`, can be completed. -/
theorem read_append_of_incomplete_string :
    ∃ e, read "(a \"b" = .error e ∧ e.kind = .incomplete ∧ e.found = none ∧
      ∃ more d, read ("(a \"b" ++ more) = .ok d := by
  have hcheck : (match read "(a \"b" with
      | .ok _ => false
      | .error e => e.kind = .incomplete && e.found.isNone) = true := by decide +kernel
  cases hread : read "(a \"b" with
  | ok d =>
    rw [hread] at hcheck
    cases hcheck
  | error e =>
    simp only [hread, Bool.and_eq_true, decide_eq_true_eq, Option.isNone_iff_eq_none] at hcheck
    exact ⟨e, rfl, hcheck.1, hcheck.2, (read_append_of_incomplete hread hcheck.1).1.2 hcheck.2⟩

/-- A no-break space is reported as an incomplete text, and no text that begins with it is read. -/
theorem not_read_append_of_incomplete_space :
    (∃ e, read "\u00a0" = .error e ∧ e.kind = .incomplete) ∧
      ∀ more d, read ("\u00a0" ++ more) ≠ .ok d := by
  constructor
  · have hcheck : (match read "\u00a0" with
        | .ok _ => false
        | .error e => decide (e.kind = .incomplete)) = true := by decide +kernel
    cases hread : read "\u00a0" with
    | ok d =>
      rw [hread] at hcheck
      cases hcheck
    | error e =>
      rw [hread] at hcheck
      exact ⟨e, rfl, of_decide_eq_true hcheck⟩
  · have hscan : Token.scanAll "\u00a0".toList = _ := Token.scanAll_cons rfl
    exact not_read_append_of_blank (hscan ▸ List.mem_cons_self ..) rfl (by decide) (by decide)

end Datum

end CurryLisp
