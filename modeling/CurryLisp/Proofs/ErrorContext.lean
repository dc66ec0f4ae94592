import CurryLisp.Proofs.Completion

/-!
# The text around a fault

A report of a fault that names the character at which reading stopped also shows a part of the text. The
part begins twenty characters before the offset of the fault and has at most a hundred characters; marks
show where the text goes on.

The offset is a number of bytes, and the part is cut out by a number of characters. Both are the same
number in front of which all characters take one byte. Every byte more moves the part further behind the
character it should show, so it shows that character exactly if the characters in front of it take at
most twenty bytes more than there are characters.

Statements:

* `Token.within_of_mem`: where tokens begin, end and are at fault is left of the text.
* `Reading.rest_suffix_of_first`, `Reading.rest_suffix_of_each`: so is that where reading stops.
* `ParseError.contains_iff`: which windows show the character.
* `Datum.context_of_error`: **what a report shows of the text**.
-/

namespace CurryLisp

/-! ## Where tokens are at fault -/

namespace Token

theorem fault_of_delimited {start rest : List Char} {d : Datum} {f : Fault}
    (h : (delimited start rest d).1 = .fault f) : f.rest = start := by
  unfold delimited at h
  split at h
  · cases h
    rfl
  · cases h

/-- A form behind `#` is at fault where it begins, or where the text ends. -/
theorem fault_of_scanHash {start cs : List Char} {f : Fault}
    (h : (scanHash start cs).1 = .fault f) : f.rest = start ∨ f.rest = [] := by
  cases cs with
  | nil =>
    cases h
    exact .inl rfl
  | cons c cs =>
    rw [scanHash] at h
    split_ifs at h
    · unfold scanChar at h
      split at h
      · cases h
      · split at h
        · cases h
          exact .inr rfl
        · exact .inl (fault_of_delimited h)
    · unfold scanHex at h
      dsimp only at h
      split at h
      · cases h
        exact .inl rfl
      · split at h
        · exact .inl (fault_of_delimited h)
        · cases h
          exact .inl rfl
    · exact .inl (fault_of_delimited h)
    · exact .inl (fault_of_delimited h)
    · cases h
      exact .inl rfl

/-- A string is at fault inside its text. -/
theorem fault_of_scanString {cs : List Char} {f : Fault} (h : scanString cs = .error f) :
    f.rest <:+ cs := by
  fun_induction scanString cs with
  | case1 =>
    cases h
    exact List.suffix_refl _
  | case2 => cases h
  | case3 =>
    cases h
    exact List.nil_suffix
  | case4 letter cs c hc ih =>
    exact (ih (eq_error_of_map h)).trans ((List.suffix_cons _ _).trans (List.suffix_cons _ _))
  | case5 =>
    cases h
    exact List.suffix_refl _
  | case6 c cs _ _ _ ih => exact (ih (eq_error_of_map h)).trans (List.suffix_cons _ _)

/-- A token is at fault inside the text that it begins. -/
theorem fault_of_scan {c : Char} {cs : List Char} {f : Fault} (h : (scan c cs).1 = .fault f) :
    f.rest <:+ c :: cs := by
  unfold scan at h
  split_ifs at h
  · rcases fault_of_scanHash h with hrest | hrest
    · exact hrest ▸ List.suffix_refl _
    · exact hrest ▸ List.nil_suffix
  · split at h
    · cases h
    · next hstring =>
      cases h
      exact (fault_of_scanString hstring).trans (List.suffix_cons _ _)
  · dsimp only at h
    split at h
    · cases h
      exact List.suffix_refl _
    · cases h
  · exact rest_of_ofWord h ▸ List.suffix_refl _
  · cases h
    exact List.suffix_refl _

end Token

/-- A lexeme begins, ends and is at fault inside the text. -/
structure Lexeme.Within (text : List Char) (l : Lexeme) : Prop where
  start : l.start <:+ text
  rest : l.rest <:+ text
  fault : ∀ f, l.token = .fault f → f.rest <:+ text

theorem Lexeme.Within.trans {text text' : List Char} {l : Lexeme} (h : l.Within text)
    (htext : text <:+ text') : l.Within text' :=
  ⟨h.start.trans htext, h.rest.trans htext, fun f hf => (h.fault f hf).trans htext⟩

/-- **Every lexeme of a text is inside it.** -/
theorem Token.within_of_mem {text : List Char} {l : Lexeme} (hl : l ∈ scanAll text) :
    l.Within text := by
  induction text using scanAll.induct with
  | case1 text hskip =>
    rw [scanAll_of_skipGaps hskip] at hl
    cases hl
  | case2 text c rest hskip found ih =>
    have hsuffix := skipGaps_suffix false text
    rw [hskip] at hsuffix
    have hrest := ((scan_rest_suffix c rest).trans (List.suffix_cons c rest)).trans hsuffix
    rw [scanAll_cons hskip] at hl
    rcases List.mem_cons.1 hl with rfl | hl
    · exact ⟨hsuffix, hrest, fun f hf => (fault_of_scan hf).trans hsuffix⟩
    · split at hl
      · cases hl
      · exact (ih hl).trans hrest

/-! ## Where reading stops -/

namespace Reading

section Faults

variable {text unread : List Char} {l : Lexeme} {ls : List Lexeme} {pending : Pending} {f : Fault}

theorem rest_of_beginExpression {stack : List Frame}
    (h : beginExpression unread l stack = .error f) :
    f.rest = unread ∨ f.rest = l.start ∨ l.token = .fault f := by
  unfold beginExpression at h
  split at h
  · cases h
    cases stack with
    | nil => exact .inl rfl
    | cons frame stack => cases frame <;> simp [deepStart]
  · split at h
    · cases h
    · cases h
    · cases h
    · next htoken =>
      cases h
      exact .inr (.inr htoken)
    · cases h
      exact .inr (.inl rfl)
    · cases h
      exact .inr (.inl rfl)

/-- A lexeme that is not accepted is at fault behind the one before, at its start or inside. -/
theorem rest_of_advance (h : advance unread l pending = .error f) :
    f.rest = unread ∨ f.rest = l.start ∨ l.token = .fault f := by
  unfold advance at h
  split at h
  · split at h
    · cases h
    · split at h
      · exact rest_of_beginExpression h
      · cases h
    · exact rest_of_beginExpression h
  · exact rest_of_beginExpression h
  · split at h
    · cases h
    · cases h
      exact .inr (.inl rfl)

theorem rest_suffix_of_advance (hunread : unread <:+ text) (hl : l.Within text)
    (h : advance unread l pending = .error f) : f.rest <:+ text := by
  rcases rest_of_advance h with hrest | hrest | htoken
  · exact hrest ▸ hunread
  · exact hrest ▸ hl.start
  · exact hl.fault f htoken

theorem rest_suffix_atEnd (hunread : unread <:+ text) (pending : Pending) :
    (atEnd unread pending).rest <:+ text := by
  unfold atEnd
  split
  · next stack =>
    split
    · cases stack with
      | nil => exact hunread
      | cons frame stack =>
        cases frame with
        | list items => exact List.nil_suffix
        | tail items => exact hunread
        | quote => exact hunread
    · exact List.nil_suffix
  · exact List.nil_suffix

/-- **Where reading one datum stops is left of the text.** -/
theorem rest_suffix_of_first (hunread : unread <:+ text) (hls : ∀ l ∈ ls, l.Within text)
    (h : first unread ls pending = .error f) : f.rest <:+ text := by
  induction ls generalizing unread pending with
  | nil =>
    cases h
    exact rest_suffix_atEnd hunread pending
  | cons l ls ih =>
    obtain ⟨hl, hls⟩ := List.forall_mem_cons.1 hls
    rw [first_cons] at h
    split at h
    · next hadvance =>
      cases h
      exact rest_suffix_of_advance hunread hl hadvance
    · next progress _ =>
      cases progress with
      | complete d => cases h
      | more pending => exact ih hl.rest hls h

/-- **Where reading all data stops is left of the text.** -/
theorem rest_suffix_of_each (hunread : unread <:+ text) (hls : ∀ l ∈ ls, l.Within text)
    (h : each unread ls pending = .error f) : f.rest <:+ text := by
  induction ls generalizing unread pending with
  | nil =>
    unfold each at h
    split at h
    · cases h
    · cases h
      exact rest_suffix_atEnd hunread _
    · next hcons => cases hcons
  | cons l ls ih =>
    obtain ⟨hl, hls⟩ := List.forall_mem_cons.1 hls
    rw [each] at h
    split at h
    · next hadvance =>
      cases h
      exact rest_suffix_of_advance hunread hl hadvance
    · exact ih hl.rest hls (Token.eq_error_of_map h)
    · exact ih hl.rest hls h

end Faults

end Reading

namespace Datum

/-- What is left of a text where reading one datum stops, unless the text is read. -/
def readStop? (text : String) : Option (List Char) :=
  match Reading.first text.toList (Token.scanAll text.toList) (.expression []) with
  | .error f => some f.rest
  | .ok (_, []) => none
  | .ok (_, l :: _) => some l.start

/-- What is left of a text where reading all data stops, unless the text is read. -/
def readAllStop? (text : String) : Option (List Char) :=
  match Reading.each text.toList (Token.scanAll text.toList) (.expression []) with
  | .error f => some f.rest
  | .ok _ => none

end Datum

/-! ## Windows -/

theorem byteLength_append (cs ds : List Char) :
    byteLength (cs ++ ds) = byteLength cs + byteLength ds := by
  induction cs with
  | nil => simp [byteLength]
  | cons c cs ih =>
    simp only [byteLength, List.cons_append, List.foldr_cons] at ih ⊢
    omega

theorem length_le_byteLength (cs : List Char) : cs.length ≤ byteLength cs := by
  induction cs with
  | nil => simp
  | cons c cs ih =>
    have hpos := c.utf8Size_pos
    simp only [byteLength, List.length_cons, List.foldr_cons] at ih ⊢
    omega

/-- Characters of one byte. -/
theorem byteLength_of_ascii {cs : List Char} (h : ∀ c ∈ cs, c.toNat < 128) :
    byteLength cs = cs.length := by
  induction cs with
  | nil => rfl
  | cons c cs ih =>
    obtain ⟨hc, hcs⟩ := List.forall_mem_cons.1 h
    have hsize : c.utf8Size = 1 := by
      rw [Char.utf8Size_eq_one_iff, UInt32.le_iff_toNat_le]
      exact Nat.le_of_lt_succ hc
    have ih := ih hcs
    simp only [byteLength, List.length_cons, List.foldr_cons] at ih ⊢
    omega

namespace ParseError

/-- `context` shows a part of the text, at most a hundred characters from `start` on. It is written on
one line, with a mark in front if the text begins before it, and a mark behind if the text goes on. -/
structure Excerpt (text : List Char) (start : Nat) (shown : List Char) (context : String) : Prop where
  part : shown = (text.drop start).take shown.length
  short : shown.length ≤ 100
  context : context.toList = (if 0 < start then windowMark else []) ++ onOneLine shown ++
    (if start + shown.length < text.length then windowMark else [])

theorem onOneLine_append (cs ds : List Char) :
    onOneLine (cs ++ ds) = onOneLine cs ++ onOneLine ds := List.flatMap_append

/-- A window is an excerpt. -/
theorem excerpt_window (text : List Char) (offset : Nat) :
    Excerpt text (offset - windowLead) ((text.drop (offset - windowLead)).take windowSize)
      (String.ofList (window text offset)) where
  part := by simp
  short := by simp [windowSize]
  context := by
    rw [String.toList_ofList, window, onOneLine_append, onOneLine_append]
    congr 2
    · split <;> rfl
    · split <;> rfl

/-- The character behind `before` is shown in what begins at `start`. -/
def Contains (start : Nat) (shown before : List Char) (c : Char) : Prop :=
  start ≤ before.length ∧ shown[before.length - start]? = some c

/-- **A window shows a character if it does not begin behind it.** -/
theorem contains_iff {text before after : List Char} {c : Char} (htext : text = before ++ c :: after) :
    Contains (byteLength before - windowLead)
        ((text.drop (byteLength before - windowLead)).take windowSize) before c ↔
      byteLength before ≤ before.length + windowLead := by
  have hbytes := length_le_byteLength before
  have hplace : text[before.length]? = some c := by simp [htext]
  unfold Contains windowLead windowSize at *
  constructor
  · rintro ⟨hstart, -⟩
    omega
  · intro hle
    refine ⟨by omega, ?_⟩
    rw [List.getElem?_take_of_lt (by omega), List.getElem?_drop]
    rwa [Nat.add_sub_cancel' (by omega)]

end ParseError

theorem Fault.context_report (input : List Char) (f : Fault) :
    (f.report input).context =
      some (String.ofList (ParseError.window input (byteLength input - byteLength f.rest))) := by
  obtain ⟨kind, rest⟩ := f
  cases kind with
  | misplaced =>
    simp only [report]
    split <;> rfl
  | _ => rfl

/-! ## What a report shows -/

namespace Datum

open ParseError (Contains Excerpt)

variable {text : String} {e : ParseError}

/-- The report of a text, and where reading stops. -/
structure Stops (text : String) (e : ParseError) (rest : List Char) : Prop where
  suffix : rest <:+ text.toList
  found : e.found = rest.head?.map Char.toString
  context : e.context = some (String.ofList
    (ParseError.window text.toList (byteLength text.toList - byteLength rest)))

theorem stops_of_read (h : read text = .error e) :
    ∃ rest, readStop? text = some rest ∧ Stops text e rest := by
  have hall : ∀ l ∈ Token.scanAll text.toList, l.Within text.toList := fun _ => Token.within_of_mem
  unfold read at h
  unfold readStop?
  dsimp only at h
  rcases hfirst : Reading.first text.toList (Token.scanAll text.toList) (.expression []) with
    f | ⟨d, _ | ⟨l, ls⟩⟩
  · rw [hfirst] at h
    cases h
    have hsuffix := Reading.rest_suffix_of_first (List.suffix_refl _) hall hfirst
    exact ⟨f.rest, rfl, hsuffix, f.found_report _, f.context_report _⟩
  · rw [hfirst] at h
    cases h
  · rw [hfirst] at h
    cases h
    obtain ⟨lexemes, hlexemes, -⟩ := Reading.exists_run_of_first hfirst
    have hl := hall l (hlexemes ▸ List.mem_append_right _ (List.mem_cons_self ..))
    exact ⟨l.start, rfl, hl.start, rfl, rfl⟩

theorem stops_of_readAll (h : readAll text = .error e) :
    ∃ rest, readAllStop? text = some rest ∧ Stops text e rest := by
  have hall : ∀ l ∈ Token.scanAll text.toList, l.Within text.toList := fun _ => Token.within_of_mem
  unfold readAll at h
  unfold readAllStop?
  dsimp only at h
  cases heach : Reading.each text.toList (Token.scanAll text.toList) (.expression []) with
  | ok ds =>
    rw [heach] at h
    cases h
  | error f =>
    rw [heach] at h
    cases h
    have hsuffix := Reading.rest_suffix_of_each (List.suffix_refl _) hall heach
    exact ⟨f.rest, rfl, hsuffix, f.found_report _, f.context_report _⟩

/-- **What a report shows of the text.** A report that names a character names the one at which reading
stopped, and shows an excerpt of the text. That excerpt contains the character exactly if the characters
in front of it take at most twenty bytes more than there are of them, so in particular if each of them
takes one byte. -/
theorem context_of_error {found : String} (h : read text = .error e ∨ readAll text = .error e)
    (hfound : e.found = some found) :
    ∃ before c after start shown context, text.toList = before ++ c :: after ∧
      (read text = .error e ∧ readStop? text = some (c :: after) ∨
        readAll text = .error e ∧ readAllStop? text = some (c :: after)) ∧
      found = c.toString ∧ e.context = some context ∧ Excerpt text.toList start shown context ∧
      (Contains start shown before c ↔ byteLength before ≤ before.length + 20) ∧
      ((∀ d ∈ before, d.toNat < 128) → Contains start shown before c) := by
  obtain ⟨rest, hstop, hstops⟩ : ∃ rest, (read text = .error e ∧ readStop? text = some rest ∨
      readAll text = .error e ∧ readAllStop? text = some rest) ∧ Stops text e rest := by
    rcases h with h | h
    · obtain ⟨rest, hstop, hstops⟩ := stops_of_read h
      exact ⟨rest, .inl ⟨h, hstop⟩, hstops⟩
    · obtain ⟨rest, hstop, hstops⟩ := stops_of_readAll h
      exact ⟨rest, .inr ⟨h, hstop⟩, hstops⟩
  cases rest with
  | nil =>
    rw [hstops.found] at hfound
    cases hfound
  | cons c after =>
    obtain ⟨before, htext⟩ := hstops.suffix
    -- The offset is the number of bytes in front of the character.
    have hoffset : byteLength text.toList - byteLength (c :: after) = byteLength before := by
      rw [← htext, byteLength_append, Nat.add_sub_cancel]
    have hcontains := ParseError.contains_iff htext.symm
    have hcontext := hstops.context
    rw [hoffset] at hcontext
    refine ⟨before, c, after, _, _, _, htext.symm, hstop, ?_, hcontext,
      ParseError.excerpt_window _ _, hcontains, fun hascii => hcontains.2 ?_⟩
    · rw [hstops.found] at hfound
      exact (Option.some.inj hfound).symm
    · rw [byteLength_of_ascii hascii]
      exact Nat.le_add_right _ _

/-- A list with a character that begins no expression, `(list 1 @ 2)`: all of it is shown. -/
theorem context_of_error_at :
    ∃ e, read "(list 1 @ 2)" = .error e ∧ e.found = some "@" ∧ e.context = some "(list 1 @ 2)" ∧
      ∃ before c after start shown context, "(list 1 @ 2)".toList = before ++ c :: after ∧
        "@" = c.toString ∧ e.context = some context ∧
        Excerpt "(list 1 @ 2)".toList start shown context ∧
        (Contains start shown before c ↔ byteLength before ≤ before.length + 20) := by
  have hcheck : (match read "(list 1 @ 2)" with
      | .ok _ => false
      | .error e => e.found = some "@" && e.context = some "(list 1 @ 2)") = true := by
    decide +kernel
  cases hread : read "(list 1 @ 2)" with
  | ok d =>
    rw [hread] at hcheck
    cases hcheck
  | error e =>
    simp only [hread, Bool.and_eq_true, decide_eq_true_eq] at hcheck
    obtain ⟨before, c, after, start, shown, context, htext, -, hfound, hcontext, hexcerpt, hcontains,
      -⟩ := context_of_error (.inl hread) hcheck.1
    exact ⟨e, rfl, hcheck.1, hcheck.2, before, c, after, start, shown, context, htext, hfound,
      hcontext, hexcerpt, hcontains⟩

/-- Behind twenty-one letters of two bytes each reading stops at a character that is not shown: nothing
of the text is. -/
theorem not_context_of_error_letters :
    let text := String.ofList (List.replicate 21 'é' ++ ['@'])
    ∃ e context, read text = .error e ∧ readStop? text = some ['@'] ∧ e.found = some "@" ∧
      e.context = some context ∧ context = "[...]" ∧ '@' ∉ context.toList := by
  intro text
  have hcheck : (match read text with
      | .ok _ => false
      | .error e => e.found = some "@" && e.context = some "[...]") = true := by
    decide +kernel
  have hstop : readStop? text = some ['@'] := by decide +kernel
  cases hread : read text with
  | ok d =>
    rw [hread] at hcheck
    cases hcheck
  | error e =>
    simp only [hread, Bool.and_eq_true, decide_eq_true_eq] at hcheck
    exact ⟨e, "[...]", rfl, hstop, hcheck.1, hcheck.2, rfl, by decide⟩

end Datum

end CurryLisp
