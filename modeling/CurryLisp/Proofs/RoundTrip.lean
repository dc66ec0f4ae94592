import CurryLisp.Proofs.Doubles
import CurryLisp.Session

/-!
# Reading undoes writing

A datum that can be read is read back from its text, unless it is nested too deeply: the reader keeps
fewer than `Reading.maxDepth` frames, and a datum of that nesting needs one more. The text of a finite
double is read as the double (`Decimal.readBack_eq`).

Statements:

* `Datum.spells_spell`: the text of a datum is scanned to its tokens.
* `Reading.readsAs_tokens`: the reader makes a datum of its tokens if there is room for its nesting,
  and complains of the nesting otherwise.
* `Datum.read_write_eq`, `Value.read_write`: the text of a datum or a value is read back, or refused as
  too deep.
-/

namespace CurryLisp

namespace Datum

/-! ## Data that can be read -/

/-- Whether names, types and numbers are such as source text can spell. -/
def isReadable : Datum → Bool
  | float x => x.isFinite
  | symbol name => Token.isSymbol name
  | type name =>
    match name.toList with
    | c :: word => c = ':' && !word.isEmpty && word.all Token.isSymbolChar
    | [] => false
  | quoted inner => inner.isReadable
  | pair car cdr => car.isReadable && cdr.isReadable
  | _ => true

/-- Nesting of quotes and chains: a chain is nested one deeper than its items and its tail. -/
def nesting : Datum → Nat
  | quoted inner => inner.nesting + 1
  | pair car nil => car.nesting + 1
  | pair car (pair car' cdr') => max (car.nesting + 1) (pair car' cdr').nesting
  | pair car last => max car.nesting last.nesting + 1
  | _ => 0

/-- The tokens behind the items of a chain, up to its end. -/
def tailTokens (tokens : Datum → List Token) : Option Datum → List Token
  | some last => .point :: tokens last
  | none => []

/-- The tokens of the spelling of a datum, `room` levels deep. -/
def tokens : Nat → Datum → List Token
  | 0, _ => [.atom (.symbol Spelling.ellipsis)]
  | room + 1, quoted inner => .quote :: tokens room inner
  | room + 1, pair car cdr =>
    .open :: (tokens room car ++ cdr.spine.1.flatMap (tokens room) ++
      tailTokens (tokens room) cdr.spine.2 ++ [.close])
  | _ + 1, d => [.atom d]

/-- The items of a chain that can be read can be read, and so can its tail. -/
theorem isReadable_spine {d : Datum} (hd : d.isReadable = true) :
    (∀ item ∈ d.spine.1, item.isReadable = true) ∧ ∀ last ∈ d.spine.2, last.isReadable = true := by
  induction d with
  | nil => simp [spine]
  | pair car cdr _ ih =>
    simp only [isReadable, Bool.and_eq_true] at hd
    obtain ⟨hitems, hlast⟩ := ih hd.2
    refine ⟨fun item hitem => ?_, hlast⟩
    rcases List.mem_cons.1 hitem with rfl | hitem
    · exact hd.1
    · exact hitems item hitem
  | _ =>
    refine ⟨by simp [spine], fun last hlast => ?_⟩
    cases hlast
    exact hd

/-! ## Scanning a spelling -/

open Token (Scans startsWithSymbolChar)

/-- A text that is scanned to these tokens wherever no character of a symbol follows. -/
def Spells (text : String) (tokens : List Token) : Prop :=
  ∀ rest, startsWithSymbolChar rest = false → Scans text.toList tokens rest

theorem Spells.quote {text : String} {tokens : List Token} (h : Spells text tokens) :
    Spells (Text.apostrophe.toString ++ text) (.quote :: tokens) := by
  intro rest hrest
  have hquote : Scans [Text.apostrophe] [.quote] (text.toList ++ rest) :=
    Scans.single (by decide) (by decide) (by simp [Token.scan, Text.apostrophe]) rfl
  have htext : (Text.apostrophe.toString ++ text).toList = [Text.apostrophe] ++ text.toList := by
    simp
  rw [htext]
  exact hquote.append (h rest hrest)

section Chains

variable {spell : Datum → String} {tokens : Datum → List Token}

/-- Items with spaces between them. -/
theorem spells_items {items : List Datum} (hne : items ≠ [])
    (h : ∀ item ∈ items, Spells (spell item) (tokens item)) :
    Spells (" ".intercalate (items.map spell)) (items.flatMap tokens) := by
  induction items with
  | nil => exact absurd rfl hne
  | cons item items ih =>
    intro rest hrest
    have hitem := h item (List.mem_cons_self ..)
    cases items with
    | nil => simpa using hitem rest hrest
    | cons item' items =>
      have hitems := ih (List.cons_ne_nil _ _) fun d hd => h d (List.mem_cons_of_mem _ hd)
      have htext : (" ".intercalate ((item :: item' :: items).map spell)).toList =
          (spell item).toList ++
            ([' '] ++ (" ".intercalate ((item' :: items).map spell)).toList) := by
        simp [String.intercalate_cons_cons]
      rw [htext, List.flatMap_cons]
      exact (hitem _ rfl).append ((Scans.space _).append (hitems rest hrest))

/-- The text behind the items of a chain, up to its end. -/
def tailText (spell : Datum → String) : Option Datum → String
  | some last => " . " ++ spell last
  | none => ""

/-- The tail of a chain behind its point. -/
theorem scans_tail {tail : Option Datum} (h : ∀ last ∈ tail, Spells (spell last) (tokens last))
    (rest : List Char) :
    Scans (tailText spell tail).toList (tailTokens tokens tail) (')' :: rest) := by
  cases tail with
  | none => exact Scans.nil _
  | some last =>
    have hlast := (Scans.space _).append (h last rfl (')' :: rest) rfl)
    have hpoint : Scans ['.'] [.point] ([' '] ++ (spell last).toList ++ ')' :: rest) :=
      Scans.word (by decide) rfl (fun _ => rfl) rfl
    have htext : (tailText spell (some last)).toList =
        [' '] ++ (['.'] ++ ([' '] ++ (spell last).toList)) := by
      simp [tailText]
    rw [htext]
    exact (Scans.space _).append (hpoint.append hlast)

/-- A chain between parentheses. -/
theorem spells_chain {items : List Datum} {tail : Option Datum} (hne : items ≠ [])
    (hitems : ∀ item ∈ items, Spells (spell item) (tokens item))
    (htail : ∀ last ∈ tail, Spells (spell last) (tokens last)) :
    Spells (Spelling.chain (items.map spell) (tail.map spell))
      (.open :: (items.flatMap tokens ++ tailTokens tokens tail ++ [.close])) := by
  intro rest hrest
  have hopen : ∀ cs, Scans ['('] [.open] cs := fun cs =>
    Scans.single (by decide) (by decide) (by simp [Token.scan]) rfl
  have hclose : Scans [')'] [.close] rest :=
    Scans.single (by decide) (by decide) (by simp [Token.scan]) rfl
  have hstart : startsWithSymbolChar ((tailText spell tail).toList ++ ([')'] ++ rest)) = false := by
    cases tail with
    | none => rfl
    | some last =>
      have htext : (tailText spell (some last)).toList = ' ' :: (". " ++ spell last).toList := by
        simp [tailText]
      rw [htext]
      rfl
  have htext : (Spelling.chain (items.map spell) (tail.map spell)).toList =
      ['('] ++ ((" ".intercalate (items.map spell)).toList ++ (tailText spell tail).toList ++
        [')']) := by
    cases tail <;> simp [Spelling.chain, tailText]
  have hinside := (spells_items hne hitems _ hstart).append (scans_tail htail rest)
  rw [htext]
  exact (hopen _).append (hinside.append hclose)

end Chains

/-- **The spelling of a datum is scanned to its tokens.** -/
theorem spells_spell (room : Nat) {d : Datum} (hd : d.isReadable = true) :
    Spells (d.spell .written room) (d.tokens room) := by
  induction room generalizing d with
  | zero => exact fun rest hrest => Token.scans_ellipsis hrest
  | succ room ih =>
    cases d with
    | nil => exact fun rest hrest => Token.scans_nil hrest
    | truth => exact fun rest hrest => Token.scans_truth hrest
    | integer n => exact fun rest hrest => Token.scans_integer n hrest
    | float x =>
      intro rest hrest
      have hscans := Token.scans_double hd hrest
      rwa [Decimal.readBack_eq hd] at hscans
    | char c => exact fun rest hrest => Token.scans_char c hrest
    | string text => exact fun rest _ => Token.scans_string text rest
    | symbol name => exact fun rest hrest => Token.scans_symbol hd hrest
    | type name =>
      simp only [isReadable] at hd
      split at hd
      · next c word hname =>
        simp only [Bool.and_eq_true, decide_eq_true_eq, Bool.not_eq_true',
          List.isEmpty_eq_false_iff] at hd
        obtain ⟨⟨rfl, hne⟩, hword⟩ := hd
        exact fun rest hrest => Token.scans_type hname hne hword hrest
      · cases hd
    | quoted inner =>
      have hinner : inner.isReadable = true := hd
      exact (ih hinner).quote
    | pair car cdr =>
      simp only [isReadable, Bool.and_eq_true] at hd
      obtain ⟨hitems, htail⟩ := isReadable_spine hd.2
      have hparts : ∀ item ∈ car :: cdr.spine.1,
          Spells (item.spell .written room) (item.tokens room) := by
        intro item hitem
        rcases List.mem_cons.1 hitem with rfl | hitem
        · exact ih hd.1
        · exact ih (hitems item hitem)
      have hchain := spells_chain (List.cons_ne_nil _ _) hparts fun last hlast =>
        ih (htail last hlast)
      simpa [spell, tokens] using hchain

/-! ## Nesting -/

/-- The nesting of the most deeply nested of several data. -/
def deepest (ds : List Datum) : Nat := ds.foldr (fun d n => max d.nesting n) 0

theorem deepest_cons (d : Datum) (ds : List Datum) :
    deepest (d :: ds) = max d.nesting (deepest ds) := rfl

theorem nesting_le_deepest {d : Datum} {ds : List Datum} (hd : d ∈ ds) :
    d.nesting ≤ deepest ds := by
  induction ds with
  | nil => cases hd
  | cons d' ds ih =>
    rw [deepest_cons]
    rcases List.mem_cons.1 hd with rfl | hd
    · exact Nat.le_max_left _ _
    · exact Nat.le_trans (ih hd) (Nat.le_max_right _ _)

theorem exists_nesting_eq_deepest {ds : List Datum} (hne : ds ≠ []) :
    ∃ d ∈ ds, d.nesting = deepest ds := by
  induction ds with
  | nil => exact absurd rfl hne
  | cons d ds ih =>
    rw [deepest_cons]
    by_cases h : deepest ds ≤ d.nesting
    · exact ⟨d, List.mem_cons_self .., (Nat.max_eq_left h).symm⟩
    · have hds : ds ≠ [] := by
        rintro rfl
        exact h (Nat.zero_le _)
      obtain ⟨d', hd', heq⟩ := ih hds
      refine ⟨d', List.mem_cons_of_mem _ hd', ?_⟩
      rw [heq, Nat.max_eq_right (by omega)]

/-- The items of a chain, and its tail. -/
def parts (d : Datum) : List Datum := d.spine.1 ++ d.spine.2.toList

/-- **A chain is nested one deeper than its items and its tail.** -/
theorem nesting_pair (car cdr : Datum) :
    (pair car cdr).nesting = deepest (pair car cdr).parts + 1 := by
  have hcons : ∀ car cdr, (pair car cdr).parts = car :: cdr.parts := fun _ _ => rfl
  induction cdr generalizing car with
  | nil => simp [nesting, parts, spine, deepest]
  | pair car' cdr' _ ih =>
    rw [nesting, ih, hcons car (pair car' cdr'), deepest_cons]
    omega
  | _ => simp [nesting, parts, spine, deepest]

end Datum

namespace Reading

open Datum (tokens deepest)

/-! ## Reading tokens -/

/-- Reading goes on after a lexeme, unless a datum outside all lists is complete. -/
def resume (unread : List Char) (more : List Lexeme) : Progress → Except Fault (Datum × List Lexeme)
  | .complete d => .ok (d, more)
  | .more pending => first unread more pending

theorem first_cons (unread : List Char) (l : Lexeme) (ls : List Lexeme) (pending : Pending) :
    first unread (l :: ls) pending =
      match advance unread l pending with
      | .error fault => .error fault
      | .ok progress => resume l.rest ls progress := by
  rw [first]
  cases advance unread l pending with
  | error fault => rfl
  | ok progress => cases progress <;> rfl

/-- Any token but a closing parenthesis or a point begins an expression. -/
theorem advance_expression {unread : List Char} {l : Lexeme} (stack : List Frame)
    (hclose : l.token ≠ .close) (hpoint : l.token ≠ .point) :
    advance unread l (.expression stack) = beginExpression unread l stack := by
  cases stack with
  | nil => rfl
  | cons frame stack =>
    cases frame with
    | list items => simp only [advance]
    | tail items => rfl
    | quote => rfl

/-- The lexemes are read as `d` if there is room for its nesting, and refused otherwise. -/
def ReadsAs (stack : List Frame) (lexemes : List Lexeme) (d : Datum) : Prop :=
  ∀ unread more,
    (stack.length + d.nesting < maxDepth → ∃ unread',
      first unread (lexemes ++ more) (.expression stack) =
        resume unread' more (place d stack)) ∧
    (maxDepth ≤ stack.length + d.nesting → ∃ rest,
      first unread (lexemes ++ more) (.expression stack) = .error ⟨.tooDeep, rest⟩)

/-- Whatever begins an expression is refused where there is no room for an atom. -/
theorem first_tooDeep {unread : List Char} {l : Lexeme} {ls : List Lexeme} {stack : List Frame}
    (hstack : maxDepth ≤ stack.length) (hclose : l.token ≠ .close) (hpoint : l.token ≠ .point) :
    ∃ rest, first unread (l :: ls) (.expression stack) = .error ⟨.tooDeep, rest⟩ := by
  refine ⟨deepStart unread l.start stack, ?_⟩
  rw [first_cons, advance_expression stack hclose hpoint, beginExpression, if_pos hstack]

/-- It is enough to know how an expression is read where there is room for an atom. -/
theorem readsAs_of_room {stack : List Frame} {l : Lexeme} {ls : List Lexeme} {d : Datum}
    (hclose : l.token ≠ .close) (hpoint : l.token ≠ .point)
    (h : stack.length < maxDepth → ∀ unread more,
      (stack.length + d.nesting < maxDepth → ∃ unread',
        first unread (l :: (ls ++ more)) (.expression stack) =
          resume unread' more (place d stack)) ∧
      (maxDepth ≤ stack.length + d.nesting → ∃ rest,
        first unread (l :: (ls ++ more)) (.expression stack) = .error ⟨.tooDeep, rest⟩)) :
    ReadsAs stack (l :: ls) d := by
  intro unread more
  rw [List.cons_append]
  by_cases hstack : maxDepth ≤ stack.length
  · refine ⟨fun hroom => ?_, fun _ => first_tooDeep hstack hclose hpoint⟩
    omega
  · exact h (Nat.not_le.1 hstack) unread more

section Beginnings

variable {unread : List Char} {l : Lexeme} {ls : List Lexeme} {stack : List Frame}
  (hstack : stack.length < maxDepth)
include hstack

/-- Where there is room an atom is read at once. -/
theorem first_atom {d : Datum} (hl : l.token = .atom d) :
    first unread (l :: ls) (.expression stack) = resume l.rest ls (place d stack) := by
  rw [first_cons, advance_expression stack (by simp [hl]) (by simp [hl]), beginExpression,
    if_neg (Nat.not_le.2 hstack), hl]

/-- Where there is room an opening parenthesis begins a chain. -/
theorem first_open (hl : l.token = .open) :
    first unread (l :: ls) (.expression stack) =
      first l.rest ls (.expression (.list [] :: stack)) := by
  rw [first_cons, advance_expression stack (by simp [hl]) (by simp [hl]), beginExpression,
    if_neg (Nat.not_le.2 hstack), hl]
  rfl

/-- Where there is room a quote goes before another expression. -/
theorem first_quote (hl : l.token = .quote) :
    first unread (l :: ls) (.expression stack) =
      first l.rest ls (.expression (.quote :: stack)) := by
  rw [first_cons, advance_expression stack (by simp [hl]) (by simp [hl]), beginExpression,
    if_neg (Nat.not_le.2 hstack), hl]
  rfl

end Beginnings

theorem readsAs_atom {stack : List Frame} {l : Lexeme} {d : Datum} (hl : l.token = .atom d)
    (hd : d.nesting = 0) : ReadsAs stack [l] d := by
  refine readsAs_of_room (by simp [hl]) (by simp [hl]) fun hstack unread more => ?_
  rw [hd, Nat.add_zero, List.nil_append, first_atom hstack hl]
  exact ⟨fun _ => ⟨l.rest, rfl⟩, fun hdeep => absurd hstack (Nat.not_lt.2 hdeep)⟩

/-- A quote is read if what it quotes is read one deeper. -/
theorem readsAs_quoted {stack : List Frame} {l : Lexeme} {ls : List Lexeme} {inner : Datum}
    (hl : l.token = .quote) (h : ReadsAs (.quote :: stack) ls inner) :
    ReadsAs stack (l :: ls) (.quoted inner) := by
  have hdepth : (Frame.quote :: stack).length + inner.nesting =
      stack.length + (Datum.quoted inner).nesting := by
    simp only [List.length_cons, Datum.nesting]
    omega
  refine readsAs_of_room (by simp [hl]) (by simp [hl]) fun hstack unread more => ?_
  obtain ⟨hreads, hdeep⟩ := h l.rest more
  rw [first_quote hstack hl, ← hdepth]
  exact ⟨hreads, hdeep⟩

/-- Items are read in turn, up to the first one that is too deep. -/
theorem first_items {room : Nat} {stack : List Frame}
    (hitem : ∀ (d : Datum) (acc : List Datum) (lexemes : List Lexeme),
      lexemes.map (·.token) = d.tokens room → ReadsAs (.list acc :: stack) lexemes d)
    (items acc : List Datum) {lexemes : List Lexeme}
    (hlexemes : lexemes.map (·.token) = items.flatMap (tokens room)) (unread : List Char)
    (more : List Lexeme) :
    ((∀ d ∈ items, stack.length + 1 + d.nesting < maxDepth) → ∃ unread',
      first unread (lexemes ++ more) (.expression (.list acc :: stack)) =
        first unread' more (.expression (.list (items.reverse ++ acc) :: stack))) ∧
    ((∃ d ∈ items, maxDepth ≤ stack.length + 1 + d.nesting) → ∃ rest,
      first unread (lexemes ++ more) (.expression (.list acc :: stack)) =
        .error ⟨.tooDeep, rest⟩) := by
  induction items generalizing acc lexemes unread with
  | nil =>
    rw [List.flatMap_nil, List.map_eq_nil_iff] at hlexemes
    subst hlexemes
    refine ⟨fun _ => ⟨unread, rfl⟩, ?_⟩
    rintro ⟨d, hd, -⟩
    cases hd
  | cons item items ih =>
    rw [List.flatMap_cons] at hlexemes
    obtain ⟨ls, ls', rfl, hls, hls'⟩ := List.map_eq_append_iff.1 hlexemes
    obtain ⟨hreads, hdeep⟩ := hitem item acc ls hls unread (ls' ++ more)
    have hdepth : (Frame.list acc :: stack).length = stack.length + 1 := rfl
    rw [List.append_assoc]
    rw [hdepth] at hreads hdeep
    -- Either the first item is read and the others decide, or it is the one that is refused.
    by_cases hroom : stack.length + 1 + item.nesting < maxDepth
    · obtain ⟨unread', hfirst⟩ := hreads hroom
      obtain ⟨hrest, hrest'⟩ := ih (item :: acc) hls' unread'
      have hplace : first unread (ls ++ (ls' ++ more)) (.expression (.list acc :: stack)) =
          first unread' (ls' ++ more) (.expression (.list (item :: acc) :: stack)) := hfirst
      rw [hplace]
      refine ⟨fun hall => ?_, ?_⟩
      · obtain ⟨unread'', hitems⟩ := hrest fun d hd => hall d (List.mem_cons_of_mem _ hd)
        refine ⟨unread'', ?_⟩
        rw [hitems]
        simp
      · rintro ⟨d, hd, hdeep'⟩
        rcases List.mem_cons.1 hd with rfl | hd
        · omega
        · exact hrest' ⟨d, hd, hdeep'⟩
    · refine ⟨fun hall => ?_, fun _ => hdeep (Nat.not_lt.1 hroom)⟩
      exact absurd (hall item (List.mem_cons_self ..)) hroom

/-- The items of a chain, read in turn, make the chain. -/
theorem chainReverse_reverse (items : List Datum) (tail : Datum) :
    chainReverse items.reverse tail = Datum.chain items tail := by
  simp [chainReverse, Datum.chain]

theorem chain_spine (d : Datum) :
    Datum.chain d.spine.1 (d.spine.2.getD .nil) = d := by
  induction d with
  | pair car cdr _ ih => exact congrArg (Datum.pair car) ih
  | _ => rfl

/-- The end of a chain behind its items: a tail, if there is one, and the closing parenthesis. -/
theorem first_tail {room : Nat} {stack : List Frame} {acc : List Datum} (hacc : acc ≠ [])
    (hinside : ∀ (d : Datum) (lexemes : List Lexeme),
      lexemes.map (·.token) = d.tokens room → ReadsAs (.tail acc :: stack) lexemes d)
    (tail : Option Datum) {lexemes : List Lexeme}
    (hlexemes : lexemes.map (·.token) = Datum.tailTokens (tokens room) tail ++ [.close])
    (unread : List Char) (more : List Lexeme) :
    ((∀ d ∈ tail, stack.length + 1 + d.nesting < maxDepth) → ∃ unread',
      first unread (lexemes ++ more) (.expression (.list acc :: stack)) =
        resume unread' more (place (chainReverse acc (tail.getD .nil)) stack)) ∧
    ((∃ d ∈ tail, maxDepth ≤ stack.length + 1 + d.nesting) → ∃ rest,
      first unread (lexemes ++ more) (.expression (.list acc :: stack)) =
        .error ⟨.tooDeep, rest⟩) := by
  cases tail with
  | none =>
    obtain ⟨l, rfl, hl⟩ := List.map_eq_singleton_iff.1 hlexemes
    refine ⟨fun _ => ⟨l.rest, ?_⟩, ?_⟩
    · rw [List.singleton_append, first_cons, advance]
      simp only [hl]
      rfl
    · rintro ⟨d, hd, -⟩
      cases hd
  | some last =>
    obtain ⟨lpoint, ls, rfl, hpoint, hls⟩ := List.map_eq_cons_iff.1 hlexemes
    obtain ⟨ls, ls', rfl, hlast, hls'⟩ := List.map_eq_append_iff.1 hls
    obtain ⟨lclose, rfl, hclose⟩ := List.map_eq_singleton_iff.1 hls'
    have hempty : acc.isEmpty = false := List.isEmpty_eq_false_iff.2 hacc
    have hfirst : first unread (lpoint :: (ls ++ [lclose]) ++ more)
          (.expression (.list acc :: stack)) =
        first lpoint.rest (ls ++ ([lclose] ++ more)) (.expression (.tail acc :: stack)) := by
      rw [List.cons_append, first_cons, advance, List.append_assoc]
      simp only [hpoint, hempty]
      rfl
    obtain ⟨hreads, hdeep⟩ := hinside last ls hlast lpoint.rest ([lclose] ++ more)
    rw [hfirst]
    refine ⟨fun hfits => ?_, ?_⟩
    · obtain ⟨unread', hreads⟩ := hreads (hfits last rfl)
      refine ⟨lclose.rest, ?_⟩
      have hadvance : advance unread' lclose (.closing acc last stack) =
          .ok (place (chainReverse acc last) stack) := by
        simp [advance, hclose]
      rw [hreads]
      show first unread' (lclose :: more) (.closing acc last stack) = _
      rw [first_cons, hadvance]
      rfl
    · rintro ⟨d, hd, hdeep'⟩
      cases hd
      exact hdeep hdeep'

/-- A chain is read if there is room for its items and its tail, and refused if one of them is too
deep. -/
theorem first_chain {room : Nat} {stack : List Frame}
    (hinside : ∀ (d : Datum) (frame : Frame) (lexemes : List Lexeme),
      lexemes.map (·.token) = d.tokens room → ReadsAs (frame :: stack) lexemes d)
    {items : List Datum} (hitems : items ≠ []) (tail : Option Datum) {lexemes : List Lexeme}
    (hlexemes : lexemes.map (·.token) =
      items.flatMap (tokens room) ++ (Datum.tailTokens (tokens room) tail ++ [.close]))
    (unread : List Char) (more : List Lexeme) :
    ((∀ d ∈ items ++ tail.toList, stack.length + 1 + d.nesting < maxDepth) → ∃ unread',
      first unread (lexemes ++ more) (.expression (.list [] :: stack)) =
        resume unread' more (place (Datum.chain items (tail.getD .nil)) stack)) ∧
    ((∃ d ∈ items ++ tail.toList, maxDepth ≤ stack.length + 1 + d.nesting) → ∃ rest,
      first unread (lexemes ++ more) (.expression (.list [] :: stack)) =
        .error ⟨.tooDeep, rest⟩) := by
  obtain ⟨ls, ls', rfl, hls, hls'⟩ := List.map_eq_append_iff.1 hlexemes
  obtain ⟨hfit, hdeep⟩ :=
    first_items (fun d acc => hinside d (.list acc)) items [] hls unread (ls' ++ more)
  have hacc : items.reverse ≠ [] := by simpa using hitems
  have htail := fun unread' =>
    first_tail hacc (fun d => hinside d (.tail _)) tail hls' unread' more
  rw [List.append_nil] at hfit
  rw [List.append_assoc]
  refine ⟨fun hfits => ?_, ?_⟩
  · obtain ⟨unread', hitemsRead⟩ := hfit fun d hd => hfits d (List.mem_append_left _ hd)
    obtain ⟨unread'', htailRead⟩ := (htail unread').1 fun d hd =>
      hfits d (List.mem_append_right _ (Option.mem_toList.2 hd))
    refine ⟨unread'', ?_⟩
    rw [hitemsRead, htailRead, chainReverse_reverse]
  · rintro ⟨d, hd, hdepth⟩
    by_cases hitem : ∃ d ∈ items, maxDepth ≤ stack.length + 1 + d.nesting
    · exact hdeep hitem
    · -- All items are read, so it is the tail that is too deep.
      obtain ⟨unread', hitemsRead⟩ := hfit fun d hd =>
        Nat.not_le.1 fun hdepth => hitem ⟨d, hd, hdepth⟩
      rw [hitemsRead]
      rcases List.mem_append.1 hd with hd | hd
      · exact absurd ⟨d, hd, hdepth⟩ hitem
      · exact (htail unread').2 ⟨d, Option.mem_toList.1 hd, hdepth⟩

/-- A chain is read if its items and its tail are read one deeper. -/
theorem readsAs_pair {room : Nat} {stack : List Frame} {car cdr : Datum} {lexemes : List Lexeme}
    (hinside : ∀ (d : Datum) (frame : Frame) (lexemes : List Lexeme),
      lexemes.map (·.token) = d.tokens room → ReadsAs (frame :: stack) lexemes d)
    (hlexemes : lexemes.map (·.token) = (Datum.pair car cdr).tokens (room + 1)) :
    ReadsAs stack lexemes (.pair car cdr) := by
  have htokens : (Datum.pair car cdr).tokens (room + 1) =
      .open :: ((car :: cdr.spine.1).flatMap (tokens room) ++
        (Datum.tailTokens (tokens room) cdr.spine.2 ++ [.close])) := by
    simp [tokens]
  rw [htokens] at hlexemes
  obtain ⟨l, ls, rfl, hl, hls⟩ := List.map_eq_cons_iff.1 hlexemes
  have hnesting := Datum.nesting_pair car cdr
  have hchain : Datum.chain (car :: cdr.spine.1) (cdr.spine.2.getD .nil) = .pair car cdr :=
    chain_spine (.pair car cdr)
  refine readsAs_of_room (by simp [hl]) (by simp [hl]) fun hstack unread more => ?_
  obtain ⟨hreads, hdeep⟩ :=
    first_chain hinside (List.cons_ne_nil _ _) cdr.spine.2 hls l.rest more
  rw [hchain] at hreads
  rw [first_open hstack hl]
  refine ⟨fun hroom => hreads fun d hd => ?_, fun hroom => ?_⟩
  · have hle : d.nesting ≤ deepest (Datum.pair car cdr).parts := Datum.nesting_le_deepest hd
    omega
  · obtain ⟨d, hd, hdeepest⟩ := Datum.exists_nesting_eq_deepest
      (show (Datum.pair car cdr).parts ≠ [] from List.cons_ne_nil _ _)
    exact hdeep ⟨d, hd, by omega⟩

/-- **The tokens of a datum are read as the datum**, if there is room for its nesting; else the
nesting is refused. -/
theorem readsAs_tokens {room : Nat} {d : Datum} {stack : List Frame} {lexemes : List Lexeme}
    (hroom : maxDepth ≤ stack.length + room) (hlexemes : lexemes.map (·.token) = d.tokens room) :
    ReadsAs stack lexemes d := by
  induction room generalizing d stack lexemes with
  | zero =>
    rw [tokens, List.map_eq_singleton_iff] at hlexemes
    obtain ⟨l, rfl, hl⟩ := hlexemes
    refine readsAs_of_room (by simp [hl]) (by simp [hl]) fun hstack => ?_
    omega
  | succ room ih =>
    have hinside : ∀ (d : Datum) (frame : Frame) (lexemes : List Lexeme),
        lexemes.map (·.token) = d.tokens room → ReadsAs (frame :: stack) lexemes d := by
      intro d frame lexemes hlexemes
      refine ih ?_ hlexemes
      rw [List.length_cons]
      omega
    cases d with
    | pair car cdr => exact readsAs_pair hinside hlexemes
    | quoted inner =>
      rw [tokens, List.map_eq_cons_iff] at hlexemes
      obtain ⟨l, ls, rfl, hl, hls⟩ := hlexemes
      exact readsAs_quoted hl (hinside inner .quote ls hls)
    | _ =>
      obtain ⟨l, rfl, hl⟩ := List.map_eq_singleton_iff.1 hlexemes
      exact readsAs_atom hl rfl

end Reading

/-! ## Reading a text -/

theorem Token.scanAll_nil : Token.scanAll [] = [] := by
  rw [scanAll.eq_def]
  rfl

/-- **A datum is read back from its text**, or refused if it is nested too deeply. -/
theorem Datum.read_write_eq {d : Datum} (hd : d.isReadable = true) :
    (d.nesting < Reading.maxDepth → read d.write = .ok d) ∧
      (Reading.maxDepth ≤ d.nesting → ∃ e, read d.write = .error e ∧ e.kind = .tooDeeplyNested) := by
  obtain ⟨lexemes, hscan, htokens⟩ := spells_spell (Spelling.maxNesting + 1) hd [] rfl
  rw [List.append_nil, Token.scanAll_nil] at hscan
  have hroom : Reading.maxDepth ≤ ([] : List Reading.Frame).length + (Spelling.maxNesting + 1) := by
    decide
  obtain ⟨hreads, hdeep⟩ := Reading.readsAs_tokens hroom htokens d.write.toList []
  rw [List.length_nil, Nat.zero_add] at hreads hdeep
  rw [← hscan] at hreads hdeep
  refine ⟨fun hfits => ?_, fun hnesting => ?_⟩
  · obtain ⟨unread, hfirst⟩ := hreads hfits
    change Reading.first d.write.toList (Token.scanAll d.write.toList) _ = _ at hfirst
    simp only [read, hfirst]
    rfl
  · obtain ⟨rest, hfirst⟩ := hdeep hnesting
    change Reading.first d.write.toList (Token.scanAll d.write.toList) _ = _ at hfirst
    simp only [read, hfirst]
    exact ⟨_, rfl, rfl⟩

/-! ## Values -/

namespace Value

/-- Whether a value is a tree of atoms and strings, which source text can spell. -/
def isSourceData (s : Store) : Value → Bool
  | string a => a < s.texts.size
  | quoted inner => inner.isSourceData s
  | pair _ car cdr => car.isSourceData s && cdr.isSourceData s
  | vector _ | struct _ | closure _ | native _ => false
  | _ => true

/-- The datum of the same text, for source data. -/
def datum (s : Store) : Value → Datum
  | truth => .truth
  | integer n => .integer n
  | float x => .float x
  | char c => .char c
  | symbol name => .symbol name
  | type tag => .type tag.name
  | quoted inner => .quoted (inner.datum s)
  | pair _ car cdr => .pair (car.datum s) (cdr.datum s)
  | string a => .string (s.text a)
  | _ => .nil

/-- The doubles in a value. -/
def doubles : Value → List Float
  | float x => [x]
  | quoted inner => inner.doubles
  | pair _ car cdr => car.doubles ++ cdr.doubles
  | _ => []

/-- The items and the tail of source data are source data. -/
theorem isSourceData_spine {s : Store} {v : Value} (hv : v.isSourceData s = true) :
    (∀ item ∈ v.spine.1, item.isSourceData s = true) ∧
      ∀ last ∈ v.spine.2, last.isSourceData s = true := by
  induction v with
  | nil => simp [spine]
  | pair stamp car cdr _ ih =>
    simp only [isSourceData, Bool.and_eq_true] at hv
    obtain ⟨hitems, hlast⟩ := ih hv.2
    refine ⟨fun item hitem => ?_, hlast⟩
    rcases List.mem_cons.1 hitem with rfl | hitem
    · exact hv.1
    · exact hitems item hitem
  | _ =>
    refine ⟨by simp [spine], fun last hlast => ?_⟩
    cases hlast
    exact hv

theorem spine_datum {s : Store} {v : Value} (hv : v.isSourceData s = true) :
    (v.datum s).spine = (v.spine.1.map (datum s), v.spine.2.map (datum s)) := by
  induction v with
  | pair stamp car cdr _ ih =>
    simp only [isSourceData, Bool.and_eq_true] at hv
    simp only [datum, Datum.spine, spine, ih hv.2, List.map_cons]
  | vector a => cases hv
  | struct a => cases hv
  | closure a => cases hv
  | native f => cases hv
  | _ => rfl

/-- A value and its datum are spelled alike. -/
theorem spell_datum {s : Store} (spelling : Spelling) (room : Nat) {v : Value}
    (hv : v.isSourceData s = true) : v.spell s spelling room = (v.datum s).spell spelling room := by
  induction room generalizing v with
  | zero => rfl
  | succ room ih =>
    cases v with
    | quoted inner =>
      have hinner : inner.isSourceData s = true := hv
      simp only [spell, datum, Datum.spell, ih hinner]
    | pair stamp car cdr =>
      simp only [isSourceData, Bool.and_eq_true] at hv
      obtain ⟨hitems, hlast⟩ := isSourceData_spine hv.2
      have hspine := spine_datum hv.2
      have hmap : cdr.spine.1.map (spell s spelling room) =
          cdr.spine.1.map (Datum.spell spelling room ∘ datum s) :=
        List.map_congr_left fun item hitem => ih (hitems item hitem)
      have htail : cdr.spine.2.map (spell s spelling room) =
          cdr.spine.2.map (Datum.spell spelling room ∘ datum s) := by
        cases h : cdr.spine.2 with
        | none => rfl
        | some last => exact congrArg some (ih (hlast last h))
      simp only [spell, datum, Datum.spell, hspine, ih hv.1, hmap, htail, List.map_map,
        Option.map_map]
    | vector a => cases hv
    | struct a => cases hv
    | closure a => cases hv
    | native f => cases hv
    | _ => rfl

end Value

/-! ## Equal values -/

/-- `s'` has the strings of `s`, with the same texts. -/
structure Store.KeepsTexts (s s' : Store) : Prop where
  size : s.texts.size ≤ s'.texts.size
  text : ∀ a, a < s.texts.size → s'.text a = s.text a

namespace Store.KeepsTexts

variable {s s₁ s₂ : Store}

theorem refl (s : Store) : s.KeepsTexts s := ⟨Nat.le_refl _, fun _ _ => rfl⟩

theorem trans (h : s.KeepsTexts s₁) (h' : s₁.KeepsTexts s₂) : s.KeepsTexts s₂ where
  size := Nat.le_trans h.size h'.size
  text := fun a ha => by rw [h'.text a (Nat.lt_of_lt_of_le ha h.size), h.text a ha]

theorem newText (text : String) (s : Store) : s.KeepsTexts (s.newText text).2 where
  size := by simp [Store.newText]
  text := fun a ha => by
    simp [Store.newText, Store.text, Array.getD_eq_getD_getElem?, Array.getElem?_push,
      Nat.ne_of_lt ha]

theorem load (d : Datum) (s : Store) : s.KeepsTexts (d.load s).2 := by
  induction d generalizing s with
  | string text => exact newText text s
  | quoted inner ih => exact ih s
  | pair car cdr ihcar ihcdr =>
    have h := (ihcar s).trans (ihcdr (car.load s).2)
    exact ⟨h.size, h.text⟩
  | _ => exact refl s

end Store.KeepsTexts

/-- The text of a new string. -/
theorem Store.text_newText (text : String) (s : Store) :
    (s.newText text).2.text s.texts.size = text := by
  simp [newText, Store.text, Array.getD_eq_getD_getElem?]

namespace Value

/-- What is loaded from the datum of a value equals the value, in every later state of the strings. -/
theorem equalFrom_load {s : Store} {v : Value} (hv : v.isSourceData s = true)
    (hfinite : ∀ x ∈ v.doubles, x.isFinite = true) {s₁ s₂ : Store}
    (h₁ : s.KeepsTexts s₁) (h₂ : ((v.datum s).load s₁).2.KeepsTexts s₂)
    (opened : List Opened) (work : List (Value × Value)) :
    equalFrom s₂ opened ((((v.datum s).load s₁).1, v) :: work) =
      equalFrom s₂ opened work := by
  induction v generalizing s₁ work with
  | string a =>
    have ha : a < s.texts.size := by simpa [isSourceData] using hv
    have hnew : s₂.text s₁.texts.size = s.text a := by
      rw [h₂.text _ (by simp [datum, Datum.load, Store.newText])]
      exact Store.text_newText _ _
    have hold : s₂.text a = s.text a := by
      have hsize := Nat.lt_of_lt_of_le ha h₁.size
      rw [(Store.KeepsTexts.load _ s₁ |>.trans h₂).text a hsize, h₁.text a ha]
    show equalFrom s₂ opened ((string s₁.texts.size, string a) :: work) = _
    rw [equalFrom, hnew, hold]
    simp
  | float x =>
    have hx := Decimal.beq_self_of_isFinite (hfinite x (by simp [doubles]))
    show equalFrom s₂ opened ((float x, float x) :: work) = _
    rw [equalFrom, hx, Bool.true_and]
  | quoted inner ih =>
    show equalFrom s₂ opened ((quoted _, quoted inner) :: work) = _
    rw [equalFrom]
    exact ih hv hfinite h₁ h₂ work
  | pair stamp car cdr ihcar ihcdr =>
    simp only [isSourceData, Bool.and_eq_true] at hv
    have hcarFinite : ∀ x ∈ car.doubles, x.isFinite = true :=
      fun x hx => hfinite x (List.mem_append_left _ hx)
    have hcdrFinite : ∀ x ∈ cdr.doubles, x.isFinite = true :=
      fun x hx => hfinite x (List.mem_append_right _ hx)
    have hcar := Store.KeepsTexts.load (car.datum s) s₁
    have hcdr := Store.KeepsTexts.load (cdr.datum s) ((car.datum s).load s₁).2
    have hlast : ((cdr.datum s).load ((car.datum s).load s₁).2).2.KeepsTexts s₂ :=
      ⟨h₂.size, h₂.text⟩
    show equalFrom s₂ opened ((pair _ _ _, pair stamp car cdr) :: work) = _
    rw [equalFrom]
    split
    · rfl
    · exact (ihcar hv.1 hcarFinite h₁ (hcdr.trans hlast) _).trans
        (ihcdr hv.2 hcdrFinite (h₁.trans hcar) hlast work)
  | vector | struct | closure | native => cases hv
  | nil => exact equalFrom.eq_2 s₂ opened work
  | truth => exact equalFrom.eq_3 s₂ opened work
  | integer | char | symbol => simp [datum, Datum.load, equalFrom]
  | type tag =>
    show equalFrom s₂ opened ((type (.reference tag.name), type tag) :: work) = _
    rw [equalFrom]
    simp [TypeTag.same, TypeTag.reference]

theorem equal_load {s : Store} {v : Value} (hv : v.isSourceData s = true)
    (hfinite : ∀ x ∈ v.doubles, x.isFinite = true) :
    ((v.datum s).load s).1.equal ((v.datum s).load s).2 v = true := by
  rw [equal, equalFrom_load hv hfinite (Store.KeepsTexts.refl s) (Store.KeepsTexts.refl _),
    equalFrom]

/-- The doubles in a value that can be read are finite. -/
theorem finite_of_isReadable {s : Store} {v : Value} (hreadable : (v.datum s).isReadable = true) :
    ∀ x ∈ v.doubles, x.isFinite = true := by
  induction v with
  | float y =>
    intro x hx
    rw [List.eq_of_mem_singleton hx]
    exact hreadable
  | quoted inner ih => exact ih hreadable
  | pair stamp car cdr ihcar ihcdr =>
    simp only [datum, Datum.isReadable, Bool.and_eq_true] at hreadable
    intro x hx
    rcases List.mem_append.1 hx with hx | hx
    · exact ihcar hreadable.1 x hx
    · exact ihcdr hreadable.2 x hx
  | _ => intro x hx; cases hx

/-- **Reading undoes writing.** A value that source text can spell is read back from its text as an
equal value if it is nested at most 255 deep, and is refused for its nesting otherwise. -/
theorem read_write {s : Store} {v : Value} (hv : v.isSourceData s = true)
    (hreadable : (v.datum s).isReadable = true) :
    ((v.datum s).nesting ≤ 255 → ∃ d, Datum.read (v.write s) = .ok d ∧
      (d.load s).1.equal (d.load s).2 v = true) ∧
    (255 < (v.datum s).nesting → ∃ e, Datum.read (v.write s) = .error e ∧
      e.kind = .tooDeeplyNested) := by
  have hwrite : v.write s = (v.datum s).write := spell_datum .written _ hv
  obtain ⟨hreads, hdeep⟩ := Datum.read_write_eq hreadable
  rw [hwrite]
  refine ⟨fun hnesting => ?_, fun hnesting => hdeep hnesting⟩
  exact ⟨v.datum s, hreads (Nat.lt_succ_of_le hnesting),
    equal_load hv (finite_of_isReadable hreadable)⟩

/-- The chain of a half and a string before the tail `.a`, whose text is `(0.5 "\"" . .a)`, is read
back. -/
theorem read_write_half :
    let s : Store := { texts := #["\""], pairs := 2 }
    let v := pair 1 (float 0.5) (pair 0 (string 0) (symbol ".a"))
    v.isSourceData s = true ∧ (v.datum s).isReadable = true ∧ (v.datum s).nesting ≤ 255 ∧
      ∃ d, Datum.read (v.write s) = .ok d ∧ (d.load s).1.equal (d.load s).2 v = true := by
  intro s v
  have hv : v.isSourceData s = true := by decide
  have hreadable : (v.datum s).isReadable = true := by decide
  have hnesting : (v.datum s).nesting ≤ 255 := by decide
  exact ⟨hv, hreadable, hnesting, (read_write hv hreadable).1 hnesting⟩

end Value

end CurryLisp
