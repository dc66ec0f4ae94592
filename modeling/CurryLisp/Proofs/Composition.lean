import CurryLisp.Proofs.Boundaries
import CurryLisp.Proofs.ReaderSteps

/-!
# Texts put together

Text that can be read means the same wherever it stands: behind a line end, between parentheses and
behind an apostrophe it is read as what it was read as alone, unless the nesting becomes too deep there.

Statements:

* `Leads`: reading goes on like this, unless the nesting is refused.
* `Run.within`, `Series.within`: what was read outside all frames is read inside others as well.
* `Datum.read_composes`: **the reader is compositional.**
-/

namespace CurryLisp

namespace Reading

/-! ## Inside other frames -/

/-- What waits inside of `base`. -/
def Pending.within (base : List Frame) : Pending → Pending
  | .expression stack => .expression (stack ++ base)
  | .closing items last stack => .closing items last (stack ++ base)

/-- What has been reached inside of `base`. -/
def Progress.within (base : List Frame) : Progress → Progress
  | .more pending => .more (pending.within base)
  | .complete d => place d base

theorem place_append (d : Datum) (stack base : List Frame) :
    place d (stack ++ base) = (place d stack).within base := by
  induction stack generalizing d with
  | nil => rfl
  | cons frame stack ih =>
    cases frame with
    | quote => exact ih (.quoted d)
    | list items => rfl
    | tail items => rfl

/-- Reading these tokens leads from `first` to `last`, unless the nesting is refused. -/
def Leads (first : Progress) (tokens : List Token) (last : Progress) : Prop :=
  ∀ unread lexemes more, lexemes.map (·.token) = tokens →
    (∃ unread', resume unread (lexemes ++ more) first = resume unread' more last) ∨
      ∃ rest, resume unread (lexemes ++ more) first = .error ⟨.tooDeep, rest⟩

theorem Run.leads {first last : Progress} {tokens : List Token} (h : Run first tokens last) :
    Leads first tokens last := by
  rintro unread lexemes more rfl
  exact .inl (h.resume_eq unread more)

theorem Leads.trans {first next last : Progress} {tokens tokens' : List Token}
    (h : Leads first tokens next) (h' : Leads next tokens' last) :
    Leads first (tokens ++ tokens') last := by
  intro unread lexemes more htokens
  obtain ⟨read, read', rfl, hread, hread'⟩ := List.map_eq_append_iff.1 htokens
  rw [List.append_assoc]
  rcases h unread read (read' ++ more) hread with ⟨unread', heq⟩ | hdeep
  · rw [heq]
    exact h' unread' read' more hread'
  · exact .inr hdeep

/-- A token that begins an expression where there is room leads on everywhere. -/
theorem leads_expression {stack : List Frame} {token : Token} {progress : Progress}
    (hclose : token ≠ .close) (hpoint : token ≠ .point)
    (h : stack.length < maxDepth → Step (.expression stack) token progress) :
    Leads (.more (.expression stack)) [token] progress := by
  by_cases hroom : stack.length < maxDepth
  · exact (Run.step (h hroom) (.done _)).leads
  · intro unread lexemes more htokens
    obtain ⟨l, rfl, rfl⟩ := List.map_eq_singleton_iff.1 htokens
    exact .inr (first_tooDeep (Nat.not_lt.1 hroom) hclose hpoint)

/-- **A step is taken inside other frames as well.** -/
theorem Step.within {pending : Pending} {token : Token} {progress : Progress}
    (h : Step pending token progress) (base : List Frame) :
    Leads (.more (pending.within base)) [token] (progress.within base) := by
  cases h with
  | «open» => exact leads_expression Token.noConfusion Token.noConfusion .open
  | quote => exact leads_expression Token.noConfusion Token.noConfusion .quote
  | @atom stack _ d =>
    rw [← place_append]
    exact leads_expression Token.noConfusion Token.noConfusion fun hroom => .atom hroom d
  | point hitems => exact (Run.step (.point hitems) (.done _)).leads
  | close items stack =>
    rw [← place_append]
    exact (Run.step (.close items (stack ++ base)) (.done _)).leads
  | closeTail items last stack =>
    rw [← place_append]
    exact (Run.step (.closeTail items last (stack ++ base)) (.done _)).leads

/-- A run is made inside other frames as well. -/
theorem Run.within {first last : Progress} {tokens : List Token} (h : Run first tokens last)
    (base : List Frame) : Leads (first.within base) tokens (last.within base) := by
  induction h with
  | done => exact (Run.done _).leads
  | step hstep _ ih => exact (hstep.within base).trans ih

/-- The data of a text become items of a list. -/
theorem Series.within {pending : Pending} {tokens : List Token} {ds : List Datum}
    (h : Series pending tokens ds) (items : List Datum) :
    Leads (.more (pending.within [.list items])) tokens
      (.more (.expression [.list (ds.reverse ++ items)])) := by
  induction h generalizing items with
  | done => exact (Run.done _).leads
  | more hstep _ ih => exact (hstep.within _).trans (ih items)
  | @complete _ _ _ d ds hstep _ ih =>
    have hrest := ih (d :: items)
    rw [List.reverse_cons, List.append_assoc, List.singleton_append]
    exact (hstep.within _).trans hrest

end Reading

namespace Datum

open Reading (Leads Run Step)
open Token (Scans)

/-- A text that leads to a datum is read as the datum, or refused as too deep. -/
theorem read_of_leads {text : String} {tokens : List Token} {d : Datum}
    (hscan : Scans text.toList tokens []) (h : Leads (.more (.expression [])) tokens (.complete d)) :
    read text = .ok d ∨ ∃ e, read text = .error e ∧ e.kind = .tooDeeplyNested := by
  rcases h text.toList (Token.scanAll text.toList) [] hscan.map_token with ⟨_, hread⟩ | ⟨_, hdeep⟩
  · rw [List.append_nil] at hread
    change Reading.first _ _ _ = .ok (d, []) at hread
    left
    simp only [read, hread]
  · rw [List.append_nil] at hdeep
    change Reading.first _ _ _ = _ at hdeep
    right
    simp only [read, hdeep]
    exact ⟨_, rfl, rfl⟩

/-- The tokens of a text that is read as a whole, in front of a line end. -/
theorem scans_of_readAll {text : String} {ds : List Datum} (h : readAll text = .ok ds)
    (more : List Char) :
    Scans text.toList ((Token.scanAll text.toList).map (·.token)) ('\n' :: more) := by
  have hseries := readAll_eq_ok_iff.1 h
  exact Token.scans_newline (fun l hl => hseries.not_fault _ (List.mem_map_of_mem hl)) more

/-- Two texts with a line end between them. -/
theorem readAll_append {text text' : String} {ds ds' : List Datum} (h : readAll text = .ok ds)
    (h' : readAll text' = .ok ds') : readAll (text ++ "\n" ++ text') = .ok (ds ++ ds') := by
  have htext : (text ++ "\n" ++ text').toList = text.toList ++ (['\n'] ++ text'.toList) := by simp
  have hrest := (Scans.newline _).append (Scans.whole text'.toList)
  have hscan := (scans_of_readAll h _).append hrest
  rw [readAll_eq_ok_iff, htext, hscan.map_token]
  exact (readAll_eq_ok_iff.1 h).append (readAll_eq_ok_iff.1 h')

/-- A text between parentheses. -/
theorem read_parentheses {text : String} {ds : List Datum} (h : readAll text = .ok ds) :
    read ("(" ++ text ++ "\n)") = .ok (chain ds .nil) ∨
      ∃ e, read ("(" ++ text ++ "\n)") = .error e ∧ e.kind = .tooDeeplyNested := by
  have htext : ("(" ++ text ++ "\n)").toList = ['('] ++ (text.toList ++ (['\n'] ++ [')'])) := by
    simp
  have hclose := (Scans.newline [')']).append (Scans.close [])
  have hscan := (Scans.open _).append ((scans_of_readAll h [')']).append hclose)
  rw [← htext] at hscan
  refine read_of_leads hscan ?_
  have hopen : Leads (.more (.expression [])) [.open] (.more (.expression [.list []])) :=
    (Run.step (.open (by decide)) (.done _)).leads
  have hitems := (readAll_eq_ok_iff.1 h).within []
  rw [List.append_nil] at hitems
  have hlast : Leads (.more (.expression [.list ds.reverse])) [.close] (.complete (chain ds .nil)) := by
    have hstep := Step.close ds.reverse []
    rw [Reading.chainReverse_reverse] at hstep
    exact (Run.step hstep (.done _)).leads
  exact hopen.trans (hitems.trans hlast)

/-- A text behind an apostrophe. -/
theorem read_apostrophe {text : String} {d : Datum} (h : read text = .ok d) :
    read ("'" ++ text) = .ok (.quoted d) ∨
      ∃ e, read ("'" ++ text) = .error e ∧ e.kind = .tooDeeplyNested := by
  have htext : ("'" ++ text).toList = [Text.apostrophe] ++ text.toList := by simp [Text.apostrophe]
  have hscan := (Scans.quote _).append (Scans.whole text.toList)
  rw [← htext] at hscan
  refine read_of_leads hscan ?_
  have hquote : Leads (.more (.expression [])) [.quote] (.more (.expression [.quote])) :=
    (Run.step (.quote (by decide)) (.done _)).leads
  exact hquote.trans ((read_eq_ok_iff.1 h).within [.quote])

/-- **The reader is compositional.** Texts with a line end between them are read as the data of both. A
text between parentheses is read as the list of its data and a text behind an apostrophe as a quote,
unless that is nested too deeply. A text is read as one datum exactly if that is all that is read of it. -/
theorem read_composes :
    (∀ text text' ds ds', readAll text = .ok ds → readAll text' = .ok ds' →
      readAll (text ++ "\n" ++ text') = .ok (ds ++ ds')) ∧
    (∀ text ds, readAll text = .ok ds → read ("(" ++ text ++ "\n)") = .ok (chain ds .nil) ∨
      ∃ e, read ("(" ++ text ++ "\n)") = .error e ∧ e.kind = .tooDeeplyNested) ∧
    (∀ text d, read text = .ok d → read ("'" ++ text) = .ok (.quoted d) ∨
      ∃ e, read ("'" ++ text) = .error e ∧ e.kind = .tooDeeplyNested) ∧
    ∀ text d, read text = .ok d ↔ readAll text = .ok [d] :=
  ⟨fun _ _ _ _ => readAll_append, fun _ _ => read_parentheses, fun _ _ => read_apostrophe,
    fun _ _ => read_eq_ok_iff_readAll⟩

/-- A text that ends in a comment, in front of another one and between parentheses, and a quote. -/
theorem read_composes_comment :
    readAll "x ; y" = .ok [.symbol "x"] ∧ readAll "(z)" = .ok [.pair (.symbol "z") .nil] ∧
      readAll ("x ; y" ++ "\n" ++ "(z)") = .ok [.symbol "x", .pair (.symbol "z") .nil] ∧
      read ("(" ++ "x ; y" ++ "\n)") = .ok (.pair (.symbol "x") .nil) ∧
      read ("'" ++ "x ; y") = .ok (.quoted (.symbol "x")) := by
  have hx : readAll "x ; y" = .ok [.symbol "x"] := by cbv
  have hz : readAll "(z)" = .ok [.pair (.symbol "z") .nil] := by cbv
  obtain ⟨happend, hlist, hquote, hone⟩ := read_composes
  refine ⟨hx, hz, happend _ _ _ _ hx hz, (hlist _ _ hx).resolve_right ?_,
    (hquote _ _ ((hone _ _).2 hx)).resolve_right ?_⟩
  · have hfits : (read ("(" ++ "x ; y" ++ "\n)")).isOk = true := by cbv
    rintro ⟨e, he, -⟩
    rw [he] at hfits
    cases hfits
  · have hfits : (read ("'" ++ "x ; y")).isOk = true := by cbv
    rintro ⟨e, he, -⟩
    rw [he] at hfits
    cases hfits

end Datum

end CurryLisp
