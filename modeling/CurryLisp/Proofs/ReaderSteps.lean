import CurryLisp.Proofs.RoundTrip

/-!
# Steps of the reader

What the reader makes of a lexeme that it accepts depends on the token and on the open frames alone. So
a reading that succeeds is a run over tokens, and whatever holds of all runs is proved by induction on
these.

Statements:

* `Step`, `advance_eq_ok_iff`: the tokens that are accepted, and what each leads to.
* `Run`, `Series`: several steps up to one datum, and up to the end of a text.
* `Datum.read_eq_ok_iff`, `Datum.readAll_eq_ok_iff`: what is read is what the tokens of the text run to.
* `Datum.read_eq_ok_iff_readAll`: one datum is read exactly if it is all that is read.
* `exists_run_of_first_error`: a reading that fails is a run up to the fault.
-/

namespace CurryLisp

namespace Reading

/-! ## Steps -/

/-- The token is accepted and leads to this. -/
inductive Step : Pending → Token → Progress → Prop
  | open {stack : List Frame} (hroom : stack.length < maxDepth) :
    Step (.expression stack) .open (.more (.expression (.list [] :: stack)))
  | quote {stack : List Frame} (hroom : stack.length < maxDepth) :
    Step (.expression stack) .quote (.more (.expression (.quote :: stack)))
  | atom {stack : List Frame} (hroom : stack.length < maxDepth) (d : Datum) :
    Step (.expression stack) (.atom d) (place d stack)
  | point {items : List Datum} {stack : List Frame} (hitems : items ≠ []) :
    Step (.expression (.list items :: stack)) .point (.more (.expression (.tail items :: stack)))
  | close (items : List Datum) (stack : List Frame) :
    Step (.expression (.list items :: stack)) .close (place (chainReverse items .nil) stack)
  | closeTail (items : List Datum) (last : Datum) (stack : List Frame) :
    Step (.closing items last stack) .close (place (chainReverse items last) stack)

section Steps

variable {unread : List Char} {l : Lexeme} {stack : List Frame} {pending : Pending}
  {progress : Progress} {token : Token}

/-- An expression that begins is a step. -/
theorem step_of_beginExpression (h : beginExpression unread l stack = .ok progress) :
    Step (.expression stack) l.token progress := by
  unfold beginExpression at h
  split at h
  · cases h
  · next hroom =>
    rw [Nat.not_le] at hroom
    split at h
    · next htoken =>
      cases h
      exact htoken ▸ .open hroom
    · next htoken =>
      cases h
      exact htoken ▸ .quote hroom
    · next d htoken =>
      cases h
      exact htoken ▸ .atom hroom d
    · cases h
    · cases h
    · cases h

theorem Step.advance (h : Step pending token progress) (unread : List Char) {l : Lexeme}
    (hl : l.token = token) : advance unread l pending = .ok progress := by
  have hbegin : ∀ {stack : List Frame} {progress : Progress}, l.token ≠ .close → l.token ≠ .point →
      beginExpression unread l stack = .ok progress →
      Reading.advance unread l (.expression stack) = .ok progress := by
    intro stack progress hclose hpoint h
    rw [advance_expression stack hclose hpoint, h]
  cases h with
  | «open» hroom =>
    refine hbegin (by simp [hl]) (by simp [hl]) ?_
    rw [beginExpression, if_neg (Nat.not_le.2 hroom), hl]
  | quote hroom =>
    refine hbegin (by simp [hl]) (by simp [hl]) ?_
    rw [beginExpression, if_neg (Nat.not_le.2 hroom), hl]
  | atom hroom d =>
    refine hbegin (by simp [hl]) (by simp [hl]) ?_
    rw [beginExpression, if_neg (Nat.not_le.2 hroom), hl]
  | point hitems => simp [Reading.advance, hl, hitems]
  | close => simp [Reading.advance, hl]
  | closeTail => simp [Reading.advance, hl]

/-- **What a lexeme that is accepted leads to.** -/
theorem advance_eq_ok_iff : advance unread l pending = .ok progress ↔ Step pending l.token progress := by
  refine ⟨fun h => ?_, fun h => h.advance unread rfl⟩
  unfold Reading.advance at h
  split at h
  · next items stack =>
    split at h
    · next htoken =>
      cases h
      exact htoken ▸ .close items stack
    · next htoken =>
      split at h
      · exact step_of_beginExpression h
      · next hitems =>
        cases h
        exact htoken ▸ .point (by simpa using hitems)
    · exact step_of_beginExpression h
  · exact step_of_beginExpression h
  · next items last stack =>
    split at h
    · next htoken =>
      cases h
      exact htoken ▸ .closeTail items last stack
    · cases h

/-- No fault is accepted. -/
theorem Step.not_fault (h : Step pending token progress) : token.isFault = false := by
  cases h <;> rfl

/-- A datum in a frame does not lead out of all frames. -/
theorem place_ne_outside (d : Datum) (stack : List Frame) : place d stack ≠ .more (.expression []) := by
  induction stack generalizing d with
  | nil => simp [place]
  | cons frame stack ih =>
    cases frame with
    | quote => exact ih (.quoted d)
    | list items => simp [place]
    | tail items => simp [place]

theorem Step.ne_outside (h : Step pending token progress) : progress ≠ .more (.expression []) := by
  cases h with
  | «open» => simp
  | quote => simp
  | atom _ d => exact place_ne_outside d _
  | point => simp
  | close => exact place_ne_outside _ _
  | closeTail => exact place_ne_outside _ _

end Steps

/-! ## Runs -/

/-- Accepted tokens lead from one state of the reader to the other. -/
inductive Run : Progress → List Token → Progress → Prop
  | done (progress : Progress) : Run progress [] progress
  | step {pending : Pending} {token : Token} {tokens : List Token} {next last : Progress}
    (hstep : Step pending token next) (hrun : Run next tokens last) :
    Run (.more pending) (token :: tokens) last

namespace Run

variable {tokens tokens' : List Token} {first next last : Progress}

theorem trans (h : Run first tokens next) (h' : Run next tokens' last) :
    Run first (tokens ++ tokens') last := by
  induction h with
  | done => exact h'
  | step hstep _ ih => exact .step hstep (ih h')

theorem not_fault (h : Run first tokens last) : ∀ token ∈ tokens, token.isFault = false := by
  induction h with
  | done => simp
  | step hstep _ ih => exact List.forall_mem_cons.2 ⟨hstep.not_fault, ih⟩

/-- The lexemes of a run are read. -/
theorem resume_eq {lexemes : List Lexeme} (h : Run first (lexemes.map (·.token)) last)
    (unread : List Char) (more : List Lexeme) :
    ∃ unread', resume unread (lexemes ++ more) first = resume unread' more last := by
  induction lexemes generalizing first unread with
  | nil =>
    cases h
    exact ⟨unread, rfl⟩
  | cons l lexemes ih =>
    cases h with
    | step hstep hrun =>
      obtain ⟨unread', heq⟩ := ih hrun l.rest
      refine ⟨unread', ?_⟩
      rw [← heq, resume, List.cons_append, first_cons, hstep.advance unread rfl]

end Run

/-- What is read of lexemes is what a run over their tokens leads to. -/
theorem exists_run_of_first {unread : List Char} {lexemes rest : List Lexeme} {pending : Pending}
    {d : Datum} (h : first unread lexemes pending = .ok (d, rest)) :
    ∃ read, lexemes = read ++ rest ∧ Run (.more pending) (read.map (·.token)) (.complete d) := by
  induction lexemes generalizing unread pending with
  | nil => cases h
  | cons l lexemes ih =>
    rw [first_cons] at h
    split at h
    · cases h
    · next progress hadvance =>
      have hstep := advance_eq_ok_iff.1 hadvance
      cases progress with
      | complete d' =>
        cases h
        exact ⟨[l], rfl, .step hstep (.done _)⟩
      | more pending' =>
        obtain ⟨read, rfl, hrun⟩ := ih h
        exact ⟨l :: read, rfl, .step hstep hrun⟩

/-- **A reading that fails is a run up to the fault**: to a lexeme that is not accepted, or to the end. -/
theorem exists_run_of_first_error {unread : List Char} {lexemes : List Lexeme} {pending : Pending}
    {f : Fault} (h : first unread lexemes pending = .error f) :
    ∃ read rest last unread', lexemes = read ++ rest ∧
      Run (.more pending) (read.map (·.token)) (.more last) ∧
      ((rest = [] ∧ f = atEnd unread' last) ∨
        ∃ l after, rest = l :: after ∧ advance unread' l last = .error f) := by
  induction lexemes generalizing unread pending with
  | nil =>
    cases h
    exact ⟨[], [], pending, unread, rfl, .done _, .inl ⟨rfl, rfl⟩⟩
  | cons l lexemes ih =>
    rw [first_cons] at h
    split at h
    · next hadvance =>
      cases h
      exact ⟨[], l :: lexemes, pending, unread, rfl, .done _, .inr ⟨l, lexemes, rfl, hadvance⟩⟩
    · next progress hadvance =>
      have hstep := advance_eq_ok_iff.1 hadvance
      cases progress with
      | complete d' => cases h
      | more pending' =>
        obtain ⟨read, rest, last, unread', rfl, hrun, hend⟩ := ih h
        exact ⟨l :: read, rest, last, unread', rfl, .step hstep hrun, hend⟩

/-! ## Whole texts -/

/-- The tokens lead to these data and end outside all lists. -/
inductive Series : Pending → List Token → List Datum → Prop
  | done : Series (.expression []) [] []
  | more {pending next : Pending} {token : Token} {tokens : List Token} {ds : List Datum}
    (hstep : Step pending token (.more next)) (hseries : Series next tokens ds) :
    Series pending (token :: tokens) ds
  | complete {pending : Pending} {token : Token} {tokens : List Token} {d : Datum} {ds : List Datum}
    (hstep : Step pending token (.complete d)) (hseries : Series (.expression []) tokens ds) :
    Series pending (token :: tokens) (d :: ds)

namespace Series

variable {pending : Pending} {tokens tokens' : List Token} {ds ds' : List Datum} {d : Datum}

theorem append (h : Series pending tokens ds) (h' : Series (.expression []) tokens' ds') :
    Series pending (tokens ++ tokens') (ds ++ ds') := by
  induction h with
  | done => exact h'
  | more hstep _ ih => exact .more hstep ih
  | complete hstep _ ih => exact .complete hstep ih

theorem not_fault (h : Series pending tokens ds) : ∀ token ∈ tokens, token.isFault = false := by
  induction h with
  | done => simp
  | more hstep _ ih => exact List.forall_mem_cons.2 ⟨hstep.not_fault, ih⟩
  | complete hstep _ ih => exact List.forall_mem_cons.2 ⟨hstep.not_fault, ih⟩

/-- Nothing is read of nothing only. -/
theorem eq_nil (h : Series pending tokens []) : pending = .expression [] ∧ tokens = [] := by
  induction tokens generalizing pending with
  | nil =>
    cases h
    exact ⟨rfl, rfl⟩
  | cons token tokens ih =>
    cases h with
    | more hstep hseries =>
      obtain ⟨rfl, -⟩ := ih hseries
      exact absurd rfl hstep.ne_outside

/-- **One datum is read of the tokens that run to it.** -/
theorem singleton_iff : Series pending tokens [d] ↔ Run (.more pending) tokens (.complete d) := by
  constructor
  · intro h
    induction tokens generalizing pending with
    | nil => cases h
    | cons token tokens ih =>
      cases h with
      | more hstep hseries => exact .step hstep (ih hseries)
      | complete hstep hseries =>
        obtain ⟨-, rfl⟩ := hseries.eq_nil
        exact .step hstep (.done _)
  · intro h
    induction tokens generalizing pending with
    | nil => cases h
    | cons token tokens ih =>
      cases h with
      | @step _ _ _ next _ hstep hrun =>
        cases next with
        | more next => exact .more hstep (ih hrun)
        | complete d' =>
          cases hrun
          exact .complete hstep .done

end Series

/-- All data of lexemes are read in a series over their tokens. -/
theorem each_eq_ok_iff {unread : List Char} {lexemes : List Lexeme} {pending : Pending}
    {ds : List Datum} :
    each unread lexemes pending = .ok ds ↔ Series pending (lexemes.map (·.token)) ds := by
  -- Each lexeme is one step of the series; after a datum the next one begins outside all lists.
  induction lexemes generalizing unread pending ds with
  | nil =>
    constructor
    · intro h
      unfold each at h
      split at h
      · cases h
        exact .done
      · cases h
      · next hcons => cases hcons
    · intro h
      cases h
      rfl
  | cons l lexemes ih =>
    rw [each]
    constructor
    · intro h
      split at h
      · cases h
      · next d hadvance =>
        obtain ⟨ds, hds, rfl⟩ := Token.exists_of_map_eq_ok h
        exact .complete (advance_eq_ok_iff.1 hadvance) (ih.1 hds)
      · next hadvance => exact .more (advance_eq_ok_iff.1 hadvance) (ih.1 h)
    · intro h
      cases h with
      | more hstep hseries => simpa only [hstep.advance unread rfl] using ih.2 hseries
      | @complete _ _ _ d ds hstep hseries =>
        have hrest : each l.rest lexemes (.expression []) = .ok ds := ih.2 hseries
        simp only [hstep.advance unread rfl, hrest]
        rfl

end Reading

/-! ## What is read -/

namespace Datum

open Reading (Run Series)

/-- **What is read of a text is what its tokens run to.** -/
theorem read_eq_ok_iff {text : String} {d : Datum} :
    read text = .ok d ↔
      Run (.more (.expression [])) ((Token.scanAll text.toList).map (·.token)) (.complete d) := by
  unfold read
  dsimp only
  constructor
  · intro h
    split at h
    · cases h
    · next hfirst =>
      cases h
      obtain ⟨lexemes, heq, hrun⟩ := Reading.exists_run_of_first hfirst
      rwa [heq, List.append_nil]
    · cases h
  · intro h
    obtain ⟨unread, hfirst⟩ := h.resume_eq text.toList []
    rw [List.append_nil] at hfirst
    change Reading.first _ _ _ = .ok (d, []) at hfirst
    rw [hfirst]

/-- **What is read of a whole text are the data that its tokens run to.** -/
theorem readAll_eq_ok_iff {text : String} {ds : List Datum} :
    readAll text = .ok ds ↔
      Series (.expression []) ((Token.scanAll text.toList).map (·.token)) ds := by
  have heach : Reading.each text.toList (Token.scanAll text.toList) (.expression []) = .ok ds ↔ _ :=
    Reading.each_eq_ok_iff
  rw [← heach, readAll]
  cases Reading.each text.toList (Token.scanAll text.toList) (.expression []) <;>
    simp [Except.mapError]

/-- **One datum is read of a text exactly if it is all that is read of the text.** -/
theorem read_eq_ok_iff_readAll {text : String} {d : Datum} :
    read text = .ok d ↔ readAll text = .ok [d] := by
  rw [read_eq_ok_iff, readAll_eq_ok_iff, Series.singleton_iff]

end Datum

end CurryLisp
