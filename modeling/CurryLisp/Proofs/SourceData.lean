import CurryLisp.Proofs.ReadData
import CurryLisp.Proofs.ReaderSteps

/-!
# What the reader makes

The reader makes atoms, quotes and pairs only. Its symbols have names that no other token is spelled
with, none of them the name of a placeholder, and its values are nested less deeply than the source text
may be.

Statements:

* `Token.NamesSymbol`, `Value.IsSourceNode`: the names of symbols and the nodes that are made.
* `Token.NamesSymbol.ne_placeholder`: placeholders have other names.
* `Reading.Series.fits`: what is read of a whole text can be written, and its nesting leaves room.
* `Value.isSourceNode_load`: the nodes of data whose text can be read.
* `Datum.isSourceNode_of_read`: **every node of what is read** is such a node, and the nesting is bounded.
-/

namespace CurryLisp

/-! ## Names of symbols -/

namespace Token

/-- A name that the reader gives to a symbol. It is neither the point before a tail nor a constant, and
does not begin like a number. -/
structure NamesSymbol (name : String) : Prop where
  ne_empty : name ≠ ""
  isSymbolChar : ∀ c ∈ name.toList, isSymbolChar c = true
  /-- The mark of placeholders is not a character of symbols. -/
  unmarked : '%' ∉ name.toList
  ne_point : name ≠ "."
  ne_truth : name ≠ "t"
  ne_nil : name ≠ "nil"
  head : ∀ c cs, name.toList = c :: cs → c.isDigit = false
  second : ∀ c d cs, name.toList = c :: d :: cs → c ∈ ['+', '-', '.'] → d.isDigit = false

theorem namesSymbol_of_isSymbol {name : String} (h : isSymbol name = true) : NamesSymbol name := by
  simp only [isSymbol, Bool.and_eq_true, bne_iff_ne, ne_eq, Bool.not_eq_true', List.isEmpty_eq_false_iff,
    List.all_eq_true] at h
  obtain ⟨⟨⟨⟨hne, hchars⟩, hname⟩, htruth⟩, hnil⟩ := h
  refine ⟨?_, hchars, ?_, ?_, htruth, hnil, ?_, ?_⟩
  · rintro rfl
    exact hne rfl
  · exact fun hmem => absurd (hchars _ hmem) (by decide)
  · rintro rfl
    exact absurd hname (by decide)
  -- The first character, and after a sign or a point the second, is no digit.
  · intro c cs hcs
    rw [hcs] at hname
    cases cs with
    | nil =>
      simp only [isSymbolName, Bool.and_eq_true, Bool.not_eq_true'] at hname
      exact hname.1
    | cons d cs =>
      simp only [isSymbolName, Bool.and_eq_true, Bool.not_eq_true'] at hname
      exact hname.1
  · intro c d cs hcs hmark
    rw [hcs] at hname
    simp only [isSymbolName, Bool.and_eq_true, Bool.not_eq_true'] at hname
    have hfirst : (c = '+' ∨ c = '-') ∨ c = '.' := by simpa [or_assoc] using hmark
    simpa [hfirst] using hname.2

/-- No placeholder has the name of a symbol that is read. -/
theorem NamesSymbol.ne_placeholder {name : String} (h : NamesSymbol name) (m : Machine) :
    (Eval.placeholder m).1 ≠ .ok name := by
  intro hmade
  have hname : "%" ++ toString (m.placeholders + 1) = name := Except.ok.inj hmade
  refine h.unmarked ?_
  rw [← hname]
  simp

end Token

/-! ## Whole texts -/

namespace Reading

/-- **Each step keeps what was read in bounds.** -/
theorem Step.fits {pending : Pending} {token : Token} {progress : Progress}
    (h : Step pending token progress) (htoken : ∀ d, token = .atom d → Token.IsWritten d)
    (hpending : pending.Fits) : progress.Fits :=
  fits_advance htoken hpending (h.advance [] (l := ⟨[], token, []⟩) rfl)

/-- **All that is read of a text can be written, and its nesting leaves room.** -/
theorem Series.fits {pending : Pending} {tokens : List Token} {ds : List Datum}
    (h : Series pending tokens ds) (htokens : ∀ d, .atom d ∈ tokens → Token.IsWritten d)
    (hpending : pending.Fits) : ∀ d ∈ ds, Fits 0 d := by
  induction h with
  | done => simp
  | @more _ _ token tokens _ hstep _ ih =>
    have hnext := hstep.fits (fun d hd => htokens d (hd ▸ List.mem_cons_self ..)) hpending
    exact ih (fun d hd => htokens d (List.mem_cons_of_mem _ hd)) hnext
  | @complete _ token tokens _ _ hstep _ ih =>
    have hfirst := hstep.fits (fun d hd => htokens d (hd ▸ List.mem_cons_self ..)) hpending
    -- Behind a complete datum the reader starts outside all frames again.
    have hrest := ih (fun d hd => htokens d (List.mem_cons_of_mem _ hd)) trivial
    exact List.forall_mem_cons.2 ⟨hfirst, hrest⟩

end Reading

theorem Datum.fits_of_readAll {text : String} {ds : List Datum} (h : readAll text = .ok ds) :
    ∀ d ∈ ds, Reading.Fits 0 d := by
  refine (readAll_eq_ok_iff.1 h).fits (fun d hd => ?_) trivial
  obtain ⟨l, hl, hatom⟩ := List.mem_map.1 hd
  exact Token.isWritten_of_mem_scanAll hl hatom

/-! ## Nodes -/

namespace Value

/-- The nodes of a value: the value itself and what its quotes and pairs hold. -/
def nodes : Value → List Value
  | quoted inner => quoted inner :: inner.nodes
  | pair stamp car cdr => pair stamp car cdr :: (car.nodes ++ cdr.nodes)
  | v => [v]

/-- Nesting of quotes and lists: a list is nested one deeper than its items and its tail. -/
def nesting : Value → Nat
  | quoted inner => inner.nesting + 1
  | pair _ car nil => car.nesting + 1
  | pair _ car (pair stamp car' cdr') => max (car.nesting + 1) (pair stamp car' cdr').nesting
  | pair _ car last => max car.nesting last.nesting + 1
  | _ => 0

/-- A node that the reader makes, with its string among those of the store. -/
inductive IsSourceNode (s : Store) : Value → Prop
  | nil : IsSourceNode s nil
  | truth : IsSourceNode s truth
  | integer (n : Int64) : IsSourceNode s (integer n)
  | float (x : Float) : IsSourceNode s (float x)
  | char (c : Char) : IsSourceNode s (char c)
  | string {a : Address} (ha : a < s.texts.size) : IsSourceNode s (string a)
  | quoted (inner : Value) : IsSourceNode s (quoted inner)
  | pair (stamp : Nat) (car cdr : Value) : IsSourceNode s (pair stamp car cdr)
  /-- A reference to a type: a colon and at least one character of a symbol. -/
  | type {word : List Char} (hne : word ≠ []) (hword : ∀ c ∈ word, Token.isSymbolChar c = true) :
    IsSourceNode s (type (.reference (String.ofList (':' :: word))))
  | symbol {name : String} (hname : Token.NamesSymbol name) : IsSourceNode s (symbol name)

/-- The name of a type that is read. -/
theorem isSourceNode_type {name : String} (s : Store) (h : (Datum.type name).isReadable = true) :
    IsSourceNode s (type (.reference name)) := by
  unfold Datum.isReadable at h
  split at h
  · next c word htext =>
    simp only [Bool.and_eq_true, decide_eq_true_eq, Bool.not_eq_true', List.isEmpty_eq_false_iff,
      List.all_eq_true] at h
    obtain ⟨⟨rfl, hne⟩, hword⟩ := h
    have hname : name = String.ofList (':' :: word) := by rw [← htext, String.ofList_toList]
    exact hname ▸ .type hne hword
  · cases h

/-- **The nodes of data whose text can be read**, in every later state of the strings. -/
theorem isSourceNode_load {d : Datum} (hd : d.isWritable = true) {s s' : Store}
    (h : (d.load s).2.KeepsTexts s') : ∀ v ∈ (d.load s).1.nodes, IsSourceNode s' v := by
  induction d generalizing s with
  | nil => exact List.forall_mem_singleton.2 .nil
  | truth => exact List.forall_mem_singleton.2 .truth
  | integer n => exact List.forall_mem_singleton.2 (.integer n)
  | float x => exact List.forall_mem_singleton.2 (.float x)
  | char c => exact List.forall_mem_singleton.2 (.char c)
  | string text =>
    have hsize : s.texts.size < (s.newText text).2.texts.size := by simp [Store.newText]
    exact List.forall_mem_singleton.2 (.string (Nat.lt_of_lt_of_le hsize h.size))
  | symbol name =>
    exact List.forall_mem_singleton.2 (.symbol (Token.namesSymbol_of_isSymbol hd))
  | type name => exact List.forall_mem_singleton.2 (isSourceNode_type s' hd)
  | quoted inner ih => exact List.forall_mem_cons.2 ⟨.quoted _, ih hd h⟩
  | pair car cdr ihcar ihcdr =>
    have hmade : (cdr.load (car.load s).2).2.KeepsTexts s' := ⟨h.size, h.text⟩
    obtain ⟨hcar, hcdr⟩ := Bool.and_eq_true_iff.1 hd
    refine List.forall_mem_cons.2 ⟨.pair _ _ _, List.forall_mem_append.2 ⟨?_, ihcdr hcdr hmade⟩⟩
    exact ihcar hcar ((Store.KeepsTexts.load cdr _).trans hmade)

/-- The nesting is that of the datum. -/
theorem nesting_load (d : Datum) (s : Store) : (d.load s).1.nesting = d.nesting := by
  induction d generalizing s with
  | quoted inner ih => simp only [Datum.load, nesting, Datum.nesting, ih]
  | pair car cdr ihcar ihcdr =>
    have hcdr := ihcdr (car.load s).2
    cases cdr with
    | pair car' cdr' =>
      simp only [Datum.load, Store.cons] at hcdr ⊢
      simp only [nesting, Datum.nesting, ihcar, hcdr]
    | quoted inner =>
      simp only [Datum.load, Store.cons] at hcdr ⊢
      simp only [nesting, Datum.nesting, ihcar] at hcdr ⊢
      rw [hcdr]
    | _ => simp only [Datum.load, Store.cons, Store.newText, nesting, Datum.nesting, ihcar]
  | _ => rfl

end Value

namespace Datum

/-- **What the reader makes.** Each node of a value that is read, alone or with others, is an atom other
than a vector, a struct or a function, or a quote or a pair. Its types are references, its symbols have
names of symbols, and its nesting is less than that at which reading stops. -/
theorem isSourceNode_of_read {text : String} {d : Datum}
    (h : read text = .ok d ∨ ∃ ds, readAll text = .ok ds ∧ d ∈ ds) (s : Store) :
    (∀ v ∈ (d.load s).1.nodes, Value.IsSourceNode (d.load s).2 v) ∧ (d.load s).1.nesting ≤ 255 := by
  have hall : ∃ ds, readAll text = .ok ds ∧ d ∈ ds := by
    rcases h with h | h
    · exact ⟨[d], read_eq_ok_iff_readAll.1 h, List.mem_singleton_self d⟩
    · exact h
  obtain ⟨ds, hread, hd⟩ := hall
  have hfits := fits_of_readAll hread d hd
  have hnesting : 0 + d.nesting < 256 := hfits.nesting
  refine ⟨Value.isSourceNode_load hfits.isWritable (Store.KeepsTexts.refl _), ?_⟩
  rw [Value.nesting_load]
  omega

/-- A symbol that begins with a sign, and a list in a tail, which is no level of its own. -/
theorem isSourceNode_of_read_tail :
    let d := quoted (pair (symbol "+a") (pair (type ":int") (pair (string "s") nil)))
    readAll "1 '(+a . (:int \"s\"))" = .ok [integer 1, d] ∧
      (∀ v ∈ (d.load {}).1.nodes, Value.IsSourceNode (d.load {}).2 v) ∧
      (d.load {}).1.nesting = 2 ∧ (d.load {}).1.nesting ≤ 255 := by
  intro d
  have hread : readAll "1 '(+a . (:int \"s\"))" = .ok [integer 1, d] := by cbv
  have hmem : d ∈ [integer 1, d] := List.mem_cons_of_mem _ (List.mem_singleton_self d)
  obtain ⟨hnodes, hnesting⟩ := isSourceNode_of_read (.inr ⟨_, hread, hmem⟩) {}
  exact ⟨hread, hnodes, rfl, hnesting⟩

end Datum

end CurryLisp
