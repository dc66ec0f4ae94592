import CurryLisp.Proofs.Doubles
import CurryLisp.Proofs.References.Session
import CurryLisp.Proofs.RoundTrip

/-!
# Writing what was read

A datum that was read is written as a text that is read again. It is read as the same datum, but for
doubles that are not finite: a number too large for a double is read as an infinite one, whose text is
read as a symbol.

Statements:

* `Datum.asWritten`: a datum as its text is understood, with symbols for doubles that are not finite.
* `Token.isWritten_scan`, `Reading.fits_advance`: what is scanned and what is read can be written, and
  its nesting leaves room.
* `Datum.read_write_of_read`: the text of what was read is read, as an equal value exactly if all its
  doubles are finite.
-/

namespace CurryLisp

namespace Datum

/-! ## Doubles that are not finite -/

/-- The datum that the text of a datum spells: a double that is not finite is spelled as a symbol. -/
def asWritten : Datum → Datum
  | float x => if x.isFinite then float x else symbol (Decimal.nonFinite x)
  | quoted inner => quoted inner.asWritten
  | pair car cdr => pair car.asWritten cdr.asWritten
  | d => d

/-- The doubles in a datum. -/
def doubles : Datum → List Float
  | float x => [x]
  | quoted inner => inner.doubles
  | pair car cdr => car.doubles ++ cdr.doubles
  | _ => []

theorem asWritten_of_finite {d : Datum} (h : ∀ x ∈ d.doubles, x.isFinite = true) :
    d.asWritten = d := by
  induction d with
  | float x =>
    have hx := h x (by simp [doubles])
    rw [asWritten, if_pos hx]
  | quoted inner ih => rw [asWritten, ih h]
  | pair car cdr ihcar ihcdr =>
    have hcar := ihcar fun x hx => h x (List.mem_append_left _ hx)
    have hcdr := ihcdr fun x hx => h x (List.mem_append_right _ hx)
    rw [asWritten, hcar, hcdr]
  | _ => rfl

theorem asWritten_spine (d : Datum) :
    d.asWritten.spine = (d.spine.1.map asWritten, d.spine.2.map asWritten) := by
  induction d with
  | float x =>
    simp only [asWritten, spine]
    split <;> simp [spine, asWritten, *]
  | pair car cdr _ ih => simp only [asWritten, spine, ih, List.map_cons]
  | _ => rfl

/-- The text is the same. -/
theorem spell_asWritten (spelling : Spelling) (room : Nat) (d : Datum) :
    d.asWritten.spell spelling room = d.spell spelling room := by
  induction room generalizing d with
  | zero => rfl
  | succ room ih =>
    cases d with
    | float x =>
      simp only [asWritten]
      split
      · rfl
      · next hx =>
        rw [Bool.not_eq_true] at hx
        simp [spell, Decimal.written, hx]
    | quoted inner => simp only [asWritten, spell, ih]
    | pair car cdr =>
      have hmap : spell spelling room ∘ asWritten = spell spelling room := funext ih
      simp only [asWritten, spell, ih, asWritten_spine, List.map_map, Option.map_map, hmap]
    | _ => rfl

/-- The nesting is the same. -/
theorem nesting_asWritten (d : Datum) : d.asWritten.nesting = d.nesting := by
  induction d with
  | float x =>
    simp only [asWritten]
    split <;> rfl
  | quoted inner ih => simp only [asWritten, nesting, ih]
  | pair car cdr ihcar ihcdr =>
    cases cdr with
    | float x =>
      simp only [asWritten]
      split <;> simp only [nesting, ihcar]
    | quoted inner => simp only [asWritten, nesting, ihcar] at ihcdr ⊢; rw [ihcdr]
    | pair car' cdr' =>
      simp only [asWritten] at ihcdr ⊢
      simp only [nesting, ihcar]
      rw [ihcdr]
    | _ => simp only [asWritten, nesting, ihcar]
  | _ => rfl

/-! ## Chains -/

theorem parts_chain (items : List Datum) (tail : Datum) :
    (chain items tail).parts = items ++ tail.parts := by
  induction items with
  | nil => rfl
  | cons item items ih => exact congrArg (item :: ·) ih

theorem nesting_le_of_mem_parts {d e : Datum} (he : e ∈ d.parts) : e.nesting ≤ d.nesting := by
  cases d with
  | nil => cases he
  | pair car cdr =>
    rw [nesting_pair]
    exact Nat.le_succ_of_le (nesting_le_deepest he)
  | _ => rw [List.mem_singleton.1 he]

/-- A chain is nested at most one deeper than its items and its tail. -/
theorem nesting_chain_le {n : Nat} {items : List Datum} {tail : Datum}
    (hitems : ∀ d ∈ items, d.nesting < n) (htail : tail.nesting < n ∨ tail = nil) :
    (chain items tail).nesting ≤ n := by
  have hparts : ∀ d ∈ items ++ tail.parts, d.nesting < n := by
    intro d hd
    rcases List.mem_append.1 hd with hd | hd
    · exact hitems d hd
    · rcases htail with htail | rfl
      · exact Nat.lt_of_le_of_lt (nesting_le_of_mem_parts hd) htail
      · cases hd
  cases items with
  | nil =>
    rcases htail with htail | rfl
    · exact Nat.le_of_lt htail
    · exact Nat.zero_le n
  | cons item items =>
    have hne : (chain (item :: items) tail).parts ≠ [] := List.cons_ne_nil _ _
    obtain ⟨d, hd, hdeepest⟩ := exists_nesting_eq_deepest hne
    rw [parts_chain] at hd
    change (pair item (chain items tail)).nesting ≤ n
    rw [nesting_pair]
    change deepest (chain (item :: items) tail).parts + 1 ≤ n
    rw [← hdeepest]
    exact hparts d hd

/-! ## Data whose text can be read -/

/-- Whether the text of a datum can be read. -/
def isWritable (d : Datum) : Bool := d.asWritten.isReadable

theorem isWritable_float (x : Float) : (float x).isWritable = true := by
  unfold isWritable asWritten
  split
  · next hx => exact hx
  · unfold isReadable Decimal.nonFinite
    split
    · decide
    · split <;> decide

theorem isWritable_chain {items : List Datum} {tail : Datum}
    (hitems : ∀ d ∈ items, d.isWritable = true) (htail : tail.isWritable = true) :
    (chain items tail).isWritable = true := by
  induction items with
  | nil => exact htail
  | cons item items ih =>
    have hrest := ih fun d hd => hitems d (List.mem_cons_of_mem _ hd)
    change (item.isWritable && (chain items tail).isWritable) = true
    rw [hitems item (List.mem_cons_self ..), hrest, Bool.and_self]

end Datum

/-! ## Tokens -/

namespace Token

/-- An atom whose text can be read. -/
structure IsWritten (d : Datum) : Prop where
  isWritable : d.isWritable = true
  nesting : d.nesting = 0

/-- A number is an atom. -/
theorem isWritten_takeNumber {word rest : List Char} {d : Datum}
    (h : takeNumber word = some (some d, rest)) : IsWritten d := by
  unfold takeNumber at h
  dsimp only at h
  split_ifs at h
  all_goals simp only [Option.some.injEq, Prod.mk.injEq, Option.map_eq_some_iff] at h
  · obtain ⟨⟨n, -, rfl⟩, -⟩ := h
    exact ⟨rfl, rfl⟩
  · obtain ⟨⟨n, -, rfl⟩, -⟩ := h
    exact ⟨rfl, rfl⟩
  · obtain ⟨rfl, -⟩ := h
    exact ⟨Datum.isWritable_float _, rfl⟩
  · obtain ⟨rfl, -⟩ := h
    exact ⟨Datum.isWritable_float _, rfl⟩

/-- The symbol of a word, or the constant that it stands for. -/
theorem isWritten_ofSymbolName {name : List Char} (hne : name ≠ [])
    (hchars : name.all isSymbolChar = true) (hname : isSymbolName name = true) :
    IsWritten (ofSymbolName name) := by
  unfold ofSymbolName
  split
  · exact ⟨rfl, rfl⟩
  · next htruth =>
    split
    · exact ⟨rfl, rfl⟩
    · next hnil =>
      refine ⟨?_, rfl⟩
      have htruth' : String.ofList name ≠ "t" := fun h => htruth (String.ofList_inj.1 h)
      have hnil' : String.ofList name ≠ "nil" := fun h => hnil (String.ofList_inj.1 h)
      change isSymbol (String.ofList name) = true
      simp [isSymbol, hne, hchars, hname, htruth', hnil']

theorem isWritten_ofWord {start word : List Char} {d : Datum}
    (hchars : word.all isSymbolChar = true) (h : ofWord start word = .atom d) : IsWritten d := by
  unfold ofWord at h
  split at h
  · cases h
  · next number hnumber =>
    cases h
    exact isWritten_takeNumber hnumber
  · cases h
  · split at h
    · cases h
    · split at h
      · next hword =>
        cases h
        simp only [Bool.and_eq_true, bne_iff_ne, ne_eq] at hword
        exact isWritten_ofSymbolName hword.1 hchars hword.2
      · cases h

theorem isWritten_delimited {start rest : List Char} {d d' : Datum} (hd : IsWritten d)
    (h : (delimited start rest d).1 = .atom d') : IsWritten d' := by
  unfold delimited at h
  split at h
  · cases h
  · cases h
    exact hd

theorem isWritten_scanChar {start cs : List Char} {d : Datum}
    (h : (scanChar start cs).1 = .atom d) : IsWritten d := by
  unfold scanChar at h
  split at h
  · cases h
    exact ⟨rfl, rfl⟩
  · split at h
    · cases h
    · exact isWritten_delimited ⟨rfl, rfl⟩ h

theorem isWritten_scanHex {start cs : List Char} {d : Datum}
    (h : (scanHex start cs).1 = .atom d) : IsWritten d := by
  unfold scanHex at h
  dsimp only at h
  split at h
  · cases h
  · split at h
    · exact isWritten_delimited ⟨rfl, rfl⟩ h
    · cases h

theorem isWritten_scanHash {start cs : List Char} {d : Datum}
    (h : (scanHash start cs).1 = .atom d) : IsWritten d := by
  cases cs with
  | nil => cases h
  | cons c cs =>
    rw [scanHash] at h
    split at h
    · exact isWritten_scanChar h
    · split at h
      · exact isWritten_scanHex h
      · split at h
        · exact isWritten_delimited ⟨rfl, rfl⟩ h
        · split at h
          · exact isWritten_delimited ⟨rfl, rfl⟩ h
          · cases h

/-- **The text of an atom that is scanned can be read.** -/
theorem isWritten_scan {c : Char} {cs : List Char} {d : Datum} (h : (scan c cs).1 = .atom d) :
    IsWritten d := by
  unfold scan at h
  split at h
  · cases h
  · split at h
    · cases h
    · split at h
      · cases h
      · split at h
        · exact isWritten_scanHash h
        · split at h
          · split at h
            · cases h
              exact ⟨rfl, rfl⟩
            · cases h
          · split at h
            · next hcolon =>
              dsimp only at h
              split at h
              · cases h
              · next hname =>
                cases h
                refine ⟨?_, rfl⟩
                change Datum.isReadable (.type _) = true
                rw [Bool.not_eq_true] at hname
                simp [Datum.isReadable, hcolon, hname]
            · split at h
              · next hc =>
                refine isWritten_ofWord ?_ h
                simp [hc]
              · cases h

/-- **The text of every atom in a source text can be read.** -/
theorem isWritten_of_mem_scanAll {cs : List Char} {l : Lexeme} (hl : l ∈ scanAll cs) {d : Datum}
    (h : l.token = .atom d) : IsWritten d := by
  induction cs using scanAll.induct with
  | case1 cs hskip =>
    rw [scanAll.eq_def] at hl
    split at hl
    · cases hl
    · next hskip' =>
      rw [hskip] at hskip'
      cases hskip'
  | case2 cs c tail hskip found ih =>
    rw [scanAll.eq_def] at hl
    split at hl
    · cases hl
    · next hskip' =>
      rw [hskip] at hskip'
      cases hskip'
      rcases List.mem_cons.1 hl with rfl | hl
      · exact isWritten_scan h
      · split at hl
        · cases hl
        · exact ih hl

end Token

/-! ## Reading -/

namespace Reading

/-- What is read in this many frames: its text can be read, and the frames leave room for its
nesting. -/
structure Fits (depth : Nat) (d : Datum) : Prop where
  isWritable : d.isWritable = true
  nesting : depth + d.nesting < maxDepth

/-- The items of a frame. -/
def Frame.items : Frame → List Datum
  | .list items => items
  | .tail items => items
  | .quote => []

/-- The items of each frame fit into it and the frames around it. -/
def StackFits : List Frame → Prop
  | [] => True
  | frame :: stack =>
    stack.length < maxDepth ∧ (∀ d ∈ frame.items, Fits (stack.length + 1) d) ∧ StackFits stack

/-- What has been read so far fits. -/
def Pending.Fits : Pending → Prop
  | .expression stack => StackFits stack
  | .closing items last stack =>
    stack.length < maxDepth ∧ (∀ d ∈ last :: items, Reading.Fits (stack.length + 1) d) ∧
      StackFits stack

def Progress.Fits : Progress → Prop
  | .more pending => pending.Fits
  | .complete d => Reading.Fits 0 d

/-- **A complete datum fits in its place.** -/
theorem fits_place {d : Datum} {stack : List Frame} (hd : Fits stack.length d)
    (hstack : StackFits stack) : (place d stack).Fits := by
  induction stack generalizing d with
  | nil => exact hd
  | cons frame stack ih =>
    obtain ⟨hroom, hitems, houter⟩ := hstack
    cases frame with
    | quote =>
      refine ih ⟨hd.isWritable, ?_⟩ houter
      have hnesting := hd.nesting
      rw [List.length_cons] at hnesting
      rw [Datum.nesting]
      omega
    | list items =>
      refine ⟨hroom, fun e he => ?_, houter⟩
      rcases List.mem_cons.1 he with rfl | he
      · exact hd
      · exact hitems e he
    | tail items =>
      refine ⟨hroom, fun e he => ?_, houter⟩
      rcases List.mem_cons.1 he with rfl | he
      · exact hd
      · exact hitems e he

theorem fits_beginExpression {unread : List Char} {l : Lexeme} {stack : List Frame}
    {progress : Progress} (hl : ∀ d, l.token = .atom d → Token.IsWritten d)
    (hstack : StackFits stack) (h : beginExpression unread l stack = .ok progress) :
    progress.Fits := by
  unfold beginExpression at h
  split at h
  · cases h
  · next hroom =>
    rw [Nat.not_le] at hroom
    split at h
    · cases h
      exact ⟨hroom, by simp [Frame.items], hstack⟩
    · cases h
      exact ⟨hroom, by simp [Frame.items], hstack⟩
    · next d hatom =>
      cases h
      have hd := hl d hatom
      exact fits_place ⟨hd.isWritable, by rw [hd.nesting]; exact hroom⟩ hstack
    · cases h
    · cases h
    · cases h

/-- A list that is closed fits in its place. -/
theorem fits_close {items : List Datum} {last : Datum} {stack : List Frame}
    (hroom : stack.length < maxDepth) (hitems : ∀ d ∈ items, Fits (stack.length + 1) d)
    (hlast : Fits (stack.length + 1) last ∨ last = .nil) (hstack : StackFits stack) :
    (place (chainReverse items last) stack).Fits := by
  have hchain : chainReverse items last = Datum.chain items.reverse last := by
    rw [← chainReverse_reverse, List.reverse_reverse]
  have hlastWritable : last.isWritable = true := by
    rcases hlast with hlast | rfl
    · exact hlast.isWritable
    · rfl
  have hlastNesting : last.nesting < maxDepth - stack.length - 1 ∨ last = .nil := by
    rcases hlast with hlast | hlast
    · have := hlast.nesting
      exact .inl (by omega)
    · exact .inr hlast
  have hitemsNesting : ∀ d ∈ items.reverse, d.nesting < maxDepth - stack.length - 1 := by
    intro d hd
    have := (hitems d (List.mem_reverse.1 hd)).nesting
    omega
  have hnesting := Datum.nesting_chain_le hitemsNesting hlastNesting
  rw [hchain]
  refine fits_place ⟨Datum.isWritable_chain (fun d hd => ?_) hlastWritable, by omega⟩ hstack
  exact (hitems d (List.mem_reverse.1 hd)).isWritable

/-- **Each lexeme keeps what was read in bounds.** -/
theorem fits_advance {unread : List Char} {l : Lexeme} {pending : Pending} {progress : Progress}
    (hl : ∀ d, l.token = .atom d → Token.IsWritten d) (hpending : pending.Fits)
    (h : advance unread l pending = .ok progress) : progress.Fits := by
  unfold advance at h
  split at h
  · obtain ⟨hroom, hitems, hstack⟩ := id hpending
    split at h
    · cases h
      exact fits_close hroom hitems (.inr rfl) hstack
    · split at h
      · exact fits_beginExpression hl hpending h
      · cases h
        exact ⟨hroom, hitems, hstack⟩
    · exact fits_beginExpression hl hpending h
  · exact fits_beginExpression hl hpending h
  · obtain ⟨hroom, hitems, hstack⟩ := hpending
    split at h
    · cases h
      refine fits_close hroom (fun d hd => hitems d (List.mem_cons_of_mem _ hd)) ?_ hstack
      exact .inl (hitems _ (List.mem_cons_self ..))
    · cases h

/-- **What the reader makes can be written, and its nesting leaves room.** -/
theorem fits_first {unread : List Char} {ls rest : List Lexeme} {pending : Pending} {d : Datum}
    (hls : ∀ l ∈ ls, ∀ d, l.token = .atom d → Token.IsWritten d) (hpending : pending.Fits)
    (h : first unread ls pending = .ok (d, rest)) : Fits 0 d := by
  induction ls generalizing unread pending with
  | nil => cases h
  | cons l ls ih =>
    rw [first_cons] at h
    split at h
    · cases h
    · next progress hadvance =>
      have hprogress := fits_advance (hls l (List.mem_cons_self ..)) hpending hadvance
      cases progress with
      | complete d' =>
        cases h
        exact hprogress
      | more pending' => exact ih (fun l' hl' => hls l' (List.mem_cons_of_mem _ hl')) hprogress h

end Reading

/-! ## Reading again -/

namespace Datum

/-- **What was read can be written, and is nested less than the reader allows.** -/
theorem isWritable_of_read {text : String} {d : Datum} (h : read text = .ok d) :
    d.isWritable = true ∧ d.nesting < Reading.maxDepth := by
  unfold read at h
  dsimp only at h
  split at h
  · cases h
  · next hfirst =>
    cases h
    have hstart : (Reading.Pending.expression []).Fits := trivial
    have hfits := Reading.fits_first (fun l hl d => Token.isWritten_of_mem_scanAll hl)
      hstart hfirst
    exact ⟨hfits.isWritable, by have := hfits.nesting; omega⟩
  · cases h

/-- The text of what was read is read as the text is understood. -/
theorem read_write_asWritten {text : String} {d : Datum} (h : read text = .ok d) :
    read d.write = .ok d.asWritten := by
  obtain ⟨hwritable, hnesting⟩ := isWritable_of_read h
  rw [← nesting_asWritten] at hnesting
  have hread := (read_write_eq hwritable).1 hnesting
  rwa [write, spell_asWritten] at hread

end Datum

/-! ## Values -/

namespace Value

/-- The datum of what was loaded, in every later state of the strings. -/
theorem datum_load (d : Datum) {s s' : Store} (h : (d.load s).2.KeepsTexts s') :
    (d.load s).1.isSourceData s' = true ∧ (d.load s).1.datum s' = d := by
  induction d generalizing s with
  | string text =>
    have hsize : s.texts.size < (s.newText text).2.texts.size := by simp [Store.newText]
    have htext : s'.text s.texts.size = text := (h.text _ hsize).trans (Store.text_newText text s)
    exact ⟨decide_eq_true (Nat.lt_of_lt_of_le hsize h.size), congrArg Datum.string htext⟩
  | quoted inner ih =>
    obtain ⟨hsource, hdatum⟩ := ih (s := s) h
    exact ⟨hsource, congrArg Datum.quoted hdatum⟩
  | pair car cdr ihcar ihcdr =>
    have hmade : (cdr.load (car.load s).2).2.KeepsTexts s' := ⟨h.size, h.text⟩
    obtain ⟨hcarSource, hcar⟩ := ihcar ((Store.KeepsTexts.load cdr _).trans hmade)
    obtain ⟨hcdrSource, hcdr⟩ := ihcdr hmade
    exact ⟨Bool.and_eq_true_iff.2 ⟨hcarSource, hcdrSource⟩, congrArg₂ Datum.pair hcar hcdr⟩
  | _ => exact ⟨rfl, rfl⟩

theorem doubles_load (d : Datum) (s : Store) : (d.load s).1.doubles = d.doubles := by
  induction d generalizing s with
  | quoted inner ih => exact ih s
  | pair car cdr ihcar ihcdr => exact congrArg₂ (· ++ ·) (ihcar s) (ihcdr _)
  | _ => rfl

theorem write_load (d : Datum) (s : Store) : (d.load s).1.write (d.load s).2 = d.write := by
  obtain ⟨hsource, hdatum⟩ := datum_load d (Store.KeepsTexts.refl (d.load s).2)
  rw [write, spell_datum .written _ hsource, hdatum, Datum.write]

/-- A symbol is not equal to the double that it stands for: if what is loaded from the text of a datum
equals the datum, its doubles are finite. -/
theorem finite_of_equalFrom {d : Datum} {s s₁ s₂ : Store} (hpairs : (d.load s).2.pairs ≤ s₁.pairs)
    {opened : List Opened} {work : List (Value × Value)}
    (h : equalFrom s₂ opened (((d.asWritten.load s₁).1, (d.load s).1) :: work) = true) :
    (∀ x ∈ d.doubles, x.isFinite = true) ∧ equalFrom s₂ opened work = true := by
  induction d generalizing s s₁ work with
  | float x =>
    by_cases hx : x.isFinite = true
    · simp only [Datum.asWritten, if_pos hx, Datum.load] at h
      rw [equalFrom, Bool.and_eq_true] at h
      exact ⟨by simpa [Datum.doubles] using hx, h.2⟩
    · simp only [Datum.asWritten, if_neg hx, Datum.load] at h
      rw [equalFrom] at h
      · cases h
      all_goals simp
  | quoted inner ih =>
    simp only [Datum.asWritten, Datum.load] at h
    rw [equalFrom] at h
    exact ih hpairs h
  | pair car cdr ihcar ihcdr =>
    have hcar := (Store.Grows.load cdr (car.load s).2).pairs
    have hcdr := (Store.Grows.load car.asWritten s₁).pairs
    have hnew := (Store.Grows.load cdr.asWritten (car.asWritten.load s₁).2).pairs
    simp only [Datum.load, Store.cons] at hpairs
    simp only [Datum.asWritten, Datum.load, Store.cons] at h
    -- The new pair has a later stamp, so the pairs are looked into.
    rw [equalFrom, if_neg (by omega)] at h
    obtain ⟨hcarFinite, hrest⟩ := ihcar (by omega) h
    obtain ⟨hcdrFinite, hwork⟩ := ihcdr (by omega) hrest
    refine ⟨fun x hx => ?_, hwork⟩
    rcases List.mem_append.1 hx with hx | hx
    · exact hcarFinite x hx
    · exact hcdrFinite x hx
  | nil =>
    have hwork := (equalFrom.eq_2 s₂ opened work).symm.trans h
    exact ⟨by simp [Datum.doubles], hwork⟩
  | truth =>
    have hwork := (equalFrom.eq_3 s₂ opened work).symm.trans h
    exact ⟨by simp [Datum.doubles], hwork⟩
  | _ =>
    simp only [Datum.asWritten, Datum.load, Store.newText] at h
    rw [equalFrom, Bool.and_eq_true] at h
    exact ⟨by simp [Datum.doubles], h.2⟩

end Value

namespace Datum

/-- What is loaded from the text of a datum equals the datum exactly if its doubles are finite. -/
theorem equal_asWritten_iff (d : Datum) (s : Store) :
    (d.asWritten.load (d.load s).2).1.equal (d.asWritten.load (d.load s).2).2 (d.load s).1 = true ↔
      ∀ x ∈ d.doubles, x.isFinite = true := by
  constructor
  · exact fun h => (Value.finite_of_equalFrom (Nat.le_refl _) h).1
  · intro hfinite
    obtain ⟨hsource, hdatum⟩ := Value.datum_load d (Store.KeepsTexts.refl (d.load s).2)
    have hequal := Value.equal_load hsource (by rwa [Value.doubles_load])
    rw [asWritten_of_finite hfinite]
    rwa [hdatum] at hequal

/-- **Writing what was read.** The value of a text that is read is written as a text that is read
again, as an equal value exactly if all doubles in it are finite. -/
theorem read_write_of_read {text : String} {d : Datum} (h : read text = .ok d) (s : Store) :
    let v := (d.load s).1
    let s' := (d.load s).2
    ∃ d', read (v.write s') = .ok d' ∧
      ((d'.load s').1.equal (d'.load s').2 v = true ↔ ∀ x ∈ d.doubles, x.isFinite = true) := by
  intro v s'
  have hwrite : v.write s' = d.write := Value.write_load d s
  rw [hwrite]
  exact ⟨d.asWritten, read_write_asWritten h, equal_asWritten_iff d s⟩

/-- The text `(2.50 . (x))` is written as `(2.5 x)`, which is read as an equal value. -/
theorem read_write_of_read_decimal :
    ∃ d, read "(2.50 . (x))" = .ok d ∧ (d.load {}).1.write (d.load {}).2 = "(2.5 x)" ∧
      ∃ d', read "(2.5 x)" = .ok d' ∧
        (d'.load (d.load {}).2).1.equal (d'.load (d.load {}).2).2 (d.load {}).1 = true := by
  have hcheck : (match read "(2.50 . (x))" with
      | .ok d => d.doubles.all Float.isFinite && ((d.load {}).1.write (d.load {}).2 == "(2.5 x)")
      | .error _ => false) = true := by decide +kernel
  cases hread : read "(2.50 . (x))" with
  | error e =>
    rw [hread] at hcheck
    cases hcheck
  | ok d =>
    simp only [hread, Bool.and_eq_true, List.all_eq_true, beq_iff_eq] at hcheck
    obtain ⟨d', hd', hequal⟩ := read_write_of_read hread {}
    rw [hcheck.2] at hd'
    exact ⟨d, rfl, hcheck.2, d', hd', hequal.2 hcheck.1⟩

/-- A text that is scanned to a single atom is read as that atom. -/
theorem read_of_scans {text : String} {d : Datum} (h : Token.Scans text.toList [.atom d] []) :
    read text = .ok d := by
  obtain ⟨lexemes, hscan, htokens⟩ := h
  obtain ⟨l, rfl, hl⟩ := List.map_eq_singleton_iff.1 htokens
  rw [List.append_nil, Token.scanAll_nil, List.append_nil] at hscan
  have hadvance : Reading.advance text.toList l (.expression []) = .ok (.complete d) := by
    rw [Reading.advance_expression [] (by simp [hl]) (by simp [hl]), Reading.beginExpression,
      if_neg (by decide), hl]
    rfl
  unfold read
  dsimp only
  rw [hscan, Reading.first_cons, hadvance]
  rfl

/-- The number `1e999` is read as an infinite double. The text of that is `inf`, which is read as a
symbol. -/
theorem not_read_write_infinite :
    let d := float (1.0 / 0.0)
    let d' := symbol "inf"
    let v := (d.load {}).1
    let s' := (d.load {}).2
    read "1e999" = .ok d ∧ v.write s' = "inf" ∧ read "inf" = .ok d' ∧
      (d'.load s').1.equal (d'.load s').2 v = false := by
  refine ⟨?_, ?_, ?_, ?_⟩
  · exact read_of_scans (Token.Scans.word (by decide) rfl (fun _ => rfl) rfl)
  · decide +kernel
  · exact read_of_scans (Token.Scans.word (by decide) rfl (fun _ => rfl) rfl)
  · change Value.equalFrom {} [] [(Value.symbol "inf", Value.float (1.0 / 0.0))] = false
    rw [Value.equalFrom] <;> simp

end Datum

end CurryLisp
