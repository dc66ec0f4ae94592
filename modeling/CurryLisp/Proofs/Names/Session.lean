import CurryLisp.Proofs.Names.Evaluation
import CurryLisp.Proofs.SourceData
import CurryLisp.Proofs.StackDiscipline

/-!
# Placeholders are fresh

A client writes expressions in which symbols have names that the reader gives to them, has them
evaluated, applies what it has received, and starts afresh, in any order and whether that fails or not
(`Session.Reached`). Starting afresh clears the environment, but placeholders go on being counted. So the
names in use are at all times among those made, and the next placeholder is none of them.

Statements:

* `Datum.issued_load`: what can be written uses no name of a placeholder.
* `Session.Reached.issued`: what a client reaches uses names of placeholders that were made.
* `Application.curryNative_fresh`: the names that currying makes are new and differ from each other.
* `Session.placeholders_fresh`: **placeholders are fresh**.
-/

namespace CurryLisp

/-! ## What uses no placeholder -/

theorem Token.NamesSymbol.isIssued {name : String} (h : NamesSymbol name) (n : Nat) :
    IsIssued n name := .of_unmarked h.unmarked n

theorem Value.issued_of_namesSymbol {v : Value} (hv : v.NamesOnly Token.NamesSymbol) (n : Nat) :
    v.Issued n := hv.mono fun _ h => h.isIssued n

/-- The names of the builtin functions are not those of placeholders. -/
theorem Environment.issued_initial (n : Nat) : Environment.initial.Issued n := by
  have hunmarked : ∀ f ∈ Builtin.all, '%' ∉ f.name.toList := by decide
  exact .initial fun f hf => .of_unmarked (hunmarked f hf) n

/-- What can be written uses no name of a placeholder. -/
theorem Datum.issued_load {d : Datum} (hd : d.isWritable = true) {n : Nat} {s : Store}
    (hs : s.NamesOnly (IsIssued n)) :
    (d.load s).2.NamesOnly (IsIssued n) ∧ (d.load s).1.Issued n := by
  induction d generalizing s with
  | string text => exact ⟨{ hs with }, trivial⟩
  | symbol name => exact ⟨hs, (Token.namesSymbol_of_isSymbol hd).isIssued n⟩
  | quoted inner ih => exact ih hd hs
  | pair car cdr ihcar ihcdr =>
    obtain ⟨hcar, hcdr⟩ := Bool.and_eq_true_iff.1 hd
    obtain ⟨hs, hcar⟩ := ihcar hcar hs
    obtain ⟨hs, hcdr⟩ := ihcdr hcdr hs
    exact ⟨{ hs with }, hcar, hcdr⟩
  | _ => exact ⟨hs, trivial⟩

/-! ## What currying makes -/

/-- **The names that currying makes are new and differ from each other.** -/
theorem Application.curryNative_fresh (f : NativeFunction) {args : List Value} {m : Machine}
    (hm : m.Issued) (hargs : Value.AllIssued m.placeholders args) :
    ∃ a c m', curryNative f args m = (.ok (.closure a), m') ∧ m'.store.closures[a]? = some c ∧
      c.names.Nodup ∧ ∀ name ∈ c.names,
        m.NamesOnly (· ≠ name) ∧ Value.AllNameOnly (· ≠ name) args := by
  obtain ⟨operands, bound, count, hoperands, hnames, -, -⟩ := callOperands_apply args m
  have hcurry := curryNative_apply f hoperands
  have hissued := (Issues.curryNative f hargs m (Nat.le_refl _) hm).2.2.1.store.closures
  rw [hcurry] at hissued
  refine ⟨_, _, _, hcurry, Array.getElem?_push_size, ?_, fun name hname => ?_⟩
  · exact (hissued _ (Array.mem_push_self ..)).distinct
  · -- Parameters are numbered after what is bound, and both after all that was made before.
    have hnew : ∃ k, m.placeholders < k ∧ name = placeholderName k := by
      rcases List.mem_append.1 hname with hname | hname
      · obtain ⟨k, hk, rfl⟩ := List.mem_map.1 hname
        exact ⟨k, by have := List.mem_range'_1.1 hk; omega, rfl⟩
      · dsimp only at hname
        rw [hnames] at hname
        obtain ⟨k, hk, rfl⟩ := List.mem_map.1 hname
        exact ⟨k, by have := List.mem_range'_1.1 hk; omega, rfl⟩
    obtain ⟨k, hk, rfl⟩ := hnew
    exact ⟨Machine.NamesOnly.mono (fun _ h => h.ne_placeholder hk) hm,
      hargs.mono fun _ h => h.ne_placeholder hk⟩

namespace Session

/-! ## Computations of a session -/

variable {n : Nat}

theorem issues_load {d : Datum} (hd : d.isWritable = true) : Issues.Own n Value.Issued (load d) :=
  Issues.make fun _ _ _ hs => Datum.issued_load hd hs

theorem issues_apply {f : Value} (hf : f.Issued n) {args : List Value}
    (hargs : Value.AllIssued n args) (other : SpecialForm.Visit) (room : Nat) :
    Issues n Value.Issued (Application.apply (Evaluation.visitWithin room) f args)
      (Application.apply (Evaluation.diverted other room) f args) :=
  Issues.apply (fun _ _ he => .visitWithin other room he) hf hargs

theorem issues_evaluate {e : Value} (he : e.Issued n) : Issues.Own n Value.Issued (evaluate e) := by
  intro m hn hm
  obtain ⟨-, hle, hissued, hanswer⟩ := Issues.visitWithin (Evaluation.visitWithin 0)
    (Evaluation.room m) he (m.atLevel .full) hn { hm with }
  rw [evaluate_eq]
  rcases h : Evaluation.visitWithin (Evaluation.room m) e (m.atLevel .full) with ⟨err | v, after⟩
  all_goals rw [h] at hle hissued hanswer
  · -- Of the frames that a failure left some are dropped.
    exact ⟨rfl, hle, ⟨hissued.store, hissued.global,
      fun frame h => hissued.frames frame (List.mem_of_mem_drop h)⟩, fun _ h => by cases h⟩
  · exact ⟨rfl, hle, { hissued with }, fun _ h => by cases h; exact hanswer v rfl⟩

theorem issues_evaluateData {last : Value} (hlast : last.Issued n) {ds : List Datum}
    (hds : ∀ d ∈ ds, d.isWritable = true) :
    Issues.Own n Value.Issued (evaluateData last ds) := by
  induction ds generalizing n last with
  | nil => exact Issues.value hlast
  | cons d ds ih =>
    obtain ⟨hd, hds⟩ := List.forall_mem_cons.1 hds
    refine Issues.bind (issues_load hd) fun _ _ _ he => ?_
    exact Issues.bind (issues_evaluate he) fun _ _ _ hvalue => ih hvalue hds

theorem issues_evaluateText (text : String) :
    Issues.Own n Value.Issued (evaluateText text) := by
  refine Issues.bind (P := fun _ ds => ∀ d ∈ ds, d.isWritable = true) ?_ fun _ _ _ hds =>
    issues_evaluateData (show Value.Issued _ .nil from trivial) hds
  unfold readAll
  split
  · next ds hread =>
    exact Issues.pure fun _ _ d hd => (Datum.fits_of_readAll hread d hd).isWritable
  · exact Issues.throw _

/-! ## Clients -/

/-- What an outcome gives to the client. -/
def answers : Except Error Value → List Value
  | .ok v => [v]
  | .error _ => []

/-- A client has reached this machine and holds these values. -/
inductive Reached : Machine → List Value → Prop
  | start (options : Options) : Reached (.start .initial options {}) []
  /-- It writes an expression. -/
  | write {m : Machine} {held : List Value} (h : Reached m held) {v : Value}
    (hv : v.NamesOnly Token.NamesSymbol) : Reached m (v :: held)
  /-- It reads an expression of a text. -/
  | read {m : Machine} {held : List Value} (h : Reached m held) {text : String} {ds : List Datum}
    (hread : Datum.readAll text = .ok ds) {d : Datum} (hd : d ∈ ds) :
    Reached (load d m).2 (answers (load d m).1 ++ held)
  /-- It quotes a value. -/
  | quote {m : Machine} {held : List Value} (h : Reached m held) {v : Value} (hv : v ∈ held) :
    Reached m (.quoted v :: held)
  /-- It makes a pair, as the start of a list or of a call. -/
  | pair {m : Machine} {held : List Value} (h : Reached m held) (stamp : Nat) {car cdr : Value}
    (hcar : car ∈ held) (hcdr : cdr ∈ held) : Reached m (.pair stamp car cdr :: held)
  | evaluate {m : Machine} {held : List Value} (h : Reached m held) {e : Value} (he : e ∈ held) :
    Reached (evaluate e m).2 (answers (evaluate e m).1 ++ held)
  | evaluateText {m : Machine} {held : List Value} (h : Reached m held) (text : String) :
    Reached (evaluateText text m).2 (answers (evaluateText text m).1 ++ held)
  | apply {m : Machine} {held : List Value} (h : Reached m held) {f : Value} (hf : f ∈ held)
    {args : List Value} (hargs : args ⊆ held) :
    Reached (apply f args m).2 (answers (apply f args m).1 ++ held)
  | reset {m : Machine} {held : List Value} (h : Reached m held) : Reached (reset m).2 held
  | configure {m : Machine} {held : List Value} (h : Reached m held) (options : Options) :
    Reached { m with options } held

/-- What a client does keeps to the names that were made. -/
theorem Reached.run {m : Machine} {held : List Value} (hm : m.Issued)
    (hheld : Value.AllIssued m.placeholders held) {x x' : Eval Value}
    (hx : Issues m.placeholders Value.Issued x x') :
    (x m).2.Issued ∧ Value.AllIssued (x m).2.placeholders (answers (x m).1 ++ held) := by
  obtain ⟨-, hle, hissued, hanswer⟩ := hx m (Nat.le_refl _) hm
  refine ⟨hissued, List.forall_mem_append.2 ⟨fun v hv => ?_, hheld.later hle⟩⟩
  rcases h : (x m).1 with err | found
  · rw [h] at hv
    cases hv
  · rw [h] at hv
    exact List.eq_of_mem_singleton hv ▸ hanswer found h

/-- **A client meets only names of placeholders that were made.** -/
theorem Reached.issued {m : Machine} {held : List Value} (h : Reached m held) :
    m.Issued ∧ Value.AllIssued m.placeholders held := by
  induction h with
  | start options =>
    exact ⟨⟨.empty, Environment.issued_initial _, fun _ h => by cases h⟩, .nil⟩
  | write _ hv ih => exact ⟨ih.1, List.forall_mem_cons.2 ⟨Value.issued_of_namesSymbol hv _, ih.2⟩⟩
  | read _ hread hd ih =>
    exact run ih.1 ih.2 (issues_load (Datum.fits_of_readAll hread _ hd).isWritable)
  | @quote m held _ v hv ih =>
    have hquoted : Value.Issued m.placeholders (.quoted v) := ih.2 v hv
    exact ⟨ih.1, List.forall_mem_cons.2 ⟨hquoted, ih.2⟩⟩
  | pair _ stamp hcar hcdr ih =>
    exact ⟨ih.1, List.forall_mem_cons.2 ⟨⟨ih.2 _ hcar, ih.2 _ hcdr⟩, ih.2⟩⟩
  | evaluate _ he ih => exact run ih.1 ih.2 (issues_evaluate (ih.2 _ he))
  | evaluateText _ text ih => exact run ih.1 ih.2 (issues_evaluateText text)
  | @apply m _ _ f hf args hargs ih =>
    exact run (x := Session.apply f args) ih.1 ih.2 (Issues.get fun m hm _ =>
      (issues_apply ((ih.2 _ hf).later hm) (fun v hv => (ih.2 v (hargs hv)).later hm)
        (Evaluation.visitWithin 0) (Evaluation.room m)))
  | reset _ ih =>
    exact ⟨⟨ih.1.store, Environment.issued_initial _, fun _ h => by cases h⟩, ih.2⟩
  | configure _ options ih => exact ⟨{ ih.1 with }, ih.2⟩

/-- **Placeholders are fresh.** Whatever a client has done, failures included, the names of placeholders
in the machine and in what the client holds are among those made, no closure binds a name twice, and the
next placeholder is a new name. So it is while values that the client holds are evaluated and applied:
each step begins and ends in such a machine, and there currying makes new names only. -/
theorem placeholders_fresh {m : Machine} {held : List Value} (h : Reached m held) :
    (m.Issued ∧ Value.AllIssued m.placeholders held) ∧
    (∀ c ∈ m.store.closures, c.names.Nodup) ∧
    (∃ name, (Eval.placeholder m).1 = .ok name ∧
      m.NamesOnly (· ≠ name) ∧ Value.AllNameOnly (· ≠ name) held) ∧
    (∀ other room, (∀ level, ∀ e ∈ held, Evaluation.diverted other room e (m.atLevel level) =
        Evaluation.visitWithin room e (m.atLevel level)) ∧
      ∀ f ∈ held, ∀ args ⊆ held, Application.apply (Evaluation.diverted other room) f args m =
        Application.apply (Evaluation.visitWithin room) f args m) ∧
    (∀ m' : Machine, m'.Issued → ∀ f args, Value.AllIssued m'.placeholders args →
      ∃ a c m'', Application.curryNative f args m' = (.ok (.closure a), m'') ∧
        m''.store.closures[a]? = some c ∧ c.names.Nodup ∧ ∀ name ∈ c.names,
          m'.NamesOnly (· ≠ name) ∧ Value.AllNameOnly (· ≠ name) args) := by
  obtain ⟨hm, hheld⟩ := h.issued
  refine ⟨⟨hm, hheld⟩, fun c hc => (hm.store.closures c hc).distinct, ?_, ?_, ?_⟩
  · have hnew : m.placeholders < m.placeholders + 1 := Nat.lt_succ_self _
    -- All names in the machine have a number up to the count, and the next one is larger.
    exact ⟨placeholderName (m.placeholders + 1), rfl,
      Machine.NamesOnly.mono (fun _ h => h.ne_placeholder hnew) hm,
      hheld.mono fun _ h => h.ne_placeholder hnew⟩
  · refine fun other room => ⟨fun level e he => ?_, fun f hf args hargs => ?_⟩
    · exact (Issues.visitWithin other room (hheld e he) (m.atLevel level) (Nat.le_refl _)
        { hm with }).1
    · exact (issues_apply (hheld f hf) (fun v hv => hheld v (hargs hv)) other room m (Nat.le_refl _)
        hm).1
  · exact fun m' hm' f args hargs => Application.curryNative_fresh f hm' hargs

/-- After a failure and a fresh start the client still holds a closure with two placeholders, and gets
one with two others. -/
theorem placeholders_fresh_reset :
    let first := evaluateText "(cons 'a)" (.start .initial {} {})
    let failed := evaluateText "(g)" first.2
    let last := evaluateText "(cons 'b)" (reset failed.2).2
    Reached last.2 [.closure 1, .closure 0] ∧
      failed.1 = .error (.unboundSymbol "g") ∧
      last.2.store.closures.toList.map Closure.names = [["%2", "%1"], ["%4", "%3"]] ∧
      ∃ name, (Eval.placeholder last.2).1 = .ok name ∧ last.2.NamesOnly (· ≠ name) := by
  intro first failed last
  have hfailed : failed.1 = .error (.unboundSymbol "g") := by
    unfold failed first
    cbv
  have hanswers : answers last.1 ++ (answers failed.1 ++ (answers first.1 ++ [])) =
      [.closure 1, .closure 0] := by
    unfold last failed first
    cbv
  have hlast := (((Reached.start {}).evaluateText "(cons 'a)").evaluateText "(g)").reset.evaluateText
    "(cons 'b)"
  obtain ⟨-, -, ⟨name, hname, hfresh, -⟩, -⟩ := placeholders_fresh hlast
  refine ⟨hanswers ▸ hlast, hfailed, ?_, name, hname, hfresh⟩
  unfold last failed first
  cbv

end Session

end CurryLisp
