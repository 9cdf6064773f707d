/-
# What is reported under a configuration

A configuration says which reports of a tree are kept. Without a limit and with every report kept, a
tree has a list of reports. Under another configuration the reports are what a queue with that
configuration keeps of this list, unless the queue is to drop a report that repeats the one before.
Such a queue does not count what it drops, so that a part without a value looks as if there had been
no report about it, and there is a report more.

All that comes of a configuration is one report more or less. However many trees are lowered one
after the other, and whatever is wrong with them, the module, the tables, the names and the recorded
exceptions are the same under every such choice, and so is whether a walk ends early.
-/

import SsaCompiler.Proofs.Lower.Compilation
import SsaCompiler.Proofs.Lower.Composed.Node
import SsaCompiler.Proofs.Lower.Reports

namespace SsaCompiler

namespace DiagnosticQueue

/-- A queue `p` with a configuration beside a queue `q` that keeps everything and to which the same
lowering reports. -/
structure Filters (config : DiagnosticConfig) (p q : DiagnosticQueue) : Prop where
  all : q = ⟨q.kept, 0, .unlimited⟩
  filtered : config.Counts q.kept → p = (new config).feed q.kept
  reported : ∀ d ∈ p.kept, d ∈ q.kept ∨ ∃ span, d = .noValue span

variable {config : DiagnosticConfig} {p q : DiagnosticQueue} {d : Diagnostic}

theorem filters_new (config : DiagnosticConfig) : Filters config (new config) (new .unlimited) where
  all := rfl
  filtered _ := rfl
  reported _ hd := by cases hd

/-- A report goes to both queues. -/
theorem Filters.push (h : Filters config p q) (d : Diagnostic) :
    Filters config (p.push d).2 (q.push d).2 := by
  obtain ⟨ds, n, c⟩ := q
  cases h.all
  refine ⟨rfl, fun hcounts => ?_, fun e he => ?_⟩
  · change (p.push d).2 = (new config).feed (ds ++ [d])
    rw [feed_concat, ← h.filtered (hcounts.shorten (List.prefix_append ds [d]))]
  · change e ∈ ds ++ [d] ∨ _
    rcases List.mem_append.1 (p.kept_push_subset d he) with hold | hnew
    · exact (h.reported e hold).imp_left (List.mem_append_left [d])
    · exact .inl (List.mem_append_right ds hnew)

/-- Once a report has repeated the one before, a report may go to the queue with the configuration
only, if it is about a part without a value. -/
theorem Filters.push_left (h : Filters config p q) (hcounts : ¬ config.Counts q.kept)
    (span : Span) : Filters config (p.push (.noValue span)).2 q where
  all := h.all
  filtered hc := absurd hc hcounts
  reported e he := by
    rcases List.mem_append.1 (p.kept_push_subset _ he) with hold | hnew
    · exact h.reported e hold
    · exact .inr ⟨span, List.mem_singleton.1 hnew⟩

theorem Filters.push_right (h : Filters config p q) (hcounts : ¬ config.Counts q.kept)
    (d : Diagnostic) : Filters config p (q.push d).2 := by
  obtain ⟨ds, n, c⟩ := q
  cases h.all
  refine ⟨rfl, fun hc => ?_, fun e he => ?_⟩
  · exact absurd (hc.shorten (List.prefix_append ds [d])) hcounts
  · exact (h.reported e he).imp_left (List.mem_append_left [d])

/-- As long as no report has repeated the one before, both queues have counted the same. -/
theorem Filters.errorCount_eq (h : Filters config p q) (hcounts : config.Counts q.kept) :
    p.errorCount = q.errorCount := by
  rw [h.filtered hcounts, (hasCounted_feed hcounts).count, h.all]
  rfl

/-- Whatever is lowered, a queue with a configuration stays beside one that keeps everything. -/
theorem isKept_filters (config : DiagnosticConfig) : IsKept (Filters config) where
  push h := h.push _
  complain {p q p' q' span} h hp hq h' := by
    unfold DiagnosticQueue.complain
    by_cases hcounts : config.Counts q'.kept
    · rw [h.errorCount_eq (hcounts.shorten hq.kept), h'.errorCount_eq hcounts]
      split
      · exact h'.push _
      · exact h'
    · split
      · split
        · exact h'.push _
        · exact h'.push_left hcounts span
      · split
        · exact h'.push_right hcounts _
        · exact h'

end DiagnosticQueue

namespace Lower

instance {L : Leeway} [L.Writes] {r : Recur} [r.IsComposed] (node : Option Node) :
    Composed Elementary L (root r node) := by
  unfold root
  split <;> infer_instance

end Lower

namespace Compilation

variable {c c' : Compilation} {config : DiagnosticConfig} {root : Option Node}

/-- The compilation with other reports. -/
def withReports (c : Compilation) (q : DiagnosticQueue) : Compilation :=
  { c with context := c.context.withReports q }

/-- Two walks that differ in nothing but the queue go side by side. -/
theorem walk_withReports {α : Type} {ρ : DiagnosticQueue → DiagnosticQueue → Prop}
    (hρ : DiagnosticQueue.IsKept ρ) {x : Lower α} [hx : Lower.Composed Lower.Elementary .free x]
    {p q : DiagnosticQueue} (h : ρ p q) {a : α} {result : Except InternalError (Table Nat ThrowSet)}
    (hrun : (c.withReports p).walk x = .ok (a, result, c')) :
    ∃ (c₁ : Compilation) (p' q' : DiagnosticQueue), c' = c₁.withReports p' ∧
      (c.withReports q).walk x = .ok (a, result, c₁.withReports q') ∧ ρ p' q' := by
  let start : Lowering :=
    ⟨c.context, (c.names.intern "this").2, c.module, .new (c.names.intern "this").1⟩
  have hagree := (hx.parallel hρ).agree h (s := start)
  change (x (start.withReports p) >>= fun r => _) = _ at hrun
  change ∃ (c₁ : Compilation) (p' q' : DiagnosticQueue), c' = c₁.withReports p' ∧
    (x (start.withReports q) >>= fun r => _) = _ ∧ ρ p' q'
  generalize x (start.withReports p) = u at hagree hrun
  generalize x (start.withReports q) = v at hagree ⊢
  cases hagree with
  | crash e => cases hrun
  | @ok a s p' q' h' =>
      cases hrun
      exact ⟨⟨s.context, s.names, s.module⟩, p', q', rfl, rfl, h'⟩

/-- The reports of a tree that are kept, in the order in which they are made, with calls nested at
most `bound` deep. -/
def kept (bound : Nat) (c : Compilation) (root : Option Node) : Checked (List Diagnostic) := do
  let (_, _, c') ← c.walk (Lower.root (.within bound) root)
  return c'.context.diagnostics.kept

/-- What is reported of a tree is what is kept, ordered by line. -/
theorem diagnostics_eq {bound : Nat} {outcome : LowerOutcome}
    (h : c.lowerWithin bound root = .ok (.ok outcome, c')) :
    ∃ ds, c.kept bound root = .ok ds ∧
      outcome.diagnostics = ds.mergeSort fun a b => a.line ≤ b.line := by
  obtain ⟨⟨⟨⟩, result, c₁⟩, hwalk, hend⟩ := answer_bind_eq_ok_iff.1 h
  cases result with
  | error e => cases hend
  | ok throws =>
      cases hend
      exact ⟨_, answer_bind_eq_ok_iff.2 ⟨_, hwalk, rfl⟩, rfl⟩

/-- What is reported under a configuration is what a queue with that configuration keeps of the
reports that are made without a limit, ordered by line, unless the configuration drops one of these.
In any case every report is one of these or is about a part without a value. -/
theorem diagnostics_of_lower {bound : Nat} {outcome : LowerOutcome}
    (h : (c.withReports (.new config)).lowerWithin bound root = .ok (.ok outcome, c')) :
    ∃ ds, (c.withReports (.new .unlimited)).kept bound root = .ok ds ∧
      (config.Counts ds →
        outcome.diagnostics = ((DiagnosticQueue.new config).feed ds).flush.1 ∧
          outcome.errorCount = ds.length) ∧
      ∀ d ∈ outcome.diagnostics, d ∈ ds ∨ ∃ span, d = .noValue span := by
  obtain ⟨⟨⟨⟩, result, c₁⟩, hwalk, hend⟩ := answer_bind_eq_ok_iff.1 h
  cases result with
  | error e => cases hend
  | ok throws =>
      cases hend
      obtain ⟨c₂, p', q', rfl, hall, hfilters⟩ := walk_withReports
        (DiagnosticQueue.isKept_filters config) (DiagnosticQueue.filters_new config) hwalk
      refine ⟨q'.kept, answer_bind_eq_ok_iff.2 ⟨_, hall, rfl⟩, fun hcounts => ⟨?_, ?_⟩, ?_⟩
      · rw [← hfilters.filtered hcounts]
        rfl
      · have hcount := hfilters.errorCount_eq hcounts
        rw [hfilters.all] at hcount
        exact hcount
      · intro d hd
        exact hfilters.reported d (List.mem_mergeSort.1 hd)

/-- A function with two variables, each of which starts with the value of a variable that is not
there. -/
def unknownProgram (first second : Name) : Node :=
  let node (id : Nat) (kind : NodeKind Node) : Node := ⟨id, .unknown, kind⟩
  let declare (id : Nat) (name value : Name) : Node :=
    node id (.varDecl (.prim .int) [⟨name, some (node (id + 1) (.ident value))⟩])
  let body := node 4 (.block [declare 0 ⟨4⟩ first, declare 2 ⟨5⟩ second])
  node 6 (.module [node 5 (.function ⟨⟨3⟩, [], .prim .void, some body⟩)])

/-- The compilation in which the program has been read. -/
def unknownCompilation : Compilation := reading "unknown" #["main", "a", "b", "x", "y"]

/-- The report of a variable that is not there. -/
def unknownVariable (text : String) : Diagnostic :=
  ⟨.unresolvedName, s!"unknown variable '{text}'", .unknown⟩

/-- A queue for one report without repetitions keeps the first of two unknown variables, and counts
both. -/
theorem diagnostics_of_lower_unknownProgram : ∃ outcome c',
    (unknownCompilation.withReports (.new ⟨1, true⟩)).lower (some (unknownProgram ⟨6⟩ ⟨7⟩)) =
      .ok (.ok outcome, c') ∧
        outcome.diagnostics = [unknownVariable "x"] ∧ outcome.errorCount = 2 := by
  obtain ⟨outcome, c', hrun, -⟩ : ∃ outcome c',
      (unknownCompilation.withReports (.new ⟨1, true⟩)).lower (some (unknownProgram ⟨6⟩ ⟨7⟩)) =
        .ok (.ok outcome, c') ∧ True := exists_of_leaves (by decide +kernel)
  obtain ⟨ds, hds, hkept, -⟩ := diagnostics_of_lower hrun
  have hall : (unknownCompilation.withReports (.new .unlimited)).kept Recur.depthLimit
      (some (unknownProgram ⟨6⟩ ⟨7⟩)) = .ok [unknownVariable "x", unknownVariable "y"] := by
    decide +kernel
  cases hds.symm.trans hall
  obtain ⟨hdiagnostics, hcount⟩ := hkept fun _ => by decide
  refine ⟨outcome, c', hrun, hdiagnostics.trans ?_, hcount⟩
  exact List.mergeSort_singleton _

/-- When both variables are the same, the second report repeats the first. A queue that drops it
leads to a report of a part without a value, which is not made otherwise. -/
theorem noValue_of_lower_unknownProgram :
    (unknownCompilation.withReports (.new .unlimited)).kept Recur.depthLimit
          (some (unknownProgram ⟨6⟩ ⟨6⟩)) = .ok [unknownVariable "x", unknownVariable "x"] ∧
      ((DiagnosticQueue.new ⟨0, true⟩).feed
        [unknownVariable "x", unknownVariable "x"]).flush.1 = [unknownVariable "x"] ∧
      ∃ outcome c',
        (unknownCompilation.withReports (.new ⟨0, true⟩)).lower (some (unknownProgram ⟨6⟩ ⟨6⟩)) =
          .ok (.ok outcome, c') ∧ .noValue .unknown ∈ outcome.diagnostics := by
  refine ⟨by decide +kernel, List.mergeSort_singleton _, ?_⟩
  obtain ⟨outcome, c', hrun, -⟩ : ∃ outcome c',
      (unknownCompilation.withReports (.new ⟨0, true⟩)).lower (some (unknownProgram ⟨6⟩ ⟨6⟩)) =
        .ok (.ok outcome, c') ∧ True := exists_of_leaves (by decide +kernel)
  obtain ⟨ds, hds, hdiagnostics⟩ := diagnostics_eq hrun
  have hkept : (unknownCompilation.withReports (.new ⟨0, true⟩)).kept Recur.depthLimit
      (some (unknownProgram ⟨6⟩ ⟨6⟩)) = .ok [unknownVariable "x", .noValue .unknown] := by
    decide +kernel
  cases hds.symm.trans hkept
  refine ⟨outcome, c', hrun, ?_⟩
  rw [hdiagnostics, List.mem_mergeSort]
  simp

end Compilation

/-! ### Code does not depend on which reports are kept -/

namespace Compilation

/-- The compilation without its reports and without the choice of the user which of them are
kept. -/
def withoutReports (c : Compilation) : Compilation := c.withReports (.new .unlimited)

/-- Reads and lowers trees one after the other, each with the texts of the names that are met while
it is read. A tree that ends early does not keep the next from being lowered. -/
def lowerAll (bound : Nat) (c : Compilation) : List (List String × Option Node) →
    Checked (List (Except InternalError LowerOutcome) × Compilation)
  | [] => return ([], c)
  | (texts, root) :: rest => do
    let names := texts.foldl (fun names text => (names.intern text).2) c.names
    let (result, c) ← { c with names := names }.lowerWithin bound root
    let (results, c) ← lowerAll bound c rest
    return (result :: results, c)

/-- What trees leave behind apart from reports: for each of them the recorded exceptions, or why the
walk ended early, and in the end the module, the names and the tables. -/
def answers (r : List (Except InternalError LowerOutcome) × Compilation) :
    List (Except InternalError (Table Nat ThrowSet)) × Compilation :=
  (r.1.map fun result => result.map LowerOutcome.nodeThrows, r.2.withoutReports)

/-- What the first tree leaves behind stands before what the rest does. -/
theorem map_answers_cons (result : Except InternalError LowerOutcome)
    (x : Checked (List (Except InternalError LowerOutcome) × Compilation)) :
    (x >>= fun r => pure (result :: r.1, r.2)).map answers =
      (x.map answers).map fun r => (result.map LowerOutcome.nodeThrows :: r.1, r.2) := by
  cases x <;> rfl

/-- How two lowerings of the same tree end that differ in nothing but their queues at the
beginning. -/
inductive Alike : Checked (Except InternalError LowerOutcome × Compilation) →
    Checked (Except InternalError LowerOutcome × Compilation) → Prop where
  | crash (e : Crash) : Alike (.error e) (.error e)
  | ok {result result' : Except InternalError LowerOutcome} (c : Compilation)
      (p q : DiagnosticQueue)
      (same : result.map LowerOutcome.nodeThrows = result'.map LowerOutcome.nodeThrows) :
      Alike (.ok (result, c.withReports p)) (.ok (result', c.withReports q))

/-- A tree makes the same of compilations that differ in their queues only. -/
theorem alike_lowerWithin (bound : Nat) (c : Compilation) (p q : DiagnosticQueue)
    (root : Option Node) :
    Alike ((c.withReports p).lowerWithin bound root)
      ((c.withReports q).lowerWithin bound root) := by
  let start : Lowering :=
    ⟨c.context, (c.names.intern "this").2, c.module, .new (c.names.intern "this").1⟩
  have hkept : DiagnosticQueue.IsKept fun _ _ => True :=
    ⟨fun _ => trivial, fun _ _ _ _ => trivial⟩
  have hcomposed : Lower.Composed Lower.Elementary .free (Lower.root (.within bound) root) :=
    inferInstance
  have hagree := (hcomposed.parallel hkept).agree (s := start) (p := p) (q := q) trivial
  unfold lowerWithin walk
  change Alike ((Lower.root (.within bound) root (start.withReports p) >>= _) >>= _)
    ((Lower.root (.within bound) root (start.withReports q) >>= _) >>= _)
  generalize Lower.root (.within bound) root (start.withReports p) = u at hagree ⊢
  generalize Lower.root (.within bound) root (start.withReports q) = v at hagree ⊢
  cases hagree with
  | crash e => exact .crash e
  | @ok a s p' q' _ _ _ =>
      let lowered : Compilation := ⟨s.context, s.names, s.module⟩
      obtain ⟨context, names, m, ⟨func, loops, tries, throws, nodeThrows, pending, declared,
        fatal, thisName, span⟩⟩ := s
      cases fatal with
      | some e => exact .ok lowered p' q' rfl
      | none => exact .ok lowered p'.flush.2 q'.flush.2 rfl

/-- Trees leave the same behind in compilations that differ in their queues only. -/
theorem answers_lowerAll_withReports (bound : Nat) (trees : List (List String × Option Node))
    (c : Compilation) (p q : DiagnosticQueue) :
    ((c.withReports p).lowerAll bound trees).map answers =
      ((c.withReports q).lowerAll bound trees).map answers := by
  induction trees generalizing c p q with
  | nil => rfl
  | cons tree rest ih =>
      obtain ⟨texts, root⟩ := tree
      let read : Compilation :=
        { c with names := texts.foldl (fun names text => (names.intern text).2) c.names }
      have halike := alike_lowerWithin bound read p q root
      unfold lowerAll
      change ((read.withReports p).lowerWithin bound root >>= _).map answers =
        ((read.withReports q).lowerWithin bound root >>= _).map answers
      generalize (read.withReports p).lowerWithin bound root = u at halike ⊢
      generalize (read.withReports q).lowerWithin bound root = v at halike ⊢
      cases halike with
      | crash e => rfl
      | @ok result result' c' p' q' same =>
          calc _ = ((((c'.withReports p').lowerAll bound rest).map answers).map
                fun s => (result.map LowerOutcome.nodeThrows :: s.1, s.2)) :=
                map_answers_cons result _
            _ = ((((c'.withReports q').lowerAll bound rest).map answers).map
                fun s => (result'.map LowerOutcome.nodeThrows :: s.1, s.2)) := by
                rw [ih c' p' q', same]
            _ = _ := (map_answers_cons result' _).symm

/-- Under every choice which reports are kept, trees that are lowered one after the other crash for
the same reason or leave the same module, names and tables behind; and each of them ends early for
the same reason or lets the same exceptions out of its nodes. -/
theorem answers_lowerAll_config (options : LowerOptions) (p q : DiagnosticConfig)
    (moduleName : String) (bound : Nat) (trees : List (List String × Option Node)) :
    ((new { options with diagnostics := p } moduleName).lowerAll bound trees).map answers =
      ((new { options with diagnostics := q } moduleName).lowerAll bound trees).map answers :=
  answers_lowerAll_withReports bound trees (new options moduleName) (.new p) (.new q)

end Compilation

end SsaCompiler
