/-
# What a queue keeps of a list of reports

A queue that keeps every report counts them all. A queue with a limit still does, because it
goes on counting behind the limit. A queue that drops repetitions does not count what it drops,
and so counts less than there is to report, unless no report is the same as the one before.

With a limit a queue keeps the first of the reports that it would keep without one. It counts as
many, and besides the repetitions behind the limit, which it does not tell from other reports.
-/

import Mathlib.Data.List.Chain
import SsaCompiler.Diagnostic.Queue

namespace SsaCompiler

/-- A list of reports in which a configuration finds nothing to drop. -/
def DiagnosticConfig.Counts (config : DiagnosticConfig) (ds : List Diagnostic) : Prop :=
  config.deduplicate = true → ds.IsChain (· ≠ ·)

/-- What comes first in such a list is such a list. -/
theorem DiagnosticConfig.Counts.shorten {config : DiagnosticConfig} {ds ds' : List Diagnostic}
    (h : config.Counts ds') (hle : ds <+: ds') : config.Counts ds := by
  obtain ⟨rest, rfl⟩ := hle
  exact fun hconfig => (h hconfig).left_of_append

namespace DiagnosticQueue

variable {q q' q'' : DiagnosticQueue} {config : DiagnosticConfig} {d : Diagnostic}
  {ds : List Diagnostic}

/-! ### One more report -/

/-- Behind the limit a report is counted. -/
theorem push_of_limitReached (h : q.limitReached = true) :
    (q.push d).2 = { q with dropped := q.dropped + 1 } := by
  unfold push
  rw [if_pos h]

/-- Before the limit a report that is not dropped is kept. -/
theorem push_of_not_limitReached (h : q.limitReached = false)
    (hd : q.config.deduplicate = true → q.kept.getLast? ≠ some d) :
    (q.push d).2 = { q with kept := q.kept ++ [d] } := by
  have hdrop : (q.config.deduplicate && q.kept.getLast? == some d) = false := by
    cases hdedup : q.config.deduplicate with
    | false => rfl
    | true => simpa using hd hdedup
  unfold push
  rw [if_neg (by simp [h]), if_neg (by simp [hdrop])]

/-- A queue to which reports may have been added. -/
structure Later (q q' : DiagnosticQueue) : Prop where
  config : q'.config = q.config
  kept : q.kept <+: q'.kept
  dropped : q.dropped ≤ q'.dropped

theorem Later.refl (q : DiagnosticQueue) : q.Later q := ⟨rfl, List.prefix_rfl, Nat.le_refl _⟩

theorem Later.trans (h : q.Later q') (h' : q'.Later q'') : q.Later q'' where
  config := h'.config.trans h.config
  kept := h.kept.trans h'.kept
  dropped := Nat.le_trans h.dropped h'.dropped

/-- Later there are no fewer reports. -/
theorem Later.errorCount_le (h : q.Later q') : q.errorCount ≤ q'.errorCount :=
  Nat.add_le_add h.kept.length_le h.dropped

theorem later_push (q : DiagnosticQueue) (d : Diagnostic) : q.Later (q.push d).2 := by
  unfold push
  split
  · exact ⟨rfl, List.prefix_rfl, Nat.le_succ _⟩
  · split
    · exact .refl q
    · exact ⟨rfl, List.prefix_append _ _, Nat.le_refl _⟩

/-- After a report there is one. -/
theorem errorCount_push_pos (q : DiagnosticQueue) (d : Diagnostic) :
    0 < (q.push d).2.errorCount := by
  unfold push errorCount
  split
  · simp only
    omega
  · split
    · -- A report that is dropped for being the last one again is there.
      rename_i hlast
      have hne : q.kept ≠ [] := by
        rintro h
        simp [h] at hlast
      have hpos := List.length_pos_iff.2 hne
      simp only
      omega
    · simp only [List.length_append, List.length_singleton]
      omega

/-- Nothing but the report is added. -/
theorem kept_push_subset (q : DiagnosticQueue) (d : Diagnostic) :
    (q.push d).2.kept ⊆ q.kept ++ [d] := by
  unfold push
  split
  · exact List.subset_append_left _ _
  · split
    · exact List.subset_append_left _ _
    · exact List.Subset.refl _

/-- Every report is kept when none is to be held back. -/
@[simp]
theorem push_unlimited (ds : List Diagnostic) (n : Nat) (d : Diagnostic) :
    push ⟨ds, n, .unlimited⟩ d = (true, ⟨ds ++ [d], n, .unlimited⟩) := rfl

/-! ### Reports one after the other -/

/-- Adds reports one after the other. -/
def feed (q : DiagnosticQueue) (ds : List Diagnostic) : DiagnosticQueue :=
  ds.foldl (fun q d => (q.push d).2) q

@[simp]
theorem feed_nil (q : DiagnosticQueue) : q.feed [] = q := rfl

/-- The last report is added to what the ones before have left. -/
@[simp]
theorem feed_concat (q : DiagnosticQueue) (ds : List Diagnostic) (d : Diagnostic) :
    q.feed (ds ++ [d]) = ((q.feed ds).push d).2 := by
  simp [feed]

/-- A queue that has counted a list of reports: it has kept the first of them, all of them unless
the limit is reached. -/
structure HasCounted (config : DiagnosticConfig) (ds : List Diagnostic) (q : DiagnosticQueue) :
    Prop where
  config : q.config = config
  kept : q.kept <+: ds
  count : q.errorCount = ds.length
  rest : q.limitReached = false → q.kept = ds

/-- Reports are counted, whether or not they are kept, as long as none repeats the last one. -/
theorem hasCounted_feed (h : config.Counts ds) : HasCounted config ds ((new config).feed ds) := by
  induction ds using List.reverseRecOn with
  | nil => exact ⟨rfl, List.prefix_rfl, rfl, fun _ => rfl⟩
  | append_singleton ds d ih =>
      have before := ih (h.shorten (List.prefix_append ds [d]))
      rw [feed_concat]
      cases hlimit : ((new config).feed ds).limitReached with
      | true =>
          rw [push_of_limitReached hlimit]
          refine ⟨before.config, before.kept.trans (List.prefix_append ds [d]), ?_, ?_⟩
          · have hcount := before.count
            simp only [errorCount, List.length_append, List.length_singleton] at hcount ⊢
            omega
          · -- The limit stays reached.
            intro hreached
            exact absurd (hlimit.symm.trans hreached) (by decide)
      | false =>
          have hkept := before.rest hlimit
          have hnew : ((new config).feed ds).config.deduplicate = true →
              ((new config).feed ds).kept.getLast? ≠ some d := by
            rw [before.config, hkept]
            intro hdedup hlast
            have hchain := List.isChain_append.1 (h hdedup)
            exact hchain.2.2 d hlast d rfl rfl
          have hcount := before.count
          rw [push_of_not_limitReached hlimit hnew]
          simp only [errorCount, hkept] at hcount ⊢
          refine ⟨before.config, List.prefix_rfl, ?_, fun _ => rfl⟩
          simp only [errorCount, List.length_append, List.length_singleton]
          omega

/-! ### With a limit and without

The limit is looked at before the last report is. Up to the limit the two queues go through the
same states; behind it the one counts every report, and the other still drops repetitions. -/

/-- Whether a report is dropped for being the last one again. -/
def repeats (q : DiagnosticQueue) (d : Diagnostic) : Bool :=
  q.config.deduplicate && q.kept.getLast? == some d

/-- A queue that may keep so many of the reports that another one keeps without a limit. -/
structure Limits (limit : Nat) (q free : DiagnosticQueue) : Prop where
  config : q.config = ⟨limit, free.config.deduplicate⟩
  unlimited : free.config.errorLimit = 0
  kept : q.kept = free.kept.take limit

/-- The reports that come behind the limit and that the queue without one drops. -/
def repetitionsBehind (q free : DiagnosticQueue) : List Diagnostic → Nat
  | [] => 0
  | d :: ds =>
      (if q.limitReached && free.repeats d then 1 else 0) +
        repetitionsBehind (q.push d).2 (free.push d).2 ds

variable {limit : Nat} {free : DiagnosticQueue}

/-- Without a limit none is reached. -/
theorem limitReached_of_unlimited (h : q.config.errorLimit = 0) : q.limitReached = false := by
  simp [limitReached, h]

/-- A report that repeats the last one leaves a queue before its limit as it is. -/
theorem push_of_repeats (h : q.limitReached = false) (hd : q.repeats d = true) :
    (q.push d).2 = q := by
  unfold repeats at hd
  unfold push
  rw [if_neg (by simp [h]), if_pos hd]

/-- Another report is kept there. -/
theorem push_of_not_repeats (h : q.limitReached = false) (hd : q.repeats d = false) :
    (q.push d).2 = { q with kept := q.kept ++ [d] } := by
  apply push_of_not_limitReached h
  intro hdedup hlast
  simp [repeats, hdedup, hlast] at hd

namespace Limits

/-- The limit is reached when the other queue keeps as many reports. -/
theorem limitReached_eq (h : Limits limit q free) (hpos : 0 < limit) :
    q.limitReached = decide (limit ≤ free.kept.length) := by
  simp only [limitReached, h.config, h.kept, List.length_take]
  grind

/-- Before the limit both queues have kept the same reports. -/
theorem kept_eq (h : Limits limit q free) (hlimit : ¬ limit ≤ free.kept.length) :
    q.kept = free.kept := by
  rw [h.kept]
  exact List.take_of_length_le (by omega)

/-- Before the limit both queues see the same repetitions. -/
theorem repeats_eq (h : Limits limit q free) (hlimit : ¬ limit ≤ free.kept.length)
    (d : Diagnostic) : q.repeats d = free.repeats d := by
  simp [repeats, h.config, h.kept_eq hlimit]

/-- One more report leaves the one queue with the first of what the other keeps. -/
theorem push (h : Limits limit q free) (hpos : 0 < limit) (d : Diagnostic) :
    Limits limit (q.push d).2 (free.push d).2 := by
  have hfree := limitReached_of_unlimited h.unlimited
  by_cases hlimit : limit ≤ free.kept.length
  · have hq : q.limitReached = true := by simp [h.limitReached_eq hpos, hlimit]
    rw [push_of_limitReached hq]
    cases hd : free.repeats d with
    | true =>
        rw [push_of_repeats hfree hd]
        exact ⟨h.config, h.unlimited, h.kept⟩
    | false =>
        rw [push_of_not_repeats hfree hd]
        refine ⟨h.config, h.unlimited, ?_⟩
        rw [List.take_append_of_le_length hlimit]
        exact h.kept
  · have hq : q.limitReached = false := by simp [h.limitReached_eq hpos, hlimit]
    have hrepeats := h.repeats_eq hlimit d
    cases hd : free.repeats d with
    | true =>
        rw [push_of_repeats hfree hd, push_of_repeats hq (hrepeats.trans hd)]
        exact h
    | false =>
        rw [push_of_not_repeats hfree hd, push_of_not_repeats hq (hrepeats.trans hd)]
        refine ⟨h.config, h.unlimited, ?_⟩
        -- There is room for one more.
        have hroom : (free.kept ++ [d]).length ≤ limit := by
          rw [List.length_append, List.length_singleton]
          omega
        rw [List.take_of_length_le hroom, h.kept_eq hlimit]

/-- One more report counts the same, unless it is a repetition behind the limit. -/
theorem errorCount_push (h : Limits limit q free) (hpos : 0 < limit) (d : Diagnostic) :
    (q.push d).2.errorCount + free.errorCount =
      q.errorCount + (free.push d).2.errorCount +
        (if q.limitReached && free.repeats d then 1 else 0) := by
  have hfree := limitReached_of_unlimited h.unlimited
  by_cases hlimit : limit ≤ free.kept.length
  · have hq : q.limitReached = true := by simp [h.limitReached_eq hpos, hlimit]
    rw [push_of_limitReached hq]
    cases hd : free.repeats d with
    | true =>
        rw [push_of_repeats hfree hd]
        simp only [errorCount, hq, Bool.and_self, if_true]
        omega
    | false =>
        rw [push_of_not_repeats hfree hd]
        simp only [errorCount, List.length_append, List.length_singleton, Bool.and_false]
        grind
  · have hq : q.limitReached = false := by simp [h.limitReached_eq hpos, hlimit]
    have hrepeats := h.repeats_eq hlimit d
    cases hd : free.repeats d with
    | true =>
        rw [push_of_repeats hfree hd, push_of_repeats hq (hrepeats.trans hd)]
        simp [hq]
    | false =>
        rw [push_of_not_repeats hfree hd, push_of_not_repeats hq (hrepeats.trans hd)]
        simp only [errorCount, List.length_append, List.length_singleton, hq, Bool.false_and]
        grind

/-- After any reports the one queue has kept the first of what the other has, and has counted
the repetitions behind the limit besides. -/
theorem feed (h : Limits limit q free) (hpos : 0 < limit) (ds : List Diagnostic) :
    Limits limit (q.feed ds) (free.feed ds) ∧
      (q.feed ds).errorCount + free.errorCount =
        q.errorCount + (free.feed ds).errorCount + repetitionsBehind q free ds := by
  induction ds generalizing q free with
  | nil => exact ⟨h, rfl⟩
  | cons d ds ih =>
      have hone := h.errorCount_push hpos d
      obtain ⟨hlimits, hrest⟩ := ih (h.push hpos d)
      refine ⟨hlimits, ?_⟩
      have hstart : ∀ q : DiagnosticQueue, q.feed (d :: ds) = ((q.push d).2).feed ds :=
        fun _ => rfl
      rw [hstart, hstart, repetitionsBehind]
      omega

end Limits

theorem limits_new (limit : Nat) (deduplicate : Bool) :
    Limits limit (new ⟨limit, deduplicate⟩) (new ⟨0, deduplicate⟩) :=
  ⟨rfl, rfl, by simp [new]⟩

/-- A queue that keeps repetitions drops none. -/
theorem repetitionsBehind_eq_zero (h : free.config.deduplicate = false) (q : DiagnosticQueue)
    (ds : List Diagnostic) : repetitionsBehind q free ds = 0 := by
  induction ds generalizing q free with
  | nil => rfl
  | cons d ds ih =>
      have hrest : (free.push d).2.config.deduplicate = false := by
        rw [(later_push free d).config, h]
      rw [repetitionsBehind, ih hrest]
      simp [repeats, h]

/-- A queue counts nothing when nothing was reported to it, and then only. -/
theorem errorCount_feed_eq_zero_iff (config : DiagnosticConfig) (ds : List Diagnostic) :
    ((new config).feed ds).errorCount = 0 ↔ ds = [] := by
  constructor
  · intro h
    cases ds using List.reverseRecOn with
    | nil => rfl
    | append_singleton ds d =>
        rw [feed_concat] at h
        have hpos := errorCount_push_pos ((new config).feed ds) d
        omega
  · rintro rfl
    rfl

/-! ### Taking the reports out -/

/-- Reports ordered by line. -/
def InOrder (ds : List Diagnostic) : Prop := ds.Pairwise fun a b => a.line ≤ b.line

/-- The reports come out in the order of their lines. -/
theorem inOrder_flush (q : DiagnosticQueue) : InOrder q.flush.1 := by
  have hsorted : q.flush.1.Pairwise fun a b : Diagnostic => decide (a.line ≤ b.line) := by
    apply List.pairwise_mergeSort
    · simpa using fun a b c => Nat.le_trans
    · simpa using fun a b => Nat.le_total _ _
  simpa [InOrder] using hsorted

/-- All of them come out, each as often as it was kept. -/
theorem perm_flush (q : DiagnosticQueue) : q.flush.1.Perm q.kept := List.mergeSort_perm _ _

/-- Those of one line come out in the order in which they were made. -/
theorem filter_flush (q : DiagnosticQueue) (line : Nat) :
    q.flush.1.filter (·.line = line) = q.kept.filter (·.line = line) := by
  have hordered : (q.kept.filter (·.line = line)).Pairwise
      fun a b : Diagnostic => decide (a.line ≤ b.line) := by
    apply List.pairwise_of_forall_mem_list
    intro a ha b hb
    simp only [List.mem_filter, decide_eq_true_eq] at ha hb
    simp [ha.2, hb.2]
  have hsublist : (q.kept.filter (·.line = line)).Sublist q.flush.1 := by
    apply List.sublist_mergeSort _ _ hordered List.filter_sublist
    · simpa using fun a b c => Nat.le_trans
    · simpa using fun a b => Nat.le_total _ _
  -- A part of the same length is the whole.
  have hfiltered := hsublist.filter (·.line = line)
  rw [List.filter_filter] at hfiltered
  simp only [Bool.and_self] at hfiltered
  exact (hfiltered.eq_of_length (q.perm_flush.filter _).length_eq.symm).symm

/-- Taking the reports out yields each once, ordered by line and within a line as they were made,
and leaves nothing behind. -/
structure Delivers (q : DiagnosticQueue) : Prop where
  each : q.flush.1.Perm q.kept
  ordered : InOrder q.flush.1
  stable : ∀ line, q.flush.1.filter (·.line = line) = q.kept.filter (·.line = line)
  reset : q.flush.2.errorCount = 0

/-- Every queue delivers what it keeps. -/
theorem delivers (q : DiagnosticQueue) : q.Delivers :=
  ⟨q.perm_flush, q.inOrder_flush, q.filter_flush, rfl⟩

/-- A limit keeps the first reports of those that are kept without one. It leaves the count as it
is, except that a repetition counts when it comes behind the limit: there the last report is not
looked at any more. -/
theorem feed_of_limit (limit : Nat) (deduplicate : Bool) (ds : List Diagnostic)
    (hpos : 0 < limit) :
    let q := new ⟨limit, deduplicate⟩
    let free := new ⟨0, deduplicate⟩
    (q.feed ds).kept = (free.feed ds).kept.take limit ∧
      (q.feed ds).errorCount = (free.feed ds).errorCount + repetitionsBehind q free ds ∧
      (deduplicate = false → (q.feed ds).errorCount = (free.feed ds).errorCount) ∧
      ((q.feed ds).errorCount = 0 ↔ ds = []) ∧ ((free.feed ds).errorCount = 0 ↔ ds = []) ∧
      (q.feed ds).Delivers ∧ (free.feed ds).Delivers := by
  intro q free
  have hstart : Limits limit q free := limits_new limit deduplicate
  obtain ⟨hlimits, hcount⟩ := hstart.feed hpos ds
  have hcount : (q.feed ds).errorCount =
      (free.feed ds).errorCount + repetitionsBehind q free ds := by
    have hq : q.errorCount = 0 := rfl
    have hfree : free.errorCount = 0 := rfl
    omega
  refine ⟨hlimits.kept, hcount, ?_, errorCount_feed_eq_zero_iff _ ds,
    errorCount_feed_eq_zero_iff _ ds, delivers _, delivers _⟩
  intro hkeeps
  rw [hcount, repetitionsBehind_eq_zero hkeeps, Nat.add_zero]

/-- A report that is made twice. -/
def unknownVariable : Diagnostic := ⟨.unresolvedName, "unknown variable 'x'", .atLine 5⟩

/-- A queue with room for one report counts its repetition. -/
theorem feed_of_limit_one :
    0 < 1 ∧ ((new ⟨1, true⟩).feed [unknownVariable, unknownVariable]).errorCount =
      ((new ⟨0, true⟩).feed [unknownVariable, unknownVariable]).errorCount + 1 :=
  ⟨by decide, (feed_of_limit 1 true [unknownVariable, unknownVariable] (by decide)).2.1⟩

/-- The limit changes the count. -/
theorem errorCount_feed_of_limit_ne :
    ¬ ∀ (limit : Nat) (deduplicate : Bool) (ds : List Diagnostic), 0 < limit →
      ((new ⟨limit, deduplicate⟩).feed ds).errorCount =
        ((new ⟨0, deduplicate⟩).feed ds).errorCount := by
  intro h
  have hcount : 2 = 1 := h 1 true [unknownVariable, unknownVariable] (by decide)
  exact absurd hcount (by decide)

end DiagnosticQueue

end SsaCompiler
