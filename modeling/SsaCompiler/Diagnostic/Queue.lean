/-
# The diagnostic queue

Reports are collected in the order in which they are made. A queue may hold back
repetitions of the last report and everything past a limit, but it goes on counting
what the limit held back. Taking the reports out orders them by line.
-/

import SsaCompiler.Diagnostic

namespace SsaCompiler

/-- What a queue holds back. -/
structure DiagnosticConfig where
  /-- The greatest number of reports kept, zero for no limit. -/
  errorLimit : Nat
  /-- Whether a report equal to the last one kept is dropped. -/
  deduplicate : Bool
  deriving DecidableEq, Repr

namespace DiagnosticConfig

/-- Twenty reports, without immediate repetitions. -/
def standard : DiagnosticConfig := ⟨20, true⟩

/-- Every report. -/
def unlimited : DiagnosticConfig := ⟨0, false⟩

instance : Inhabited DiagnosticConfig := ⟨standard⟩

end DiagnosticConfig

/-- Reports in the order in which they were made. -/
structure DiagnosticQueue where
  /-- The reports kept. -/
  kept : List Diagnostic
  /-- How many reports the limit held back. -/
  dropped : Nat
  /-- What the queue holds back. -/
  config : DiagnosticConfig
  deriving DecidableEq, Repr, Inhabited

namespace DiagnosticQueue

/-- The queue without reports. -/
def new (config : DiagnosticConfig) : DiagnosticQueue := ⟨[], 0, config⟩

/-- Whether the limit holds back the next report. -/
def limitReached (q : DiagnosticQueue) : Bool :=
  q.config.errorLimit > 0 && q.kept.length ≥ q.config.errorLimit

/-- Adds a report, and says whether it was kept. -/
def push (q : DiagnosticQueue) (d : Diagnostic) : Bool × DiagnosticQueue :=
  if q.limitReached then (false, { q with dropped := q.dropped + 1 })
  else if q.config.deduplicate && q.kept.getLast? == some d then (false, q)
  else (true, { q with kept := q.kept ++ [d] })

/-- The number of reports, kept or held back by the limit. -/
def errorCount (q : DiagnosticQueue) : Nat := q.kept.length + q.dropped

/-- Whether there was any report. -/
def hasErrors (q : DiagnosticQueue) : Bool := q.errorCount > 0

/-- Takes the reports out, ordered by line and, within a line, by when they were
made. -/
def flush (q : DiagnosticQueue) : List Diagnostic × DiagnosticQueue :=
  (q.kept.mergeSort fun a b => a.line ≤ b.line, { q with kept := [], dropped := 0 })

end DiagnosticQueue

/-- What a caller is told when it reports an error: that the report was made. -/
def errorNotice : String := "error(s) emitted"

end SsaCompiler
