/-
# Diagnostics

What the compiler reports about a faulty program: a kind, one line of text and the
place it is about. A diagnostic never stops the compiler; the node it is about simply
has no value.
-/

import SsaCompiler.Source.Span

namespace SsaCompiler

/-- The kinds of mistakes a program can contain. -/
inductive DiagnosticKind where
  /-- A variable, function, object, member or template is not known. -/
  | unresolvedName
  /-- No overload fits the arguments, or more than one does. -/
  | overloadMismatch
  /-- The types of operands do not go together. -/
  | typeMismatch
  /-- A declaration is repeated or stands where it must not. -/
  | structural
  deriving DecidableEq, Repr, Inhabited

/-- The kind in words. -/
def DiagnosticKind.text : DiagnosticKind → String
  | unresolvedName => "unresolved name"
  | overloadMismatch => "overload mismatch"
  | typeMismatch => "type mismatch"
  | structural => "structural error"

/-- One report about a program. -/
structure Diagnostic where
  /-- The kind of mistake. -/
  kind : DiagnosticKind
  /-- What is wrong. -/
  message : String
  /-- Where it is wrong. -/
  span : Span
  deriving DecidableEq, Repr, Inhabited

namespace Diagnostic

/-- The line of the report, zero when unknown. -/
def line (d : Diagnostic) : Nat := d.span.line

/-- The report as it is shown; an unknown line is left out. -/
def text (d : Diagnostic) : String :=
  if d.span.line = 0 then s!"error: {d.message}"
  else s!"line {d.span.line}: error: {d.message}"

/-- One line of text for each report. -/
def render (ds : List Diagnostic) : String :=
  String.join (ds.map fun d => d.text ++ "\n")

end Diagnostic

end SsaCompiler
