/-
# The context of a compilation

Everything that one module leaves behind for the next: the options, the reports, and the
tables of symbols, operators, templates, thrown types and support functions. A second
module that is compiled in the same context sees all that the first one declared.
-/

import SsaCompiler.Lower.Options
import SsaCompiler.Lower.Support
import SsaCompiler.Lower.Throwable
import SsaCompiler.Symbols.OperatorTable
import SsaCompiler.Symbols.SymbolTable
import SsaCompiler.Symbols.Template

namespace SsaCompiler

/-- The tables of a compilation. -/
structure Context where
  /-- What the user chose. -/
  options : LowerOptions
  /-- The reports made so far. -/
  diagnostics : DiagnosticQueue
  /-- Variables, functions and objects. -/
  symbols : SymbolTable
  /-- Operators defined by the program or by the dynamic array. -/
  operators : OperatorTable
  /-- Templates and their concrete types. -/
  templates : TemplateTable
  /-- The types that are thrown or caught. -/
  throwables : ThrowableTable
  /-- The support functions that are declared. -/
  support : SupportTable
  deriving Inhabited

namespace Context

/-- The context before the first module. It gives the dynamic array its name. -/
def new (options : LowerOptions) (names : Names) : Context × Names :=
  let (templates, names) := TemplateTable.initial names
  ({ options := options
     diagnostics := .new options.diagnostics
     symbols := .empty
     operators := .empty
     templates := templates
     throwables := .empty
     support := .empty }, names)

/-- Adds a report. -/
def report (c : Context) (d : Diagnostic) : Context :=
  { c with diagnostics := (c.diagnostics.push d).2 }

/-- The number of reports. -/
def errorCount (c : Context) : Nat := c.diagnostics.errorCount

end Context

end SsaCompiler
