/-
# Options of the compiler

What a user may choose: how many reports are kept, whether debug prints are compiled, and
which function is the entry point.
-/

import SsaCompiler.Crash
import SsaCompiler.Diagnostic.Queue
import SsaCompiler.Text.Blank

namespace SsaCompiler

/-- The options of one compilation. -/
structure LowerOptions where
  /-- Which reports are kept. -/
  diagnostics : DiagnosticConfig
  /-- Whether a debug print prints; otherwise it is just its operand. -/
  debugPrints : Bool
  /-- The function that keeps its plain name when it has no parameters. -/
  entryPoint : String
  deriving DecidableEq, Repr

namespace LowerOptions

/-- The usual options. -/
def standard : LowerOptions := ⟨.standard, true, "main"⟩

/-- The usual options with every report kept. -/
def unlimited : LowerOptions := { standard with diagnostics := .unlimited }

instance : Inhabited LowerOptions := ⟨standard⟩

/-- The usual options, changed by two settings. The first is the greatest number of reports
kept and is ignored when it is no number; the second turns debug prints off when it is
zero. Blanks around a setting do not matter. -/
def ofSettings (errorLimit debugPrints : Option String) : LowerOptions :=
  let limit := errorLimit.bind fun text => Text.count? (Text.trimBlanks text.toList) wordRange
  { standard with
    diagnostics := match limit with
      | some n => { DiagnosticConfig.standard with errorLimit := n }
      | none => .standard
    debugPrints := match debugPrints with
      | some text => Text.trimBlanks text.toList != ['0']
      | none => true }

end LowerOptions

end SsaCompiler
