/-
# Output

Printing goes through the formatted output of the support functions. Each value has the
directive of its type and is brought to the type that the directive takes.
-/

import SsaCompiler.Lower.Annotation
import SsaCompiler.Lower.Invocation

namespace SsaCompiler

namespace Lower

/-- The directive for a value, and the value as the directive takes it. -/
def printfArg (value : ValueId) (span : Span) : Attempt (String × ValueId) := do
  let ty ← Build.typeOf value
  let word ← Build.intType 32
  match ← Build.typeAt ty with
  | .int bits =>
    if bits = 1 then return ("%d", ← Build.cast .zext value word)
    else if bits = 8 then return ("%c", ← Build.cast .sext value word)
    else if bits < 32 then return ("%d", ← Build.cast .sext value word)
    else if bits = 32 then return ("%d", value)
    else return ("%ld", value)
  | .float bits =>
    if bits = 64 then return ("%g", value)
    else return ("%g", ← Build.cast .fpext value (← Build.floatType 64))
  | .pointer pointee =>
    if (← Build.typeAt pointee) = .int 8 then return ("%s", value) else return ("%p", value)
  | _ =>
    let found ← describe ty
    Attempt.reject .typeMismatch s!"cannot print a value of type '{found}'" span

/-- Prints values in a format. -/
def emitPrintf (format : String) (args : List ValueId) : Lower Unit := do
  let printf ← support .printf
  let text ← Build.globalString format
  discard (emitCall printf (text :: args))

end Lower

namespace Recur

variable (r : Recur)

/-- The directives and the values of the arguments of a print, up to the first that cannot
be printed. -/
def printArgs (span : Span) : List (Option Node) → Attempt (List (String × ValueId))
  | [] => return []
  | c :: rest => do
    let value ← r.value c
    let arg ← Lower.printfArg value span
    return arg :: (← printArgs span rest)

/-- Prints values with spaces between them, then a line end. -/
def print (args : List (Option Node)) (span : Span) : Attempt Unit := do
  let args ← r.printArgs span args
  let format := " ".intercalate (args.map Prod.fst) ++ "\n"
  Lower.emitPrintf format (args.map Prod.snd)

/-- Prints the line and the value of an expression, if debug prints are wanted, and is the
expression either way. -/
def debugPrint (expr : Option Node) (span : Span) : Attempt Operand := do
  let op ← r.required expr
  if (← get).context.options.debugPrints then
    let value ← op.load
    let (directive, arg) ← Lower.printfArg value span
    let line ← Lower.constWord (Int64.ofNat span.line)
    Lower.emitPrintf s!"line %d: {directive}\n" [line, arg]
    return .ofValue value
  else return op

/-- The size of a type as a constant. -/
def sizeOf (ty : TypeExpr) (span : Span) : Attempt Operand := do
  let ty ← r.type span ty
  let size ← Build.ask fun m => m.types.sizeOf ty
  return .ofValue (← Lower.constLong (Lower.sizeWord size))

end Recur

/-- Inline assembly. -/
def Lower.asm (text : Name) : Lower Unit := do
  let text ← Lower.nameText text
  Build.inlineAsm text

end SsaCompiler
