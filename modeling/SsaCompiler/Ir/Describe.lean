/-
# Values in messages

How the origin of a value is spelled out in a message about it: the kind of value and
its parts by name.
-/

import SsaCompiler.Ir.Module
import SsaCompiler.Text.Quoted

namespace SsaCompiler

namespace Text

/-- A list of texts in brackets. -/
def listText (parts : List String) : String := "[" ++ ", ".intercalate parts ++ "]"

/-- A word followed by named parts in braces. -/
def partsText (word : String) (parts : List (String × String)) : String :=
  word ++ " \x7b " ++ ", ".intercalate (parts.map fun p => p.1 ++ ": " ++ p.2) ++ " \x7d"

end Text

open Text

/-- The word for an operation. -/
def BinOp.word : BinOp → String
  | add => "Add" | sub => "Sub" | mul => "Mul" | sdiv => "SDiv" | srem => "SRem"
  | fadd => "FAdd" | fsub => "FSub" | fmul => "FMul" | fdiv => "FDiv" | frem => "FRem"
  | and => "And" | or => "Or" | xor => "Xor" | shl => "Shl" | ashr => "AShr"

/-- The word for a comparison of integers. -/
def IntPredicate.word : IntPredicate → String
  | eq => "Eq" | ne => "Ne" | slt => "Slt" | sle => "Sle" | sgt => "Sgt" | sge => "Sge"

/-- The word for a comparison of floating point numbers. -/
def FloatPredicate.word : FloatPredicate → String
  | oeq => "Oeq" | one => "One" | olt => "Olt" | ole => "Ole" | ogt => "Ogt" | oge => "Oge"

/-- The word for a conversion. -/
def CastOp.word : CastOp → String
  | trunc => "Trunc" | sext => "SExt" | zext => "ZExt" | fptrunc => "FPTrunc"
  | fpext => "FPExt" | fptosi => "FPToSI" | sitofp => "SIToFP" | ptrtoint => "PtrToInt"
  | inttoptr => "IntToPtr" | bitcast => "BitCast"

/-- An instruction with its parts. -/
def Instr.describe : Instr → String
  | binary op lhs rhs =>
    partsText "Binary" [("op", op.word), ("lhs", lhs.text), ("rhs", rhs.text)]
  | icmp pred lhs rhs =>
    partsText "ICmp" [("pred", pred.word), ("lhs", lhs.text), ("rhs", rhs.text)]
  | fcmp pred lhs rhs =>
    partsText "FCmp" [("pred", pred.word), ("lhs", lhs.text), ("rhs", rhs.text)]
  | cast op value => partsText "Cast" [("op", op.word), ("value", value.text)]
  | alloca ty => partsText "Alloca" [("ty", ty.text)]
  | load ptr => partsText "Load" [("ptr", ptr.text)]
  | store value ptr => partsText "Store" [("value", value.text), ("ptr", ptr.text)]
  | structGep ptr index =>
    partsText "StructGep" [("ptr", ptr.text), ("index", toString index)]
  | gep ptr index => partsText "Gep" [("ptr", ptr.text), ("index", index.text)]
  | extractValue aggregate index =>
    partsText "ExtractValue" [("aggregate", aggregate.text), ("index", toString index)]
  | phi incoming =>
    let arms := incoming.map fun arm => "(" ++ arm.1.text ++ ", " ++ arm.2.text ++ ")"
    partsText "Phi" [("incoming", listText arms)]
  | call function args =>
    partsText "Call" [("function", function.text), ("args", listText (args.map (·.text)))]
  | landingPad clauses catchAll =>
    partsText "LandingPad"
      [("clauses", listText (clauses.map (·.text))), ("catch_all", toString catchAll)]
  | typeIdFor descriptor => partsText "TypeIdFor" [("descriptor", descriptor.text)]
  | inlineAsm text => partsText "InlineAsm" [("text", quoted text)]

/-- Where a value comes from, for values that are not constants. -/
def ValueDef.describe : ValueDef → String
  | param f index => partsText "Param" [("function", f.text), ("index", toString index)]
  | instr i => "Instr(" ++ i.describe ++ ")"
  | invokeResult => "InvokeResult"
  | global index => s!"Global({index})"
  | function f => "Function(" ++ f.text ++ ")"
  | const _ => "Const"

end SsaCompiler
