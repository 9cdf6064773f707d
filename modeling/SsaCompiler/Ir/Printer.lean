/-
# The text of a module

A module is printed as its globals followed by its functions, each function as its
blocks and each block as one line for every instruction and its terminator. Values are
named by their position, parameters by their number.
-/

import SsaCompiler.Ir.Module
import SsaCompiler.Text.Decimal
import SsaCompiler.Text.Radix

namespace SsaCompiler

namespace Text

/-- A byte inside a string constant: visible characters and blanks as they are, except
the quote and the backslash, and everything else as a backslash and two digits. -/
def byteText (b : UInt8) : String :=
  if 32 ≤ b.toNat ∧ b.toNat ≤ 126 ∧ b.toNat ≠ 34 ∧ b.toNat ≠ 92 then
    String.singleton (Char.ofNat b.toNat)
  else "\\" ++ hexByte b

/-- A text in braces. -/
def braced (s : String) : String := "\x7b " ++ s ++ " \x7d"

/-- A name as the name of a global or a function. -/
def symbolText (name : String) : String := "@\"" ++ name ++ "\""

end Text

namespace Module

open Text

/-- A value without its type, with at most `n` levels of structure constants. -/
def bareWithin (m : Module) : Nat → ValueId → Checked String
  | 0, _ => .error .endless
  | n + 1, v => do
    match (← m.value v).origin with
    | .const (.int i) => return toString i.toInt
    | .const (.float x) => return shortScientific x
    | .const .null => return "null"
    | .const .zero => return "zeroinitializer"
    | .const (.struct fields) =>
      let parts ← fields.mapM fun f => do
        return (← m.types.text (← m.typeOf f)) ++ " " ++ (← m.bareWithin n f)
      return braced (", ".intercalate parts)
    | .const (.bytes contents) => return "c\"" ++ String.join (contents.map byteText) ++ "\""
    | .param _ index => return s!"%arg{index}"
    | .global index => return symbolText (← Checked.at m.globals index).name
    | .function f => return symbolText (← m.function f).name
    | .instr _ | .invokeResult => return s!"%{v.index}"

/-- A value without its type. Structure constants are made after their fields, so their
levels are bounded by the number of values. -/
def bareText (m : Module) (v : ValueId) : Checked String := m.bareWithin (m.values.size + 1) v

/-- A value behind its type. -/
def operandText (m : Module) (v : ValueId) : Checked String := do
  return (← m.types.text (← m.typeOf v)) ++ " " ++ (← m.bareText v)

/-- The label of a block as a target. -/
def labelText (m : Module) (b : BlockId) : Checked String := do
  return "%" ++ (← m.block b).name ++ s!".{b.index}"

/-- A list of values behind their types. -/
def argsText (m : Module) (args : List ValueId) : Checked String := do
  return ", ".intercalate (← args.mapM m.operandText)

/-- The name of a function as it is called. -/
def calleeText (m : Module) (f : FunctionId) : Checked String := do
  return symbolText (← m.function f).name

/-- One way into a choice. -/
def incomingText (m : Module) (arm : ValueId × BlockId) : Checked String := do
  return "[ " ++ (← m.bareText arm.1) ++ ", " ++ (← m.labelText arm.2) ++ " ]"

/-- The line of an instruction. -/
def instrText (m : Module) (v : ValueId) (instr : Instr) : Checked String := do
  let result := s!"%{v.index} = "
  match instr with
  | .binary op lhs rhs =>
    return result ++ op.mnemonic ++ " " ++ (← m.operandText lhs) ++ ", " ++ (← m.bareText rhs)
  | .icmp pred lhs rhs =>
    return result ++ "icmp " ++ pred.mnemonic ++ " " ++ (← m.operandText lhs) ++ ", "
      ++ (← m.bareText rhs)
  | .fcmp pred lhs rhs =>
    return result ++ "fcmp " ++ pred.mnemonic ++ " " ++ (← m.operandText lhs) ++ ", "
      ++ (← m.bareText rhs)
  | .cast op value =>
    return result ++ op.mnemonic ++ " " ++ (← m.operandText value) ++ " to "
      ++ (← m.types.text (← m.typeOf v))
  | .alloca ty => return result ++ "alloca " ++ (← m.types.text ty)
  | .load ptr =>
    return result ++ "load " ++ (← m.types.text (← m.typeOf v)) ++ ", " ++ (← m.operandText ptr)
  | .store value ptr =>
    return "store " ++ (← m.operandText value) ++ ", " ++ (← m.operandText ptr)
  | .structGep ptr index =>
    return result ++ "getelementptr " ++ (← m.operandText ptr) ++ s!", i32 0, i32 {index}"
  | .gep ptr index =>
    return result ++ "getelementptr " ++ (← m.operandText ptr) ++ ", " ++ (← m.operandText index)
  | .extractValue aggregate index =>
    return result ++ "extractvalue " ++ (← m.operandText aggregate) ++ s!", {index}"
  | .phi incoming =>
    let arms ← incoming.mapM m.incomingText
    return result ++ "phi " ++ (← m.types.text (← m.typeOf v)) ++ " " ++ ", ".intercalate arms
  | .call function args =>
    let ret ← m.types.text (← m.typeOf v)
    let call := "call " ++ ret ++ " " ++ (← m.calleeText function) ++ "("
      ++ (← m.argsText args) ++ ")"
    return if ret = "void" then call else result ++ call
  | .landingPad clauses catchAll =>
    let caught ← clauses.mapM fun c => do return " catch " ++ (← m.operandText c)
    return result ++ "landingpad " ++ braced "i8*, i32" ++ String.join caught
      ++ (if catchAll then " catch i8* null" else "")
  | .typeIdFor descriptor =>
    return result ++ "call i32 @llvm.eh.typeid.for(" ++ (← m.operandText descriptor) ++ ")"
  | .inlineAsm text => return "call void asm sideeffect \"" ++ text ++ "\", \"\"()"

/-- The line of a terminator. -/
def terminatorText (m : Module) (term : Terminator) : Checked String := do
  match term with
  | .br target => return "br label " ++ (← m.labelText target)
  | .condBr cond thenTo elseTo =>
    return "br " ++ (← m.operandText cond) ++ ", label " ++ (← m.labelText thenTo)
      ++ ", label " ++ (← m.labelText elseTo)
  | .ret (some v) => return "ret " ++ (← m.operandText v)
  | .ret none => return "ret void"
  | .invoke function args normal unwind result =>
    let head := match result with
      | some r => s!"%{r.index} = "
      | none => ""
    return head ++ "invoke " ++ (← m.calleeText function) ++ "(" ++ (← m.argsText args)
      ++ ") to label " ++ (← m.labelText normal) ++ " unwind label " ++ (← m.labelText unwind)
  | .resume pad => return "resume " ++ (← m.operandText pad)
  | .unreachable => return "unreachable"

/-- The line of a global. -/
def globalText (m : Module) (g : Global) : Checked String := do
  let init ← match g.init with
    | some v => m.bareText v
    | none => pure "zeroinitializer"
  return symbolText g.name ++ " = global " ++ (← m.types.text g.valueTy) ++ " " ++ init ++ "\n"

/-- The line of an instruction in a block; a value that is no instruction has none. -/
def instrLine (m : Module) (v : ValueId) : Checked String := do
  match (← m.value v).origin with
  | .instr instr => return "  " ++ (← m.instrText v instr) ++ "\n"
  | _ => return ""

/-- The lines of a block. -/
def blockText (m : Module) (b : BlockId) : Checked String := do
  let block ← m.block b
  let lines ← block.instrs.toList.mapM m.instrLine
  let last ← match block.terminator with
    | some term => do pure ("  " ++ (← m.terminatorText term) ++ "\n")
    | none => pure ""
  return block.name ++ s!".{b.index}:\n" ++ String.join lines ++ last

/-- The lines of a function behind a blank one. -/
def functionText (m : Module) (f : FunctionData) : Checked String := do
  let sig := (← m.types.get f.ty).signature?
  let ret ← match sig with
    | some s => m.types.text s.ret
    | none => pure "void"
  let params ← f.params.mapM m.operandText
  let params := match sig with
    | some s => if s.variadic then params ++ ["..."] else params
    | none => params
  let head := " " ++ ret ++ " " ++ symbolText f.name ++ "(" ++ ", ".intercalate params ++ ")"
  if f.isDeclaration then return "\ndeclare" ++ head ++ "\n"
  else
    let blocks ← f.blocks.mapM m.blockText
    return "\ndefine" ++ head ++ " \x7b\n" ++ String.join blocks ++ "\x7d\n"

/-- The text of a module. -/
def text (m : Module) : Checked String := do
  let globals ← m.globals.toList.mapM m.globalText
  let functions ← m.functions.toList.mapM m.functionText
  return "; ModuleID = '" ++ m.name ++ "'\n" ++ String.join globals ++ String.join functions

end Module

end SsaCompiler
