/-
# Executing instructions

One function per instruction, from a frame to the frame in which the instruction has its
value. What a call does is a parameter, so that instructions can be understood without
knowing how calls are run.
-/

import SsaCompiler.Machine.Frame

namespace SsaCompiler

/-- How a function is called with arguments. -/
abbrev Caller : Type := FunctionId → List Val → Exec Val

namespace Exec

/-- The result of an operation on two operands. The width is that of the first one. -/
def binary (m : Module) (frame : Frame) (op : BinOp) (lhs rhs : ValueId) : Exec Val := do
  let bits := (← m.valueType lhs).width
  if op.isFloat then
    let a ← floatOperand m frame lhs
    let b ← floatOperand m frame rhs
    return .float ((evalFloat op a b bits).getD .invalid)
  else
    let a ← intOperand m frame lhs
    let b ← intOperand m frame rhs
    match evalInt op a b bits with
    | some r => return .int r
    | none => fail .divisionByZero

/-- The word for a truth value. -/
def truth (b : Bool) : Val := .int (if b then 1 else 0)

/-- The result of a conversion to a type. -/
def cast (m : Module) (frame : Frame) (op : CastOp) (value : ValueId) (dest : TypeId) :
    Exec Val := do
  let toBits := (← m.types.get dest).width
  let fromBits := (← m.valueType value).width
  match op with
  | .trunc | .sext => return .int (normalizeInt (← intOperand m frame value) toBits)
  | .zext =>
    return .int (normalizeInt (← zeroExtend (← intOperand m frame value) fromBits) toBits)
  | .fptrunc | .fpext => return .float ((← floatOperand m frame value).round toBits)
  | .fptosi => return .int (normalizeInt (← floatOperand m frame value).toInt64 toBits)
  | .sitofp => return .float ((Double.ofInt64 (← intOperand m frame value)).round toBits)
  | .ptrtoint => return .int (normalizeInt (← ptrOperand m frame value).toInt64 toBits)
  | .inttoptr => return .ptr (← intOperand m frame value).toUInt64
  | .bitcast => operand m frame value

/-- The address of a field of the structure at an address. -/
def fieldAddress (m : Module) (frame : Frame) (id ptr : ValueId) (index : Nat) : Exec Val := do
  let a ← ptrOperand m frame ptr
  let offset? ← match (← m.valueType ptr).pointee? with
    | some ty => m.types.fieldOffset ty index
    | none => pure none
  match offset? with
  | some offset => return .ptr (← addressPlus a offset)
  | none => malformed (.badStructGep id)

/-- The address of the element at a distance from an address; wraps around. -/
def elementAddress (m : Module) (frame : Frame) (ptr index : ValueId) : Exec Val := do
  let a ← ptrOperand m frame ptr
  let i ← intOperand m frame index
  let size ← match (← m.valueType ptr).pointee? with
    | some ty => m.types.sizeOf ty
    | none => pure 1
  return .ptr (a + i.toUInt64 * UInt64.ofNat size)

/-- One field of an aggregate. -/
def extract (m : Module) (frame : Frame) (aggregate : ValueId) (index : Nat) : Exec Val := do
  let v ← operand m frame aggregate
  match v with
  | .agg items =>
    match items[index]? with
    | some item => return item
    | none => malformed (.badExtract index v)
  | _ => malformed (.badExtract index v)

/-- The frame after an instruction, whose value is that of `id`. -/
def instruction (m : Module) (call : Caller) (frame : Frame) (id : ValueId) (instr : Instr) :
    Exec Frame := do
  match instr with
  | .binary op lhs rhs => return frame.bind id (← binary m frame op lhs rhs)
  | .icmp pred lhs rhs =>
    let a ← intOperand m frame lhs
    let b ← intOperand m frame rhs
    return frame.bind id (truth (pred.holds a b))
  | .fcmp pred lhs rhs =>
    let a ← floatOperand m frame lhs
    let b ← floatOperand m frame rhs
    return frame.bind id (truth (pred.holds a b))
  | .cast op value => return frame.bind id (← cast m frame op value (← m.typeOf id))
  | .alloca ty =>
    let size ← m.types.sizeOf ty
    let align ← m.types.alignOf ty
    return frame.bind id (.ptr (← onMemory (Memory.allocStack size align)))
  | .load ptr =>
    let a ← ptrOperand m frame ptr
    let ty ← m.typeOf id
    return frame.bind id (← askMemory fun memory => memory.read m.types a ty)
  | .store value ptr =>
    let a ← ptrOperand m frame ptr
    let v ← operand m frame value
    let ty ← m.typeOf value
    onMemory (Memory.write m.types a ty v)
    return frame.bind id .void
  | .structGep ptr index => return frame.bind id (← fieldAddress m frame id ptr index)
  | .gep ptr index => return frame.bind id (← elementAddress m frame ptr index)
  | .extractValue aggregate index => return frame.bind id (← extract m frame aggregate index)
  | .phi _ => malformed (.phiAfterHead id)
  | .call f args =>
    let args ← operands m frame args
    return frame.bind id (← call f args)
  | .landingPad .. =>
    match frame.inFlight with
    | some e =>
      let selector ← selectorOf e.descriptor
      return { frame with inFlight := none }.bind id (.agg [.ptr e.payload, .int selector])
    | none => malformed .padWithoutException
  | .typeIdFor descriptor =>
    let a ← ptrOperand m frame descriptor
    return frame.bind id (.int (← selectorOf a))
  | .inlineAsm _ => return frame.bind id .void

end Exec

end SsaCompiler
