/-
# Executing blocks

Control enters a block from another one, which settles the choices at its head, all at
once. Then the instructions run one after the other, and the terminator says where
control goes next.
-/

import SsaCompiler.Machine.Instruction

namespace SsaCompiler

/-- Where control goes after a block. -/
inductive Next where
  /-- On to another block. -/
  | goto (target : BlockId) (frame : Frame)
  /-- Back to the caller. -/
  | leave (result : Val)

namespace Exec

/-- The choices at the head of a block with the values they take when control comes from
`source`, and the instructions behind them. Every value is that of the frame before the
block. -/
def choices (m : Module) (block : BlockData) (source : Option BlockId) (frame : Frame) :
    List ValueId → Exec (List (ValueId × Val) × List ValueId)
  | [] => return ([], [])
  | id :: rest => do
    match (← m.value id).origin with
    | .instr (.phi incoming) =>
      match source with
      | none => malformed (.phiInEntry block.name)
      | some source =>
        match incoming.find? (·.2 = source) with
        | none => malformed (.phiWithoutEdge id source)
        | some (value, _) =>
          let v ← operand m frame value
          let (chosen, rest) ← choices m block (some source) frame rest
          return ((id, v) :: chosen, rest)
    | _ => return ([], id :: rest)

/-- Enters a block: the frame with the choices at its head settled, and the instructions
behind them. -/
def enterBlock (m : Module) (block : BlockData) (source : Option BlockId) (frame : Frame) :
    Exec (Frame × List ValueId) := do
  let (chosen, rest) ← choices m block source frame block.instrs.toList
  return (frame.bindAll chosen, rest)

/-- Executes instructions one after the other, each as one step. -/
def instructions (m : Module) (limits : Limits) (call : Caller) :
    Frame → List ValueId → Exec Frame
  | frame, [] => return frame
  | frame, id :: rest => do
    step limits
    match (← m.value id).origin with
    | .instr instr =>
      let frame ← instruction m call frame id instr
      instructions m limits call frame rest
    | _ => instructions m limits call frame rest

/-- Whether an exception of a type stops at a landing pad with given clauses. -/
def clausesCatch (m : Module) (globals : Array UInt64) (descriptor : UInt64) :
    List ValueId → Checked Bool
  | [] => return false
  | clause :: rest =>
    match m.constantVal globals clause with
    | .ok v =>
      if v.asPtr? = some descriptor then return true
      else clausesCatch m globals descriptor rest
    | .error (.failed _) => clausesCatch m globals descriptor rest
    | .error (.crashed c) => .error c

/-- Whether an exception of a type stops at the landing pad that a block begins with. -/
def padCatches (m : Module) (globals : Array UInt64) (b : BlockId) (descriptor : UInt64) :
    Checked Bool := do
  match (← m.block b).instrs[0]? with
  | none => return false
  | some first =>
    match (← m.value first).origin with
    | .instr (.landingPad clauses catchAll) =>
      if catchAll then return true else clausesCatch m globals descriptor clauses
    | _ => return false

/-- A call that goes on in one of two blocks. An exception that the landing pad of the
second block does not stop goes on to the caller. -/
def invoke (m : Module) (call : Caller) (frame : Frame) (f : FunctionId) (args : List ValueId)
    (normal unwind : BlockId) (result : Option ValueId) : Exec Next := do
  let args ← operands m frame args
  fun s =>
    match call f args s with
    | .ok v s =>
      match result with
      | some id => .ok (.goto normal (frame.bind id v)) s
      | none => .ok (.goto normal frame) s
    | .error (.thrown e) s =>
      match padCatches m s.globals unwind e.descriptor with
      | .ok true => .ok (.goto unwind { frame with inFlight := some e }) s
      | .ok false => .error (.thrown e) s
      | .error c => .error (.crashed c) s
    | .error stop s => .error stop s

/-- The thrown object that a landing pad received. -/
def payloadOf : Val → UInt64
  | .agg (first :: _) => first.asPtr?.getD 0
  | .agg [] => 0
  | v => v.asPtr?.getD 0

/-- Sends an exception that a landing pad received on to the caller. -/
def resume (m : Module) (frame : Frame) (pad : ValueId) : Exec Next := do
  let payload := payloadOf (← operand m frame pad)
  match (← get).thrown.get? payload with
  | some e => throw (.thrown e)
  | none => malformed (.resumeUnknown payload)

/-- Executes the end of a block of the function with a given name. -/
def terminator (m : Module) (call : Caller) (name : String) (block : BlockData)
    (frame : Frame) : Exec Next := do
  match block.terminator with
  | none => malformed (.noTerminator block.name name)
  | some (.br target) => return .goto target frame
  | some (.condBr cond thenTo elseTo) =>
    let v ← operand m frame cond
    return .goto (if v.asBool?.getD false then thenTo else elseTo) frame
  | some (.ret none) => return .leave .void
  | some (.ret (some value)) => return .leave (← operand m frame value)
  | some (.invoke f args normal unwind result) => invoke m call frame f args normal unwind result
  | some (.resume pad) => resume m frame pad
  | some .unreachable => fail (.unreachable name)

/-- Executes a whole block that control enters from `source`. -/
def block (m : Module) (limits : Limits) (call : Caller) (name : String) (b : BlockId)
    (source : Option BlockId) (frame : Frame) : Exec Next := do
  let block ← m.block b
  let (frame, rest) ← enterBlock m block source frame
  let frame ← instructions m limits call frame rest
  step limits
  terminator m call name block frame

end Exec

end SsaCompiler
