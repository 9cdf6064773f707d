/-
# Frames

A frame holds what one call has computed so far, and the exception that is about to
arrive in a landing pad of the call.
-/

import SsaCompiler.Machine.Constant
import SsaCompiler.Machine.State
import Std.Data.HashMap

namespace SsaCompiler

/-- The values of one call. -/
structure Frame where
  /-- The values computed so far, parameters included. -/
  values : Std.HashMap ValueId Val
  /-- The exception for the landing pad that comes next. -/
  inFlight : Option Exception
  deriving Inhabited

namespace Frame

/-- The frame in which a value has been computed. -/
def bind (frame : Frame) (id : ValueId) (v : Val) : Frame :=
  { frame with values := frame.values.insert id v }

/-- The frame in which several values have been computed, one after the other. -/
def bindAll (frame : Frame) (values : List (ValueId × Val)) : Frame :=
  values.foldl (fun frame entry => frame.bind entry.1 entry.2) frame

/-- The frame of a call: the parameters with their arguments, as long as there are
both. -/
def ofArguments (params : List ValueId) (args : List Val) : Frame :=
  Frame.bindAll ⟨∅, none⟩ (params.zip args)

/-- What an operand is: a constant, or computed in the frame. -/
def operand (m : Module) (frame : Frame) (globals : Array UInt64) (id : ValueId) :
    Fallible Val := do
  match (← m.value id).origin with
  | .instr _ | .invokeResult | .param .. =>
    match frame.values[id]? with
    | some v => return v
    | none => Fallible.malformed (.usedBeforeDefinition id)
  | _ => m.constantVal globals id

end Frame

namespace Exec

/-- An operand in the current state. -/
def operand (m : Module) (frame : Frame) (id : ValueId) : Exec Val := fun s =>
  match frame.operand m s.globals id with
  | .ok v => .ok v s
  | .error f => .error (.ofFault f) s

/-- Operands in order. -/
def operands (m : Module) (frame : Frame) (ids : List ValueId) : Exec (List Val) :=
  ids.mapM (operand m frame)

/-- An operand that has to be an integer. -/
def intOperand (m : Module) (frame : Frame) (id : ValueId) : Exec Int64 := do
  let v ← operand m frame id
  match v.asInt? with
  | some i => return i
  | none => malformed (.expectedInteger v)

/-- An operand that has to be a floating point number. -/
def floatOperand (m : Module) (frame : Frame) (id : ValueId) : Exec Double := do
  let v ← operand m frame id
  match v.asFloat? with
  | some x => return x
  | none => malformed (.expectedFloat v)

/-- An operand that has to be an address. -/
def ptrOperand (m : Module) (frame : Frame) (id : ValueId) : Exec UInt64 := do
  let v ← operand m frame id
  match v.asPtr? with
  | some a => return a
  | none => malformed (.expectedPointer v)

end Exec

end SsaCompiler
