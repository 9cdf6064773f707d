/-
# Places and values

An identifier, a member or an element lowers to its address. What follows decides whether
the address itself is wanted or what is stored there. Room for values that have no place
yet is made in the first block of the function, so that a loop does not make it again in
every round.
-/

import SsaCompiler.Lower.State

namespace SsaCompiler

/-- Room for a value of a type in the first block of the current function. -/
def Lower.entryAlloca (ty : TypeId) : Lower ValueId := do
  let here ← Lower.position
  match ← Lower.func with
  | some f => Build.positionAtEnd f.allocaBlock
  | none => pure ()
  let slot ← Build.alloca ty
  match here with
  | some b => Build.positionAtEnd b
  | none => pure ()
  return slot

namespace Operand

/-- The type of the value that an operand stands for. -/
def ty (op : Operand) : Build TypeId := do
  let ty ← Build.typeOf op.value
  if op.isPlace then return (← Lower.pointee? ty).getD ty
  else return ty

/-- The value that an operand stands for. Outside a function there is nothing to load from,
which is reported. -/
def load (op : Operand) : Lower ValueId := do
  if op.isPlace then
    match ← Lower.func with
    | some _ => Build.load op.value
    | none =>
      Lower.report .structural "global initializers must be constants" (← get).pass.span
      Build.constZero (← op.ty)
  else return op.value

/-- The address of an operand; a value is first stored in a new place. -/
def address (op : Operand) : Lower ValueId := do
  if op.isPlace then return op.value
  else
    let slot ← Lower.entryAlloca (← Build.typeOf op.value)
    Build.store op.value slot
    return slot

end Operand

/-- Lowers a child that has to have a value, and loads it from its place. -/
def Recur.value (r : Recur) (c : Option Node) : Attempt ValueId := do
  (← r.required c).load

end SsaCompiler
