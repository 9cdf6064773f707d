/-
# Running functions

A call runs the blocks of a function from its entry on until one of them returns. Every
block takes at least one step, and calls are nested at most as deep as the limits say, so
a number of rounds and a number of levels that follow from the limits are always enough.
-/

import SsaCompiler.Machine.Block
import SsaCompiler.Machine.External

namespace SsaCompiler

namespace Exec

/-- Runs the blocks of a function from `b` on, at most `n` of them. -/
def walk (m : Module) (limits : Limits) (call : Caller) (name : String) :
    Nat → BlockId → Option BlockId → Frame → Exec Val
  | 0, _, _, _ => fail (.stepLimit limits.maxSteps)
  | n + 1, b, source, frame => do
    match ← block m limits call name b source frame with
    | .goto target frame => walk m limits call name n target (some b) frame
    | .leave result => return result

/-- Runs the body of a function. -/
def body (m : Module) (limits : Limits) (call : Caller) (f : FunctionData) (args : List Val) :
    Exec Val :=
  match f.entry? with
  | none => fail (.noSuchFunction f.name)
  | some entry =>
    walk m limits call f.name (limits.maxSteps + 1) entry none (Frame.ofArguments f.params args)

/-- Calls a function, with at most `n` calls nested in each other. -/
def callWithin (m : Module) (limits : Limits) : Nat → Caller
  | 0, _, _ => fail (.callDepth limits.maxCallDepth)
  | n + 1, f, args => do
    if (← get).depth ≥ limits.maxCallDepth then fail (.callDepth limits.maxCallDepth)
    else
      let function ← m.function f
      let call : Caller := fun f args => callWithin m limits n f args
      if function.isDeclaration then external call function.name args
      else inCall (body m limits call function args)

/-- How many calls can be nested in each other: calls of functions with a body are
limited, and between two of them there are only calls that leave a handler, each of an
exception that was claimed before the run or by a step of it. -/
def nesting (limits : Limits) (s : MachineState) : Nat :=
  2 * limits.maxCallDepth + limits.maxSteps + s.caught.length + 2

/-- Calls a function. -/
def call (m : Module) (limits : Limits) : Caller := fun f args s =>
  callWithin m limits (nesting limits s) f args s

end Exec

/-- What a program leaves behind when it ends. -/
structure Finished where
  /-- What it printed. -/
  output : String
  /-- What its entry point answered, zero if that is no number. -/
  exitCode : Int64
  deriving DecidableEq, Repr

/-- A module with the limits of its runs and the state between them. -/
structure Machine where
  /-- The code. -/
  module : Module
  /-- The limits of every run. -/
  limits : Limits
  /-- What earlier runs left behind. -/
  state : MachineState

namespace Machine

/-- Space for globals, in order. -/
def placeGlobals (types : TypeTable) : List Global → MemoryOp (List UInt64)
  | [] => return []
  | g :: rest => do
    let size ← types.sizeOf g.valueTy
    let align ← types.alignOf g.valueTy
    let a ← Memory.allocHeap size align
    return a :: (← placeGlobals types rest)

/-- Stores the constant that a global starts with. -/
def storeInitial (m : Module) (globals : Array UInt64) (a : UInt64) (ty : TypeId)
    (init : ValueId) : MemoryOp Unit := do
  match (← m.value init).origin with
  | .const (.bytes contents) => Memory.writeBytes a contents
  | _ => Memory.write m.types a ty (← m.constantVal globals init)

/-- Stores the constants that globals start with. -/
def fillGlobals (m : Module) (globals : Array UInt64) : List (Global × UInt64) → MemoryOp Unit
  | [] => return ()
  | (g, a) :: rest => do
    if let some init := g.init then storeInitial m globals a g.valueTy init
    fillGlobals m globals rest

/-- The globals of a module in memory: their addresses, once they hold what they start
with. -/
def loadGlobals (m : Module) : MemoryOp (Array UInt64) := do
  let addresses ← placeGlobals m.types m.globals.toList
  fillGlobals m addresses.toArray (m.globals.toList.zip addresses)
  return addresses.toArray

/-- A machine that is ready to run a module. A module with errors is refused. -/
def new (m : Module) (limits : Limits) : Fallible Machine :=
  if m.codegenErrors > 0 then Fallible.fail (.malformedModule m.codegenErrors)
  else
    match loadGlobals m (Memory.new limits.memoryLimit) with
    | .ok globals memory =>
      .ok ⟨m, limits, ⟨memory, globals, .empty, "", 0, 0, .empty, []⟩⟩
    | .error fault _ => .error fault

/-- The type name that a descriptor leads to, if there is one in memory. -/
def descriptorName (memory : Memory) (descriptor : UInt64) : Checked String := do
  let place ← addressPlus descriptor pointerSize
  let name : Fallible String := do
    memory.readText (UInt64.ofNat (← memory.readWord place pointerSize))
  match name with
  | .ok name => return name
  | .error (.failed _) => return "<descriptor " ++ Text.address descriptor ++ ">"
  | .error (.crashed c) => .error c

/-- Calls a function by its name, and keeps the state it leaves behind. -/
def call (machine : Machine) (name : String) (args : List Val) : Fallible Val × Machine :=
  match machine with
  | ⟨m, limits, state⟩ =>
    match m.functionByName? name with
    | none => (Fallible.fail (.noSuchFunction name), ⟨m, limits, state⟩)
    | some f =>
      match Exec.call m limits f args state with
      | .ok v s => (.ok v, ⟨m, limits, s⟩)
      | .error (.failed e) s => (Fallible.fail e, ⟨m, limits, s⟩)
      | .error (.crashed c) s => (.error (.crashed c), ⟨m, limits, s⟩)
      | .error (.thrown e) s =>
        match descriptorName s.memory e.descriptor with
        | .ok typeName => (Fallible.fail (.uncaughtException typeName), ⟨m, limits, s⟩)
        | .error c => (.error (.crashed c), ⟨m, limits, s⟩)

/-- Runs a program from its entry point. When it ends well it hands over what was
printed; otherwise that stays with the machine. -/
def run (machine : Machine) (entry : String) : Fallible Finished × Machine :=
  match machine.call entry [] with
  | (.error fault, machine) => (.error fault, machine)
  | (.ok v, machine) =>
    (.ok ⟨machine.state.output, v.asInt?.getD 0⟩,
      { machine with state := { machine.state with output := "" } })

end Machine

/-- Runs a program once with the standard limits. -/
def Module.run (m : Module) (entry : String) : Fallible Finished := do
  let machine ← Machine.new m .standard
  (machine.run entry).1

end SsaCompiler
