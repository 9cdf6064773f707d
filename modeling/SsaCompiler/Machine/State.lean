/-
# The state of the machine

Running code changes memory, prints, counts steps, and moves exceptions between those
that are on their way and those that a handler has claimed. A computation of the machine
keeps what it has done also when it stops early: an exception that arrives in a handler
arrives in the state its thrower left behind.
-/

import SsaCompiler.Data.Table
import SsaCompiler.Machine.Memory

namespace SsaCompiler

/-- An exception: the thrown object, the descriptor of its type and the function that
disposes of the object. All three are addresses. -/
structure Exception where
  /-- The address of the thrown object. -/
  payload : UInt64
  /-- The address of the descriptor of its type. -/
  descriptor : UInt64
  /-- The address of the function that disposes of the object, or zero. -/
  destructor : UInt64
  deriving DecidableEq, Repr, Inhabited

/-- Why a computation of the machine stops before its end. -/
inductive Stop where
  /-- An exception looks for a handler. -/
  | thrown (e : Exception)
  | failed (e : ExecError)
  | crashed (c : Crash)

/-- A fault stops the machine. -/
def Stop.ofFault : Fault → Stop
  | .failed e => .failed e
  | .crashed c => .crashed c

/-- What the machine knows between two steps, calls apart. -/
structure MachineState where
  /-- Heap and stack. -/
  memory : Memory
  /-- The address of each global. -/
  globals : Array UInt64
  /-- The selector of each descriptor that has been asked about. -/
  selectors : Table UInt64 Int64
  /-- What has been printed. -/
  output : String
  /-- How many instructions and terminators have been executed. -/
  steps : Nat
  /-- How many calls are under way. -/
  depth : Nat
  /-- The exceptions on their way, by the address of the thrown object. -/
  thrown : Table UInt64 Exception
  /-- The exceptions that handlers have claimed, innermost first. -/
  caught : List Exception
  deriving Inhabited

/-- A computation of the machine. -/
abbrev Exec (α : Type) : Type := EStateM Stop MachineState α

namespace Exec

/-- A computation without effect that may crash. -/
@[inline]
def ofChecked {α : Type} : Checked α → Exec α
  | .ok a => fun s => .ok a s
  | .error c => fun s => .error (.crashed c) s

/-- A computation without effect that may fail. -/
@[inline]
def ofFallible {α : Type} : Fallible α → Exec α
  | .ok a => fun s => .ok a s
  | .error f => fun s => .error (.ofFault f) s

instance : MonadLift (Except Crash) (EStateM Stop MachineState) := ⟨ofChecked⟩

instance : MonadLift (Except Fault) (EStateM Stop MachineState) := ⟨ofFallible⟩

/-- Stops with an error. -/
def fail {α : Type} (e : ExecError) : Exec α := fun s => .error (.failed e) s

/-- Stops because of the code. -/
def malformed {α : Type} (reason : Malformation) : Exec α := fail (.malformedCode reason)

/-- An operation on the memory of the machine. -/
@[inline]
def onMemory {α : Type} (op : MemoryOp α) : Exec α := fun s =>
  match s with
  | ⟨memory, globals, selectors, output, steps, depth, thrown, caught⟩ =>
    match op memory with
    | .ok a memory =>
      .ok a ⟨memory, globals, selectors, output, steps, depth, thrown, caught⟩
    | .error f memory =>
      .error (.ofFault f) ⟨memory, globals, selectors, output, steps, depth, thrown, caught⟩

/-- A question to the memory of the machine. -/
@[inline]
def askMemory {α : Type} (question : Memory → Fallible α) : Exec α := fun s =>
  match question s.memory with
  | .ok a => .ok a s
  | .error f => .error (.ofFault f) s

/-- Counts one step against the limit. -/
def step (limits : Limits) : Exec Unit := fun s =>
  match s with
  | ⟨memory, globals, selectors, output, steps, depth, thrown, caught⟩ =>
    let s := ⟨memory, globals, selectors, output, steps + 1, depth, thrown, caught⟩
    if steps + 1 > limits.maxSteps then .error (.failed (.stepLimit limits.maxSteps)) s
    else .ok () s

/-- Adds to what has been printed. -/
def print (text : String) : Exec Unit := fun s =>
  match s with
  | ⟨memory, globals, selectors, output, steps, depth, thrown, caught⟩ =>
    .ok () ⟨memory, globals, selectors, output ++ text, steps, depth, thrown, caught⟩

/-- The selector of a descriptor. Descriptors are numbered from one as they are first
asked about. -/
def selectorOf (descriptor : UInt64) : Exec Int64 := do
  let known := (← get).selectors
  match known.get? descriptor with
  | some selector => return selector
  | none =>
    let selector := Int64.ofNat (known.size + 1)
    modify fun s => { s with selectors := s.selectors.insert descriptor selector }
    return selector

/-- Runs the body of a call one level deeper. However it ends, the stack is cut back to
where it was and the level is left. -/
@[inline]
def inCall {α : Type} (body : Exec α) : Exec α := fun s =>
  match s with
  | ⟨memory, globals, selectors, output, steps, depth, thrown, caught⟩ =>
    let mark := memory.stack.size
    let leave : MachineState → MachineState := fun s =>
      match s with
      | ⟨memory, globals, selectors, output, steps, depth, thrown, caught⟩ =>
        ⟨memory.resetStack mark, globals, selectors, output, steps, depth - 1, thrown, caught⟩
    match body ⟨memory, globals, selectors, output, steps, depth + 1, thrown, caught⟩ with
    | .ok a s => .ok a (leave s)
    | .error stop s => .error stop (leave s)

end Exec

end SsaCompiler
