/-
# External functions

The functions a module may declare without a body: allocation, printing, powers, and the
entry points of exception handling. Any other declared function cannot be called.
-/

import SsaCompiler.Machine.Format
import SsaCompiler.Machine.Instruction

namespace SsaCompiler

/-- The alignment of the blocks that the allocation functions hand out. -/
def blockAlign : Nat := 16

/-- The functions that the machine provides. -/
inductive External where
  | calloc | malloc | free | printf | pow | abort
  | allocateException | throwException | beginCatch | endCatch
  deriving DecidableEq, Repr

namespace External

/-- The name under which a module declares the function. -/
def symbol : External → String
  | calloc => "calloc"
  | malloc => "malloc"
  | free => "free"
  | printf => "printf"
  | pow => "pow"
  | abort => "abort"
  | allocateException => "__cxa_allocate_exception"
  | throwException => "__cxa_throw"
  | beginCatch => "__cxa_begin_catch"
  | endCatch => "__cxa_end_catch"

/-- Every function that the machine provides. -/
def all : List External :=
  [calloc, malloc, free, printf, pow, abort, allocateException, throwException, beginCatch,
    endCatch]

/-- The function with a given name. -/
def ofSymbol? (name : String) : Option External := all.find? (·.symbol == name)

end External

namespace Exec

/-- An argument of an external function. -/
def argument (name : String) (args : List Val) (i : Nat) : Exec Val :=
  match args[i]? with
  | some v => return v
  | none => malformed (.missingArgument name i)

/-- An argument that has to be an integer. -/
def intArgument (name : String) (args : List Val) (i : Nat) : Exec Int64 := do
  match (← argument name args i).asInt? with
  | some v => return v
  | none => malformed (.argumentNotInteger name i)

/-- An argument that is a size; below zero it counts as zero. -/
def sizeArgument (name : String) (args : List Val) (i : Nat) : Exec Nat := do
  return (← intArgument name args i).toInt.toNat

/-- An argument that has to be an address. -/
def ptrArgument (name : String) (args : List Val) (i : Nat) : Exec UInt64 := do
  match (← argument name args i).asPtr? with
  | some a => return a
  | none => malformed (.argumentNotPointer name i)

/-- An argument that has to be a number. -/
def floatArgument (name : String) (args : List Val) (i : Nat) : Exec Double := do
  match ← argument name args i with
  | .float x => return x
  | .int v => return .ofInt64 v
  | _ => malformed (.argumentNotFloat name i)

/-- A new zeroed block of the heap. -/
def newBlock (size : Nat) : Exec Val := do
  return .ptr (← onMemory (Memory.allocHeap size blockAlign))

/-- Gives a block of the heap back. -/
def release (a : UInt64) : Exec Unit := fun s =>
  match s with
  | ⟨memory, globals, selectors, output, steps, depth, thrown, caught⟩ =>
    .ok () ⟨memory.free a, globals, selectors, output, steps, depth, thrown, caught⟩

/-- Prints a format with its arguments and answers with the number of bytes. -/
def printFormat (a : UInt64) (args : List Val) : Exec Val := do
  let text ← askMemory fun memory => do
    Format.text memory (← memory.readText a) args
  print text
  return .int (Int64.ofNat text.utf8ByteSize)

/-- Sends an exception on its way. -/
def raise {α : Type} (e : Exception) : Exec α := fun s =>
  .error (.thrown e) { s with thrown := s.thrown.insert e.payload e }

/-- Claims the exception of a thrown object for the handler that is entered. -/
def claim (payload : UInt64) : Exec Val := do
  match (← get).thrown.get? payload with
  | some e =>
    modify fun s => { s with thrown := s.thrown.erase payload, caught := e :: s.caught }
    return .ptr payload
  | none => malformed (.beginCatchUnknown payload)

/-- Leaves the innermost handler: the thrown object is disposed of and its block given
back. -/
def leaveHandler (call : Caller) : Exec Val := do
  match (← get).caught with
  | e :: outer =>
    modify fun s => { s with caught := outer }
    if let some f := FunctionId.ofAddress? e.destructor then
      let _ ← call f [.ptr e.payload]
    release e.payload
    return .void
  | [] => malformed .endCatchWithoutBegin

/-- The call of an external function that the machine provides; `name` is how messages
name it. -/
def provided (call : Caller) (f : External) (name : String) (args : List Val) : Exec Val := do
  match f with
  | .calloc =>
    let count ← sizeArgument name args 0
    let size ← sizeArgument name args 1
    newBlock (min (count * size) (wordRange - 1))
  | .malloc | .allocateException => newBlock (← sizeArgument name args 0)
  | .free =>
    release (← ptrArgument name args 0)
    return .void
  | .printf => printFormat (← ptrArgument name args 0) args.tail
  | .pow =>
    let x ← floatArgument name args 0
    let y ← floatArgument name args 1
    return .float (x.pow y)
  | .abort => fail .aborted
  | .throwException =>
    let payload ← ptrArgument name args 0
    let descriptor ← ptrArgument name args 1
    let destructor ← ptrArgument name args 2
    raise ⟨payload, descriptor, destructor⟩
  | .beginCatch => claim (← ptrArgument name args 0)
  | .endCatch => leaveHandler call

/-- The call of a function without a body. -/
def external (call : Caller) (name : String) (args : List Val) : Exec Val :=
  match External.ofSymbol? name with
  | some f => provided call f name args
  | none => fail (.unknownExternal name)

end Exec

end SsaCompiler
