/-
# Modules of the intermediate representation

A module holds types, values, functions, basic blocks and globals in tables. A block is
a list of instructions and, once it is finished, a terminator. Values are constants,
parameters, addresses and the results of instructions; an instruction is a value too,
also when it has nothing to hand on.

Functions are found by their names and types by their descriptions, through indexes that
a module keeps beside the tables. Whatever changes a table says why the index is still in
step with it.
-/

import SsaCompiler.Ir.Opcode
import SsaCompiler.Ir.TypeTable

namespace SsaCompiler

/-- A value known when the module is made. -/
inductive Constant where
  /-- An integer in the normal form of its width. -/
  | int (value : Int64)
  | float (value : Double)
  | null
  /-- A structure or an array of zeros. -/
  | zero
  | struct (fields : List ValueId)
  | bytes (contents : List UInt8)
  deriving DecidableEq, Repr, Inhabited

/-- An instruction inside a block. -/
inductive Instr where
  | binary (op : BinOp) (lhs rhs : ValueId)
  | icmp (pred : IntPredicate) (lhs rhs : ValueId)
  | fcmp (pred : FloatPredicate) (lhs rhs : ValueId)
  | cast (op : CastOp) (value : ValueId)
  | alloca (ty : TypeId)
  | load (ptr : ValueId)
  | store (value ptr : ValueId)
  /-- The address of a field. -/
  | structGep (ptr : ValueId) (index : Nat)
  /-- The address of an element at some distance. -/
  | gep (ptr index : ValueId)
  | extractValue (aggregate : ValueId) (index : Nat)
  /-- A choice by the block from which control came. -/
  | phi (incoming : List (ValueId × BlockId))
  | call (function : FunctionId) (args : List ValueId)
  /-- Where an exception arrives, with the types it stops for. -/
  | landingPad (clauses : List ValueId) (catchAll : Bool)
  /-- The selector of an exception type. -/
  | typeIdFor (descriptor : ValueId)
  | inlineAsm (text : String)
  deriving DecidableEq, Repr, Inhabited

/-- How a block ends. -/
inductive Terminator where
  | br (target : BlockId)
  | condBr (cond : ValueId) (thenTo elseTo : BlockId)
  | ret (value : Option ValueId)
  /-- A call that continues in one of two blocks. -/
  | invoke (function : FunctionId) (args : List ValueId) (normal unwind : BlockId)
      (result : Option ValueId)
  | resume (pad : ValueId)
  | unreachable
  deriving DecidableEq, Repr, Inhabited

/-- The blocks in which control may continue. -/
def Terminator.successors : Terminator → List BlockId
  | br target => [target]
  | condBr _ thenTo elseTo => [thenTo, elseTo]
  | invoke _ _ normal unwind _ => [normal, unwind]
  | ret _ | resume _ | unreachable => []

/-- Where a value comes from. -/
inductive ValueDef where
  | const (c : Constant)
  | param (function : FunctionId) (index : Nat)
  /-- The address of a global, by its position. -/
  | global (index : Nat)
  /-- The address of a function. -/
  | function (f : FunctionId)
  | instr (i : Instr)
  /-- What an `invoke` hands to the block in which it continues normally. -/
  | invokeResult
  deriving DecidableEq, Repr, Inhabited

/-- Whether a value is known without running anything. -/
def ValueDef.isConstant : ValueDef → Bool
  | const _ | global _ | function _ => true
  | _ => false

/-- A value with its type. -/
structure ValueData where
  /-- The type. -/
  ty : TypeId
  /-- Where the value comes from. -/
  origin : ValueDef
  deriving DecidableEq, Repr, Inhabited

/-- A variable of the module. -/
structure Global where
  /-- The name. -/
  name : String
  /-- The type of what is stored. -/
  valueTy : TypeId
  /-- The constant it starts with, zeros if there is none. -/
  init : Option ValueId
  deriving DecidableEq, Repr, Inhabited

/-- A function of the module; without blocks it is only declared. -/
structure FunctionData where
  /-- The name. -/
  name : String
  /-- The function type. -/
  ty : TypeId
  /-- The parameters as values. -/
  params : List ValueId
  /-- The blocks in the order in which they were made, the entry first. -/
  blocks : List BlockId
  /-- The routine that decides about exceptions. -/
  personality : Option FunctionId
  /-- The address of the function as a value, once it was asked for. -/
  address : Option ValueId
  deriving DecidableEq, Repr, Inhabited

namespace FunctionData

/-- Whether the function has no body. -/
def isDeclaration (f : FunctionData) : Bool := f.blocks.isEmpty

/-- The block in which the function starts. -/
def entry? (f : FunctionData) : Option BlockId := f.blocks.head?

end FunctionData

/-- A basic block. -/
structure BlockData where
  /-- The name, which need not be unique. -/
  name : String
  /-- The function that the block belongs to. -/
  function : FunctionId
  /-- The instructions in order. -/
  instrs : Array ValueId
  /-- How the block ends, once that is settled. -/
  terminator : Option Terminator
  deriving DecidableEq, Repr, Inhabited

/-- A module. -/
structure Module where
  /-- The name. -/
  name : String
  /-- The types. -/
  types : TypeTable
  typesIndexed : types.IsIndexed
  /-- The values. -/
  values : Array ValueData
  /-- The functions, with pairwise different names. -/
  functions : Array FunctionData
  /-- The positions of the functions by their names. -/
  functionIndex : Table String FunctionId
  functionsIndexed :
    functionIndex.Indexes FunctionId.index (fun f => some f.name) functions
  /-- The blocks of all functions. -/
  blocks : Array BlockData
  /-- The globals. -/
  globals : Array Global
  /-- The block to which instructions are added. -/
  position : Option BlockId
  /-- Instructions that found no place in a block. -/
  detached : Array ValueId
  /-- How many requests could not be met as they were made. -/
  codegenErrors : Nat
  /-- How many string constants there are. -/
  stringCount : Nat
  deriving DecidableEq, Repr

namespace Module

/-- The module that only has a name. -/
def new (name : String) : Module where
  name := name
  types := .empty
  typesIndexed := TypeTable.isIndexed_empty
  values := #[]
  functions := #[]
  functionIndex := .empty
  functionsIndexed := Table.indexes_empty
  blocks := #[]
  globals := #[]
  position := none
  detached := #[]
  codegenErrors := 0
  stringCount := 0

instance : Inhabited Module := ⟨new ""⟩

/-- A value with its type. -/
def value (m : Module) (id : ValueId) : Checked ValueData := Checked.at m.values id.index

/-- The type of a value. -/
def typeOf (m : Module) (id : ValueId) : Checked TypeId := do return (← m.value id).ty

/-- What the type of a value is. -/
def valueType (m : Module) (id : ValueId) : Checked IrType := do
  m.types.get (← m.typeOf id)

/-- A function. -/
def function (m : Module) (id : FunctionId) : Checked FunctionData :=
  Checked.at m.functions id.index

/-- A block. -/
def block (m : Module) (id : BlockId) : Checked BlockData := Checked.at m.blocks id.index

/-- The function with a given name. -/
def functionByName? (m : Module) (name : String) : Option FunctionId :=
  m.functionIndex.get? name

/-- Whether a value is known without running anything. -/
def isConstant (m : Module) (id : ValueId) : Checked Bool := do
  return (← m.value id).origin.isConstant

/-- Whether a value is the address of a global. -/
def isGlobal (m : Module) (id : ValueId) : Checked Bool := do
  match (← m.value id).origin with
  | .global _ => return true
  | _ => return false

/-- The integer that a constant is, if it is one. -/
def constIntValue (m : Module) (id : ValueId) : Checked (Option Int64) := do
  match (← m.value id).origin with
  | .const (.int v) => return some v
  | _ => return none

/-- Whether a block is finished. -/
def blockTerminated (m : Module) (id : BlockId) : Checked Bool := do
  return (← m.block id).terminator.isSome

/-- Whether no instruction can be added: there is no current block, or it is
finished. -/
def currentBlockTerminated (m : Module) : Checked Bool :=
  match m.position with
  | none => .ok true
  | some b => m.blockTerminated b

/-- The function of the current block. -/
def currentFunction (m : Module) : Checked (Option FunctionId) :=
  match m.position with
  | none => .ok none
  | some b => do return some (← m.block b).function

/-- The number of instructions in all blocks. -/
def instructionCount (m : Module) : Nat :=
  m.blocks.toList.foldl (fun n b => n + b.instrs.size) 0

/-! ### Changes of indexed tables -/

/-- The module with other types. -/
def withTypes (m : Module) (types : TypeTable) (htypes : types.IsIndexed) : Module :=
  { m with types := types, typesIndexed := htypes }

/-- The module with one more function, under a name that no function has yet. -/
def withFunction (m : Module) (data : FunctionData)
    (hnew : m.functionByName? data.name = none) : Module :=
  { m with
    functions := m.functions.push data
    functionIndex := m.functionIndex.insert data.name ⟨m.functions.size⟩
    functionsIndexed := m.functionsIndexed.insert rfl hnew fun id => by cases id; simp }

/-- The module in which a function has been changed, but not renamed. -/
def modifyFunction (m : Module) (f : FunctionId) (g : FunctionData → FunctionData)
    (hg : ∀ d, (g d).name = d.name) : Module :=
  { m with
    functions := m.functions.modify f.index g
    functionsIndexed := m.functionsIndexed.modify fun d _ => congrArg some (hg d) }

end Module

end SsaCompiler
