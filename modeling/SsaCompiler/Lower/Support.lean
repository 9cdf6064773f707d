/-
# Support functions

The functions outside the program that compiled code calls. Each is declared in the
module when it is first needed.
-/

import SsaCompiler.Data.Table
import SsaCompiler.Ir.Builder

namespace SsaCompiler

/-- A function that compiled code relies on. -/
inductive SupportFunction where
  | calloc | free | printf | pow | abort
  | allocateException | throwException | beginCatch | endCatch
  /-- The routine that decides which landing pad stops an exception. -/
  | personality
  deriving DecidableEq, Repr

namespace SupportFunction

/-- The name of the function in the module. -/
def symbol : SupportFunction → String
  | calloc => "calloc"
  | free => "free"
  | printf => "printf"
  | pow => "pow"
  | abort => "abort"
  | allocateException => "__cxa_allocate_exception"
  | throwException => "__cxa_throw"
  | beginCatch => "__cxa_begin_catch"
  | endCatch => "__cxa_end_catch"
  | personality => "__gxx_personality_v0"

/-- Every support function. -/
def all : List SupportFunction :=
  [calloc, free, printf, pow, abort, allocateException, throwException, beginCatch, endCatch,
    personality]

/-- The support function with a given name. -/
def ofSymbol? (name : String) : Option SupportFunction := all.find? (·.symbol == name)

/-- Whether an exception may come out of a call. -/
def mayUnwind : SupportFunction → Bool
  | throwException => true
  | _ => false

/-- The function type. -/
def signature (f : SupportFunction) : Build TypeId := do
  let byte ← Build.intType 8
  let bytes ← Build.pointerType byte
  let int ← Build.intType 32
  let long ← Build.intType 64
  let double ← Build.floatType 64
  let void ← Build.voidType
  match f with
  | calloc => Build.functionType [long, long] bytes false
  | free => Build.functionType [bytes] void false
  | printf => Build.functionType [bytes] int true
  | pow => Build.functionType [double, double] double false
  | abort | endCatch => Build.functionType [] void false
  | allocateException => Build.functionType [long] bytes false
  | throwException => Build.functionType [bytes, bytes, bytes] void false
  | beginCatch => Build.functionType [bytes] bytes false
  | personality => Build.functionType [] int true

end SupportFunction

/-- The support functions that a module declares. -/
structure SupportTable where
  /-- The functions in the module. -/
  declared : Table SupportFunction FunctionId
  deriving DecidableEq, Repr

namespace SupportTable

/-- The table without functions. -/
def empty : SupportTable := ⟨.empty⟩

instance : Inhabited SupportTable := ⟨empty⟩

/-- A support function, declared if that has not happened yet. -/
def get (t : SupportTable) (f : SupportFunction) : Build (FunctionId × SupportTable) := do
  match t.declared.get? f with
  | some id => return (id, t)
  | none =>
    let ty ← f.signature
    let id ← Build.declareFunction f.symbol ty
    return (id, ⟨t.declared.insert f id⟩)

/-- Which support function a function of the module is, if it is one. -/
def identify? (t : SupportTable) (id : FunctionId) : Option SupportFunction :=
  (t.declared.entries.find? fun entry => entry.2 = id).map Prod.fst

end SupportTable

end SsaCompiler
