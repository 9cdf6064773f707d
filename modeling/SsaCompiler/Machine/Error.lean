/-
# How a run can stop

A run that does not end with a value stops for a reason: an exception nobody handles, an
error of the program or of its code, or a crash. The reasons are data, and the text of a
reason is written in one place.
-/

import SsaCompiler.Crash
import SsaCompiler.Ir.Describe
import SsaCompiler.Machine.Value

namespace SsaCompiler

/-- What is wrong with code that the machine cannot make sense of. -/
inductive Malformation where
  /-- A block without terminator. -/
  | noTerminator (block function : String)
  /-- An exception that is not on its way is sent on. -/
  | resumeUnknown (payload : UInt64)
  /-- A choice in a block that control did not come to from another. -/
  | phiInEntry (block : String)
  /-- A choice that does not know the block control came from. -/
  | phiWithoutEdge (phi : ValueId) (source : BlockId)
  /-- A choice behind other instructions. -/
  | phiAfterHead (phi : ValueId)
  /-- A value that has not been computed. -/
  | usedBeforeDefinition (value : ValueId)
  /-- A value that is no constant in a place for constants. -/
  | notConstant (value : ValueId) (origin : ValueDef)
  | expectedInteger (found : Val)
  | expectedFloat (found : Val)
  | expectedPointer (found : Val)
  /-- The address of a field that does not exist. -/
  | badStructGep (value : ValueId)
  /-- A field of a value that does not have it. -/
  | badExtract (index : Nat) (found : Val)
  /-- A landing pad without an exception. -/
  | padWithoutException
  /-- A value that does not fit a type. -/
  | cannotStore (value : Val) (ty : TypeId)
  | missingArgument (function : String) (index : Nat)
  | argumentNotInteger (function : String) (index : Nat)
  | argumentNotPointer (function : String) (index : Nat)
  | argumentNotFloat (function : String) (index : Nat)
  /-- An exception that is not on its way is claimed. -/
  | beginCatchUnknown (payload : UInt64)
  /-- A handler is left that was never entered. -/
  | endCatchWithoutBegin

/-- What is wrong in words. -/
def Malformation.text : Malformation → String
  | noTerminator block function => s!"block '{block}' in '{function}' has no terminator"
  | resumeUnknown payload => "resume of unknown exception " ++ Text.address payload
  | phiInEntry block => s!"phi in entry block '{block}'"
  | phiWithoutEdge phi source => s!"phi {phi.text} has no edge from {source.text}"
  | phiAfterHead phi => s!"phi {phi.text} after block head"
  | usedBeforeDefinition value => s!"{value.text} used before definition"
  | notConstant value origin => s!"{value.text} is not a constant: {origin.describe}"
  | expectedInteger found => s!"expected an integer, got {found.describe}"
  | expectedFloat found => s!"expected a float, got {found.describe}"
  | expectedPointer found => s!"expected a pointer, got {found.describe}"
  | badStructGep value => s!"bad struct gep {value.text}"
  | badExtract index found => s!"extractvalue {index} from {found.describe}"
  | padWithoutException => "landing pad reached without an exception"
  | cannotStore value ty => s!"cannot store {value.describe} as {ty.text}"
  | missingArgument function index => s!"'{function}' is missing argument {index}"
  | argumentNotInteger function index => s!"'{function}' argument {index} is not an integer"
  | argumentNotPointer function index => s!"'{function}' argument {index} is not a pointer"
  | argumentNotFloat function index => s!"'{function}' argument {index} is not a float"
  | beginCatchUnknown payload => "begin_catch of unknown exception " ++ Text.address payload
  | endCatchWithoutBegin => "end_catch without a caught exception"

/-- What is wrong with a format or its arguments. -/
inductive FormatError where
  /-- The format ends inside a conversion. -/
  | dangling
  | missingArgument (conversion : Char)
  | expectsInteger (conversion : Char) (found : Val)
  | expectsDouble (conversion : Char) (found : Val)
  | expectsPointer
  | unsupported (conversion : Char)

/-- What is wrong in words. -/
def FormatError.text : FormatError → String
  | dangling => "dangling '%'"
  | missingArgument c => s!"missing argument for %{c}"
  | expectsInteger c found => s!"%{c} expects an integer, got {found.describe}"
  | expectsDouble c found => s!"%{c} expects a double, got {found.describe}"
  | expectsPointer => "%s expects a pointer"
  | unsupported c => s!"unsupported conversion %{c}"

/-- Why a program stopped without a value. -/
inductive ExecError where
  | malformedModule (errors : Nat)
  | noSuchFunction (name : String)
  | uncaughtException (typeName : String)
  | aborted
  | unreachable (function : String)
  | badAccess (address : UInt64) (length : Nat)
  | outOfMemory (requested limit : Nat)
  | stepLimit (limit : Nat)
  | callDepth (limit : Nat)
  | divisionByZero
  | unknownExternal (name : String)
  | badFormat (reason : FormatError)
  | malformedCode (reason : Malformation)

/-- The reason in words. -/
def ExecError.message : ExecError → String
  | malformedModule errors => s!"module has {errors} codegen error(s) and cannot be executed"
  | noSuchFunction name => s!"no function named '{name}'"
  | uncaughtException typeName => s!"uncaught exception of type '{typeName}'"
  | aborted => "program aborted"
  | unreachable function => s!"reached unreachable code in '{function}'"
  | badAccess address length =>
    "invalid memory access at address " ++ Text.address address ++ s!" ({length} bytes)"
  | outOfMemory requested limit => s!"out of memory: {requested} bytes requested, limit {limit}"
  | stepLimit limit => s!"step limit of {limit} exceeded"
  | callDepth limit => s!"call depth limit of {limit} exceeded"
  | divisionByZero => "integer division by zero"
  | unknownExternal name => s!"call to unknown external function '{name}'"
  | badFormat reason => s!"bad printf format: {reason.text}"
  | malformedCode reason => s!"malformed IR: {reason.text}"

/-- An operation that does not answer: it fails with an error, or it crashes. -/
inductive Fault where
  | failed (error : ExecError)
  | crashed (crash : Crash)

/-- A computation that answers, fails or crashes. -/
abbrev Fallible (α : Type) : Type := Except Fault α

/-- A crash is a fault. -/
def Fallible.ofChecked {α : Type} : Checked α → Fallible α
  | .ok a => .ok a
  | .error c => .error (.crashed c)

instance : MonadLift (Except Crash) (Except Fault) := ⟨Fallible.ofChecked⟩

/-- Fails with an error. -/
def Fallible.fail {α : Type} (e : ExecError) : Fallible α := .error (.failed e)

/-- Fails because of the code. -/
def Fallible.malformed {α : Type} (reason : Malformation) : Fallible α :=
  .error (.failed (.malformedCode reason))

/-- The limits of a run. -/
structure Limits where
  /-- How many instructions and terminators may be executed. -/
  maxSteps : Nat
  /-- How deep calls may be nested. -/
  maxCallDepth : Nat
  /-- How many bytes heap and stack may have together. -/
  memoryLimit : Nat
  deriving DecidableEq, Repr

namespace Limits

/-- Ten million steps, two thousand nested calls, sixty-four megabytes. -/
def standard : Limits := ⟨10000000, 2000, 67108864⟩

/-- A hundred thousand steps, two hundred nested calls, one megabyte. -/
def small : Limits := ⟨100000, 200, 1048576⟩

instance : Inhabited Limits := ⟨standard⟩

end Limits

end SsaCompiler
