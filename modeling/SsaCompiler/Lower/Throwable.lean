/-
# Descriptors of thrown types

A type that is thrown or caught has one global that describes it: a number and the name
of the type. The address of that global is what tells types apart while the program
runs.
-/

import SsaCompiler.Data.Table
import SsaCompiler.Ir.Builder

namespace SsaCompiler

/-- The types that are thrown or caught. -/
structure ThrowableTable where
  /-- The global that describes a type. -/
  descriptors : Table TypeId ValueId
  /-- The function that disposes of a thrown object of a type. -/
  destructors : Table TypeId FunctionId
  deriving DecidableEq, Repr

namespace ThrowableTable

/-- The table without types. -/
def empty : ThrowableTable := ⟨.empty, .empty⟩

instance : Inhabited ThrowableTable := ⟨empty⟩

/-- The number of types that have a descriptor. -/
def size (t : ThrowableTable) : Nat := t.descriptors.size

/-- The descriptor of a type, made when it is first needed; `label` is the name of the
type in messages. -/
def descriptor (t : ThrowableTable) (ty : TypeId) (label : String) :
    Build (ValueId × ThrowableTable) := do
  match t.descriptors.get? ty with
  | some d => return (d, t)
  | none =>
    let byte ← Build.intType 8
    let bytes ← Build.pointerType byte
    let long ← Build.intType 64
    let record ← Build.recordType [long, bytes]
    let global ← Build.addGlobal ("__kes_typeinfo." ++ label) record
    let token ← Build.constInt long (Int64.ofNat (t.size + 1))
    let text ← Build.globalString label
    let init ← Build.constStruct record [token, text]
    let _ ← Build.setGlobalInitializer global init
    return (global, { t with descriptors := t.descriptors.insert ty global })

/-- The function that disposes of a thrown object of a type. -/
def destructor? (t : ThrowableTable) (ty : TypeId) : Option FunctionId := t.destructors.get? ty

/-- Sets the function that disposes of a thrown object of a type. -/
def setDestructor (t : ThrowableTable) (ty : TypeId) (f : FunctionId) : ThrowableTable :=
  { t with destructors := t.destructors.insert ty f }

end ThrowableTable

end SsaCompiler
