/-
# Literals and names

The leaves of expressions. An identifier is a variable or, inside a method, a member of the
object that the method runs on.
-/

import SsaCompiler.Lower.Place

namespace SsaCompiler

namespace Lower

/-- An integer literal: an `int` when it fits and a `long` otherwise. -/
def intLiteral (value : Int64) : Build Operand := do
  let bits := if -2147483648 ≤ value ∧ value ≤ 2147483647 then 32 else 64
  return .ofValue (← Build.constInt (← Build.intType bits) value)

/-- A floating point literal. -/
def floatLiteral (value : Double) : Build Operand := do
  return .ofValue (← Build.constFloat (← Build.floatType 64) value)

/-- A truth value. -/
def boolLiteral (value : Bool) : Build Operand := do
  return .ofValue (← Build.constInt (← Build.intType 1) (Build.truthWord value))

/-- A character. -/
def charLiteral (value : UInt8) : Build Operand := do
  return .ofValue (← Build.constInt (← Build.intType 8) (Int64.ofNat value.toNat))

/-- A string literal: the address of its first byte. -/
def stringLiteral (text : Name) : Lower Operand := do
  let text ← nameText text
  return .ofValue (← Build.globalString text)

/-- The null pointer, a pointer to bytes until it is converted. -/
def nullLiteral : Build Operand := do
  return .ofValue (← Build.constNull (← bytePointer))

/-- The address of the object that the current method runs on. -/
def thisPointer : Lower (Option ValueId) := do
  match (← symbols).binding? (← get).pass.thisName with
  | some binding => return some (← Build.load binding.storage)
  | none => return none

/-- A member of the object that the current method runs on. -/
def implicitMember (name : Name) : Lower (Option Operand) := do
  match ← thisTy with
  | none => return none
  | some object =>
    match (← symbols).member? object name with
    | none => return none
    | some slot =>
      match ← thisPointer with
      | none => return none
      | some this => return some (.ofPlace (← Build.structGep this slot.index))

/-- An identifier. -/
def identifier (name : Name) (span : Span) : Attempt Operand := do
  match (← symbols).binding? name with
  | some binding => return .ofPlace binding.storage
  | none =>
    match ← OptionT.lift (implicitMember name) with
    | some place => return place
    | none =>
      let text ← nameText name
      Attempt.reject .unresolvedName s!"unknown variable '{text}'" span

/-- The object that the current method runs on, as an address. -/
def thisOperand (span : Span) : Attempt Operand := do
  let this ← OptionT.lift thisPointer
  match this, (← OptionT.lift thisTy) with
  | some this, some _ => return .ofValue this
  | _, _ => Attempt.reject .unresolvedName "'this' used outside a method" span

end Lower

end SsaCompiler
