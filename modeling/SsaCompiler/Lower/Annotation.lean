/-
# Type annotations

What a type as it is written stands for in the module. Names are looked up among the
objects; a template with arguments is made concrete on the spot.
-/

import SsaCompiler.Lower.State

namespace SsaCompiler

/-- The type that a name stands for. An unknown name is reported, or becomes a new object
without body when its declaration is about to follow. -/
def Lower.namedType (name : Name) (declaring : Bool) (span : Span) : Attempt TypeId := do
  match (← Lower.symbols).object? name with
  | some info => return info.ty
  | none =>
    let text ← Lower.nameText name
    if (← get).context.templates.hasName name then
      Attempt.reject .typeMismatch s!"template '{text}' needs type arguments" span
    else if declaring then
      let ty ← Build.namedStruct text
      Lower.modifySymbols (·.declareObject (.new name ty))
      return ty
    else Attempt.reject .unresolvedName s!"unknown type '{text}'" span

namespace Recur

mutual
/-- The type that a type expression stands for. A pointer to nothing in particular points to
bytes, and a reference is held as a pointer. -/
def type (r : Recur) (span : Span) : TypeExpr → Attempt TypeId
  | .prim p => p.lower
  | .pointer (.prim .void) | .reference (.prim .void) => Lower.bytePointer
  | .pointer t => do Build.pointerType (← type r span t)
  | .reference t => do Build.pointerType (← type r span t)
  | .named name => Lower.namedType name false span
  | .generic name args => do
    let args ← types r span args
    OptionT.mk (r.instantiate name args span)
  | .array elem => do
    let elem ← type r span elem
    let name := (← get).context.templates.arrayName
    OptionT.mk (r.instantiate name [elem] span)

/-- The types that a list of type expressions stands for, up to the first that fails. -/
def types (r : Recur) (span : Span) : List TypeExpr → Attempt (List TypeId)
  | [] => return []
  | t :: rest => do
    let ty ← type r span t
    return ty :: (← types r span rest)
end

end Recur

end SsaCompiler
