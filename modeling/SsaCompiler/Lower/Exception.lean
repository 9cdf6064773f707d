/-
# Exceptions

Every call inside the body of a `try` names the landing pad of the `try`. The landing pad
keeps the payload and the selector of the exception and enters a chain of tests, one for
each handler in order. When no handler fits, the chain of the next `try` around takes over,
and behind the outermost one the exception leaves the function.

A `try` without handlers stops exactly what its body may throw and drops it; anything else
ends the program.
-/

import SsaCompiler.Lower.Annotation
import SsaCompiler.Lower.Invocation
import SsaCompiler.Lower.Variable

namespace SsaCompiler

namespace Lower

/-! ### Throwing -/

/-- The descriptor of a type, as a pointer to bytes. -/
def typeDescriptor (ty : TypeId) : Lower ValueId := do
  let label ← describe ty
  let (global, table) ← (← get).context.throwables.descriptor ty label
  modifyContext fun c => { c with throwables := table }
  Build.cast .bitcast global (← bytePointer)

/-- The body of the function that disposes of a thrown object of a type. -/
def destructorBody (thunk : FunctionId) (ty : TypeId) (entry : OperatorEntry) : Build Unit := do
  let byAddress ← match entry.params with
    | p :: _ => do pure (p.isReference || (← pointee? p.ty) == some ty)
    | [] => pure false
  Build.positionAtEnd (← Build.appendBlock thunk "entry")
  let raw ← Build.param thunk 0
  let typed ← Build.cast .bitcast raw (← Build.pointerType ty)
  let arg ← if byAddress then pure typed else Build.load typed
  let _ ← Build.call entry.function [arg]
  Build.ret none

/-- The function that disposes of a thrown object of a type: it runs the operator with which
the program deletes such objects. An object without that operator cannot be thrown. -/
def destructorThunk (ty : TypeId) (span : Span) : Attempt FunctionId := do
  match ← findOperator (.behind ty .delete) span with
  | none =>
    let found ← describe ty
    Attempt.reject .structural s!"'{found}' cannot be thrown: it has no delete operator" span
  | some index =>
    let label ← describe ty
    match (← get).context.operators.get? index with
    | none =>
      abandon (.vanishedOverload s!"operator delete({label})")
      failure
    | some entry =>
      let bytes ← bytePointer
      let void ← Build.voidType
      let fnTy ← Build.functionType [bytes] void false
      let thunk ← Build.declareFunction s!"__kes_dtor.{label}" fnTy
      let here := (← get).module.position
      destructorBody thunk ty entry
      Build.restorePosition here
      return thunk

/-- What a thrown value of a type hands over for its disposal, null for anything but an
object. -/
def throwDestructor (ty : TypeId) (span : Span) : Attempt ValueId := do
  let bytes ← bytePointer
  if ¬ (← Build.typeAt ty).isStruct then Build.constNull bytes
  else
    let thunk ← match (← get).context.throwables.destructor? ty with
      | some f => pure f
      | none => do
        let f ← destructorThunk ty span
        modifyContext fun c => { c with throwables := c.throwables.setDestructor ty f }
        pure f
    let ptr ← Build.functionPtr thunk
    Build.cast .bitcast ptr bytes

/-- Throws an operand. -/
def throwOperand (op : Operand) (span : Span) : Attempt Unit := do
  let ty ← op.ty
  let destructor ← throwDestructor ty span
  let value ← op.load
  let allocate ← support .allocateException
  let size ← constLong (← allocationSize ty)
  let raw ← OptionT.mk (emitCall allocate [size])
  let slot ← Build.cast .bitcast raw (← Build.pointerType ty)
  Build.store value slot
  let descriptor ← typeDescriptor ty
  let _ ← OptionT.lift (callSupport .throwException [raw, descriptor, destructor])
  noteThrows [ty]
  Build.unreachable
  startDeadBlock

/-! ### Landing pads -/

/-- The types for which a landing pad stops: those of its own `try` first, then those of the
tries around it, from the inside. -/
def landingTypes (handled : List TypeId) (outer : List TryFrame) : List TypeId :=
  outer.foldl (fun types frame => ThrowSet.merge types frame.catchTypes) handled

/-- A landing pad. It also stops for what only a `try` further out handles, so that the
exception can be handed on from test to test; a `try` without handlers stops for
everything. -/
def emitLandingPad (handled : List TypeId) (catchAll : Bool) : Lower ValueId := do
  let outer := (← get).pass.tries
  let clauses ← (landingTypes handled outer).mapM typeDescriptor
  Build.landingPad clauses (catchAll || outer.any (·.catchTypes.isEmpty))

/-- Whether the selector of an exception is that of a type. -/
def selectorIs (selector : ValueId) (ty : TypeId) : Lower ValueId := do
  let descriptor ← typeDescriptor ty
  let id ← Build.typeIdFor descriptor
  Build.icmp .eq selector id

/-- Tests for a type of exception: control continues in a given block if the selector fits,
and otherwise in a new one, where lowering goes on. -/
def catchTest (selector : ValueId) (ty : TypeId) (catchBlock : BlockId) : Lower Unit := do
  let hit ← selectorIs selector ty
  let next ← appendBlock "catch.next"
  Build.condBr hit catchBlock next
  Build.positionAtEnd next

/-- Hands an exception on to the `try` around, or out of the function. -/
def forwardException (pad : ValueId) : Lower Unit := do
  match (← get).pass.tries with
  | outer :: _ =>
    Build.store pad outer.padSlot
    Build.br outer.dispatch
  | [] => Build.resume pad

/-- Claims an exception. -/
def beginCatch (payload : ValueId) : Lower ValueId := do
  return (← callSupport .beginCatch [payload]).getD payload

/-- Releases an exception and leaves the `try`, unless the handler has jumped away. -/
def endCatch (endBlock : BlockId) : Lower Unit := do
  unless ← Build.ask Module.currentBlockTerminated do
    let _ ← callSupport .endCatch []
    Build.br endBlock

/-- The tests of a `try` without handlers: what its body may throw is claimed and dropped,
and anything else ends the program. -/
def dispatchImplicit (handled : List TypeId) (payload selector : ValueId) (endBlock : BlockId) :
    Lower Unit := do
  let catchBlock ← appendBlock "catch"
  for ty in handled do
    catchTest selector ty catchBlock
  let _ ← callSupport .abort []
  Build.unreachable
  Build.positionAtEnd catchBlock
  let _ ← beginCatch payload
  endCatch endBlock

end Lower

namespace Recur

variable (r : Recur)

/-- Throws the value of a child. -/
def throwValue (value : Option Node) (span : Span) : Attempt Unit := do
  let op ← r.required value
  Lower.throwOperand op span

/-- The handlers of a `try` with their types. A handler whose type fails or is there already
is reported and left out. -/
def catchClauses (span : Span) (known : List (CatchClause Node × TypeId)) :
    List (CatchClause Node) → Lower (List (CatchClause Node × TypeId))
  | [] => return known
  | clause :: rest => do
    match ← (r.type span clause.ty.stripReference).run with
    | none => catchClauses span known rest
    | some ty =>
      if known.any (·.2 = ty) then
        let found ← Lower.describe ty
        Lower.report .structural s!"'{found}' is caught twice" span
        catchClauses span known rest
      else catchClauses span (known ++ [(clause, ty)]) rest

/-- A handler: it claims the exception, sees it under its name and releases it at the
end. -/
def catchBody (clause : CatchClause Node) (ty : TypeId) (payload : ValueId)
    (endBlock : BlockId) : Lower Unit := do
  let raw ← Lower.beginCatch payload
  let typed ← Build.cast .bitcast raw (← Build.pointerType ty)
  let hidden := (← Lower.symbols).binding? clause.binding
  Lower.bindVariable clause.binding typed ty true
  r.statement clause.body
  Lower.endCatch endBlock
  match hidden with
  | some b => Lower.modifySymbols (·.setVariable clause.binding b)
  | none => Lower.modifySymbols (·.removeVariable clause.binding)

/-- The tests of a `try` with handlers. -/
def dispatchClauses (pad payload selector : ValueId) (endBlock : BlockId) :
    List (CatchClause Node × TypeId) → Lower Unit
  | [] => Lower.forwardException pad
  | (clause, ty) :: rest => do
    let hit ← Lower.selectorIs selector ty
    let catchBlock ← Lower.appendBlock "catch"
    let next ← Lower.appendBlock "catch.next"
    Build.condBr hit catchBlock next
    Build.positionAtEnd catchBlock
    r.catchBody clause ty payload endBlock
    Build.positionAtEnd next
    dispatchClauses pad payload selector endBlock rest

/-- Lowers the body of a `try` and answers with the exceptions that it may let out. -/
def tryBody (frame : TryFrame) (body : Option Node) : Lower ThrowSet := do
  Lower.modifyPass fun p => { p with tries := frame :: p.tries }
  Lower.pushThrowFrame
  r.statement body
  let thrown ← Lower.popThrowFrame
  Lower.modifyPass fun p => { p with tries := p.tries.tail }
  return thrown

/-- A `try` with its handlers. Exceptions of its body that no handler takes are those of the
`try` itself. -/
def tryCatch (body : Option Node) (catches : List (CatchClause Node)) (span : Span) :
    Lower Unit := do
  match ← Lower.func with
  | none => return ()
  | some f =>
    let personality ← Lower.support .personality
    Build.setPersonality f.id personality
    let clauses ← r.catchClauses span [] catches
    let catchTypes := clauses.map Prod.snd
    let landing ← Lower.appendBlock "lpad"
    let dispatch ← Lower.appendBlock "catch.dispatch"
    let endBlock ← Lower.appendBlock "try.end"
    let bytes ← Lower.bytePointer
    let word ← Build.intType 32
    let padTy ← Build.recordType [bytes, word]
    let padSlot ← Lower.entryAlloca padTy
    let thrown ← r.tryBody ⟨landing, padSlot, dispatch, catchTypes⟩ body
    Lower.brIfOpen endBlock
    unless catches.isEmpty do
      Lower.noteThrows (thrown.filter fun ty => !catchTypes.contains ty)
    let handled := if catches.isEmpty then thrown else catchTypes
    Build.positionAtEnd landing
    let pad ← Lower.emitLandingPad handled catches.isEmpty
    Build.store pad padSlot
    Build.br dispatch
    Build.positionAtEnd dispatch
    let pad ← Build.load padSlot
    let payload ← Build.extractValue pad 0
    let selector ← Build.extractValue pad 1
    if catches.isEmpty then Lower.dispatchImplicit handled payload selector endBlock
    else r.dispatchClauses pad payload selector endBlock clauses
    Build.positionAtEnd endBlock

end Recur

end SsaCompiler
