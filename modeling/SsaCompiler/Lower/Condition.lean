/-
# Conditions

A condition lowers straight into branches: it is given the two blocks in which control
continues. A chain of terms is a cascade of tests that jump into these blocks directly, and
a later term is only evaluated when the earlier ones leave the outcome open. As a value, a
chain gets two blocks of its own.
-/

import SsaCompiler.Lower.Arithmetic

namespace SsaCompiler

/-- The name of the block in which the next term of a chain is tested. -/
def LogicalOp.nextBlock : LogicalOp → String
  | and => "and.next"
  | or => "or.next"

namespace Recur

variable (r : Recur)

/-- The terms of a chain, each but the last followed by a block for the next one. Without
terms the chain is false. -/
def logicalCondition (op : LogicalOp) (thenTo elseTo : BlockId) :
    List (Option Node) → Lower Unit
  | [] => Lower.brIfOpen elseTo
  | [last] => r.condition last thenTo elseTo
  | term :: rest => do
    let next ← Lower.appendBlock op.nextBlock
    match op with
    | .and => r.condition term next elseTo
    | .or => r.condition term thenTo next
    Build.positionAtEnd next
    logicalCondition op thenTo elseTo rest

/-- The truth of a comparison between an operand and a child, together with the child. -/
def compareStep (op : BinaryOp) (previous : Operand) (term : Option Node) :
    Attempt (Operand × ValueId) := do
  let span := childSpan term
  let next ← r.required term
  let result ← Lower.applyBinary op previous next span
  let value ← result.load
  return (next, ← Lower.toBool value span)

/-- The comparisons of a chain from an operand on. Every term is evaluated once, and the
first comparison that fails decides. -/
def compareChain (thenTo elseTo : BlockId) (previous : Operand) :
    List (BinaryOp × Option Node) → Lower Unit
  | [] => return ()
  | (op, term) :: rest => do
    match ← (r.compareStep op previous term).run with
    | none => Lower.brIfOpen elseTo
    | some (next, truth) =>
      if rest.isEmpty then Build.condBr truth thenTo elseTo
      else
        let cont ← Lower.appendBlock "cmp.next"
        Build.condBr truth cont elseTo
        Build.positionAtEnd cont
        compareChain thenTo elseTo next rest

/-- Lowers a condition as a branch to one of two blocks. A condition that fails takes the
second. -/
def conditionOf (cond : Option Node) (thenTo elseTo : BlockId) : Lower Unit := do
  match cond.map Node.kind with
  | some (.logical op terms) => r.logicalCondition op thenTo elseTo terms
  | some (.comparison first rest) =>
    match ← (r.required first).run with
    | none => Lower.brIfOpen elseTo
    | some previous => r.compareChain thenTo elseTo previous rest
  | _ =>
    let truth ← OptionT.run do
      let value ← r.value cond
      Lower.toBool value (childSpan cond)
    match truth with
    | some t => Build.condBr t thenTo elseTo
    | none => Lower.brIfOpen elseTo

/-- A chain as a value, which is only possible inside a function. -/
def boolChain (node : Node) : Attempt Operand := do
  if (← get).pass.func.isNone then
    Attempt.reject .structural "global initializers must be constants" node.span
  let trueBlock ← Lower.appendBlock "bool.true"
  let falseBlock ← Lower.appendBlock "bool.false"
  let join ← Lower.appendBlock "bool.end"
  r.condition (some node) trueBlock falseBlock
  let truth ← Build.intType 1
  Build.positionAtEnd trueBlock
  let yes ← Build.constInt truth 1
  Build.br join
  Build.positionAtEnd falseBlock
  let no ← Build.constInt truth 0
  Build.br join
  Build.positionAtEnd join
  return .ofValue (← Build.phi truth [(yes, trueBlock), (no, falseBlock)])

end Recur

end SsaCompiler
