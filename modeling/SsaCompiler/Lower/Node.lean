/-
# Nodes

The lowering of a node by its kind. While a node is lowered, the exceptions that it may let
out are collected; they are recorded for the node and belong to the node around it as well.

Lowering calls itself for children, for conditions and for templates. The depth of these
calls is bounded by an explicit number, since a template may ask for ever larger instances
of itself without end; a walk that needs more depth than that crashes.
-/

import SsaCompiler.Lower.Access
import SsaCompiler.Lower.Exception
import SsaCompiler.Lower.Expression
import SsaCompiler.Lower.Instance
import SsaCompiler.Lower.Output

namespace SsaCompiler

/-- The answer of a statement: it has no value. -/
def Lower.noValue (stmt : Lower Unit) : Lower (Option Operand) := do
  stmt
  return none

/-- The answer of a statement that may fail: it has no value either way. -/
def Attempt.noValue (stmt : Attempt Unit) : Lower (Option Operand) :=
  Lower.noValue (discard stmt.run)

/-- The answer of something that always has a value. -/
def Lower.someValue (expr : Lower Operand) : Lower (Option Operand) := do
  return some (← expr)

namespace Recur

variable (r : Recur)

/-- Lowers a node that may stand where it does, by its kind. -/
def lowerKind (node : Node) : Lower (Option Operand) :=
  let span := node.span
  match node.kind with
  | .intLit v => Lower.someValue (Lower.intLiteral v)
  | .floatLit v => Lower.someValue (Lower.floatLiteral v)
  | .boolLit v => Lower.someValue (Lower.boolLiteral v)
  | .charLit v => Lower.someValue (Lower.charLiteral v)
  | .strLit text => Lower.someValue (Lower.stringLiteral text)
  | .null => Lower.someValue Lower.nullLiteral
  | .ident name => (Lower.identifier name span).run
  | .this => (Lower.thisOperand span).run
  | .binary op lhs rhs => (r.binary op lhs rhs span).run
  | .logical .. => (r.boolChain node).run
  | .comparison .. => (r.boolChain node).run
  | .unary op operand => (r.unary op operand span).run
  | .assign op target value => (r.assign op target value span).run
  | .call callee args => (r.call callee args span).run
  | .methodCall receiver method args => (r.methodCall receiver method args span).run
  | .member object name => (r.member object name span).run
  | .index object index => (r.index object index span).run
  | .cast expr ty => (r.cast expr ty span).run
  | .construct ty args heap => (r.construct ty args heap span).run
  | .delete operand => (r.delete operand span).noValue
  | .sizeOf ty => (r.sizeOf ty span).run
  | .debugPrint expr => (r.debugPrint expr span).run
  | .print args => (r.print args span).noValue
  | .asm text => (Lower.asm text).noValue
  | .throw value => (r.throwValue value span).noValue
  | .tryCatch body catches => (r.tryCatch body catches span).noValue
  | .varDecl ty vars => (r.declareVariables ty vars span).noValue
  | .ifElse cond thenBranch elseBranch => (r.ifElse cond thenBranch elseBranch).noValue
  | .whileLoop cond body => (r.whileLoop cond body).noValue
  | .forLoop init cond step body => (r.forLoop init cond step body).noValue
  | .switch scrutinee cases default autoBreak =>
    (r.switch scrutinee cases default autoBreak span).noValue
  | .breakStmt => (Lower.breakOut span).noValue
  | .continueStmt => (Lower.continueLoop span).noValue
  | .returnStmt value => (r.returnFrom value span).noValue
  | .block stmts => (r.sequence stmts).noValue
  | .function decl => (r.function node.id decl span).noValue
  | .constructor _ =>
    (Lower.report .structural "constructor declared outside an object" span).noValue
  | .object decl => (r.object node.id decl span).noValue
  | .template decl => (Lower.registerTemplate decl span).noValue
  | .operator decl => (r.operator node.id decl span).noValue
  | .module items => (r.sequence items).noValue

/-- Lowers a node where it stands; outside a function only some kinds may stand. -/
def lowerHere (node : Node) : Lower (Option Operand) := do
  Lower.modifyPass fun p => { p with span := node.span }
  if (← Lower.func).isNone && !node.kind.allowedAtModuleScope then
    let label := node.kind.label
    Lower.report .structural s!"{label} is not allowed at module scope" node.span
    return none
  else r.lowerKind node

/-- Records the exceptions that a node may let out; they belong to the node around it as
well. -/
def recordNodeThrows (node : Nat) (throws : ThrowSet) : Lower Unit := do
  unless throws.isEmpty do
    Lower.noteThrows throws
    Lower.modifyPass fun p => { p with nodeThrows := p.nodeThrows.insert node throws }

/-- Lowers a node and records the exceptions that it may let out. -/
def lowerNode (node : Node) : Lower (Option Operand) := do
  if ← Lower.isAbandoned then return none
  Lower.pushThrowFrame
  let result ← r.lowerHere node
  let throws ← Lower.popThrowFrame
  recordNodeThrows node.id throws
  return result

/-- Lowering in which calls nest at most `n` deep. -/
def within : Nat → Recur
  | 0 =>
    { operand := fun _ => throw .endless
      condition := fun _ _ _ => throw .endless
      instantiate := fun _ _ _ => throw .endless }
  | n + 1 =>
    { operand := fun node => (within n).lowerNode node
      condition := fun cond thenTo elseTo => (within n).conditionOf cond thenTo elseTo
      instantiate := fun name args span => ((within n).instanceOf name args span).run }

/-- How deep the calls of a compilation may nest. -/
def depthLimit : Nat := 1000000

end Recur

end SsaCompiler
