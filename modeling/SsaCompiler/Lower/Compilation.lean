/-
# Compilations

Lowering whole modules, one after the other, into one module of the intermediate
representation. Each sees what the ones before declared.

A tree may also be lowered together with single nodes outside of it, one by one, to see what
each of them becomes.
-/

import SsaCompiler.Lower.Node
import SsaCompiler.Source.Program

namespace SsaCompiler

/-- What is carried from one tree to the next. -/
structure Compilation where
  /-- The tables. -/
  context : Context
  /-- The names met so far. -/
  names : Names
  /-- The module under construction. -/
  module : Module
  deriving Inhabited

/-- What came out of lowering a tree. -/
structure LowerOutcome where
  /-- The reports, ordered by line. -/
  diagnostics : List Diagnostic
  /-- The number of reports, those held back by the limit included. -/
  errorCount : Nat
  /-- The exceptions that each node may let out. -/
  nodeThrows : Table Nat ThrowSet

namespace LowerOutcome

/-- Whether there was nothing to report. -/
def isSuccess (o : LowerOutcome) : Bool := o.errorCount == 0

/-- The exceptions that a node may let out. -/
def throwableTypes (o : LowerOutcome) (node : Nat) : ThrowSet := (o.nodeThrows.get? node).getD []

/-- The reports as text, one line for each. -/
def render (o : LowerOutcome) : String := Diagnostic.render o.diagnostics

end LowerOutcome

/-- What a node that is lowered by itself became. -/
structure ProbeOutcome where
  /-- The value, if it has one. -/
  value : Option ValueId
  /-- The number of loops and switches around the current place afterwards. -/
  depth : Nat
  /-- The exceptions that the node may let out. -/
  throws : ThrowSet

/-- What came out of lowering a tree and then single nodes. -/
structure ProbeReport where
  /-- What became of the single nodes. -/
  outcomes : List ProbeOutcome
  /-- The reports, ordered by line. -/
  diagnostics : List Diagnostic
  /-- The number of reports, those held back by the limit included. -/
  errorCount : Nat
  /-- The exceptions that each node may let out, or why the walk ended early. -/
  nodeThrows : Except InternalError (Table Nat ThrowSet)

namespace Lower

variable (r : Recur)

/-- Lowers the root of a tree, which has to be a module. -/
def root (node : Option Node) : Lower Unit := do
  match node.map Node.kind with
  | some (.module _) => r.statement node
  | _ => abandon .rootNotModule

/-- Lowers a node by itself; `targets` are the blocks in which a condition continues. -/
def probe (targets : BlockId × BlockId) (p : Probe) : Lower ProbeOutcome := do
  let value ← match p with
    | .condition node => do
      r.condition node targets.1 targets.2
      pure none
    | .expression node load => do
      match ← r.child node with
      | none => pure none
      | some op => do
        if load then pure (some (← op.load)) else pure (some op.value)
  let pass := (← get).pass
  let throws := (p.node.bind fun node => pass.nodeThrows.get? node.id).getD []
  return ⟨value, pass.loops.length, throws⟩

/-- A function of its own for conditions that are lowered by themselves, with the two blocks
in which they continue. -/
def probeFunction : Build (BlockId × BlockId) := do
  let void ← Build.voidType
  let ty ← Build.functionType [] void false
  let f ← Build.declareFunction "__probe" ty
  let entry ← Build.appendBlock f "entry"
  let thenTo ← Build.appendBlock f "then"
  let elseTo ← Build.appendBlock f "else"
  Build.positionAtEnd entry
  return (thenTo, elseTo)

end Lower

namespace Compilation

/-- The compilation before the first tree. -/
def new (options : LowerOptions) (moduleName : String) : Compilation :=
  let (context, names) := Context.new options .initial
  ⟨context, names, .new moduleName⟩

/-- Runs a walk of its own and answers with the recorded exceptions, or with the reason why
the walk ended early. -/
def walk {α : Type} (c : Compilation) (body : Lower α) :
    Checked (α × Except InternalError (Table Nat ThrowSet) × Compilation) := do
  let (thisName, names) := c.names.intern "this"
  let (a, s) ← StateT.run body ⟨c.context, names, c.module, .new thisName⟩
  let result := match s.pass.fatal with
    | some e => .error e
    | none => .ok s.pass.nodeThrows
  return (a, result, ⟨s.context, s.names, s.module⟩)

/-- Takes the reports out. -/
def flush (c : Compilation) : List Diagnostic × Compilation :=
  let (diagnostics, queue) := c.context.diagnostics.flush
  (diagnostics, { c with context := { c.context with diagnostics := queue } })

/-- Lowers a tree, with calls nested at most `bound` deep. -/
def lowerWithin (bound : Nat) (c : Compilation) (root : Option Node) :
    Checked (Except InternalError LowerOutcome × Compilation) := do
  let before := c.context.errorCount
  let (_, result, c) ← c.walk (Lower.root (.within bound) root)
  match result with
  | .error e => return (.error e, c)
  | .ok nodeThrows =>
    let errorCount := c.context.errorCount - before
    let (diagnostics, c) := c.flush
    return (.ok ⟨diagnostics, errorCount, nodeThrows⟩, c)

/-- Lowers a tree. -/
def lower (c : Compilation) (root : Option Node) :
    Checked (Except InternalError LowerOutcome × Compilation) :=
  c.lowerWithin Recur.depthLimit root

/-- Lowers a tree and then single nodes. The reports are taken out even when the walk ends
early. -/
def lowerProbes (c : Compilation) (root : Option Node) (probes : List Probe) :
    Checked (ProbeReport × Compilation) := do
  let before := c.context.errorCount
  let r := Recur.within Recur.depthLimit
  let (targets, m) ← if probes.any Probe.isCondition
    then StateT.run Lower.probeFunction c.module
    else pure ((⟨noHandle⟩, ⟨noHandle⟩), c.module)
  let (outcomes, nodeThrows, c) ← { c with module := m }.walk do
    Lower.root r root
    probes.mapM (Lower.probe r targets)
  let errorCount := c.context.errorCount - before
  let (diagnostics, c) := c.flush
  return (⟨outcomes, diagnostics, errorCount, nodeThrows⟩, c)

end Compilation

end SsaCompiler
