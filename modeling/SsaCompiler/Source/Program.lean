/-
# Programs

What is handed in at once: the root of a tree, and nodes outside the tree that are to be
lowered by themselves, one by one, to see what each of them becomes.
-/

import SsaCompiler.Source.Node

namespace SsaCompiler

/-- A node that is lowered by itself. -/
inductive Probe where
  /-- As a choice between two blocks. -/
  | condition (node : Option Node)
  /-- As an expression, loaded from its place if `load` is set. -/
  | expression (node : Option Node) (load : Bool)

namespace Probe

/-- The node of a probe. -/
def node : Probe → Option Node
  | condition node => node
  | expression node _ => node

/-- Whether a probe is a condition. -/
def isCondition : Probe → Bool
  | condition _ => true
  | expression .. => false

end Probe

/-- A tree, perhaps with nodes to be lowered by themselves. -/
structure Program where
  /-- The root of the tree. -/
  root : Option Node
  /-- The nodes to be lowered by themselves; an empty list is not the same as none. -/
  probes : Option (List Probe)

end SsaCompiler
