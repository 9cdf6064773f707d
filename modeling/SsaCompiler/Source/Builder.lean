/-
# Building program trees

Nodes are numbered in the order in which they are built, and names are listed in the
order in which they are met. Both orders are visible later, so a tree is built by a
computation that keeps the counter and the list of names.
-/

import SsaCompiler.Source.Node

namespace SsaCompiler

/-- The state of a tree under construction. -/
structure TreeState where
  /-- The names met so far. -/
  names : Names
  /-- The number of the next node. -/
  next : Nat
  deriving Inhabited

/-- A computation that builds part of a tree. -/
abbrev TreeBuilder (α : Type) : Type := StateM TreeState α

namespace TreeBuilder

/-- The name of a text. -/
def name (text : String) : TreeBuilder Name := modifyGet fun s =>
  let (n, names) := s.names.intern text
  (n, { s with names := names })

/-- A new node of a given kind on a given line. -/
def node (line : Nat) (kind : NodeKind Node) : TreeBuilder Node := modifyGet fun s =>
  (⟨s.next, Span.atLine line, kind⟩, { s with next := s.next + 1 })

/-- The names of several texts. -/
def nameList : List String → TreeBuilder (List Name)
  | [] => pure []
  | text :: rest => do
    let n ← name text
    return n :: (← nameList rest)

/-- A string literal. -/
def string (line : Nat) (text : String) : TreeBuilder Node := do
  node line (.strLit (← name text))

/-- An identifier. -/
def ident (line : Nat) (text : String) : TreeBuilder Node := do
  node line (.ident (← name text))

/-- A call of a named function. -/
def call (line : Nat) (callee : String) (args : List (Option Node)) : TreeBuilder Node := do
  node line (.call (← name callee) args)

/-- A call of a method. -/
def methodCall (line : Nat) (receiver : Option Node) (method : String)
    (args : List (Option Node)) : TreeBuilder Node := do
  node line (.methodCall receiver (← name method) args)

/-- A member of an object. -/
def member (line : Nat) (object : Option Node) (text : String) : TreeBuilder Node := do
  node line (.member object (← name text))

/-- Inline assembly. -/
def asm (line : Nat) (text : String) : TreeBuilder Node := do
  node line (.asm (← name text))

/-- Names for the variables of a declaration, after all initial values are built. -/
def varInits : List (String × Option Node) → TreeBuilder (List (VarInit Node))
  | [] => pure []
  | (text, init) :: rest => do
    let n ← name text
    return ⟨n, init⟩ :: (← varInits rest)

/-- A declaration of variables of one type. -/
def vars (line : Nat) (ty : TypeExpr) (inits : List (String × Option Node)) :
    TreeBuilder Node := do
  node line (.varDecl ty (← varInits inits))

/-- A block of statements. -/
def block (line : Nat) (stmts : List (Option Node)) : TreeBuilder Node :=
  node line (.block stmts)

/-- A function with a body; the body is a block of its own. -/
def function (line : Nat) (text : String) (params : List Field) (ret : TypeExpr)
    (body : List (Option Node)) : TreeBuilder Node := do
  let body ← block line body
  let n ← name text
  node line (.function ⟨n, params, ret, some body⟩)

/-- A constructor. -/
def constructor (line : Nat) (params : List Field) (body : List (Option Node)) :
    TreeBuilder Node := do
  let body ← block line body
  node line (.constructor ⟨params, some body⟩)

/-- An object. -/
def object (line : Nat) (text : String) (members : List Field)
    (methods : List (Option Node)) : TreeBuilder Node := do
  let n ← name text
  node line (.object ⟨n, members, methods⟩)

/-- A template. -/
def template (line : Nat) (text : String) (params : List String) (members : List Field)
    (methods : List (Option Node)) : TreeBuilder Node := do
  let n ← name text
  let ps ← nameList params
  node line (.template ⟨n, ps, members, methods⟩)

/-- An operator. -/
def operator (line : Nat) (lhs : Option Field) (symbol : OpSymbol) (rhs : Option Field)
    (ret : TypeExpr) (body : List (Option Node)) : TreeBuilder Node := do
  let body ← block line body
  node line (.operator ⟨lhs, symbol, rhs, ret, some body⟩)

/-- Runs a construction from a list of names, with nodes numbered from zero. -/
def run {α : Type} (names : Names) (b : TreeBuilder α) : α × Names :=
  let (a, s) := StateT.run b ⟨names, 0⟩
  (a, s.names)

end TreeBuilder

end SsaCompiler
