/-
# Reading programs

A program tree is read from plain data. A node is a record whose field `k` tells its kind;
the other fields depend on the kind. Children are read before the node they belong to, in a
fixed order, since both the numbers of the nodes and the order of the names are visible
later.

A node without a line is on the line of the node around it. A node may carry a label, and
another place of the tree may then refer to the same node.

An item of a module that is a function without body only announces the function. Such items
get their numbers after everything else.
-/

import SsaCompiler.Source.Builder
import SsaCompiler.Source.Data
import SsaCompiler.Source.Program
import SsaCompiler.Data.Table
import SsaCompiler.Text.Radix

namespace SsaCompiler

/-- Why data is no program. -/
inductive ReadError where
  /-- A field that is needed is not there. -/
  | missing (field : String)
  /-- Something else was expected in its place. -/
  | unexpected (what : String)
  /-- A reference to a label that no node before it carries. -/
  | unknownLabel (label : String)
  deriving DecidableEq, Repr

/-- The reason in words. -/
def ReadError.message : ReadError → String
  | missing field => "missing " ++ field
  | unexpected what => "expected " ++ what
  | unknownLabel label => "unknown label " ++ label

/-- What is known while a tree is read. -/
structure ReaderState where
  /-- The tree so far. -/
  tree : TreeState
  /-- The nodes that carry a label. -/
  labels : Table String Node
  deriving Inhabited

/-- A computation that reads part of a tree. -/
abbrev Reader (α : Type) : Type := StateT ReaderState (Except ReadError) α

/-- Building a tree leaves the labels as they are. -/
def Reader.build {α : Type} (b : TreeBuilder α) : Reader α := fun s =>
  let (a, tree) := StateT.run b s.tree
  .ok (a, { s with tree := tree })

instance : MonadLift TreeBuilder Reader := ⟨Reader.build⟩

namespace Data

/-! ### Fields -/

/-- A field that has to be there. -/
def field (d : Data) (key : String) : Reader Data :=
  match d.field? key with
  | some value => return value
  | none => throw (.missing key)

/-- A text. -/
def asText : Data → Reader String
  | text s => return s
  | _ => throw (.unexpected "a text")

/-- A number. -/
def asInt : Data → Reader Int
  | int n => return n
  | _ => throw (.unexpected "a number")

/-- The items of a list. -/
def asList : Data → Reader (List Data)
  | list items => return items
  | _ => throw (.unexpected "a list")

/-- The text of a field. -/
def textOf (d : Data) (key : String) : Reader String := do (← d.field key).asText

/-- The number of a field. -/
def intOf (d : Data) (key : String) : Reader Int := do (← d.field key).asInt

/-- The truth value of a field, false when it is missing. -/
def flagOf (d : Data) (key : String) : Reader Bool :=
  match d.field? key with
  | none => return false
  | some (bool b) => return b
  | some _ => throw (.unexpected "a truth value")

/-- The items of a field, none when it is missing. -/
def listOf (d : Data) (key : String) : Reader (List Data) :=
  match d.field? key with
  | none => return []
  | some value => value.asList

/-- Something that a word of a field stands for. -/
def wordOf {α : Type} (d : Data) (key : String) (meaning : String → Option α) : Reader α := do
  let word ← d.textOf key
  match meaning word with
  | some a => return a
  | none => throw (.unexpected key)

/-- The line of a node. -/
def lineOf (d : Data) (around : Nat) : Reader Nat :=
  match d.field? "line" with
  | none => return around
  | some value => do return (← value.asInt).toNat

/-! ### Types and operators -/

/-- A type, nested at most `n` levels deep. The arguments of a template come before its
name. -/
def typeWithin : Nat → Data → Reader TypeExpr
  | _, text word =>
    match PrimType.ofKeyword? word with
    | some p => return .prim p
    | none => throw (.unexpected "a type")
  | n + 1, d =>
    match d.field? "ptr", d.field? "ref", d.field? "array", d.field? "named" with
    | some t, _, _, _ => do return .pointer (← typeWithin n t)
    | _, some t, _, _ => do return .reference (← typeWithin n t)
    | _, _, some t, _ => do return .array (← typeWithin n t)
    | _, _, _, some name => do return .named (← TreeBuilder.name (← name.asText))
    | none, none, none, none => do
      let args ← (← d.listOf "args").mapM (typeWithin n)
      return .generic (← TreeBuilder.name (← d.textOf "generic")) args
  | 0, _ => throw (.unexpected "a type")

/-- A type. -/
def asType (d : Data) : Reader TypeExpr := typeWithin d.depth d

/-- The type of a field. -/
def typeOf (d : Data) (key : String) : Reader TypeExpr := do (← d.field key).asType

/-- A name with its type; the type comes first. -/
def asField (d : Data) : Reader Field := do
  let ty ← d.typeOf "ty"
  return ⟨← TreeBuilder.name (← d.textOf "name"), ty⟩

/-- The names with types of a field. -/
def fieldsOf (d : Data) (key : String) : Reader (List Field) := do
  (← d.listOf key).mapM asField

/-- A name with its type that may be missing. -/
def fieldOf? (d : Data) (key : String) : Reader (Option Field) :=
  match d.field? key with
  | none => return none
  | some value => do return some (← value.asField)

/-- What an operator is written with. -/
def asSymbol (d : Data) : Reader OpSymbol :=
  match d with
  | text "[]" => return .index
  | text "as" => return .cast
  | text "delete" => return .delete
  | d =>
    if d.has "bin" then do return .binary (← d.wordOf "bin" BinaryOp.ofSymbol?)
    else do return .unary (← d.wordOf "un" UnaryOp.ofSymbol?)

end Data

namespace Reader

/-! ### Nodes -/

/-- How a child of a node is read; a missing child is no node. -/
abbrev ChildReader : Type := Data → Reader (Option Node)

/-- The child in a field. -/
def childOf (child : ChildReader) (d : Data) (key : String) : Reader (Option Node) :=
  match d.field? key with
  | none => return none
  | some value => child value

/-- The children in a field. -/
def childrenOf (child : ChildReader) (d : Data) (key : String) : Reader (List (Option Node)) := do
  (← d.listOf key).mapM child

/-- A later term of a chain of comparisons. -/
def comparisonTerm (child : ChildReader) (d : Data) : Reader (BinaryOp × Option Node) := do
  return (← d.wordOf "o" BinaryOp.ofSymbol?, ← childOf child d "e")

/-- A handler. -/
def catchClause (child : ChildReader) (d : Data) : Reader (CatchClause Node) := do
  let ty ← d.typeOf "ty"
  let body ← childOf child d "body"
  return ⟨ty, ← TreeBuilder.name (← d.textOf "name"), body⟩

/-- A case of a switch. -/
def switchCase (child : ChildReader) (d : Data) : Reader (SwitchCase Node) := do
  return ⟨← childOf child d "v", ← childOf child d "body"⟩

/-- A variable of a declaration, before it has a name. -/
def varInit (child : ChildReader) (d : Data) : Reader (String × Option Node) := do
  let init ← childOf child d "init"
  return (← d.textOf "name", init)

/-- A leaf of an expression, by its kind. -/
def leaf (d : Data) (line : Nat) : String → Reader (Option Node)
  | "int" => do TreeBuilder.node line (.intLit (.ofInt (← d.intOf "v")))
  | "float" => do TreeBuilder.node line (.floatLit (← d.wordOf "v" Double.ofHex?))
  | "bool" => do TreeBuilder.node line (.boolLit (← d.flagOf "v"))
  | "char" => do TreeBuilder.node line (.charLit (.ofNat (← d.intOf "v").toNat))
  | "str" => do TreeBuilder.string line (← d.textOf "v")
  | "null" => TreeBuilder.node line .null
  | "id" => do TreeBuilder.ident line (← d.textOf "name")
  | "this" => TreeBuilder.node line .this
  | "asm" => do TreeBuilder.asm line (← d.textOf "text")
  | "break" => TreeBuilder.node line .breakStmt
  | "continue" => TreeBuilder.node line .continueStmt
  | _ => return none

/-- An expression with children, by its kind. -/
def expression (child : ChildReader) (d : Data) (line : Nat) : String → Reader (Option Node)
  | "bin" => do
    let op ← d.wordOf "o" BinaryOp.ofSymbol?
    TreeBuilder.node line (.binary op (← childOf child d "l") (← childOf child d "r"))
  | "and" => do TreeBuilder.node line (.logical .and (← childrenOf child d "terms"))
  | "or" => do TreeBuilder.node line (.logical .or (← childrenOf child d "terms"))
  | "cmp" => do
    let first ← childOf child d "first"
    let rest ← (← d.listOf "rest").mapM (comparisonTerm child)
    TreeBuilder.node line (.comparison first rest)
  | "un" => do
    let op ← d.wordOf "o" UnaryOp.ofSymbol?
    TreeBuilder.node line (.unary op (← childOf child d "e"))
  | "set" => do
    let target ← childOf child d "t"
    let value ← childOf child d "e"
    let op ← if d.has "o" then some <$> d.wordOf "o" BinaryOp.ofSymbol? else pure none
    TreeBuilder.node line (.assign op target value)
  | "call" => do
    let args ← childrenOf child d "args"
    TreeBuilder.call line (← d.textOf "f") args
  | "mcall" => do
    let receiver ← childOf child d "e"
    let args ← childrenOf child d "args"
    TreeBuilder.methodCall line receiver (← d.textOf "m") args
  | "mem" => do
    let object ← childOf child d "e"
    TreeBuilder.member line object (← d.textOf "m")
  | "idx" => do TreeBuilder.node line (.index (← childOf child d "e") (← childOf child d "i"))
  | "cast" => do
    let expr ← childOf child d "e"
    TreeBuilder.node line (.cast expr (← d.typeOf "ty"))
  | "make" => do
    let ty ← d.typeOf "ty"
    let args ← childrenOf child d "args"
    TreeBuilder.node line (.construct ty args (← d.flagOf "heap"))
  | "delete" => do TreeBuilder.node line (.delete (← childOf child d "e"))
  | "sizeof" => do TreeBuilder.node line (.sizeOf (← d.typeOf "ty"))
  | "dbg" => do TreeBuilder.node line (.debugPrint (← childOf child d "e"))
  | _ => return none

/-- A statement with children, by its kind. -/
def statement (child : ChildReader) (d : Data) (line : Nat) : String → Reader (Option Node)
  | "print" => do TreeBuilder.node line (.print (← childrenOf child d "args"))
  | "throw" => do TreeBuilder.node line (.throw (← childOf child d "e"))
  | "try" => do
    let body ← childOf child d "body"
    let catches ← (← d.listOf "catches").mapM (catchClause child)
    TreeBuilder.node line (.tryCatch body catches)
  | "var" => do
    let ty ← d.typeOf "ty"
    let inits ← (← d.listOf "vars").mapM (varInit child)
    TreeBuilder.vars line ty inits
  | "if" => do
    let cond ← childOf child d "c"
    let thenBranch ← childOf child d "then"
    TreeBuilder.node line (.ifElse cond thenBranch (← childOf child d "else"))
  | "while" => do
    TreeBuilder.node line (.whileLoop (← childOf child d "c") (← childOf child d "body"))
  | "for" => do
    let init ← childOf child d "init"
    let cond ← childOf child d "c"
    let step ← childOf child d "step"
    TreeBuilder.node line (.forLoop init cond step (← childOf child d "body"))
  | "switch" => do
    let scrutinee ← childOf child d "e"
    let cases ← (← d.listOf "cases").mapM (switchCase child)
    let default ← childOf child d "default"
    TreeBuilder.node line (.switch scrutinee cases default (← d.flagOf "auto"))
  | "ret" => do TreeBuilder.node line (.returnStmt (← childOf child d "e"))
  | "block" => do TreeBuilder.block line (← childrenOf child d "body")
  | _ => return none

/-- A declaration, by its kind. -/
def declaration (child : ChildReader) (d : Data) (line : Nat) : String → Reader (Option Node)
  | "fn" => do
    let params ← d.fieldsOf "params"
    let ret ← d.typeOf "ret"
    let body ← childrenOf child d "body"
    TreeBuilder.function line (← d.textOf "name") params ret body
  | "ctor" => do
    let params ← d.fieldsOf "params"
    TreeBuilder.constructor line params (← childrenOf child d "body")
  | "object" => do
    let members ← d.fieldsOf "members"
    let methods ← childrenOf child d "methods"
    TreeBuilder.object line (← d.textOf "name") members methods
  | "template" => do
    let members ← d.fieldsOf "members"
    let methods ← childrenOf child d "methods"
    let params ← (← d.listOf "params").mapM Data.asText
    TreeBuilder.template line (← d.textOf "name") params members methods
  | "operator" => do
    let lhs ← d.fieldOf? "lhs"
    let rhs ← d.fieldOf? "rhs"
    let symbol ← (← d.field "sym").asSymbol
    let ret ← d.typeOf "ret"
    let body ← childrenOf child d "body"
    TreeBuilder.operator line lhs symbol rhs ret body
  | "module" => do TreeBuilder.node line (.module (← childrenOf child d "items"))
  | _ => return none

/-- Remembers a node under its label, if it has one. -/
def remember (d : Data) (node : Node) : Reader Unit := do
  if d.has "id" then
    let label ← d.textOf "id"
    modify fun s => { s with labels := s.labels.insert label node }

/-- A new node with the children that `child` reads. -/
def newNode (child : ChildReader) (d : Data) (line : Nat) : Reader Node := do
  let kind ← d.textOf "k"
  let readers := [leaf d line, expression child d line, statement child d line,
    declaration child d line]
  for read in readers do
    if let some node ← read kind then
      remember d node
      return node
  throw (.unexpected "a node")

/-- The node that a reference stands for, which may get one more label here. -/
def referenced (d : Data) : Reader Node := do
  let label ← d.textOf "to"
  match (← get).labels.get? label with
  | some node =>
    remember d node
    return node
  | none => throw (.unknownLabel label)

/-- A node, nested at most `n` levels deep, on the line of the node around it unless it tells
another. -/
def nodeWithin : Nat → Nat → ChildReader
  | _, _, .null => return none
  | 0, _, _ => throw (.unexpected "a node")
  | n + 1, around, d => do
    let line ← d.lineOf around
    if (← d.textOf "k") == "ref" then some <$> referenced d
    else some <$> newNode (nodeWithin n line) d line

/-- A node. -/
def node (line : Nat) : ChildReader := fun d => nodeWithin (d.depth + 1) line d

/-! ### Modules -/

/-- An item of a module: a node, or a function that is only announced and has no number
yet. -/
inductive Item where
  | node (node : Option Node)
  | announced (source : Data) (line : Nat) (decl : FunctionDecl Node)

/-- An item of a module. -/
def item (line : Nat) (d : Data) : Reader Item := do
  match d.field? "k", d.mentions "body" with
  | some (.text "fn"), false =>
    let params ← d.fieldsOf "params"
    let ret ← d.typeOf "ret"
    let name ← TreeBuilder.name (← d.textOf "name")
    return .announced d (← d.lineOf line) ⟨name, params, ret, none⟩
  | _, _ => return .node (← node line d)

/-- Numbers an item that has no number yet. -/
def numbered : Item → Reader (Option Node)
  | .node node => return node
  | .announced source line decl => do
    let node ← TreeBuilder.node line (.function decl)
    remember source node
    return some node

/-- A node that is to be lowered by itself. -/
def probe (line : Nat) (d : Data) : Reader Probe := do
  if d.mentions "cond" then return .condition (← childOf (node line) d "cond")
  else return .expression (← childOf (node line) d "expr") (← d.flagOf "deref")

/-- A program: the items of a module or a root, and nodes to be lowered by themselves. -/
def program (d : Data) : Reader Program := do
  let line ← d.lineOf 1
  let probes := (← d.listOf "probes").mapM (probe line)
  if d.has "items" then
    let items ← (← d.listOf "items").mapM (item line)
    let probes ← probes
    let items ← items.mapM numbered
    let root ← TreeBuilder.node line (.module items)
    return ⟨some root, if d.has "probes" then some probes else none⟩
  else
    let root ← childOf (node line) d "root"
    let probes ← probes
    return ⟨root, if d.has "probes" then some probes else none⟩

end Reader

/-- Reads a program from data, with the names met so far. -/
def Program.ofData (names : Names) (d : Data) : Except ReadError (Program × Names) := do
  let (program, s) ← StateT.run (Reader.program d) ⟨⟨names, 0⟩, .empty⟩
  return (program, s.tree.names)

end SsaCompiler
