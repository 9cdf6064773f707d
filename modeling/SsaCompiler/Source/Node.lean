/-
# Program trees

A program is a tree of nodes. Expressions, statements and declarations are kinds of
one type, and every node carries a number of its own and the span it comes from. The
numbers identify nodes: a subtree that stands in two places of a program is one node,
and what is recorded about it is recorded once. A child that is missing is no node at
all.
-/

import SsaCompiler.Number.Double
import SsaCompiler.Source.Operator
import SsaCompiler.Source.Span
import SsaCompiler.Source.TypeExpr

namespace SsaCompiler

/-- A name with its type: a parameter of a callable or a member of an object. -/
structure Field where
  /-- The name. -/
  name : Name
  /-- The type as written. -/
  ty : TypeExpr
  deriving Repr, Inhabited

/-- One variable of a declaration, with its initial value if it has one. -/
structure VarInit (ν : Type) where
  /-- The name of the variable. -/
  name : Name
  /-- The initial value. -/
  init : Option ν
  deriving Repr, Inhabited

/-- A handler for one type of exception. -/
structure CatchClause (ν : Type) where
  /-- The type that is caught. -/
  ty : TypeExpr
  /-- The name under which the handler sees the exception. -/
  binding : Name
  /-- The handler. -/
  body : Option ν
  deriving Repr, Inhabited

/-- A case of a switch. -/
structure SwitchCase (ν : Type) where
  /-- The value that selects the case. -/
  value : Option ν
  /-- What the case does. -/
  body : Option ν
  deriving Repr, Inhabited

/-- A function or a method; without body it is only announced. -/
structure FunctionDecl (ν : Type) where
  /-- The name. -/
  name : Name
  /-- The parameters in order. -/
  params : List Field
  /-- The result type. -/
  ret : TypeExpr
  /-- The body. -/
  body : Option ν
  deriving Repr, Inhabited

/-- A constructor of an object or a template. -/
structure ConstructorDecl (ν : Type) where
  /-- The parameters in order. -/
  params : List Field
  /-- The body. -/
  body : Option ν
  deriving Repr, Inhabited

/-- An object type with its members and methods. -/
structure ObjectDecl (ν : Type) where
  /-- The name. -/
  name : Name
  /-- The members in order. -/
  members : List Field
  /-- Methods, constructors and operators. -/
  methods : List (Option ν)
  deriving Repr, Inhabited

/-- A template for objects. -/
structure TemplateDecl (ν : Type) where
  /-- The name. -/
  name : Name
  /-- The type parameters. -/
  params : List Name
  /-- The members in order. -/
  members : List Field
  /-- Methods, constructors and operators. -/
  methods : List (Option ν)
  deriving Repr, Inhabited

/-- An operator defined by the program; a missing side means that the operator does
not take that operand. -/
structure OperatorDecl (ν : Type) where
  /-- The left operand. -/
  lhs : Option Field
  /-- What the operator is written with. -/
  symbol : OpSymbol
  /-- The right operand. -/
  rhs : Option Field
  /-- The result type. -/
  ret : TypeExpr
  /-- The body. -/
  body : Option ν
  deriving Repr, Inhabited

/-- The kinds of nodes over a type of children. -/
inductive NodeKind (ν : Type) where
  | intLit (value : Int64)
  | floatLit (value : Double)
  | boolLit (value : Bool)
  | charLit (value : UInt8)
  | strLit (text : Name)
  | null
  | ident (name : Name)
  | this
  | binary (op : BinaryOp) (lhs rhs : Option ν)
  /-- A chain of terms that stops as soon as the outcome is settled. -/
  | logical (op : LogicalOp) (terms : List (Option ν))
  /-- A chain of comparisons between neighbours. -/
  | comparison (first : Option ν) (rest : List (BinaryOp × Option ν))
  | unary (op : UnaryOp) (operand : Option ν)
  /-- An assignment, combined with an operator if there is one. -/
  | assign (op : Option BinaryOp) (target value : Option ν)
  | call (callee : Name) (args : List (Option ν))
  | methodCall (receiver : Option ν) (method : Name) (args : List (Option ν))
  | member (object : Option ν) (member : Name)
  | index (object index : Option ν)
  | cast (expr : Option ν) (ty : TypeExpr)
  /-- A new object, on the stack or on the heap. -/
  | construct (ty : TypeExpr) (args : List (Option ν)) (heap : Bool)
  | delete (operand : Option ν)
  | sizeOf (ty : TypeExpr)
  | debugPrint (expr : Option ν)
  | print (args : List (Option ν))
  | asm (text : Name)
  | throw (value : Option ν)
  | tryCatch (body : Option ν) (catches : List (CatchClause ν))
  | varDecl (ty : TypeExpr) (vars : List (VarInit ν))
  | ifElse (cond thenBranch elseBranch : Option ν)
  | whileLoop (cond body : Option ν)
  | forLoop (init cond step body : Option ν)
  | switch (scrutinee : Option ν) (cases : List (SwitchCase ν)) (default : Option ν)
      (autoBreak : Bool)
  | breakStmt
  | continueStmt
  | returnStmt (value : Option ν)
  | block (stmts : List (Option ν))
  | function (decl : FunctionDecl ν)
  | constructor (decl : ConstructorDecl ν)
  | object (decl : ObjectDecl ν)
  | template (decl : TemplateDecl ν)
  | operator (decl : OperatorDecl ν)
  | module (items : List (Option ν))
  deriving Repr, Inhabited

namespace NodeKind

variable {ν : Type}

/-- The word for a kind of node in messages. -/
def label : NodeKind ν → String
  | intLit .. => "int"
  | floatLit .. => "float"
  | boolLit .. => "bool"
  | charLit .. => "char"
  | strLit .. => "string"
  | null => "null"
  | ident .. => "ident"
  | this => "this"
  | binary .. => "binary"
  | logical .. => "logical"
  | comparison .. => "comparison"
  | unary .. => "unary"
  | assign .. => "assign"
  | call .. => "call"
  | methodCall .. => "method_call"
  | member .. => "member"
  | index .. => "index"
  | cast .. => "cast"
  | construct .. => "construct"
  | delete .. => "delete"
  | sizeOf .. => "sizeof"
  | debugPrint .. => "debug_print"
  | print .. => "print"
  | asm .. => "asm"
  | throw .. => "throw"
  | tryCatch .. => "try"
  | varDecl .. => "var_decl"
  | ifElse .. => "if"
  | whileLoop .. => "while"
  | forLoop .. => "for"
  | switch .. => "switch"
  | breakStmt => "break"
  | continueStmt => "continue"
  | returnStmt .. => "return"
  | block .. => "block"
  | function .. => "function"
  | constructor .. => "constructor"
  | object .. => "object"
  | template .. => "template"
  | operator .. => "operator"
  | module .. => "module"

/-- Whether a node needs no function around it: declarations, the statements that
define and initialise globals, and constant expressions. -/
def allowedAtModuleScope : NodeKind ν → Bool
  | module .. | function .. | object .. | template .. | operator .. | varDecl .. => true
  | assign op .. => op.isNone
  | intLit .. | floatLit .. | boolLit .. | charLit .. | strLit .. | null | ident .. => true
  | binary .. | unary .. | cast .. | sizeOf .. => true
  | _ => false

end NodeKind

/-- A node of a program tree. -/
structure Node where
  /-- The number that identifies the node. -/
  id : Nat
  /-- Where the node comes from. -/
  span : Span
  /-- What the node is. -/
  kind : NodeKind Node

instance : Inhabited Node := ⟨⟨0, Span.unknown, .null⟩⟩

/-- The span of a child, unknown when the child is missing. -/
def childSpan (child : Option Node) : Span :=
  match child with
  | some node => node.span
  | none => Span.unknown

end SsaCompiler
