/-
# Operators of the source language

Binary, unary and logical operators as they are written in programs, and the symbols
under which a program may define an operator of its own.
-/

namespace SsaCompiler

/-- The operators between two operands. -/
inductive BinaryOp where
  | add | sub | mul | div | rem | pow
  | bitAnd | bitOr | bitXor | shl | shr
  | eq | ne | lt | le | gt | ge
  | range
  deriving DecidableEq, Repr, Inhabited

namespace BinaryOp

/-- The operator as it is written. -/
def symbol : BinaryOp → String
  | add => "+" | sub => "-" | mul => "*" | div => "/" | rem => "%" | pow => "**"
  | bitAnd => "&" | bitOr => "|" | bitXor => "^" | shl => "<<" | shr => ">>"
  | eq => "==" | ne => "!=" | lt => "<" | le => "<=" | gt => ">" | ge => ">="
  | range => ".."

/-- Whether the operator compares, so that its result is a truth value. -/
def isComparison : BinaryOp → Bool
  | eq | ne | lt | le | gt | ge => true
  | _ => false

/-- Whether the operator works on single bits, so that it only makes sense on
integers. -/
def isBitwise : BinaryOp → Bool
  | bitAnd | bitOr | bitXor | shl | shr => true
  | _ => false

/-- Every binary operator. -/
def all : List BinaryOp :=
  [add, sub, mul, div, rem, pow, bitAnd, bitOr, bitXor, shl, shr, eq, ne, lt, le, gt, ge, range]

/-- The operator that is written in a given way. -/
def ofSymbol? (s : String) : Option BinaryOp := all.find? (·.symbol == s)

end BinaryOp

/-- The operators in front of one operand. -/
inductive UnaryOp where
  /-- Arithmetic negation. -/
  | neg
  /-- Logical negation. -/
  | not
  /-- Negation of every bit. -/
  | bitNot
  /-- The place a pointer points to. -/
  | deref
  /-- The address of a place. -/
  | addressOf
  deriving DecidableEq, Repr, Inhabited

namespace UnaryOp

/-- The operator as it is written. -/
def symbol : UnaryOp → String
  | neg => "-" | not => "!" | bitNot => "~" | deref => "*" | addressOf => "@"

/-- Every unary operator. -/
def all : List UnaryOp := [neg, not, bitNot, deref, addressOf]

/-- The operator that is written in a given way. -/
def ofSymbol? (s : String) : Option UnaryOp := all.find? (·.symbol == s)

end UnaryOp

/-- The connectives that stop as soon as the outcome is settled. -/
inductive LogicalOp where
  | and | or
  deriving DecidableEq, Repr, Inhabited

namespace LogicalOp

/-- The connective as it is written. -/
def symbol : LogicalOp → String
  | and => "&&" | or => "||"

/-- The connective that is written in a given way. -/
def ofSymbol? (s : String) : Option LogicalOp := [and, or].find? (·.symbol == s)

end LogicalOp

/-- What a program may define an operator for. -/
inductive OpSymbol where
  | binary (op : BinaryOp)
  | unary (op : UnaryOp)
  /-- Indexing. -/
  | index
  /-- Conversion to a named type. -/
  | cast
  /-- Destruction. -/
  | delete
  deriving DecidableEq, Repr, Inhabited

/-- The symbol as it is written. -/
def OpSymbol.text : OpSymbol → String
  | binary op => op.symbol
  | unary op => op.symbol
  | index => "[]"
  | cast => "as"
  | delete => "delete"

end SsaCompiler
