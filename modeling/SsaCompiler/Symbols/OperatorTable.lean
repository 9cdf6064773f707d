/-
# The operator table

Operators that a program defines, by the types of their two sides. A missing side means
that the operator does not take that operand. For conversions the right side is the type
that is converted to, for indexing the type of the index.

A key that was entered is found at once. Any other key is compared with all entries, in
the way in which arguments are compared with parameters.
-/

import SsaCompiler.Data.Table
import SsaCompiler.Source.Operator
import SsaCompiler.Symbols.Overload

namespace SsaCompiler

/-- What an operator is defined for. -/
structure OperatorKey where
  /-- The type of the left side, if there is one. -/
  lhs : Option TypeId
  /-- The symbol. -/
  symbol : OpSymbol
  /-- The type of the right side, if there is one. -/
  rhs : Option TypeId
  deriving DecidableEq, Repr, Inhabited

namespace OperatorKey

/-- An operator between two operands. -/
def binary (lhs : TypeId) (symbol : OpSymbol) (rhs : TypeId) : OperatorKey :=
  ⟨some lhs, symbol, some rhs⟩

/-- An operator in front of its operand. -/
def before (symbol : OpSymbol) (operand : TypeId) : OperatorKey := ⟨none, symbol, some operand⟩

/-- An operator behind its operand. -/
def behind (operand : TypeId) (symbol : OpSymbol) : OperatorKey := ⟨some operand, symbol, none⟩

/-- The types of the sides that are there. -/
def sides (k : OperatorKey) : List TypeId := k.lhs.toList ++ k.rhs.toList

/-- Whether two keys have the same symbol and the same sides. -/
def sameShape (a b : OperatorKey) : Bool :=
  a.symbol == b.symbol && a.lhs.isSome == b.lhs.isSome && a.rhs.isSome == b.rhs.isSome

end OperatorKey

/-- An operator that a program defines. -/
structure OperatorEntry where
  /-- The function in the module. -/
  function : FunctionId
  /-- The parameters of the function. -/
  params : List ParamSig
  /-- The result type. -/
  ret : TypeId
  /-- Whether the result is a reference. -/
  retRef : Bool
  /-- The types of exceptions that may come out of it. -/
  throws : ThrowSet
  deriving DecidableEq, Repr, Inhabited

/-- The operators of a program. -/
structure OperatorTable where
  /-- The operators with their keys, in the order in which they were defined. -/
  entries : List (OperatorKey × OperatorEntry)
  /-- The position of each key. -/
  positions : Table OperatorKey Nat
  deriving DecidableEq, Repr

namespace OperatorTable

/-- The table without operators. -/
def empty : OperatorTable := ⟨[], .empty⟩

instance : Inhabited OperatorTable := ⟨empty⟩

/-- The number of operators. -/
def size (t : OperatorTable) : Nat := t.entries.length

/-- Whether an operator was entered under a key. -/
def contains (t : OperatorTable) (key : OperatorKey) : Bool := t.positions.contains key

/-- Enters an operator and answers with its position; none when the key is taken. -/
def insert (t : OperatorTable) (key : OperatorKey) (entry : OperatorEntry) :
    Option (Nat × OperatorTable) :=
  if t.contains key then none
  else
    let index := t.entries.length
    some (index, ⟨t.entries ++ [(key, entry)], t.positions.insert key index⟩)

/-- The operator for a key by comparison with all entries. -/
def scan (t : OperatorTable) (pointee : TypeRelation) (key : OperatorKey) : Resolution :=
  Resolution.pick (t.entries.map fun entry =>
    if entry.1.sameShape key then Tier.ofMatch pointee key.sides entry.1.sides else none)

/-- The operator for a key. -/
def lookup (t : OperatorTable) (pointee : TypeRelation) (key : OperatorKey) : Resolution :=
  match t.positions.get? key with
  | some index => .found index
  | none => t.scan pointee key

/-- The operator at a position. -/
def get? (t : OperatorTable) (index : Nat) : Option OperatorEntry :=
  t.entries[index]?.map Prod.snd

/-- Changes the operator at a position. -/
def modify (t : OperatorTable) (index : Nat) (f : OperatorEntry → OperatorEntry) :
    OperatorTable :=
  { t with entries := t.entries.modify index fun entry => (entry.1, f entry.2) }

end OperatorTable

end SsaCompiler
