/-
# Handles

Types, values, blocks and functions of a module live in tables, and everything that
mentions one of them holds its position. The positions of the four tables are types of
their own, so that they cannot be mixed up.
-/

namespace SsaCompiler

/-- The number that no entry of a table ever has. -/
def noHandle : Nat := 4294967295

/-- The text of a handle in messages: a mark for the table, then the position. -/
def handleText (mark : String) (index : Nat) : String :=
  if index = noHandle then mark ++ "NONE" else mark ++ toString index

/-- The position of a type. -/
structure TypeId where
  /-- The position, counted from zero. -/
  index : Nat
  deriving DecidableEq, Repr, Inhabited

/-- The type as it appears in messages. -/
def TypeId.text (id : TypeId) : String := handleText "t" id.index

/-- The position of a value: a constant, a parameter, an address or the result of an
instruction. -/
structure ValueId where
  /-- The position, counted from zero. -/
  index : Nat
  deriving DecidableEq, Hashable, Repr, Inhabited

/-- The value as it appears in messages. -/
def ValueId.text (id : ValueId) : String := handleText "%v" id.index

/-- The position of a basic block. -/
structure BlockId where
  /-- The position, counted from zero. -/
  index : Nat
  deriving DecidableEq, Repr, Inhabited

/-- The block as it appears in messages. -/
def BlockId.text (id : BlockId) : String := handleText "bb" id.index

/-- The position of a function. -/
structure FunctionId where
  /-- The position, counted from zero. -/
  index : Nat
  deriving DecidableEq, Repr, Inhabited

/-- The function as it appears in messages. -/
def FunctionId.text (id : FunctionId) : String := handleText "fn" id.index

end SsaCompiler
