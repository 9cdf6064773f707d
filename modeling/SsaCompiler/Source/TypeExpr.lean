/-
# Type expressions

A type as it is written in a program. What it stands for is only known once the
objects and templates of the program are; here it has a canonical spelling and may or
may not be a reference.
-/

import SsaCompiler.Source.Name

namespace SsaCompiler

/-- The built-in types. -/
inductive PrimType where
  | bool | char | short | int | long | float | double | void
  deriving DecidableEq, Repr, Inhabited

namespace PrimType

/-- The keyword of a built-in type. -/
def keyword : PrimType → String
  | bool => "bool" | char => "char" | short => "short" | int => "int" | long => "long"
  | float => "float" | double => "double" | void => "void"

/-- Every built-in type. -/
def all : List PrimType := [bool, char, short, int, long, float, double, void]

/-- The built-in type with a given keyword. -/
def ofKeyword? (s : String) : Option PrimType := all.find? (·.keyword == s)

end PrimType

/-- A type as it is written. -/
inductive TypeExpr where
  | prim (p : PrimType)
  | pointer (referent : TypeExpr)
  /-- A reference, held as a pointer and followed on every use. -/
  | reference (referent : TypeExpr)
  /-- An object, or a template parameter inside a template. -/
  | named (name : Name)
  /-- A template with its arguments. -/
  | generic (name : Name) (args : List TypeExpr)
  /-- The built-in dynamic array. -/
  | array (elem : TypeExpr)
  deriving Repr, Inhabited, BEq

namespace TypeExpr

/-- The template name of the built-in dynamic array. -/
def arrayName : String := "Array"

/-- Whether the type is a reference. -/
def isReference : TypeExpr → Bool
  | reference _ => true
  | _ => false

/-- Whether the type is `void` itself. -/
def isVoid : TypeExpr → Bool
  | prim .void => true
  | _ => false

/-- What a reference refers to; any other type is left as it is. -/
def stripReference : TypeExpr → TypeExpr
  | reference t => t
  | t => t

mutual
/-- The canonical spelling; crashes on a name of another list. -/
def text (ns : Names) : TypeExpr → Checked String
  | prim p => .ok p.keyword
  | pointer t => do return (← t.text ns) ++ "*"
  | reference t => do return (← t.text ns) ++ "&"
  | named n => ns.text n
  | generic n args => do
    let head ← ns.text n
    let parts ← texts ns args
    return head ++ "<" ++ ",".intercalate parts ++ ">"
  | array t => do return arrayName ++ "<" ++ (← t.text ns) ++ ">"

/-- The canonical spellings of a list of types. -/
def texts (ns : Names) : List TypeExpr → Checked (List String)
  | [] => .ok []
  | t :: rest => do
    let head ← t.text ns
    return head :: (← texts ns rest)
end

end TypeExpr

end SsaCompiler
