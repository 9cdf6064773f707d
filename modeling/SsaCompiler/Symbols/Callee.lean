/-
# Callees

The three places where overloads are kept: the functions with a name, the methods of an
object with a name, and the constructors of an object.
-/

import SsaCompiler.Symbols.SymbolTable

namespace SsaCompiler

/-- Where the candidates for a call are kept. -/
inductive Callee where
  | function (name : Name)
  | method (object : TypeId) (name : Name)
  | constructor (object : TypeId)
  deriving DecidableEq, Repr, Inhabited

namespace Callee

/-- The word for what is called. -/
def word : Callee → String
  | function _ => "function"
  | method .. => "method"
  | constructor _ => "constructor"

/-- The candidates. -/
def overloads? (s : SymbolTable) : Callee → Option OverloadSet
  | function name => s.functions? name
  | method object name => (s.objectByType? object).bind (·.methods.get? name)
  | constructor object => (s.objectByType? object).map (·.constructors)

/-- Adds a candidate. The first answer is none when the object is not known, the second when
there is a candidate that takes the same types. -/
def declare (s : SymbolTable) (o : Overload) : Callee → Option (Option Nat) × SymbolTable
  | function name =>
    let (index, s) := s.declareFunction name o
    (some index, s)
  | method object name => s.declareMethod object name o
  | constructor object => s.declareConstructor object o

/-- Changes the candidates. -/
def modify (s : SymbolTable) (f : OverloadSet → OverloadSet) : Callee → SymbolTable
  | function name => s.modifyFunctions name f
  | method object name =>
    s.modifyByType object fun info => { info with methods := info.methods.modify name f }
  | constructor object =>
    s.modifyByType object fun info => { info with constructors := f info.constructors }

end Callee

end SsaCompiler
