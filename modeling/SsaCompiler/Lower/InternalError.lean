/-
# Internal errors

What a program does wrong is reported as a diagnostic. An internal error means that the
tables of the compiler contradict each other, and ends the compilation of a module.
-/

namespace SsaCompiler

/-- Why the compilation of a module ended early. -/
inductive InternalError where
  /-- A callable that was found is no longer there. -/
  | vanishedOverload (name : String)
  | missingObject (name : String)
  | missingBlueprint (name : String)
  /-- The targets of jumps out of loops are not what they were before a function body. -/
  | unbalancedTargets (function : String) (expected found : Nat)
  | rootNotModule
  deriving DecidableEq, Repr

/-- The reason in words. -/
def InternalError.message : InternalError → String
  | vanishedOverload name => s!"overload '{name}' vanished after it was resolved"
  | missingObject name => s!"object '{name}' has no descriptor for its backend type"
  | missingBlueprint name => s!"template '{name}' lost its blueprint during instantiation"
  | unbalancedTargets function expected found =>
    s!"break/continue target stack unbalanced in '{function}': "
      ++ s!"expected depth {expected}, found {found}"
  | rootNotModule => "root node is not a module"

end SsaCompiler
