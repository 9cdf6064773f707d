/-
# Names

A name is the position of a text among all texts met so far. Equal texts have equal
names, so comparing names never looks at their letters.
-/

import SsaCompiler.Crash

namespace SsaCompiler

/-- The position of a text in the list of names. -/
structure Name where
  /-- The position, counted from zero. -/
  index : Nat
  deriving DecidableEq, Repr, Inhabited

/-- The texts met so far, in order of first use. -/
structure Names where
  /-- The texts, each at the position that is its name. -/
  texts : Array String
  deriving DecidableEq, Repr

namespace Names

/-- The list that only knows the empty text, under the name zero. -/
def initial : Names := ⟨#[""]⟩

instance : Inhabited Names := ⟨initial⟩

/-- The name of a text that has been met before. -/
def find? (ns : Names) (text : String) : Option Name :=
  (ns.texts.findIdx? (· == text)).map Name.mk

/-- The name of a text, added at the end when it is new. -/
def intern (ns : Names) (text : String) : Name × Names :=
  match ns.find? text with
  | some n => (n, ns)
  | none => (⟨ns.texts.size⟩, ⟨ns.texts.push text⟩)

/-- The text of a name; crashes for a name of another list. -/
def text (ns : Names) (n : Name) : Checked String := Checked.at ns.texts n.index

/-- The number of texts, the empty one included. -/
def size (ns : Names) : Nat := ns.texts.size

end Names

end SsaCompiler
