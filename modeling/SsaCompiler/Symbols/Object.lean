/-
# Objects

What is known about an object type: its members in order, its methods and its
constructors. A template parameter that stands for a type while the template is made
concrete is an object of its own kind, a placeholder.
-/

import SsaCompiler.Data.Table
import SsaCompiler.Source.Name
import SsaCompiler.Symbols.Overload

namespace SsaCompiler

/-- A member of an object: its type and its position among the members. -/
structure MemberSlot where
  /-- The type. -/
  ty : TypeId
  /-- The position. -/
  index : Nat
  deriving DecidableEq, Repr, Inhabited

/-- An object type. -/
structure ObjectInfo where
  /-- The name. -/
  name : Name
  /-- The type in the module. -/
  ty : TypeId
  /-- The members in order. -/
  members : List (Name × TypeId)
  /-- The methods by name. -/
  methods : Table Name OverloadSet
  /-- The constructors. -/
  constructors : OverloadSet
  /-- Whether the members are known and the type has a body. -/
  complete : Bool
  /-- Whether the object is a template parameter that stands for a type. -/
  placeholder : Bool
  deriving DecidableEq, Repr, Inhabited

namespace ObjectInfo

/-- An object of which only the name and the type are known. -/
def new (name : Name) (ty : TypeId) : ObjectInfo where
  name := name
  ty := ty
  members := []
  methods := .empty
  constructors := .empty
  complete := false
  placeholder := false

/-- A template parameter that stands for a type. -/
def placeholderFor (name : Name) (ty : TypeId) : ObjectInfo :=
  { new name ty with complete := true, placeholder := true }

/-- The member at a position. -/
def memberAt? (o : ObjectInfo) (index : Nat) : Option MemberSlot :=
  o.members[index]?.map fun entry => ⟨entry.2, index⟩

/-- The member with a given name. -/
def member? (o : ObjectInfo) (name : Name) : Option MemberSlot :=
  (o.members.findIdx? (·.1 = name)).bind o.memberAt?

/-- The methods with a given name, none if there is no such method. -/
def methodSet (o : ObjectInfo) (name : Name) : OverloadSet := (o.methods.get? name).getD .empty

end ObjectInfo

end SsaCompiler
