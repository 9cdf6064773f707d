/-
# Templates

A template is known by its name and the number of its parameters. Made concrete with
argument types it is an object type, and the same arguments always lead to the same
type. One template is built in: the dynamic array.
-/

import SsaCompiler.Data.Table
import SsaCompiler.Ir.Handle
import SsaCompiler.Source.Node

namespace SsaCompiler

/-- Where the members and methods of a concrete template come from. -/
inductive TemplateBody where
  /-- The program declares them. -/
  | declared (members : List Field) (methods : List (Option Node))
  /-- The built-in dynamic array. -/
  | dynamicArray

/-- A template. -/
structure Template where
  /-- The name. -/
  name : Name
  /-- The parameters. -/
  params : List Name
  /-- Where members and methods come from. -/
  body : TemplateBody

namespace Template

/-- The number of parameters. -/
def arity (t : Template) : Nat := t.params.length

/-- Whether the template is built in. -/
def isBuiltin (t : Template) : Bool :=
  match t.body with
  | .dynamicArray => true
  | .declared .. => false

end Template

/-- The templates of a program and the types they were made concrete as. -/
structure TemplateTable where
  /-- The templates, by name and number of parameters. -/
  templates : Table (Name × Nat) Template
  /-- The concrete types, by name and arguments. -/
  instances : Table (Name × List TypeId) TypeId
  /-- The name of the dynamic array. -/
  arrayName : Name

namespace TemplateTable

/-- The table that only knows the dynamic array. -/
def initial (names : Names) : TemplateTable × Names :=
  let (arrayName, names) := names.intern TypeExpr.arrayName
  let (param, names) := names.intern "T"
  let array : Template := ⟨arrayName, [param], .dynamicArray⟩
  (⟨Table.empty.insert (arrayName, 1) array, .empty, arrayName⟩, names)

instance : Inhabited TemplateTable := ⟨(initial .initial).1⟩

/-- The template with a name and a number of parameters. -/
def get? (t : TemplateTable) (name : Name) (arity : Nat) : Option Template :=
  t.templates.get? (name, arity)

/-- Adds a template; none when there is one with its name and number of parameters. -/
def insert (t : TemplateTable) (template : Template) : Option TemplateTable :=
  if t.templates.contains (template.name, template.arity) then none
  else some { t with
    templates := t.templates.insert (template.name, template.arity) template }

/-- Whether there is a template with a name, for any number of parameters. -/
def hasName (t : TemplateTable) (name : Name) : Bool := t.templates.keys.any (·.1 == name)

/-- The type that a template with arguments was made concrete as. -/
def instance? (t : TemplateTable) (name : Name) (args : List TypeId) : Option TypeId :=
  t.instances.get? (name, args)

/-- Remembers the type for a template with arguments. -/
def recordInstance (t : TemplateTable) (name : Name) (args : List TypeId) (ty : TypeId) :
    TemplateTable :=
  { t with instances := t.instances.insert (name, args) ty }

/-- The number of concrete types. -/
def instanceCount (t : TemplateTable) : Nat := t.instances.size

end TemplateTable

end SsaCompiler
