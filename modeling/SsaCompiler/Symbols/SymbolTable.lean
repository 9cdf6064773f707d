/-
# The symbol table

Variables, functions and objects by name, and objects by type. Declarations only add to
the table. Two things are taken back: what a function body declares, when the body ends,
and the types that template parameters stand for, when the template is done.
-/

import SsaCompiler.Symbols.Object

namespace SsaCompiler

/-- Where a named value lives. The storage is always the address of the value: a place on
the stack, a global, or what a reference refers to. -/
structure VarBinding where
  /-- The address of the value. -/
  storage : ValueId
  /-- The type of the value. -/
  valueTy : TypeId
  /-- Whether the name is a reference. -/
  isReference : Bool
  deriving DecidableEq, Repr, Inhabited

/-- The variables as they were before a function body. -/
structure SavedVariables where
  /-- The variables. -/
  bindings : Table Name VarBinding
  deriving DecidableEq, Repr, Inhabited

/-- What a placeholder hides. -/
structure Shadowed where
  /-- The object that had the name before, if there was one. -/
  previous : Option ObjectInfo
  deriving DecidableEq, Repr, Inhabited

/-- The names that a program has given meaning to. -/
structure SymbolTable where
  /-- The variables. -/
  bindings : Table Name VarBinding
  /-- The functions. -/
  functions : Table Name OverloadSet
  /-- The objects. -/
  objects : Table Name ObjectInfo
  /-- The names of objects by their types. -/
  byType : Table TypeId Name
  deriving DecidableEq, Repr

namespace SymbolTable

/-- The table without names. -/
def empty : SymbolTable := ⟨.empty, .empty, .empty, .empty⟩

instance : Inhabited SymbolTable := ⟨empty⟩

/-! ### Variables -/

/-- The variable with a name. -/
def binding? (t : SymbolTable) (name : Name) : Option VarBinding := t.bindings.get? name

/-- Gives a name to a variable. -/
def setVariable (t : SymbolTable) (name : Name) (b : VarBinding) : SymbolTable :=
  { t with bindings := t.bindings.insert name b }

/-- Changes a variable. -/
def modifyVariable (t : SymbolTable) (name : Name) (f : VarBinding → VarBinding) :
    SymbolTable :=
  { t with bindings := t.bindings.modify name f }

/-- Takes a name from its variable. -/
def removeVariable (t : SymbolTable) (name : Name) : SymbolTable :=
  { t with bindings := t.bindings.erase name }

/-- Starts a function body: the variables are put aside, and only those that pass a test
stay visible. -/
def enterFunction (t : SymbolTable) (keep : VarBinding → Bool) : SavedVariables × SymbolTable :=
  (⟨t.bindings⟩, { t with bindings := t.bindings.filter keep })

/-- Ends a function body: the variables are what they were before. -/
def exitFunction (t : SymbolTable) (saved : SavedVariables) : SymbolTable :=
  { t with bindings := saved.bindings }

/-! ### Functions -/

/-- The functions with a name. -/
def functions? (t : SymbolTable) (name : Name) : Option OverloadSet := t.functions.get? name

/-- Changes the functions with a name. -/
def modifyFunctions (t : SymbolTable) (name : Name) (f : OverloadSet → OverloadSet) :
    SymbolTable :=
  { t with functions := t.functions.modify name f }

/-- Declares a function and answers with its position among those with its name; none
when one of them takes the same types. -/
def declareFunction (t : SymbolTable) (name : Name) (o : Overload) :
    Option Nat × SymbolTable :=
  let known := (t.functions.get? name).getD .empty
  match known.insert o with
  | some (i, set) => (some i, { t with functions := t.functions.insert name set })
  | none => (none, t)

/-! ### Objects -/

/-- The object with a name. -/
def object? (t : SymbolTable) (name : Name) : Option ObjectInfo := t.objects.get? name

/-- Changes the object with a name. -/
def modifyObject (t : SymbolTable) (name : Name) (f : ObjectInfo → ObjectInfo) : SymbolTable :=
  { t with objects := t.objects.modify name f }

/-- The object with a type. -/
def objectByType? (t : SymbolTable) (ty : TypeId) : Option ObjectInfo :=
  (t.byType.get? ty).bind t.objects.get?

/-- Changes the object with a type. -/
def modifyByType (t : SymbolTable) (ty : TypeId) (f : ObjectInfo → ObjectInfo) : SymbolTable :=
  match t.byType.get? ty with
  | some name => t.modifyObject name f
  | none => t

/-- Declares an object, in place of an older one with its name. Placeholders are not found
by their type. -/
def declareObject (t : SymbolTable) (o : ObjectInfo) : SymbolTable :=
  { t with
    byType := if o.placeholder then t.byType else t.byType.insert o.ty o.name
    objects := t.objects.insert o.name o }

/-- The member with a name of the object with a type. -/
def member? (t : SymbolTable) (ty : TypeId) (name : Name) : Option MemberSlot :=
  (t.objectByType? ty).bind (·.member? name)

/-- The member at a position of the object with a type. -/
def memberAt? (t : SymbolTable) (ty : TypeId) (index : Nat) : Option MemberSlot :=
  (t.objectByType? ty).bind (·.memberAt? index)

/-- Declares a constructor of the object with a type. The first answer is none when there
is no such object, the second when the object has one that takes the same types. -/
def declareConstructor (t : SymbolTable) (ty : TypeId) (o : Overload) :
    Option (Option Nat) × SymbolTable :=
  match t.objectByType? ty with
  | none => (none, t)
  | some info =>
    match info.constructors.insert o with
    | some (i, set) =>
      (some (some i), t.modifyByType ty fun info => { info with constructors := set })
    | none => (some none, t)

/-- Declares a method of the object with a type. The first answer is none when there is no
such object, the second when the object has one of that name that takes the same types. -/
def declareMethod (t : SymbolTable) (ty : TypeId) (name : Name) (o : Overload) :
    Option (Option Nat) × SymbolTable :=
  match t.objectByType? ty with
  | none => (none, t)
  | some info =>
    match (info.methodSet name).insert o with
    | some (i, set) =>
      (some (some i),
        t.modifyByType ty fun info => { info with methods := info.methods.insert name set })
    | none => (some none, t)

/-! ### Placeholders -/

/-- Lets a name stand for a type until the placeholder is taken away again. -/
def bindPlaceholder (t : SymbolTable) (name : Name) (ty : TypeId) : Shadowed × SymbolTable :=
  (⟨t.objects.get? name⟩,
    { t with objects := t.objects.insert name (.placeholderFor name ty) })

/-- Takes a placeholder away and brings back what it hid. -/
def unbindPlaceholder (t : SymbolTable) (name : Name) (shadowed : Shadowed) : SymbolTable :=
  match shadowed.previous with
  | some previous => { t with objects := t.objects.insert name previous }
  | none =>
    match t.objects.get? name with
    | some o => if o.placeholder then { t with objects := t.objects.erase name } else t
    | none => t

end SymbolTable

end SsaCompiler
