/-
# The type table

Types of the intermediate representation live in a table and are known by their
position. A type that is described by its components is entered once, so equal
descriptions have equal positions; an index of such descriptions finds it again. A named
structure is different every time it is made, and its body is filled in later, at most
once. It stands among the other types but not in the index.
-/

import SsaCompiler.Crash
import SsaCompiler.Data.Table
import SsaCompiler.Ir.Handle

namespace SsaCompiler

/-- What a type is, in terms of other types. -/
inductive IrType where
  | void
  | int (bits : Nat)
  | float (bits : Nat)
  | pointer (pointee : TypeId)
  | array (elem : TypeId) (length : Nat)
  /-- A structure described by its fields alone. -/
  | record (fields : List TypeId)
  /-- A structure with a name, whose fields may not be known yet. -/
  | named (name : String) (body : Option (List TypeId))
  | function (params : List TypeId) (ret : TypeId) (variadic : Bool)
  deriving DecidableEq, Repr, Inhabited

namespace IrType

/-- Whether the type is an integer type. -/
def isInt : IrType → Bool
  | int _ => true
  | _ => false

/-- Whether the type is a floating point type. -/
def isFloat : IrType → Bool
  | float _ => true
  | _ => false

/-- Whether the type is a pointer type. -/
def isPointer : IrType → Bool
  | pointer _ => true
  | _ => false

/-- Whether the type is a structure, with or without a name. -/
def isStruct : IrType → Bool
  | record _ | named _ _ => true
  | _ => false

/-- What a pointer type points to. -/
def pointee? : IrType → Option TypeId
  | pointer pointee => some pointee
  | _ => none

/-- The fields of a structure whose body is known. -/
def fields? : IrType → Option (List TypeId)
  | record fields => some fields
  | named _ body => body
  | _ => none

/-- The name of a named structure. -/
def structName? : IrType → Option String
  | named name _ => some name
  | _ => none

/-- What a type is found again by: its description, which a named structure does not
have. -/
def description? : IrType → Option IrType
  | named _ _ => none
  | ty => some ty

/-- A type is found again by itself. -/
theorem eq_of_description? {ty ty' : IrType} (h : ty.description? = some ty') : ty' = ty := by
  cases ty <;> cases h <;> rfl

/-- Every type but a structure with a name has a description. -/
theorem description?_eq_self_iff {ty : IrType} :
    ty.description? = some ty ↔ ty.structName? = none := by
  cases ty <;> simp [description?, structName?]

/-- A type without a name is its own description. -/
theorem description?_eq_self (ty : IrType) (hname : ty.structName? = none := by rfl) :
    ty.description? = some ty := description?_eq_self_iff.2 hname

/-- The width of a number type; sixty-four for every other type. -/
def width : IrType → Nat
  | int bits | float bits => bits
  | _ => 64

end IrType

/-- The parameters and the result of a function type. -/
structure Signature where
  /-- The types of the declared parameters. -/
  params : List TypeId
  /-- The result type. -/
  ret : TypeId
  /-- Whether further arguments may follow. -/
  variadic : Bool
  deriving DecidableEq, Repr

/-- The signature of a function type. -/
def IrType.signature? : IrType → Option Signature
  | .function params ret variadic => some ⟨params, ret, variadic⟩
  | _ => none

/-- The types of a module, each known by its position. -/
structure TypeTable where
  /-- The types in the order in which they were entered. -/
  types : Array IrType
  /-- The positions of the types that have a description. -/
  interned : Table IrType TypeId
  deriving DecidableEq, Repr

namespace TypeTable

/-- The table without types. -/
def empty : TypeTable := ⟨#[], .empty⟩

instance : Inhabited TypeTable := ⟨empty⟩

/-- The number of types. -/
def size (t : TypeTable) : Nat := t.types.size

/-- What a position denotes; crashes for a position outside the table. -/
def get (t : TypeTable) (id : TypeId) : Checked IrType := Checked.at t.types id.index

/-- The position of a type described by its components, entered if it is new. -/
def intern (t : TypeTable) (ty : IrType) : TypeId × TypeTable :=
  match t.interned.get? ty with
  | some id => (id, t)
  | none =>
    let id : TypeId := ⟨t.types.size⟩
    (id, { types := t.types.push ty, interned := t.interned.insert ty id })

/-- A new named structure without body. -/
def namedStruct (t : TypeTable) (name : String) : TypeId × TypeTable :=
  (⟨t.types.size⟩, { t with types := t.types.push (.named name none) })

/-- Fills in the body of a named structure that has none, and says whether it did. -/
def setStructBody (t : TypeTable) (id : TypeId) (body : List TypeId) :
    Checked (Bool × TypeTable) := do
  match ← t.get id with
  | .named name none =>
    return (true,
      { t with types := t.types.modify id.index fun _ => .named name (some body) })
  | _ => return (false, t)

/-! ### The index -/

/-- The index finds exactly the types that have a description, each at its position. -/
def IsIndexed (t : TypeTable) : Prop :=
  t.interned.Indexes TypeId.index IrType.description? t.types

variable {t t' : TypeTable}

theorem isIndexed_empty : empty.IsIndexed := Table.indexes_empty

/-- A type that is entered with its description stands in the index. -/
theorem IsIndexed.intern (h : t.IsIndexed) {ty : IrType} (hty : ty.description? = some ty) :
    (t.intern ty).2.IsIndexed := by
  unfold TypeTable.intern
  split
  · exact h
  · rename_i hnew
    refine Table.Indexes.insert h hty hnew fun id => ?_
    cases id
    simp

/-- A named structure stands behind the others and not in the index. -/
theorem IsIndexed.namedStruct (h : t.IsIndexed) (name : String) :
    (t.namedStruct name).2.IsIndexed := Table.Indexes.push h rfl

/-- A structure that gets its body has no description, before and after. -/
theorem IsIndexed.setStructBody (h : t.IsIndexed) {id : TypeId} {body : List TypeId}
    {done : Bool} (hset : t.setStructBody id body = .ok (done, t')) : t'.IsIndexed := by
  unfold TypeTable.setStructBody at hset
  cases hty : t.get id with
  | error c =>
    rw [hty] at hset
    cases hset
  | ok ty =>
    rw [hty] at hset
    simp only [bind, Except.bind] at hset
    split at hset
    · cases hset
      refine Table.Indexes.modify h fun old hold => ?_
      rw [Checked.at_eq_ok_iff.1 hty] at hold
      cases hold
      rfl
    · cases hset
      exact h

/-! ### Text -/

/-- The text of a type, following at most `n` levels of components. -/
def textWithin (t : TypeTable) : Nat → TypeId → Checked String
  | 0, _ => .error .endless
  | n + 1, id => do
    match ← t.get id with
    | .void => return "void"
    | .int bits => return s!"i{bits}"
    | .float bits => return if bits = 32 then "float" else "double"
    | .pointer pointee => return (← t.textWithin n pointee) ++ "*"
    | .array elem length => return s!"[{length} x " ++ (← t.textWithin n elem) ++ "]"
    | .named name _ => return "%\"" ++ name ++ "\""
    | .record fields =>
      let parts ← fields.mapM (t.textWithin n)
      return "\x7b " ++ ", ".intercalate parts ++ " \x7d"
    | .function params ret variadic =>
      let head ← t.textWithin n ret
      let parts ← params.mapM (t.textWithin n)
      let parts := if variadic then parts ++ ["..."] else parts
      return head ++ " (" ++ ", ".intercalate parts ++ ")"

/-- The text of a type. Without cycles through its components a type has at most as many
levels as the table has types. -/
def text (t : TypeTable) (id : TypeId) : Checked String := t.textWithin (t.size + 1) id

end TypeTable

end SsaCompiler
