/-
# Plain data

Programs are handed in as trees of plain data: numbers, texts, lists and records. A field
of a record that is null counts as missing.
-/

namespace SsaCompiler

/-- A tree of plain data. -/
inductive Data where
  | null
  | bool (value : Bool)
  | int (value : Int)
  | text (value : String)
  | list (items : List Data)
  | record (fields : List (String × Data))
  deriving Repr, Inhabited

namespace Data

mutual
/-- How many levels of lists and records are nested in each other. -/
def depth : Data → Nat
  | list items => depthOfList items + 1
  | record fields => depthOfFields fields + 1
  | null | bool _ | int _ | text _ => 0

/-- The greatest depth of the items of a list. -/
def depthOfList : List Data → Nat
  | [] => 0
  | item :: rest => max item.depth (depthOfList rest)

/-- The greatest depth of the fields of a record. -/
def depthOfFields : List (String × Data) → Nat
  | [] => 0
  | (_, value) :: rest => max value.depth (depthOfFields rest)
end

/-- A field of a record; null counts as missing. -/
def field? (d : Data) (key : String) : Option Data :=
  match d with
  | record fields =>
    match fields.find? (·.1 == key) with
    | some (_, null) | none => none
    | some (_, value) => some value
  | _ => none

/-- Whether a record has a field. -/
def has (d : Data) (key : String) : Bool := (d.field? key).isSome

/-- Whether a record mentions a field, be it null. -/
def mentions (d : Data) (key : String) : Bool :=
  match d with
  | record fields => fields.any (·.1 == key)
  | _ => false

end Data

end SsaCompiler
