/-
# Memory layout

Sizes, alignments and field offsets on a 64-bit target with natural alignment. A
structure places each field at the first multiple of the field's alignment after the
previous field and is padded to a multiple of its own alignment. Nothing here ends for
a type that contains itself by value, which shows as a crash, and sizes that do not fit
a machine word crash as well.
-/

import SsaCompiler.Ir.TypeTable

namespace SsaCompiler

/-- The size of a pointer in bytes. -/
def pointerSize : Nat := 8

/-- The number of bytes that hold a number of a given width. -/
def bytesForBits (bits : Nat) : Nat :=
  if bits ≤ 8 then 1 else if bits ≤ 16 then 2 else if bits ≤ 32 then 4 else 8

/-- The first multiple of an alignment that is not below an offset. -/
def alignTo (offset align : Nat) : Nat :=
  if align ≤ 1 then offset else (offset + align - 1) / align * align

/-- The greatest of a list of alignments, one for the empty list. -/
def greatestAlign (aligns : List Nat) : Nat := aligns.foldl max 1

namespace TypeTable

/-- The alignment of a type, following at most `n` levels of components. -/
def alignWithin (t : TypeTable) : Nat → TypeId → Checked Nat
  | 0, _ => .error .endless
  | n + 1, id => do
    match ← t.get id with
    | .void => return 1
    | .int bits | .float bits => return bytesForBits bits
    | .pointer _ | .function .. => return pointerSize
    | .array elem _ => t.alignWithin n elem
    | .record fields | .named _ (some fields) =>
      return greatestAlign (← fields.mapM (t.alignWithin n))
    | .named _ none => return 1

/-- The offset behind a list of fields that starts at a given offset, from the alignment
and the size of each field. -/
def endOfFields : Nat → List (Nat × Nat) → Checked Nat
  | offset, [] => .ok offset
  | offset, (align, size) :: rest => do
    let start ← Checked.word (alignTo offset align)
    let stop ← Checked.word (start + size)
    endOfFields stop rest

/-- The size of a type, following at most `n` levels of components. -/
def sizeWithin (t : TypeTable) : Nat → TypeId → Checked Nat
  | 0, _ => .error .endless
  | n + 1, id => do
    match ← t.get id with
    | .void => return 0
    | .int bits | .float bits => return bytesForBits bits
    | .pointer _ | .function .. => return pointerSize
    | .array elem length => Checked.word ((← t.sizeWithin n elem) * length)
    | .record fields | .named _ (some fields) =>
      let shapes ← fields.mapM fun f => do
        return ((← t.alignWithin n f), (← t.sizeWithin n f))
      let stop ← endOfFields 0 shapes
      Checked.word (alignTo stop (greatestAlign (shapes.map Prod.fst)))
    | .named _ none => return 0

/-- The alignment of a type in bytes. -/
def alignOf (t : TypeTable) (id : TypeId) : Checked Nat := t.alignWithin (t.size + 1) id

/-- The size of a type in bytes, padding included. -/
def sizeOf (t : TypeTable) (id : TypeId) : Checked Nat := t.sizeWithin (t.size + 1) id

/-- Where a field starts behind fields that end at an offset. -/
def fieldStart (t : TypeTable) (offset : Nat) (field : TypeId) : Checked Nat := do
  Checked.word (alignTo offset (← t.alignOf field))

/-- Where a field ends that starts at an offset. -/
def fieldEnd (t : TypeTable) (start : Nat) (field : TypeId) : Checked Nat := do
  Checked.word (start + (← t.sizeOf field))

/-- Where a list of fields ends, the first of which comes behind an offset. -/
def fieldsEnd (t : TypeTable) : Nat → List TypeId → Checked Nat
  | offset, [] => .ok offset
  | offset, field :: rest => do
    t.fieldsEnd (← t.fieldEnd (← t.fieldStart offset field) field) rest

/-- The byte offset of a field; none when the type is no structure with a known body or
has no such field. -/
def fieldOffset (t : TypeTable) (id : TypeId) (index : Nat) : Checked (Option Nat) := do
  match (← t.get id).fields? with
  | none => return none
  | some fields =>
    match fields[index]? with
    | none => return none
    | some field =>
      return some (← t.fieldStart (← t.fieldsEnd 0 (fields.take index)) field)

end TypeTable

end SsaCompiler
