/-
# Memory

Two regions of bytes share one limit. The heap starts just above the addresses that no
pointer may have and only grows; the stack starts far above it and is cut back when a
call ends. Releasing a block changes a count and nothing else.

Values are stored byte by byte, least significant byte first, as the layout of their
type says.
-/

import SsaCompiler.Ir.Layout
import SsaCompiler.Ir.Opcode
import SsaCompiler.Machine.Error
import SsaCompiler.Text.Utf8

namespace SsaCompiler

/-- The first address of the heap. -/
def heapBase : Nat := 16

/-- The first address of the stack. -/
@[noinline]
def stackBase : Nat := 1099511627776

/-- The bytes a program can reach. -/
structure Memory where
  /-- The heap, from `heapBase` on. -/
  heap : Array UInt8
  /-- The stack, from `stackBase` on. -/
  stack : Array UInt8
  /-- The greatest number of bytes of both together. -/
  limit : Nat
  /-- How many heap blocks have been handed out and not released. -/
  live : Nat
  deriving DecidableEq, Repr, Inhabited

/-- The value of bytes, least significant first. -/
def ofLittleEndian : List UInt8 → Nat
  | [] => 0
  | b :: rest => b.toNat + 256 * ofLittleEndian rest

/-- The low `n` bytes of a number, least significant first. -/
def toLittleEndian : Nat → Nat → List UInt8
  | 0, _ => []
  | n + 1, v => UInt8.ofNat (v % 256) :: toLittleEndian n (v / 256)

/-- `n` bytes of a region. -/
def bytesFrom (region : Array UInt8) (start : Nat) : Nat → List UInt8
  | 0 => []
  | n + 1 => region.getD start 0 :: bytesFrom region (start + 1) n

/-- A region with new bytes from a position on. -/
def putBytes (region : Array UInt8) (start : Nat) : List UInt8 → Array UInt8
  | [] => region
  | b :: rest => putBytes (region.setIfInBounds start b) (start + 1) rest

/-- A region with `n` more bytes, all zero. -/
def extendZero (region : Array UInt8) : Nat → Array UInt8
  | 0 => region
  | n + 1 => extendZero (region.push 0) n

/-- An address moved up; crashes when it leaves the address space. -/
def addressPlus (a : UInt64) (n : Nat) : Checked UInt64 := do
  return UInt64.ofNat (← Checked.word (a.toNat + n))

/-- An operation on the memory. It may fail or crash, and what it did before it failed
stays done. -/
abbrev MemoryOp (α : Type) : Type := EStateM Fault Memory α

/-- A computation without effect as an operation on the memory. -/
def MemoryOp.ofFallible {α : Type} : Fallible α → MemoryOp α
  | .ok a => fun m => .ok a m
  | .error e => fun m => .error e m

instance : MonadLift (Except Fault) (EStateM Fault Memory) := ⟨MemoryOp.ofFallible⟩

namespace Memory

/-- The memory without bytes. -/
def new (limit : Nat) : Memory := ⟨#[], #[], limit, 0⟩

/-- The number of bytes in use. -/
def used (m : Memory) : Nat := m.heap.size + m.stack.size

/-- Whether a request of a size and an alignment stays below the limit. Size and
alignment are added first, and what counts against the limit is their sum. -/
def checkLimit (m : Memory) (size align : Nat) : Fallible Unit := do
  let requested ← Checked.word (size + align)
  let total ← Checked.word (m.used + requested)
  if total > m.limit then Fallible.fail (.outOfMemory requested m.limit)

/-- Where a block with an alignment starts behind a region. -/
def blockStart (region : Array UInt8) (align : Nat) : Nat :=
  (region.size + max align 1 - 1) / max align 1 * max align 1

/-- Where a new block of a region starts. The request has to stay below the limit; one that
does, but leads to a length that no signed word can hold, crashes. -/
def place (m : Memory) (region : Array UInt8) (size align : Nat) : Fallible Nat := do
  m.checkLimit size align
  let start := blockStart region align
  if start + max size 1 < wordRange / 2 then return start else throw (.crashed .overflow)

/-- A region with a zeroed block of at least one byte at a start behind its end. -/
def grow (region : Array UInt8) (start size : Nat) : Array UInt8 :=
  extendZero region (start + max size 1 - region.size)

/-- A new zeroed block on the heap. A request beyond the limit fails and changes
nothing. -/
def allocHeap (size align : Nat) : MemoryOp UInt64 := fun m =>
  match m.place m.heap size align with
  | .error e => .error e m
  | .ok start =>
    match m with
    | ⟨heap, stack, limit, live⟩ =>
      .ok (UInt64.ofNat (heapBase + start)) ⟨grow heap start size, stack, limit, live + 1⟩

/-- A new zeroed block on the stack. A request beyond the limit fails and changes
nothing. -/
def allocStack (size align : Nat) : MemoryOp UInt64 := fun m =>
  match m.place m.stack size align with
  | .error e => .error e m
  | .ok start =>
    match m with
    | ⟨heap, stack, limit, live⟩ =>
      .ok (UInt64.ofNat (stackBase + start)) ⟨heap, grow stack start size, limit, live⟩

/-- Releases a block; the null address releases nothing. -/
def free (m : Memory) (a : UInt64) : Memory :=
  if a = 0 then m
  else match m with
    | ⟨heap, stack, limit, live⟩ => ⟨heap, stack, limit, live - 1⟩

/-- The memory with the stack cut back to an earlier length. -/
def resetStack (m : Memory) (mark : Nat) : Memory :=
  match m with
  | ⟨heap, stack, limit, live⟩ => ⟨heap, stack.shrink mark, limit, live⟩

/-- The region that an address points into: whether it is the stack, and the position
inside. -/
def locate? (a : UInt64) : Option (Bool × Nat) :=
  if a.toNat ≥ stackBase then some (true, a.toNat - stackBase)
  else if a.toNat ≥ heapBase then some (false, a.toNat - heapBase)
  else none

/-- One of the two regions. -/
def region (m : Memory) (isStack : Bool) : Array UInt8 := if isStack then m.stack else m.heap

/-- The bytes at an address; all of them have to exist. -/
def readBytes (m : Memory) (a : UInt64) (n : Nat) : Fallible (List UInt8) :=
  match locate? a with
  | none => Fallible.fail (.badAccess a n)
  | some (isStack, start) =>
    if start + n ≤ (m.region isStack).size then .ok (bytesFrom (m.region isStack) start n)
    else Fallible.fail (.badAccess a n)

/-- Replaces the bytes at an address; all of them have to exist. -/
def writeBytes (a : UInt64) (bytes : List UInt8) : MemoryOp Unit := fun m =>
  match m with
  | ⟨heap, stack, limit, live⟩ =>
    match locate? a with
    | none => .error (.failed (.badAccess a bytes.length)) ⟨heap, stack, limit, live⟩
    | some (true, start) =>
      if start + bytes.length ≤ stack.size then
        .ok () ⟨heap, putBytes stack start bytes, limit, live⟩
      else .error (.failed (.badAccess a bytes.length)) ⟨heap, stack, limit, live⟩
    | some (false, start) =>
      if start + bytes.length ≤ heap.size then
        .ok () ⟨putBytes heap start bytes, stack, limit, live⟩
      else .error (.failed (.badAccess a bytes.length)) ⟨heap, stack, limit, live⟩

/-- The bytes of a region before the first zero at or after a position, with the position
at which the search stopped if the region ended first. -/
def untilZero (region : Array UInt8) : Nat → Nat → List UInt8 → Except Nat (List UInt8)
  | 0, pos, _ => .error pos
  | n + 1, pos, acc =>
    match region[pos]? with
    | none => .error pos
    | some b => if b = 0 then .ok acc.reverse else untilZero region n (pos + 1) (b :: acc)

/-- The text at an address, up to a zero byte. -/
def readText (m : Memory) (a : UInt64) : Fallible String :=
  match locate? a with
  | none => Fallible.fail (.badAccess a 1)
  | some (isStack, start) =>
    let region := m.region isStack
    match untilZero region (region.size - start + 1) start [] with
    | .ok bytes => .ok (Text.decode bytes)
    | .error pos => Fallible.fail (.badAccess (a + UInt64.ofNat (pos - start)) 1)

/-- The unsigned number stored in `n` bytes. -/
def readWord (m : Memory) (a : UInt64) (n : Nat) : Fallible Nat := do
  return ofLittleEndian (← m.readBytes a n)

/-- Stores the low `n` bytes of a number. -/
def writeWord (a : UInt64) (n v : Nat) : MemoryOp Unit :=
  writeBytes a (toLittleEndian n v)

/-- The values of the fields of a structure that come behind an offset, where `one` reads
a value of a type. The end of the last field does not matter. -/
def readFields (types : TypeTable) (one : UInt64 → TypeId → Fallible Val) (a : UInt64) :
    Nat → List TypeId → Fallible (List Val)
  | _, [] => return []
  | offset, field :: rest => do
    let start ← types.fieldStart offset field
    let v ← one (← addressPlus a start) field
    let stop ← if rest.isEmpty then pure start else types.fieldEnd start field
    return v :: (← readFields types one a stop rest)

/-- The values of the items of an array, from a given item on, where `one` reads a value
at an address. -/
def readItems (one : UInt64 → Fallible Val) (a : UInt64) (size : Nat) :
    Nat → Nat → Fallible (List Val)
  | 0, _ => return []
  | left + 1, i => do
    let v ← one (← addressPlus a (i * size))
    return v :: (← readItems one a size left (i + 1))

/-- The value of a type at an address, following at most `n` levels of components. -/
def readWithin (m : Memory) (types : TypeTable) : Nat → UInt64 → TypeId → Fallible Val
  | 0, _, _ => .error (.crashed .endless)
  | n + 1, a, ty => do
    match ← types.get ty with
    | .int bits =>
      let raw ← m.readWord a (bytesForBits bits)
      return .int (normalizeInt (UInt64.ofNat raw).toInt64 bits)
    | .float bits =>
      if bits = 32 then return .float (.ofSingleBits (UInt32.ofNat (← m.readWord a 4)))
      else return .float ⟨UInt64.ofNat (← m.readWord a 8)⟩
    | .pointer _ | .function .. => return .ptr (UInt64.ofNat (← m.readWord a pointerSize))
    | .record fields | .named _ (some fields) =>
      return .agg (← readFields types (m.readWithin types n) a 0 fields)
    | .named _ none => return .agg []
    | .array elem length =>
      let size ← types.sizeOf elem
      return .agg (← readItems (fun b => m.readWithin types n b elem) a size length 0)
    | .void => return .void

/-- The value of a type at an address. -/
def read (m : Memory) (types : TypeTable) (a : UInt64) (ty : TypeId) : Fallible Val :=
  m.readWithin types (types.size + 1) a ty

/-- A value that does not fit a type. -/
def mismatch (ty : TypeId) (v : Val) : MemoryOp Unit :=
  MemoryOp.ofFallible (Fallible.malformed (.cannotStore v ty))

/-- Stores values in the fields of a structure that come behind an offset, as long as
there are both; `one` stores a value as a type. The end of the last field that gets a value
does not matter. -/
def writeFields (types : TypeTable) (one : UInt64 → TypeId → Val → MemoryOp Unit)
    (a : UInt64) : Nat → List TypeId → List Val → MemoryOp Unit
  | offset, field :: fields, v :: vs => do
    let start ← types.fieldStart offset field
    one (← addressPlus a start) field v
    let stop ← if fields.isEmpty || vs.isEmpty then pure start else types.fieldEnd start field
    writeFields types one a stop fields vs
  | _, _, _ => return ()

/-- Stores values as the items of an array, from a given item on; `one` stores a value at
an address. -/
def writeItems (one : UInt64 → Val → MemoryOp Unit) (a : UInt64) (size : Nat) :
    Nat → List Val → MemoryOp Unit
  | _, [] => return ()
  | i, v :: vs => do
    one (← addressPlus a (i * size)) v
    writeItems one a size (i + 1) vs

/-- Stores a value as a type, following at most `n` levels of components. -/
def writeWithin (types : TypeTable) : Nat → UInt64 → TypeId → Val → MemoryOp Unit
  | 0, _, _, _ => throw (.crashed .endless)
  | n + 1, a, ty, v => do
    match ← types.get ty with
    | .int bits =>
      match v.asInt? with
      | some i => writeWord a (bytesForBits bits) i.toUInt64.toNat
      | none => mismatch ty v
    | .float bits =>
      match v with
      | .float x =>
        if bits = 32 then writeWord a 4 x.singleBits.toNat else writeWord a 8 x.bits.toNat
      | _ => mismatch ty v
    | .pointer _ | .function .. =>
      match v.asPtr? with
      | some p => writeWord a pointerSize p.toNat
      | none => mismatch ty v
    | .record fields | .named _ (some fields) =>
      match v with
      | .agg items => writeFields types (writeWithin types n) a 0 fields items
      | _ => mismatch ty v
    | .named _ none =>
      match v with
      | .agg _ => return ()
      | _ => mismatch ty v
    | .array elem _ =>
      match v with
      | .agg items =>
        let size ← types.sizeOf elem
        writeItems (fun b item => writeWithin types n b elem item) a size 0 items
      | _ => mismatch ty v
    | .void => return ()

/-- Stores a value as a type. When a part of the value cannot be stored, the parts before
it have been. -/
def write (types : TypeTable) (a : UInt64) (ty : TypeId) (v : Val) : MemoryOp Unit :=
  writeWithin types (types.size + 1) a ty v

end Memory

end SsaCompiler
