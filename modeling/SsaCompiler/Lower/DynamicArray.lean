/-
# The dynamic array

The built-in template for arrays that grow. An array is a buffer, the number of elements in
use and the number of elements that the buffer has room for. Three operators come with every
element type, as code that is built directly:

* indexing by a `long` gives the place of an element and ends the program outside the array,
* `<<` adds an element at the end, into a buffer twice as large when the old one is full,
* `delete` gives back the buffer and leaves an empty array.
-/

import SsaCompiler.Lower.Object

namespace SsaCompiler

namespace DynamicArray

/-- The position of the buffer. -/
def dataField : Nat := 0

/-- The position of the number of elements. -/
def lengthField : Nat := 1

/-- The position of the number of elements that there is room for. -/
def capacityField : Nat := 2

/-- Declares an operator of an array type. -/
def declareOperator (key : OperatorKey) (params : List ParamSig) (ret : TypeId) (retRef : Bool) :
    Attempt FunctionId := do
  let text := key.symbol.text
  let symbol ← Lower.mangle s!"operator{text}" params
  let (f, _) ← Lower.enterOperator key symbol ⟨[], params, ret, retRef⟩ .unknown
  return f

/-- Gives back a buffer. -/
def freeBuffer (buffer : ValueId) : Lower Unit := do
  let raw ← Build.cast .bitcast buffer (← Lower.bytePointer)
  let free ← Lower.support .free
  discard (Build.call free [raw] : Build (Option ValueId))

/-! ### Indexing -/

/-- Indexing: a negative index and one behind the last element end the program. -/
def indexBody (f : FunctionId) : Lower Unit := do
  let long ← Build.intType 64
  let entry ← Build.appendBlock f "entry"
  let outOfBounds ← Build.appendBlock f "out_of_bounds"
  let inBounds ← Build.appendBlock f "in_bounds"
  Build.positionAtEnd entry
  let array ← Build.param f 0
  let index ← Build.param f 1
  let length ← Build.load (← Build.structGep array lengthField)
  let zero ← Build.constInt long 0
  let negative ← Build.icmp .slt index zero
  let behind ← Build.icmp .sge index length
  let bad ← Build.binary .or negative behind
  Build.condBr bad outOfBounds inBounds
  Build.positionAtEnd outOfBounds
  let abort ← Lower.support .abort
  let _ ← (Build.call abort [] : Build (Option ValueId))
  Build.unreachable
  Build.positionAtEnd inBounds
  let buffer ← Build.load (← Build.structGep array dataField)
  let slot ← Build.gep buffer index
  Build.ret (some slot)

/-- The operator for indexing. -/
def buildIndex (ty elem : TypeId) : Attempt Unit := do
  let long ← Build.intType 64
  let f ← declareOperator (.binary ty .index long) [.reference ty, .value long] elem true
  indexBody f

/-! ### Appending -/

/-- The blocks of the operator that adds an element. -/
structure AppendBlocks where
  /-- Tests whether the buffer is full. -/
  entry : BlockId
  /-- Tests whether there is a buffer at all. -/
  grow : BlockId
  /-- The capacity of a first buffer. -/
  first : BlockId
  /-- The capacity of a further buffer. -/
  double : BlockId
  /-- Makes the new buffer. -/
  alloc : BlockId
  /-- Tests whether there are more elements to copy. -/
  copyCond : BlockId
  /-- Copies one element. -/
  copyBody : BlockId
  /-- Tests whether there is an old buffer. -/
  copyDone : BlockId
  /-- Gives back the old buffer. -/
  freeOld : BlockId
  /-- Replaces the buffer of the array. -/
  commit : BlockId
  /-- Stores the new element. -/
  push : BlockId

/-- Makes the blocks of the operator that adds an element. -/
def appendBlocks (f : FunctionId) : Build AppendBlocks := do
  let entry ← Build.appendBlock f "entry"
  let grow ← Build.appendBlock f "grow"
  let first ← Build.appendBlock f "grow.first"
  let double ← Build.appendBlock f "grow.double"
  let alloc ← Build.appendBlock f "grow.alloc"
  let copyCond ← Build.appendBlock f "copy.cond"
  let copyBody ← Build.appendBlock f "copy.body"
  let copyDone ← Build.appendBlock f "copy.done"
  let freeOld ← Build.appendBlock f "grow.free"
  let commit ← Build.appendBlock f "grow.commit"
  let push ← Build.appendBlock f "push"
  return ⟨entry, grow, first, double, alloc, copyCond, copyBody, copyDone, freeOld, commit, push⟩

/-- The values that the blocks of the operator that adds an element share. -/
structure AppendValues where
  /-- The array. -/
  array : ValueId
  /-- The new element. -/
  value : ValueId
  /-- The place of the counter of copied elements. -/
  counter : ValueId
  /-- The place of the buffer. -/
  dataPtr : ValueId
  /-- The place of the number of elements. -/
  lengthPtr : ValueId
  /-- The place of the capacity. -/
  capacityPtr : ValueId
  /-- The number of elements before. -/
  length : ValueId
  /-- The capacity before. -/
  capacity : ValueId
  /-- The constant zero. -/
  zero : ValueId
  /-- The constant one. -/
  one : ValueId

/-- Reads the array and goes on to a larger buffer when the old one is full. -/
def appendEntry (f : FunctionId) (long : TypeId) (b : AppendBlocks) : Build AppendValues := do
  Build.positionAtEnd b.entry
  let array ← Build.param f 0
  let value ← Build.param f 1
  let counter ← Build.alloca long
  let dataPtr ← Build.structGep array dataField
  let lengthPtr ← Build.structGep array lengthField
  let capacityPtr ← Build.structGep array capacityField
  let length ← Build.load lengthPtr
  let capacity ← Build.load capacityPtr
  let zero ← Build.constInt long 0
  let one ← Build.constInt long 1
  let full ← Build.icmp .eq length capacity
  Build.condBr full b.grow b.push
  return ⟨array, value, counter, dataPtr, lengthPtr, capacityPtr, length, capacity, zero, one⟩

/-- The new capacity, four at first and then twice the old one, at the start of the block
that makes the buffer. -/
def newCapacity (long : TypeId) (b : AppendBlocks) (v : AppendValues) : Build ValueId := do
  Build.positionAtEnd b.grow
  let isEmpty ← Build.icmp .eq v.capacity v.zero
  Build.condBr isEmpty b.first b.double
  Build.positionAtEnd b.first
  let four ← Build.constInt long 4
  Build.br b.alloc
  Build.positionAtEnd b.double
  let two ← Build.constInt long 2
  let doubled ← Build.binary .mul v.capacity two
  Build.br b.alloc
  Build.positionAtEnd b.alloc
  Build.phi long [(four, b.first), (doubled, b.double)]

/-- A new buffer. -/
def newBuffer (elemPtr long : TypeId) (elemSize : Int64) (capacity : ValueId) :
    Lower ValueId := do
  let size ← Build.constInt long elemSize
  let calloc ← Lower.support .calloc
  match ← (Build.call calloc [capacity, size] : Build (Option ValueId)) with
  | some raw => Build.cast .bitcast raw elemPtr
  | none => Build.constNull elemPtr

/-- Copies the elements from the old buffer to the new one. -/
def copyElements (b : AppendBlocks) (v : AppendValues) (newData oldData : ValueId) :
    Build Unit := do
  Build.store v.zero v.counter
  Build.br b.copyCond
  Build.positionAtEnd b.copyCond
  let i ← Build.load v.counter
  let more ← Build.icmp .slt i v.length
  Build.condBr more b.copyBody b.copyDone
  Build.positionAtEnd b.copyBody
  let source ← Build.gep oldData i
  let moved ← Build.load source
  let target ← Build.gep newData i
  Build.store moved target
  let next ← Build.binary .add i v.one
  Build.store next v.counter
  Build.br b.copyCond

/-- Gives back the old buffer, if there is one, and puts the new one into the array. -/
def replaceBuffer (b : AppendBlocks) (v : AppendValues) (newData oldData capacity : ValueId) :
    Lower Unit := do
  Build.positionAtEnd b.copyDone
  let hadBuffer ← Build.icmp .ne v.capacity v.zero
  Build.condBr hadBuffer b.freeOld b.commit
  Build.positionAtEnd b.freeOld
  freeBuffer oldData
  Build.br b.commit
  Build.positionAtEnd b.commit
  Build.store newData v.dataPtr
  Build.store capacity v.capacityPtr
  Build.br b.push

/-- Stores the new element behind the last one and returns the array. -/
def storeElement (b : AppendBlocks) (v : AppendValues) : Build Unit := do
  Build.positionAtEnd b.push
  let buffer ← Build.load v.dataPtr
  let slot ← Build.gep buffer v.length
  Build.store v.value slot
  let grown ← Build.binary .add v.length v.one
  Build.store grown v.lengthPtr
  Build.ret (some v.array)

/-- Adding an element. -/
def appendBody (f : FunctionId) (elem : TypeId) : Lower Unit := do
  let long ← Build.intType 64
  let elemPtr ← Build.pointerType elem
  let elemSize ← Lower.allocationSize elem
  let b ← appendBlocks f
  let v ← appendEntry f long b
  let capacity ← newCapacity long b v
  let newData ← newBuffer elemPtr long elemSize capacity
  let oldData ← Build.load v.dataPtr
  copyElements b v newData oldData
  replaceBuffer b v newData oldData capacity
  storeElement b v

/-- The operator that adds an element. -/
def buildAppend (ty elem : TypeId) : Attempt Unit := do
  let key := OperatorKey.binary ty (.binary .shl) elem
  let f ← declareOperator key [.reference ty, .value elem] ty true
  appendBody f elem

/-! ### Deletion -/

/-- Deletion: the buffer is given back, if there is one, and the array is empty. -/
def deleteBody (f : FunctionId) : Lower Unit := do
  let long ← Build.intType 64
  let entry ← Build.appendBlock f "entry"
  let freeBlock ← Build.appendBlock f "free"
  let reset ← Build.appendBlock f "reset"
  Build.positionAtEnd entry
  let array ← Build.param f 0
  let dataPtr ← Build.structGep array dataField
  let lengthPtr ← Build.structGep array lengthField
  let capacityPtr ← Build.structGep array capacityField
  let capacity ← Build.load capacityPtr
  let zero ← Build.constInt long 0
  let hadBuffer ← Build.icmp .ne capacity zero
  Build.condBr hadBuffer freeBlock reset
  Build.positionAtEnd freeBlock
  let buffer ← Build.load dataPtr
  freeBuffer buffer
  Build.br reset
  Build.positionAtEnd reset
  let null ← Build.constNull (← Build.typeOf buffer)
  Build.store null dataPtr
  Build.store zero lengthPtr
  Build.store zero capacityPtr
  Build.ret none

/-- The operator for deletion. -/
def buildDelete (ty : TypeId) : Attempt Unit := do
  let void ← Build.voidType
  let f ← declareOperator (.behind ty .delete) [.reference ty] void false
  deleteBody f

/-! ### The array type -/

/-- Gives an array type its members and its operators. There are no arrays of nothing. -/
def build (ty elem : TypeId) : Lower Unit := do
  if (← Build.typeAt elem) = .void then
    Lower.report .typeMismatch "arrays of 'void' are not allowed" .unknown
  else
    let elemPtr ← Build.pointerType elem
    let long ← Build.intType 64
    let data ← Lower.intern "data"
    let length ← Lower.intern "len"
    let capacity ← Lower.intern "cap"
    Lower.completeObject ty [(data, elemPtr), (length, long), (capacity, long)]
    if ((← Lower.symbols).objectByType? ty).isSome then
      let here ← Lower.position
      let _ ← (buildIndex ty elem).run
      let _ ← (buildAppend ty elem).run
      let _ ← (buildDelete ty).run
      Build.restorePosition here

end DynamicArray

end SsaCompiler
