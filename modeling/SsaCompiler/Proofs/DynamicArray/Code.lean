/-
# The code of the dynamic array

The three operators of an array type are put together block by block. Here their code is written
out: for each block the values that were there before, its lines and its end. Lowering makes
exactly this code, and it is the same in every later module.
-/

import SsaCompiler.Proofs.ControlFlow.DynamicArray
import SsaCompiler.Proofs.Lower.Drafting
import SsaCompiler.Proofs.Lower.Stepwise.Object

namespace SsaCompiler

open Lower SsaCompiler.Module

/-- The function that makes buffers answers with an address. -/
def Module.Allocates (M : Module) : Prop :=
  ∀ f d, M.functionByName? "calloc" = some f → M.function f = .ok d →
    ∃ params result variadic pointee, M.types.get d.ty = .ok (.function params result variadic) ∧
      M.types.get result = .ok (.pointer pointee)

namespace DynamicArray

variable {m M : Module} {c : Context} {ns : Names} {p : Pass} {s' : Lowering} {f : FunctionId}
  {ty elem elemPtr long ref : TypeId} {name : String}

/-! ### Indexing -/

/-- The code of the operator for indexing. -/
structure IndexCode (m : Module) (entry outOfBounds inBounds : BlockId) (array index : ValueId)
    (ty elem elemPtr long : TypeId) : Prop where
  entry : ∃ lengthPtr length zero negative behind bad,
    m.Literal zero long (.int 0) ∧
    m.Listing entry [array, index]
      [⟨lengthPtr, .field array ty 1⟩, ⟨length, .load lengthPtr long⟩,
        ⟨negative, .icmp .slt index zero⟩, ⟨behind, .icmp .sge index length⟩,
        ⟨bad, .binary .or negative behind 1⟩]
      (.condBr bad outOfBounds inBounds)
  outOfBounds : ∃ abort aborted, m.functionByName? "abort" = some abort ∧
    m.Listing outOfBounds [] [⟨aborted, .call abort []⟩] .unreachable
  inBounds : ∃ dataPtr buffer slot, m.Listing inBounds [array, index]
    [⟨dataPtr, .field array ty 0⟩, ⟨buffer, .load dataPtr elemPtr⟩,
      ⟨slot, .element buffer index elem⟩]
    (.ret (some slot))

/-- Lowering makes the code of the operator for indexing. -/
theorem exists_indexCode {array index : ValueId} [m.KnownTo c ns]
    [m.Describes ty (.named name (some [elemPtr, long, long]))] [m.Describes elemPtr (.pointer elem)]
    [m.Describes long (.int 64)] [m.Describes ref (.pointer ty)]
    (hf : m.Awaits f [(array, ref), (index, long)])
    (hrun : indexBody f ⟨c, ns, m, p⟩ = .ok ((), s')) (hM : s'.module.Evolves M) :
    ∃ entry outOfBounds inBounds, M.Runnable f entry [array, index] ∧
      IndexCode M entry outOfBounds inBounds array index ty elem elemPtr long := by
  have hknown : Lowering.Known ⟨c, ns, m, p⟩ := KnownTo.known
  have hlater : m.Evolves M := (Stepwise.later hknown hrun).module.trans hM
  unfold indexBody at hrun
  obtain ⟨long', m₁, hlong, hrun₁⟩ := bind_build hrun
  obtain ⟨rfl, _⟩ := Build.eq_of_internType long rfl rfl hlong
  have hf₁ : m₁.Awaits f [(array, ref), (index, long)] :=
    hf.mono (Build.evolves hlong) (by cases hlong; rfl)
  obtain ⟨entry, m₂, hentry, hrun₂⟩ := bind_build hrun₁
  have := hf₁.startsAt hentry
  have := hf₁.receives
  have := hf₁.result (i := 0) rfl
  have := hf₁.result (i := 1) rfl
  obtain ⟨hblanks₂, _⟩ := (Blanks.nil m₁).appendBlock hentry
  obtain ⟨outOfBounds, m₃, hout, hrun₃⟩ := bind_build hrun₂
  obtain ⟨hblanks₃, _⟩ := hblanks₂.appendBlock hout
  obtain ⟨inBounds, m₄, hin, hrun₄⟩ := bind_build hrun₃
  obtain ⟨hblanks₄, _⟩ := hblanks₃.appendBlock hin
  obtain ⟨⟨⟩, m₅, htake, hrun₅⟩ := bind_build hrun₄
  obtain ⟨hdraft₅, _, hsize₅⟩ := hblanks₄.take htake
  obtain ⟨array', m₆, harray, hrun₆⟩ := bind_build hrun₅
  obtain ⟨rfl, rfl⟩ := eq_of_param (f := f) (i := 0) rfl harray
  obtain ⟨index', m₇, hindex, hrun₇⟩ := bind_build hrun₆
  obtain ⟨rfl, rfl⟩ := eq_of_param (f := f) (i := 1) rfl hindex
  obtain ⟨lengthPtr, m₈, hlengthPtr, hrun₈⟩ := bind_build hrun₇
  obtain ⟨q₈, ⟨hdraft₈, _, _⟩, _⟩ := hdraft₅.structGep rfl rfl hlengthPtr
  obtain ⟨length, m₉, hlength, hrun₉⟩ := bind_build hrun₈
  obtain ⟨hdraft₉, _, _⟩ := hdraft₈.load hlength
  obtain ⟨zero, m₁₀, hzero, hrun₁₀⟩ := bind_build hrun₉
  have hdraft₁₀ := hdraft₉.aside hzero
  obtain ⟨_, hzero'⟩ := Build.literal_of_constInt hzero
  obtain ⟨negative, m₁₁, hnegative, hrun₁₁⟩ := bind_build hrun₁₀
  obtain ⟨bool, ⟨hdraft₁₁, _, _⟩, _⟩ := hdraft₁₀.icmp hnegative
  obtain ⟨behind, m₁₂, hbehind, hrun₁₂⟩ := bind_build hrun₁₁
  obtain ⟨bool', ⟨hdraft₁₂, _, _⟩, _⟩ := hdraft₁₁.icmp hbehind
  obtain rfl : bool = bool' := eq_of_describes (m := m₁₂) rfl
  obtain ⟨bad, m₁₃, hbad, hrun₁₃⟩ := bind_build hrun₁₂
  obtain ⟨hdraft₁₃, _, _⟩ := hdraft₁₂.binary rfl hbad
  obtain ⟨⟨⟩, m₁₄, hbranch, hrun₁₄⟩ := bind_build hrun₁₃
  obtain ⟨hentryCode, _, hentryOrder, hblanks₁₄⟩ := hdraft₁₃.condBr hbranch
  -- The block for indices that are out of bounds.
  obtain ⟨⟨⟩, m₁₅, htake', hrun₁₅⟩ := bind_build hrun₁₄
  obtain ⟨hdraft₁₅, _, -⟩ := hblanks₁₄.take htake'
  obtain ⟨abort, c', m₁₆, hrun₁₆, _, _, _, hblocks, hposition⟩ := bind_support hrun₁₅
  have hdraft₁₆ := hdraft₁₅.of_blocks_eq Before.evolves hblocks hposition
  obtain ⟨answer, m₁₇, hcall, hrun₁₇⟩ := bind_build hrun₁₆
  obtain ⟨aborted, ret, d, t, ⟨hdraft₁₇, _, _⟩, -⟩ := hdraft₁₆.call hcall
  obtain ⟨⟨⟩, m₁₈, hunreachable, hrun₁₈⟩ := bind_build hrun₁₇
  obtain ⟨houtCode, _, houtOrder, hblanks₁₈⟩ := hdraft₁₇.finish hunreachable
  -- The block for the others.
  obtain ⟨⟨⟩, m₁₉, htake'', hrun₁₉⟩ := bind_build hrun₁₈
  obtain ⟨hdraft₁₉, _, hsize₁₉⟩ := hblanks₁₈.take htake''
  obtain ⟨dataPtr, m₂₀, hdataPtr, hrun₂₀⟩ := bind_build hrun₁₉
  obtain ⟨q₂₀, ⟨hdraft₂₀, _, _⟩, _⟩ := hdraft₁₉.structGep rfl rfl hdataPtr
  obtain ⟨buffer, m₂₁, hbuffer, hrun₂₁⟩ := bind_build hrun₂₀
  obtain ⟨hdraft₂₁, _, _⟩ := hdraft₂₀.load hbuffer
  obtain ⟨slot, m₂₂, hslot, hrun₂₂⟩ := bind_build hrun₂₁
  obtain ⟨hdraft₂₂, _, _⟩ := hdraft₂₁.gep hslot
  obtain ⟨m₂₃, hret, rfl⟩ := build_eq_ok_iff.1 hrun₂₂
  obtain ⟨hinCode, _, hinOrder, -⟩ := hdraft₂₂.finish hret
  have : m₂₃.Before M := ⟨hM⟩
  refine ⟨entry, outOfBounds, inBounds, hf.runnable hlater, ⟨?_, ?_, ?_⟩⟩
  · exact ⟨lengthPtr, length, zero, negative, behind, bad, inferInstance,
      listing_of_hasCode hentryOrder⟩
  · exact ⟨abort, aborted, Bears.function, listing_of_hasCode houtOrder⟩
  · exact ⟨dataPtr, buffer, slot, listing_of_hasCode hinOrder⟩

/-! ### Appending -/

/-- The values that the blocks of the operator for appending share and that are not constant. -/
def AppendValues.shared (v : AppendValues) : List ValueId :=
  [v.array, v.value, v.counter, v.dataPtr, v.lengthPtr, v.capacityPtr, v.length, v.capacity]

/-- The shared values have their types. -/
class AppendValues.Typed (v : AppendValues) (m : Module) (ty elem elemPtr long : outParam TypeId) :
    Prop where
  array : m.Refers v.array ty
  value : m.Result v.value elem
  counter : m.Refers v.counter long
  dataPtr : m.Refers v.dataPtr elemPtr
  lengthPtr : m.Refers v.lengthPtr long
  capacityPtr : m.Refers v.capacityPtr long
  length : m.Result v.length long
  capacity : m.Result v.capacity long
  zero : m.Literal v.zero long (.int 0)
  one : m.Literal v.one long (.int 1)

attribute [instance] AppendValues.Typed.array AppendValues.Typed.value AppendValues.Typed.counter
  AppendValues.Typed.dataPtr AppendValues.Typed.lengthPtr AppendValues.Typed.capacityPtr
  AppendValues.Typed.length AppendValues.Typed.capacity AppendValues.Typed.zero
  AppendValues.Typed.one

instance (priority := low) {m' : Module} {v : AppendValues} [m.Before m']
    [v.Typed m ty elem elemPtr long] : v.Typed m' ty elem elemPtr long :=
  ⟨inferInstance, inferInstance, inferInstance, inferInstance, inferInstance, inferInstance,
    inferInstance, inferInstance, inferInstance, inferInstance⟩

instance {v : AppendValues} [v.Typed m ty elem elemPtr long] : m.Older v.shared := by
  unfold AppendValues.shared
  infer_instance

/-- The code that reads the array. -/
structure EntryCode (m : Module) (b : AppendBlocks) (v : AppendValues) (ty long : TypeId) :
    Prop where
  zero : m.Literal v.zero long (.int 0)
  one : m.Literal v.one long (.int 1)
  entry : ∃ full, m.Listing b.entry [v.array, v.value]
    [⟨v.counter, .alloca long⟩, ⟨v.dataPtr, .field v.array ty 0⟩,
      ⟨v.lengthPtr, .field v.array ty 1⟩, ⟨v.capacityPtr, .field v.array ty 2⟩,
      ⟨v.length, .load v.lengthPtr long⟩, ⟨v.capacity, .load v.capacityPtr long⟩,
      ⟨full, .icmp .eq v.length v.capacity⟩]
    (.condBr full b.grow b.push)

/-- The code that finds the new capacity. -/
structure CapacityCode (m : Module) (b : AppendBlocks) (v : AppendValues) (long : TypeId)
    (four doubled : ValueId) : Prop where
  grow : ∃ isEmpty, m.Listing b.grow v.shared [⟨isEmpty, .icmp .eq v.capacity v.zero⟩]
    (.condBr isEmpty b.first b.double)
  four : m.Literal four long (.int 4)
  first : m.Listing b.first v.shared [] (.br b.alloc)
  double : ∃ two, m.Literal two long (.int 2) ∧
    m.Listing b.double v.shared [⟨doubled, .binary .mul v.capacity two 64⟩] (.br b.alloc)
  apart : b.first ≠ b.double

/-- The code that makes the new buffer and starts to copy. -/
structure BufferCode (m : Module) (b : AppendBlocks) (v : AppendValues) (elemPtr long : TypeId)
    (elemSize : Int64) (four doubled capacity newData oldData : ValueId) : Prop where
  alloc : ∃ calloc size raw extra stored, m.functionByName? "calloc" = some calloc ∧
    m.Literal size long (.int elemSize) ∧ Draft.Converts extra raw newData ∧
    m.Listing b.alloc (doubled :: v.shared)
      (⟨capacity, .phi [(four, b.first), (doubled, b.double)]⟩ ::
        ⟨raw, .call calloc [capacity, size]⟩ :: (extra ++
        [⟨oldData, .load v.dataPtr elemPtr⟩, ⟨stored, .store v.zero v.counter long⟩]))
      (.br b.copyCond)

/-- The values that the blocks share once there is a new buffer. -/
def AppendValues.moving (v : AppendValues) (newData oldData capacity : ValueId) : List ValueId :=
  newData :: oldData :: capacity :: v.shared

instance {v : AppendValues} {newData oldData capacity : ValueId} [v.Typed m ty elem elemPtr long]
    [m.Result newData elemPtr] [m.Result oldData elemPtr] [m.Result capacity long] :
    m.Older (v.moving newData oldData capacity) := by
  unfold AppendValues.moving
  infer_instance

/-- The code that copies the elements. -/
structure CopyCode (m : Module) (b : AppendBlocks) (v : AppendValues) (elem long : TypeId)
    (newData oldData capacity : ValueId) : Prop where
  copyCond : ∃ i more, m.Listing b.copyCond (v.moving newData oldData capacity)
    [⟨i, .load v.counter long⟩, ⟨more, .icmp .slt i v.length⟩]
    (.condBr more b.copyBody b.copyDone) ∧
    ∃ source moved target stored next counted,
      m.Listing b.copyBody (i :: v.moving newData oldData capacity)
        [⟨source, .element oldData i elem⟩, ⟨moved, .load source elem⟩,
          ⟨target, .element newData i elem⟩, ⟨stored, .store moved target elem⟩,
          ⟨next, .binary .add i v.one 64⟩, ⟨counted, .store next v.counter long⟩]
        (.br b.copyCond)

/-- The code that replaces the old buffer. -/
structure ReplaceCode (m : Module) (b : AppendBlocks) (v : AppendValues) (elemPtr long : TypeId)
    (newData oldData capacity : ValueId) : Prop where
  copyDone : ∃ hadBuffer, m.Listing b.copyDone (v.moving newData oldData capacity)
    [⟨hadBuffer, .icmp .ne v.capacity v.zero⟩] (.condBr hadBuffer b.freeOld b.commit)
  freeOld : ∃ free raw extra freed, m.functionByName? "free" = some free ∧
    Draft.Converts extra oldData raw ∧
    m.Listing b.freeOld (v.moving newData oldData capacity)
      (extra ++ [⟨freed, .call free [raw]⟩]) (.br b.commit)
  commit : ∃ stored stored', m.Listing b.commit (v.moving newData oldData capacity)
    [⟨stored, .store newData v.dataPtr elemPtr⟩, ⟨stored', .store capacity v.capacityPtr long⟩]
    (.br b.push)

/-- The code that stores the new element. -/
structure StoreCode (m : Module) (b : AppendBlocks) (v : AppendValues)
    (elem elemPtr long : TypeId) : Prop where
  one : m.Literal v.one long (.int 1)
  push : ∃ buffer slot stored grown stored', m.Listing b.push v.shared
    [⟨buffer, .load v.dataPtr elemPtr⟩, ⟨slot, .element buffer v.length elem⟩,
      ⟨stored, .store v.value slot elem⟩, ⟨grown, .binary .add v.length v.one 64⟩,
      ⟨stored', .store grown v.lengthPtr long⟩]
    (.ret (some v.array))

section

variable {m' : Module} {b : AppendBlocks} {v : AppendValues} {rest : List BlockId}
  {low : Nat} {code : List Line} {blk : BlockId} {capacity newData oldData : ValueId}

/-- The block that reads the array is written. -/
theorem appendEntry_writes {array value : ValueId}
    [m.Describes ty (.named name (some [elemPtr, long, long]))] [m.Describes long (.int 64)]
    [m.Receives f [array, value]] [m.Refers array ty] [m.Result value elem]
    (hblanks : m.Blanks (b.entry :: rest)) (hrun : appendEntry f long b m = .ok (v, m')) :
    m.Before m' ∧ m'.Blanks rest ∧ v.Typed m' ty elem elemPtr long ∧ v.array = array ∧
      v.value = value ∧ ∀ {M : Module}, m'.Evolves M → EntryCode M b v ty long := by
  have hbefore : m.Evolves m' := Build.evolves hrun
  unfold appendEntry at hrun
  obtain ⟨⟨⟩, m₁, htake, hrun₁⟩ := bind_eq_ok_iff.1 hrun
  obtain ⟨hdraft₁, _, hsize⟩ := hblanks.take htake
  obtain ⟨array', m₂, harray, hrun₂⟩ := bind_eq_ok_iff.1 hrun₁
  obtain ⟨rfl, rfl⟩ := eq_of_param (f := f) (i := 0) rfl harray
  obtain ⟨value', m₃, hvalue, hrun₃⟩ := bind_eq_ok_iff.1 hrun₂
  obtain ⟨rfl, rfl⟩ := eq_of_param (f := f) (i := 1) rfl hvalue
  obtain ⟨counter, m₄, hcounter, hrun₄⟩ := bind_eq_ok_iff.1 hrun₃
  obtain ⟨p₄, ⟨hdraft₄, _, _⟩, _⟩ := hdraft₁.alloca hcounter
  obtain ⟨dataPtr, m₅, hdataPtr, hrun₅⟩ := bind_eq_ok_iff.1 hrun₄
  obtain ⟨p₅, ⟨hdraft₅, _, _⟩, _⟩ := hdraft₄.structGep rfl rfl hdataPtr
  obtain ⟨lengthPtr, m₆, hlengthPtr, hrun₆⟩ := bind_eq_ok_iff.1 hrun₅
  obtain ⟨p₆, ⟨hdraft₆, _, _⟩, _⟩ := hdraft₅.structGep rfl rfl hlengthPtr
  obtain ⟨capacityPtr, m₇, hcapacityPtr, hrun₇⟩ := bind_eq_ok_iff.1 hrun₆
  obtain ⟨p₇, ⟨hdraft₇, _, _⟩, _⟩ := hdraft₆.structGep rfl rfl hcapacityPtr
  obtain ⟨length, m₈, hlength, hrun₈⟩ := bind_eq_ok_iff.1 hrun₇
  obtain ⟨hdraft₈, _, _⟩ := hdraft₇.load hlength
  obtain ⟨capacity, m₉, hcapacity, hrun₉⟩ := bind_eq_ok_iff.1 hrun₈
  obtain ⟨hdraft₉, _, _⟩ := hdraft₈.load hcapacity
  obtain ⟨zero, m₁₀, hzero, hrun₁₀⟩ := bind_eq_ok_iff.1 hrun₉
  have hdraft₁₀ := hdraft₉.aside hzero
  obtain ⟨_, _⟩ := Build.literal_of_constInt hzero
  obtain ⟨one, m₁₁, hone, hrun₁₁⟩ := bind_eq_ok_iff.1 hrun₁₀
  have hdraft₁₁ := hdraft₁₀.aside hone
  obtain ⟨_, _⟩ := Build.literal_of_constInt hone
  obtain ⟨full, m₁₂, hfull, hrun₁₂⟩ := bind_eq_ok_iff.1 hrun₁₁
  obtain ⟨bool, ⟨hdraft₁₂, _, _⟩, _⟩ := hdraft₁₁.icmp hfull
  obtain ⟨⟨⟩, m₁₃, hbranch, hend⟩ := bind_eq_ok_iff.1 hrun₁₂
  obtain ⟨hcode, _, horder, hblanks'⟩ := hdraft₁₂.condBr hbranch
  cases hend
  refine ⟨⟨hbefore⟩, hblanks', ⟨inferInstance, inferInstance, inferInstance, inferInstance,
    inferInstance, inferInstance, inferInstance, inferInstance, inferInstance, inferInstance⟩,
    rfl, rfl, fun {M} hM => ?_⟩
  have : m'.Before M := ⟨hM⟩
  exact ⟨inferInstance, inferInstance, full, listing_of_hasCode horder⟩

/-- The blocks that find the new capacity are written, and the one that makes the new buffer
begins with it. -/
theorem newCapacity_writes [v.Typed m ty elem elemPtr long]
    [m.Describes long (.int 64)] (hapart : b.first ≠ b.double)
    (hblanks : m.Blanks (b.grow :: b.first :: b.double :: b.alloc :: rest))
    (hrun : newCapacity long b v m = .ok (capacity, m')) :
    ∃ four doubled low, m.Before m' ∧ m'.Result capacity long ∧
      m'.Draft low b.alloc [⟨capacity, .phi [(four, b.first), (doubled, b.double)]⟩] rest ∧
      (∀ w ∈ doubled :: v.shared, w.index < low) ∧
      ∀ {M : Module}, m'.Evolves M → CapacityCode M b v long four doubled := by
  have hbefore : m.Evolves m' := Build.evolves hrun
  unfold newCapacity at hrun
  obtain ⟨⟨⟩, m₁, hgrow, hrun₁⟩ := bind_eq_ok_iff.1 hrun
  obtain ⟨hdraft₁, _, hsize₁⟩ := hblanks.take hgrow
  obtain ⟨isEmpty, m₂, hisEmpty, hrun₂⟩ := bind_eq_ok_iff.1 hrun₁
  obtain ⟨bool, ⟨hdraft₂, _, _⟩, _⟩ := hdraft₁.icmp hisEmpty
  obtain ⟨⟨⟩, m₃, hbranch, hrun₃⟩ := bind_eq_ok_iff.1 hrun₂
  obtain ⟨hgrowCode, _, hgrowOrder, hblanks₃⟩ := hdraft₂.condBr hbranch
  obtain ⟨⟨⟩, m₄, hfirst, hrun₄⟩ := bind_eq_ok_iff.1 hrun₃
  obtain ⟨hdraft₄, _, hsize₄⟩ := hblanks₃.take hfirst
  obtain ⟨four, m₅, hfour, hrun₅⟩ := bind_eq_ok_iff.1 hrun₄
  have hdraft₅ := hdraft₄.aside hfour
  obtain ⟨_, _⟩ := Build.literal_of_constInt hfour
  obtain ⟨⟨⟩, m₆, hjump, hrun₆⟩ := bind_eq_ok_iff.1 hrun₅
  obtain ⟨hfirstCode, _, hfirstOrder, hblanks₆⟩ := hdraft₅.finish hjump
  obtain ⟨⟨⟩, m₇, hdouble, hrun₇⟩ := bind_eq_ok_iff.1 hrun₆
  obtain ⟨hdraft₇, _, hsize₇⟩ := hblanks₆.take hdouble
  obtain ⟨two, m₈, htwo, hrun₈⟩ := bind_eq_ok_iff.1 hrun₇
  have hdraft₈ := hdraft₇.aside htwo
  obtain ⟨_, _⟩ := Build.literal_of_constInt htwo
  obtain ⟨doubled, m₉, hdoubled, hrun₉⟩ := bind_eq_ok_iff.1 hrun₈
  obtain ⟨hdraft₉, _, _⟩ := hdraft₈.binary rfl hdoubled
  obtain ⟨⟨⟩, m₁₀, hjump', hrun₁₀⟩ := bind_eq_ok_iff.1 hrun₉
  obtain ⟨hdoubleCode, _, hdoubleOrder, hblanks₁₀⟩ := hdraft₉.finish hjump'
  obtain ⟨⟨⟩, m₁₁, halloc, hphi⟩ := bind_eq_ok_iff.1 hrun₁₀
  obtain ⟨hdraft₁₁, _, hsize₁₁⟩ := hblanks₁₀.take halloc
  obtain ⟨hdraft, _, _⟩ := hdraft₁₁.phi hphi
  have holder : m₁₀.Older (doubled :: v.shared) := inferInstance
  refine ⟨four, doubled, _, ⟨hbefore⟩, inferInstance, hdraft, holder.lt, fun {M} hM => ?_⟩
  have : m'.Before M := ⟨hM⟩
  exact ⟨⟨isEmpty, listing_of_hasCode hgrowOrder⟩, inferInstance, listing_of_hasCode hfirstOrder,
    ⟨two, inferInstance, listing_of_hasCode hdoubleOrder⟩, hapart⟩

/-- The addresses of bytes have a type. -/
theorem describes_of_bytePointer {bytes : TypeId} (hrun : bytePointer m = .ok (bytes, m')) :
    ∃ byte, m.Before m' ∧ m'.Describes bytes (.pointer byte) ∧ m'.blocks = m.blocks ∧
      m'.position = m.position := by
  obtain ⟨byte, m₁, hbyte, hbytes⟩ := bind_eq_ok_iff.1 hrun
  obtain ⟨⟨h₁⟩, _⟩ := Build.describes_of_internType rfl rfl rfl hbyte
  obtain ⟨⟨h₂⟩, _⟩ := Build.describes_of_internType rfl rfl rfl hbytes
  have hblocks := Build.Aside.same hbyte
  have hblocks' := Build.Aside.same hbytes
  exact ⟨byte, ⟨h₁.trans h₂⟩, inferInstance, hblocks'.1.trans hblocks.1,
    hblocks'.2.trans hblocks.2⟩

/-- A new buffer is asked for. It is there if the function that makes it answers with an address. -/
theorem newBuffer_writes {elemSize : Int64} [m.KnownTo c ns] [m.Describes long (.int 64)]
    [m.Describes elemPtr (.pointer elem)] (hdraft : m.Draft low blk code rest)
    (hrun : newBuffer elemPtr long elemSize capacity ⟨c, ns, m, p⟩ = .ok (newData, s'))
    (hM : s'.module.Evolves M) (halloc : M.Allocates) :
    ∃ c' m' calloc size raw extra, s' = ⟨c', ns, m', p⟩ ∧ m.Before m' ∧ m'.KnownTo c' ns ∧
      m'.Result newData elemPtr ∧ m'.Bears calloc "calloc" ∧ m'.Literal size long (.int elemSize) ∧
      Draft.Converts extra raw newData ∧
      m'.Draft low blk (code ++ [⟨raw, .call calloc [capacity, size]⟩] ++ extra) rest := by
  unfold newBuffer at hrun
  obtain ⟨size, m₁, hsize, hrun₁⟩ := bind_build hrun
  have hdraft₁ := hdraft.aside hsize
  obtain ⟨h₁, _⟩ := Build.literal_of_constInt hsize
  obtain ⟨calloc, c', m₂, hrun₂, h₂, _, hcalloc, hblocks, hposition⟩ := bind_support hrun₁
  have hdraft₂ := hdraft₁.of_blocks_eq Before.evolves hblocks hposition
  obtain ⟨answer, m₃, hcall, hrun₃⟩ := bind_build hrun₂
  obtain ⟨raw, ret, d, t, ⟨hdraft₃, h₃, _⟩, hd, hret, hanswer⟩ := hdraft₂.call hcall
  have hbefore : m.Evolves m₃ := (h₁.evolves.trans h₂.evolves).trans h₃.evolves
  have hlater : m₃.Evolves M := by
    cases answer <;> obtain ⟨m₄, hlast, rfl⟩ := build_eq_ok_iff.1 hrun₃ <;>
      exact (Build.evolves hlast).trans hM
  -- Only a function without answer gives no value, and this one answers with an address.
  obtain rfl : answer = some raw := by
    refine hanswer.resolve_right fun hvoid => ?_
    obtain ⟨d', hd', hgrows⟩ := (h₃.evolves.trans hlater).function hd
    obtain ⟨params, result, variadic, pointee, htype, hpointer⟩ := halloc calloc d'
      ((h₃.evolves.trans hlater).functionByName? hcalloc.function) hd'
    cases hpointer.symm.trans (hvoid hlater params result variadic (hgrows.ty ▸ htype))
  obtain ⟨m₄, hcast, rfl⟩ := build_eq_ok_iff.1 hrun₃
  obtain ⟨extra, hextra, hdraft₄, h₄, _⟩ := hdraft₃.bitcast hret hcast
  exact ⟨c', m₄, calloc, size, raw, extra, rfl, ⟨hbefore.trans h₄.evolves⟩, inferInstance,
    inferInstance, inferInstance, inferInstance, hextra, hdraft₄⟩

/-- The elements are copied, behind what makes the new buffer. -/
theorem copyElements_writes (capacity : ValueId) [v.Typed m ty elem elemPtr long] [m.Describes long (.int 64)]
    [m.Describes elemPtr (.pointer elem)] [m.Result newData elemPtr] [m.Result oldData elemPtr]
    [m.Result capacity long]
    (hdraft : m.Draft low b.alloc code (b.copyCond :: b.copyBody :: rest))
    (hrun : copyElements b v newData oldData m = .ok ((), m')) :
    m.Before m' ∧ m'.Blanks rest ∧ ∀ {M : Module}, m'.Evolves M →
      (∃ stored high, M.HasCode b.alloc (code ++ [⟨stored, .store v.zero v.counter long⟩])
        (.br b.copyCond) ∧ Line.Ascends low (code ++ [⟨stored, .store v.zero v.counter long⟩]) high) ∧
      CopyCode M b v elem long newData oldData capacity := by
  have hbefore : m.Evolves m' := Build.evolves hrun
  unfold copyElements at hrun
  obtain ⟨⟨⟩, m₁, hstored, hrun₁⟩ := bind_eq_ok_iff.1 hrun
  obtain ⟨stored, void, hdraft₁, _, -⟩ := hdraft.store hstored
  obtain ⟨⟨⟩, m₂, hjump, hrun₂⟩ := bind_eq_ok_iff.1 hrun₁
  obtain ⟨hallocCode, _, hallocOrder, hblanks₂⟩ := hdraft₁.finish hjump
  obtain ⟨⟨⟩, m₃, hcond, hrun₃⟩ := bind_eq_ok_iff.1 hrun₂
  obtain ⟨hdraft₃, _, hsize₃⟩ := hblanks₂.take hcond
  obtain ⟨i, m₄, hi, hrun₄⟩ := bind_eq_ok_iff.1 hrun₃
  obtain ⟨hdraft₄, _, _⟩ := hdraft₃.load hi
  obtain ⟨more, m₅, hmore, hrun₅⟩ := bind_eq_ok_iff.1 hrun₄
  obtain ⟨bool, ⟨hdraft₅, _, _⟩, _⟩ := hdraft₄.icmp hmore
  obtain ⟨⟨⟩, m₆, hbranch, hrun₆⟩ := bind_eq_ok_iff.1 hrun₅
  obtain ⟨hcondCode, _, hcondOrder, hblanks₆⟩ := hdraft₅.condBr hbranch
  obtain ⟨⟨⟩, m₇, hbody, hrun₇⟩ := bind_eq_ok_iff.1 hrun₆
  obtain ⟨hdraft₇, _, hsize₇⟩ := hblanks₆.take hbody
  obtain ⟨source, m₈, hsource, hrun₈⟩ := bind_eq_ok_iff.1 hrun₇
  obtain ⟨hdraft₈, _, _⟩ := hdraft₇.gep hsource
  obtain ⟨moved, m₉, hmoved, hrun₉⟩ := bind_eq_ok_iff.1 hrun₈
  obtain ⟨hdraft₉, _, _⟩ := hdraft₈.load hmoved
  obtain ⟨target, m₁₀, htarget, hrun₁₀⟩ := bind_eq_ok_iff.1 hrun₉
  obtain ⟨hdraft₁₀, _, _⟩ := hdraft₉.gep htarget
  obtain ⟨⟨⟩, m₁₁, hcopied, hrun₁₁⟩ := bind_eq_ok_iff.1 hrun₁₀
  obtain ⟨copied, void', hdraft₁₁, _, -⟩ := hdraft₁₀.store hcopied
  obtain ⟨next, m₁₂, hnext, hrun₁₂⟩ := bind_eq_ok_iff.1 hrun₁₁
  obtain ⟨hdraft₁₂, _, _⟩ := hdraft₁₁.binary rfl hnext
  obtain ⟨⟨⟩, m₁₃, hcounted, hback⟩ := bind_eq_ok_iff.1 hrun₁₂
  obtain ⟨counted, void'', hdraft₁₃, _, -⟩ := hdraft₁₂.store hcounted
  obtain ⟨hbodyCode, _, hbodyOrder, hblanks'⟩ := hdraft₁₃.finish hback
  refine ⟨⟨hbefore⟩, hblanks', fun {M} hM => ?_⟩
  have : m'.Before M := ⟨hM⟩
  exact ⟨⟨stored, _, inferInstance, hallocOrder⟩, i, more, listing_of_hasCode hcondOrder, source,
    moved, target, copied, next, counted, listing_of_hasCode hbodyOrder⟩

theorem freeBuffer_writes {buffer : ValueId} [m.KnownTo c ns] [m.Describes elemPtr (.pointer elem)]
    [hbuffer : m.Result buffer elemPtr] (hdraft : m.Draft low blk code rest)
    (hrun : freeBuffer buffer ⟨c, ns, m, p⟩ = .ok ((), s')) :
    ∃ c' m' free raw extra freed, s' = ⟨c', ns, m', p⟩ ∧ m.Before m' ∧ m'.KnownTo c' ns ∧
      m'.Bears free "free" ∧ Draft.Converts extra buffer raw ∧
      m'.Draft low blk (code ++ extra ++ [⟨freed, .call free [raw]⟩]) rest := by
  unfold freeBuffer at hrun
  obtain ⟨bytes, m₁, hbytes, hrun₁⟩ := bind_build hrun
  obtain ⟨byte, h₁, _, hblocks, hposition⟩ := describes_of_bytePointer hbytes
  have hdraft₁ := hdraft.of_blocks_eq h₁.evolves hblocks hposition
  obtain ⟨raw, m₂, hraw, hrun₂⟩ := bind_build hrun₁
  have hpointer : m₁.Describes elemPtr (.pointer elem) := inferInstance
  obtain ⟨extra, hextra, hdraft₂, h₂, _⟩ := hdraft₁.bitcast hpointer.get hraw
  obtain ⟨free, c', m₃, hrun₃, h₃, _, _, hblocks', hposition'⟩ := bind_support hrun₂
  have hdraft₃ := hdraft₂.of_blocks_eq h₃.evolves hblocks' hposition'
  obtain ⟨answer, m₄, hcall, rfl⟩ := discard_build hrun₃
  obtain ⟨freed, ret, d, t, ⟨hdraft₄, h₄, _⟩, -⟩ := hdraft₃.call hcall
  have hbefore : m.Evolves m₄ :=
    (h₁.evolves.trans h₂.evolves).trans (h₃.evolves.trans h₄.evolves)
  exact ⟨c', m₄, free, raw, extra, freed, rfl, ⟨hbefore⟩, inferInstance, inferInstance, hextra,
    hdraft₄⟩

theorem replaceBuffer_writes [m.KnownTo c ns] [v.Typed m ty elem elemPtr long]
    [m.Describes long (.int 64)] [m.Describes elemPtr (.pointer elem)] [m.Result newData elemPtr]
    [m.Result oldData elemPtr] [m.Result capacity long]
    (hblanks : m.Blanks (b.copyDone :: b.freeOld :: b.commit :: rest))
    (hrun : replaceBuffer b v newData oldData capacity ⟨c, ns, m, p⟩ = .ok ((), s')) :
    ∃ c' m', s' = ⟨c', ns, m', p⟩ ∧ m.Before m' ∧ m'.Blanks rest ∧
      ∀ {M : Module}, m'.Evolves M → ReplaceCode M b v elemPtr long newData oldData capacity := by
  have hknown : Lowering.Known ⟨c, ns, m, p⟩ := KnownTo.known
  have hlater : m.Evolves s'.module := (Stepwise.later hknown hrun).module
  unfold replaceBuffer at hrun
  obtain ⟨⟨⟩, m₁, hdone, hrun₁⟩ := bind_build hrun
  obtain ⟨hdraft₁, _, hsize₁⟩ := hblanks.take hdone
  obtain ⟨hadBuffer, m₂, hhadBuffer, hrun₂⟩ := bind_build hrun₁
  obtain ⟨bool, ⟨hdraft₂, _, _⟩, _⟩ := hdraft₁.icmp hhadBuffer
  obtain ⟨⟨⟩, m₃, hbranch, hrun₃⟩ := bind_build hrun₂
  obtain ⟨hdoneCode, _, hdoneOrder, hblanks₃⟩ := hdraft₂.condBr hbranch
  obtain ⟨⟨⟩, m₄, hfree, hrun₄⟩ := bind_build hrun₃
  obtain ⟨hdraft₄, _, hsize₄⟩ := hblanks₃.take hfree
  obtain ⟨⟨⟩, s₅, hfreed, hrun₅⟩ := bind_eq_ok_iff.1 hrun₄
  obtain ⟨c', m₅, free, raw, extra, freed, rfl, _, _, _, hextra, hdraft₅⟩ :=
    freeBuffer_writes hdraft₄ hfreed
  obtain ⟨⟨⟩, m₆, hjump, hrun₆⟩ := bind_build hrun₅
  obtain ⟨hfreeCode, _, hfreeOrder, hblanks₆⟩ := hdraft₅.finish hjump
  obtain ⟨⟨⟩, m₇, hcommit, hrun₇⟩ := bind_build hrun₆
  obtain ⟨hdraft₇, _, hsize₇⟩ := hblanks₆.take hcommit
  obtain ⟨⟨⟩, m₈, hdata, hrun₈⟩ := bind_build hrun₇
  obtain ⟨stored, void, hdraft₈, _, -⟩ := hdraft₇.store hdata
  obtain ⟨⟨⟩, m₉, hcapacity, hrun₉⟩ := bind_build hrun₈
  obtain ⟨stored', void', hdraft₉, _, -⟩ := hdraft₈.store hcapacity
  obtain ⟨m₁₀, hjump', rfl⟩ := build_eq_ok_iff.1 hrun₉
  obtain ⟨hcommitCode, _, hcommitOrder, hblanks'⟩ := hdraft₉.finish hjump'
  refine ⟨c', m₁₀, rfl, ⟨hlater⟩, hblanks', fun {M} hM => ?_⟩
  have : m₁₀.Before M := ⟨hM⟩
  exact ⟨⟨hadBuffer, listing_of_hasCode hdoneOrder⟩, ⟨free, raw, extra, freed, Bears.function,
    hextra, listing_of_hasCode hfreeOrder⟩, stored, stored', listing_of_hasCode hcommitOrder⟩

theorem storeElement_writes [v.Typed m ty elem elemPtr long] [m.Describes long (.int 64)]
    [m.Describes elemPtr (.pointer elem)] (hblanks : m.Blanks (b.push :: rest))
    (hrun : storeElement b v m = .ok ((), m')) (hM : m'.Evolves M) :
    StoreCode M b v elem elemPtr long := by
  unfold storeElement at hrun
  obtain ⟨⟨⟩, m₁, hpush, hrun₁⟩ := bind_eq_ok_iff.1 hrun
  obtain ⟨hdraft₁, _, hsize₁⟩ := hblanks.take hpush
  obtain ⟨buffer, m₂, hbuffer, hrun₂⟩ := bind_eq_ok_iff.1 hrun₁
  obtain ⟨hdraft₂, _, _⟩ := hdraft₁.load hbuffer
  obtain ⟨slot, m₃, hslot, hrun₃⟩ := bind_eq_ok_iff.1 hrun₂
  obtain ⟨hdraft₃, _, _⟩ := hdraft₂.gep hslot
  obtain ⟨⟨⟩, m₄, hstored, hrun₄⟩ := bind_eq_ok_iff.1 hrun₃
  obtain ⟨stored, void, hdraft₄, _, -⟩ := hdraft₃.store hstored
  obtain ⟨grown, m₅, hgrown, hrun₅⟩ := bind_eq_ok_iff.1 hrun₄
  obtain ⟨hdraft₅, _, _⟩ := hdraft₄.binary rfl hgrown
  obtain ⟨⟨⟩, m₆, hstored', hrun₆⟩ := bind_eq_ok_iff.1 hrun₅
  obtain ⟨stored', void', hdraft₆, _, -⟩ := hdraft₅.store hstored'
  obtain ⟨hpushCode, _, hpushOrder, -⟩ := hdraft₆.finish hrun₆
  have : m'.Before M := ⟨hM⟩
  exact ⟨inferInstance, buffer, slot, stored, grown, stored', listing_of_hasCode hpushOrder⟩

/-- The blocks are made, and the operator starts in the first one. -/
theorem appendBlocks_writes {params : List (ValueId × TypeId)} (hf : m.Awaits f params)
    (hrun : appendBlocks f m = .ok (b, m')) :
    m.Before m' ∧ m'.StartsAt f b.entry ∧ m'.Blanks b.all := by
  have hbefore : m.Evolves m' := Build.evolves hrun
  unfold appendBlocks at hrun
  obtain ⟨entry, m₁, hentry, hrun₁⟩ := bind_eq_ok_iff.1 hrun
  have := hf.startsAt hentry
  obtain ⟨hblanks₁, _⟩ := (Blanks.nil m).appendBlock hentry
  obtain ⟨grow, m₂, hgrow, hrun₂⟩ := bind_eq_ok_iff.1 hrun₁
  obtain ⟨hblanks₂, _⟩ := hblanks₁.appendBlock hgrow
  obtain ⟨first, m₃, hfirst, hrun₃⟩ := bind_eq_ok_iff.1 hrun₂
  obtain ⟨hblanks₃, _⟩ := hblanks₂.appendBlock hfirst
  obtain ⟨double, m₄, hdouble, hrun₄⟩ := bind_eq_ok_iff.1 hrun₃
  obtain ⟨hblanks₄, _⟩ := hblanks₃.appendBlock hdouble
  obtain ⟨alloc, m₅, halloc, hrun₅⟩ := bind_eq_ok_iff.1 hrun₄
  obtain ⟨hblanks₅, _⟩ := hblanks₄.appendBlock halloc
  obtain ⟨copyCond, m₆, hcond, hrun₆⟩ := bind_eq_ok_iff.1 hrun₅
  obtain ⟨hblanks₆, _⟩ := hblanks₅.appendBlock hcond
  obtain ⟨copyBody, m₇, hbody, hrun₇⟩ := bind_eq_ok_iff.1 hrun₆
  obtain ⟨hblanks₇, _⟩ := hblanks₆.appendBlock hbody
  obtain ⟨copyDone, m₈, hdone, hrun₈⟩ := bind_eq_ok_iff.1 hrun₇
  obtain ⟨hblanks₈, _⟩ := hblanks₇.appendBlock hdone
  obtain ⟨freeOld, m₉, hfree, hrun₉⟩ := bind_eq_ok_iff.1 hrun₈
  obtain ⟨hblanks₉, _⟩ := hblanks₈.appendBlock hfree
  obtain ⟨commit, m₁₀, hcommit, hrun₁₀⟩ := bind_eq_ok_iff.1 hrun₉
  obtain ⟨hblanks₁₀, _⟩ := hblanks₉.appendBlock hcommit
  obtain ⟨push, m₁₁, hpush, hend⟩ := bind_eq_ok_iff.1 hrun₁₀
  obtain ⟨hblanks₁₁, _⟩ := hblanks₁₀.appendBlock hpush
  cases hend
  exact ⟨⟨hbefore⟩, inferInstance, hblanks₁₁⟩

/-- The code of the operator for appending. -/
structure AppendCode (m : Module) (b : AppendBlocks) (v : AppendValues) (elemSize : Int64)
    (ty elem elemPtr long : TypeId) : Prop where
  entry : EntryCode m b v ty long
  growth : ∃ four doubled capacity newData oldData, CapacityCode m b v long four doubled ∧
    BufferCode m b v elemPtr long elemSize four doubled capacity newData oldData ∧
    CopyCode m b v elem long newData oldData capacity ∧
    ReplaceCode m b v elemPtr long newData oldData capacity
  store : StoreCode m b v elem elemPtr long

/-- Lowering makes the code of the operator for appending. -/
theorem exists_appendCode {array value : ValueId} {size : Nat} [m.KnownTo c ns]
    [m.Describes ty (.named name (some [elemPtr, long, long]))] [m.Describes elemPtr (.pointer elem)]
    [m.Describes long (.int 64)] [m.Describes ref (.pointer ty)]
    (hf : m.Awaits f [(array, ref), (value, elem)])
    (hrun : appendBody f elem ⟨c, ns, m, p⟩ = .ok ((), s')) (hM : s'.module.Evolves M)
    (hcalloc : M.Allocates) (hcomplete : m.types.IsComplete elem)
    (hsize : m.types.sizeOf elem = .ok size) :
    ∃ b v, v.array = array ∧ v.value = value ∧ M.Runnable f b.entry [array, value] ∧
      AppendCode M b v (sizeWord (max size 1)) ty elem elemPtr long := by
  have hknown : Lowering.Known ⟨c, ns, m, p⟩ := KnownTo.known
  have hlater : m.Evolves M := (Stepwise.later hknown hrun).module.trans hM
  unfold appendBody at hrun
  obtain ⟨long', m₁, hlong, hrun₁⟩ := bind_build hrun
  obtain ⟨rfl, _⟩ := Build.eq_of_internType long rfl rfl hlong
  have hf₁ : m₁.Awaits f [(array, ref), (value, elem)] :=
    hf.mono (Build.evolves hlong) (by cases hlong; rfl)
  obtain ⟨elemPtr', m₂, helemPtr, hrun₂⟩ := bind_build hrun₁
  obtain ⟨rfl, _⟩ := Build.eq_of_internType elemPtr rfl rfl helemPtr
  have hf₂ : m₂.Awaits f [(array, ref), (value, elem)] :=
    hf₁.mono (Build.evolves helemPtr) (by cases helemPtr; rfl)
  obtain ⟨elemSize, m₃, helemSize, hrun₃⟩ := bind_build hrun₂
  obtain ⟨hsame, size', hsize', rfl⟩ := eq_of_allocationSize helemSize
  have htypes := ((Build.evolves hlong : m.Evolves m₁).trans (Build.evolves helemPtr)).types
  obtain rfl := Except.ok.inj ((hcomplete.sizeOf_eq htypes hsize).symm.trans hsize')
  cases hsame
  obtain ⟨b, m₄, hb, hrun₄⟩ := bind_build hrun₃
  obtain ⟨_, _, hblanks₄⟩ := appendBlocks_writes hf₂ hb
  have hapart : b.first ≠ b.double := by
    have := hblanks₄.nodup
    simp only [AppendBlocks.all, List.nodup_cons, List.mem_cons, not_or] at this
    exact this.2.2.1.1
  have := hf₂.receives
  have := hf₂.result (i := 0) rfl
  have := hf₂.result (i := 1) rfl
  obtain ⟨v, m₅, hv, hrun₅⟩ := bind_build hrun₄
  obtain ⟨h₅, hblanks₅, _, harray, hvalue, hentry⟩ := appendEntry_writes (f := f) hblanks₄ hv
  obtain ⟨capacity, m₆, hcapacity, hrun₆⟩ := bind_build hrun₅
  obtain ⟨four, doubled, low, h₆, _, hdraft₆, hlow, hgrow⟩ :=
    newCapacity_writes hapart hblanks₅ hcapacity
  obtain ⟨newData, s₇, hnewData, hrun₇⟩ := bind_eq_ok_iff.1 hrun₆
  have hknown₆ : Lowering.Known ⟨c, ns, m₆, p⟩ := KnownTo.known
  have hlater₇ := Stepwise.later hknown₆ hnewData
  obtain ⟨c', m₇, calloc, size', raw, extra, rfl, h₇, _, _, _, _, hextra, hdraft₇⟩ :=
    newBuffer_writes hdraft₆ hnewData
      ((Stepwise.later (hlater₇.known hknown₆) hrun₇).module.trans hM) hcalloc
  obtain ⟨oldData, m₈, holdData, hrun₈⟩ := bind_build hrun₇
  obtain ⟨hdraft₈, h₈, _⟩ := hdraft₇.load holdData
  obtain ⟨⟨⟩, m₉, hcopy, hrun₉⟩ := bind_build hrun₈
  obtain ⟨h₉, hblanks₉, hcopied⟩ := copyElements_writes capacity hdraft₈ hcopy
  obtain ⟨⟨⟩, s₁₀, hreplace, hrun₁₀⟩ := bind_eq_ok_iff.1 hrun₉
  obtain ⟨c'', m₁₀, rfl, h₁₀, hblanks₁₀, hreplaced⟩ := replaceBuffer_writes hblanks₉ hreplace
  obtain ⟨m₁₁, hstore, rfl⟩ := build_eq_ok_iff.1 hrun₁₀
  -- All parts are there in every later module.
  have hM₁₀ : m₁₀.Evolves M := (Build.evolves hstore).trans hM
  have hM₉ : m₉.Evolves M := h₁₀.evolves.trans hM₁₀
  have hM₇ : m₇.Evolves M := h₈.evolves.trans (h₉.evolves.trans hM₉)
  have hM₆ : m₆.Evolves M := h₇.evolves.trans hM₇
  have : m₇.Before M := ⟨hM₇⟩
  obtain ⟨⟨stored, high, hcode, hascends⟩, hcopyCode⟩ := hcopied hM₉
  have hbuffer : BufferCode M b v elemPtr long (sizeWord (max size 1)) four doubled capacity
      newData oldData :=
    ⟨calloc, size', raw, extra, stored, Bears.function, inferInstance, hextra,
      by simpa using hcode, low, high, hlow, by simpa using hascends⟩
  exact ⟨b, v, harray, hvalue, hf.runnable hlater, hentry (h₆.evolves.trans hM₆), ⟨four, doubled,
    capacity, newData, oldData, hgrow hM₆, hbuffer, hcopyCode, hreplaced hM₁₀⟩,
    storeElement_writes hblanks₁₀ hstore hM⟩

end

/-! ### Deletion -/

/-- The values that the blocks of the operator for deletion share. -/
structure DeleteValues where
  /-- The array. -/
  array : ValueId
  /-- The place of the buffer. -/
  dataPtr : ValueId
  /-- The place of the number of elements. -/
  lengthPtr : ValueId
  /-- The place of the capacity. -/
  capacityPtr : ValueId
  /-- The capacity before. -/
  capacity : ValueId
  /-- The constant zero. -/
  zero : ValueId

/-- The shared values that are not constant. -/
def DeleteValues.shared (v : DeleteValues) : List ValueId :=
  [v.array, v.dataPtr, v.lengthPtr, v.capacityPtr, v.capacity]

/-- The code of the operator for deletion. -/
structure DeleteCode (m : Module) (entry freeBlock reset : BlockId) (v : DeleteValues)
    (ty elemPtr long : TypeId) : Prop where
  zero : m.Literal v.zero long (.int 0)
  entry : ∃ hadBuffer, m.Listing entry [v.array]
    [⟨v.dataPtr, .field v.array ty 0⟩, ⟨v.lengthPtr, .field v.array ty 1⟩,
      ⟨v.capacityPtr, .field v.array ty 2⟩, ⟨v.capacity, .load v.capacityPtr long⟩,
      ⟨hadBuffer, .icmp .ne v.capacity v.zero⟩]
    (.condBr hadBuffer freeBlock reset)
  freeBlock : ∃ buffer free raw extra freed, m.functionByName? "free" = some free ∧
    Draft.Converts extra buffer raw ∧
    m.Listing freeBlock v.shared
      (⟨buffer, .load v.dataPtr elemPtr⟩ :: (extra ++ [⟨freed, .call free [raw]⟩])) (.br reset)
  reset : ∃ null stored stored' stored'', m.Literal null elemPtr .null ∧
    m.Listing reset v.shared
      [⟨stored, .store null v.dataPtr elemPtr⟩, ⟨stored', .store v.zero v.lengthPtr long⟩,
        ⟨stored'', .store v.zero v.capacityPtr long⟩]
      (.ret none)

/-- Lowering makes the code of the operator for deletion. -/
theorem exists_deleteCode {array : ValueId} [m.KnownTo c ns]
    [m.Describes ty (.named name (some [elemPtr, long, long]))] [m.Describes elemPtr (.pointer elem)]
    [m.Describes long (.int 64)] [m.Describes ref (.pointer ty)] (hf : m.Awaits f [(array, ref)])
    (hrun : deleteBody f ⟨c, ns, m, p⟩ = .ok ((), s')) (hM : s'.module.Evolves M) :
    ∃ entry freeBlock reset v, v.array = array ∧ M.Runnable f entry [array] ∧
      DeleteCode M entry freeBlock reset v ty elemPtr long := by
  have hknown : Lowering.Known ⟨c, ns, m, p⟩ := KnownTo.known
  have hlater : m.Evolves M := (Stepwise.later hknown hrun).module.trans hM
  unfold deleteBody at hrun
  obtain ⟨long', m₁, hlong, hrun₁⟩ := bind_build hrun
  obtain ⟨rfl, _⟩ := Build.eq_of_internType long rfl rfl hlong
  have hf₁ : m₁.Awaits f [(array, ref)] := hf.mono (Build.evolves hlong) (by cases hlong; rfl)
  obtain ⟨entry, m₂, hentry, hrun₂⟩ := bind_build hrun₁
  have := hf₁.startsAt hentry
  have := hf₁.receives
  have := hf₁.result (i := 0) rfl
  obtain ⟨hblanks₂, _⟩ := (Blanks.nil m₁).appendBlock hentry
  obtain ⟨freeBlock, m₃, hfree, hrun₃⟩ := bind_build hrun₂
  obtain ⟨hblanks₃, _⟩ := hblanks₂.appendBlock hfree
  obtain ⟨reset, m₄, hreset, hrun₄⟩ := bind_build hrun₃
  obtain ⟨hblanks₄, _⟩ := hblanks₃.appendBlock hreset
  obtain ⟨⟨⟩, m₅, htake, hrun₅⟩ := bind_build hrun₄
  obtain ⟨hdraft₅, _, hsize₅⟩ := hblanks₄.take htake
  obtain ⟨array', m₆, harray, hrun₆⟩ := bind_build hrun₅
  obtain ⟨rfl, rfl⟩ := eq_of_param (f := f) (i := 0) rfl harray
  obtain ⟨dataPtr, m₇, hdataPtr, hrun₇⟩ := bind_build hrun₆
  obtain ⟨p₇, ⟨hdraft₇, _, _⟩, _⟩ := hdraft₅.structGep rfl rfl hdataPtr
  obtain ⟨lengthPtr, m₈, hlengthPtr, hrun₈⟩ := bind_build hrun₇
  obtain ⟨p₈, ⟨hdraft₈, _, _⟩, _⟩ := hdraft₇.structGep rfl rfl hlengthPtr
  obtain ⟨capacityPtr, m₉, hcapacityPtr, hrun₉⟩ := bind_build hrun₈
  obtain ⟨p₉, ⟨hdraft₉, _, _⟩, _⟩ := hdraft₈.structGep rfl rfl hcapacityPtr
  obtain ⟨capacity, m₁₀, hcapacity, hrun₁₀⟩ := bind_build hrun₉
  obtain ⟨hdraft₁₀, _, _⟩ := hdraft₉.load hcapacity
  obtain ⟨zero, m₁₁, hzero, hrun₁₁⟩ := bind_build hrun₁₀
  have hdraft₁₁ := hdraft₁₀.aside hzero
  obtain ⟨_, _⟩ := Build.literal_of_constInt hzero
  obtain ⟨hadBuffer, m₁₂, hhadBuffer, hrun₁₂⟩ := bind_build hrun₁₁
  obtain ⟨bool, ⟨hdraft₁₂, _, _⟩, _⟩ := hdraft₁₁.icmp hhadBuffer
  obtain ⟨⟨⟩, m₁₃, hbranch, hrun₁₃⟩ := bind_build hrun₁₂
  obtain ⟨hentryCode, _, hentryOrder, hblanks₁₃⟩ := hdraft₁₂.condBr hbranch
  -- The block that gives back the buffer.
  obtain ⟨⟨⟩, m₁₄, htake', hrun₁₄⟩ := bind_build hrun₁₃
  obtain ⟨hdraft₁₄, _, hsize₁₄⟩ := hblanks₁₃.take htake'
  obtain ⟨buffer, m₁₅, hbuffer, hrun₁₅⟩ := bind_build hrun₁₄
  obtain ⟨hdraft₁₅, _, _⟩ := hdraft₁₄.load hbuffer
  obtain ⟨⟨⟩, s₁₆, hfreed, hrun₁₆⟩ := bind_eq_ok_iff.1 hrun₁₅
  obtain ⟨c', m₁₆, free, raw, extra, freed, rfl, _, _, _, hextra, hdraft₁₆⟩ :=
    freeBuffer_writes hdraft₁₅ hfreed
  obtain ⟨⟨⟩, m₁₇, hjump, hrun₁₇⟩ := bind_build hrun₁₆
  obtain ⟨hfreeCode, _, hfreeOrder, hblanks₁₇⟩ := hdraft₁₆.finish hjump
  -- The block that leaves an empty array.
  obtain ⟨⟨⟩, m₁₈, htake'', hrun₁₈⟩ := bind_build hrun₁₇
  obtain ⟨hdraft₁₈, _, hsize₁₈⟩ := hblanks₁₇.take htake''
  obtain ⟨bufferTy, m₁₉, hbufferTy, hrun₁₉⟩ := bind_build hrun₁₈
  have htype : Build.typeOf buffer m₁₈ = .ok (elemPtr, m₁₈) := Build.typeOf_of_typed
  cases htype.symm.trans hbufferTy
  obtain ⟨null, m₂₀, hnull, hrun₂₀⟩ := bind_build hrun₁₉
  have hdraft₂₀ := hdraft₁₈.aside hnull
  obtain ⟨_, _⟩ := Build.literal_of_constNull hnull
  obtain ⟨⟨⟩, m₂₁, hstored, hrun₂₁⟩ := bind_build hrun₂₀
  obtain ⟨stored, void, hdraft₂₁, _, -⟩ := hdraft₂₀.store hstored
  obtain ⟨⟨⟩, m₂₂, hstored', hrun₂₂⟩ := bind_build hrun₂₁
  obtain ⟨stored', void', hdraft₂₂, _, -⟩ := hdraft₂₁.store hstored'
  obtain ⟨⟨⟩, m₂₃, hstored'', hrun₂₃⟩ := bind_build hrun₂₂
  obtain ⟨stored'', void'', hdraft₂₃, _, -⟩ := hdraft₂₂.store hstored''
  obtain ⟨m₂₄, hret, rfl⟩ := build_eq_ok_iff.1 hrun₂₃
  obtain ⟨hresetCode, _, hresetOrder, -⟩ := hdraft₂₃.finish hret
  have : m₂₄.Before M := ⟨hM⟩
  let v : DeleteValues := ⟨array, dataPtr, lengthPtr, capacityPtr, capacity, zero⟩
  have : m₁₃.Older v.shared :=
    inferInstanceAs (m₁₃.Older [array, dataPtr, lengthPtr, capacityPtr, capacity])
  have : m₁₇.Older v.shared :=
    inferInstanceAs (m₁₇.Older [array, dataPtr, lengthPtr, capacityPtr, capacity])
  refine ⟨entry, freeBlock, reset, v, rfl, hf.runnable hlater, ⟨?_, ?_, ?_, ?_⟩⟩
  · exact inferInstance
  · exact ⟨hadBuffer, listing_of_hasCode hentryOrder⟩
  · exact ⟨buffer, free, raw, extra, freed, Bears.function, hextra,
      listing_of_hasCode hfreeOrder⟩
  · exact ⟨null, stored, stored', stored'', inferInstance, listing_of_hasCode hresetOrder⟩

end DynamicArray

end SsaCompiler
