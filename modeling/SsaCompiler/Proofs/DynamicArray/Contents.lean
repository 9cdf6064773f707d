/-
# What a dynamic array holds

An array in memory represents a list: its three fields are the buffer, the number of elements and
the number of elements that there is room for, and the buffer is a block of the heap that holds
the elements one behind the other. The changes that the operators make to memory are described
here apart from the code that makes them.
-/

import SsaCompiler.Lower.DynamicArray
import SsaCompiler.Proofs.Ir.Containment
import SsaCompiler.Proofs.Machine.Allocation

namespace SsaCompiler

/-! ### Layout -/

/-- The types of a dynamic array: a structure of a buffer and two numbers. -/
structure TypeTable.HasArray (t : TypeTable) (ty elem elemPtr long : TypeId) (size : Nat) :
    Prop where
  array : ∃ name, t.get ty = .ok (.named name (some [elemPtr, long, long]))
  elemPtr : t.get elemPtr = .ok (.pointer elem)
  long : t.get long = .ok (.int 64)
  sizeOf : t.sizeOf elem = .ok size

namespace TypeTable

variable {t : TypeTable} {ty elem elemPtr long : TypeId} {size align : Nat} {kind : IrType}

/-- The alignment of a type without parts. -/
theorem alignOf_flat (hty : t.get ty = .ok kind) (hshape : kind.shape = .flat align size) :
    t.alignOf ty = .ok align := by
  rw [alignOf, alignWithin_succ, hty]
  change kind.shape.align _ = _
  rw [hshape]
  rfl

/-- A type that takes one word. -/
def IsWord (t : TypeTable) (ty : TypeId) : Prop := t.alignOf ty = .ok 8 ∧ t.sizeOf ty = .ok 8

/-- A field of one word starts right behind whole words. -/
theorem IsWord.fieldStart {n : Nat} (h : t.IsWord ty) (hn : n * 8 < wordRange) :
    t.fieldStart (n * 8) ty = .ok (n * 8) := by
  have hplace : alignTo (n * 8) 8 = n * 8 := by
    unfold alignTo
    rw [if_neg (by decide)]
    omega
  rw [TypeTable.fieldStart, h.1]
  change Checked.word (alignTo (n * 8) 8) = _
  rw [hplace]
  exact Checked.word_eq_ok_iff.2 ⟨hn, rfl⟩

/-- Fields of one word each lie one behind the other. -/
theorem fieldsEnd_of_isWord {fields : List TypeId} {n : Nat} (h : ∀ field ∈ fields, t.IsWord field)
    (hn : (n + fields.length) * 8 < wordRange) :
    t.fieldsEnd (n * 8) fields = .ok ((n + fields.length) * 8) := by
  induction fields generalizing n with
  | nil => rfl
  | cons field rest ih =>
      rw [List.length_cons] at hn ⊢
      have hfield := h field List.mem_cons_self
      have hend : t.fieldEnd (n * 8) field = .ok ((n + 1) * 8) :=
        fieldEnd_eq_ok_iff.2 ⟨8, hfield.2, by omega, by omega⟩
      rw [fieldsEnd, hfield.fieldStart (by omega)]
      change (t.fieldEnd (n * 8) field >>= fun stop => t.fieldsEnd stop rest) = _
      rw [hend]
      change t.fieldsEnd ((n + 1) * 8) rest = _
      rw [ih (fun f hf => h f (List.mem_cons_of_mem _ hf)) (by omega)]
      congr 2
      omega

namespace HasArray

variable (h : t.HasArray ty elem elemPtr long size)

include h

theorem isWord_long : t.IsWord long := ⟨alignOf_flat h.long rfl, sizeOf_flat h.long rfl⟩

theorem isWord_elemPtr : t.IsWord elemPtr := ⟨alignOf_flat h.elemPtr rfl, sizeOf_flat h.elemPtr rfl⟩

/-- Any word is a `long`. -/
theorem conforms_long (i : Int64) : t.Conforms long (.int i) :=
  .int h.long (by simp [normalizeInt])

/-- Any address is one of an element. -/
theorem conforms_elemPtr (a : UInt64) : t.Conforms elemPtr (.ptr a) := .address h.elemPtr rfl

/-- Each field takes one word. -/
theorem fieldOffset_eq {index : Nat} (hindex : index < 3) :
    t.fieldOffset ty index = .ok (some (index * 8)) := by
  obtain ⟨name, harray⟩ := h.array
  have hwords : ∀ field ∈ [elemPtr, long, long], t.IsWord field := by
    simp [h.isWord_elemPtr, h.isWord_long]
  have hfield : [elemPtr, long, long][index]? = some [elemPtr, long, long][index] :=
    List.getElem?_eq_getElem _
  have hlength : ([elemPtr, long, long].take index).length = index := by
    rw [List.length_take]
    exact Nat.min_eq_left (Nat.le_of_lt hindex)
  have hend : t.fieldsEnd 0 ([elemPtr, long, long].take index) = .ok (index * 8) := by
    have := fieldsEnd_of_isWord (n := 0) (fun field hmem => hwords field (List.mem_of_mem_take hmem))
      (by rw [hlength]; simp only [wordRange]; omega)
    rwa [hlength, Nat.zero_add, Nat.zero_mul] at this
  have hstart := (hwords _ (List.getElem_mem hindex)).fieldStart (n := index)
    (by simp only [wordRange]; omega)
  have hfields : (IrType.named name (some [elemPtr, long, long])).fields? =
      some [elemPtr, long, long] := rfl
  simp only [fieldOffset, harray, bind, Except.bind, hfields, hfield, hend, hstart]
  rfl

end HasArray

end TypeTable

namespace DynamicArray

open Memory

variable {t : TypeTable} {ty elem elemPtr long : TypeId} {size capacity i n mark : Nat}
  {m m' : Memory} {a data : UInt64} {l : List Val} {v : Val}

/-! ### Addresses -/

/-- The address of a field of an array. -/
def fieldAt (a : UInt64) (index : Nat) : UInt64 := UInt64.ofNat (a.toNat + index * 8)

/-- The address of an element in a buffer. -/
def slot (data : UInt64) (size i : Nat) : UInt64 := data + UInt64.ofNat i * UInt64.ofNat size

/-- An address that does not leave the address space. -/
theorem toNat_fieldAt (h : a.toNat + i * 8 < wordRange) :
    (fieldAt a i).toNat = a.toNat + i * 8 := UInt64.toNat_ofNat_of_lt' h

/-- The address that the machine computes for a field. -/
theorem addressPlus_field (hroom : m.HasRoom a.toNat (a.toNat + 24)) (hi : i < 3) :
    addressPlus a (i * 8) = .ok (fieldAt a i) := by
  obtain ⟨_, -, -, hword, -⟩ := hroom
  exact answer_bind_eq_ok_iff.2 ⟨_, Checked.word_eq_ok_iff.2 ⟨by omega, rfl⟩, rfl⟩

/-- An element that does not leave the address space. -/
theorem toNat_slot (h : data.toNat + i * size < wordRange) :
    (slot data size i).toNat = data.toNat + i * size := by
  have hproduct : UInt64.ofNat i * UInt64.ofNat size = UInt64.ofNat (i * size) :=
    (UInt64.ofNat_mul i size).symm
  rw [slot, hproduct, UInt64.toNat_add, UInt64.toNat_ofNat_of_lt' (by change _ < wordRange; omega)]
  exact Nat.mod_eq_of_lt h

/-- The address that the machine computes for an element. -/
theorem element_eq_slot (data : UInt64) (size i : Nat) :
    data + (Int64.ofNat i).toUInt64 * UInt64.ofNat size = slot data size i := by
  rw [Int64.toUInt64_ofNat', slot]

/-! ### Buffers -/

/-- A place on the heap for a number of elements. -/
structure IsBuffer (m : Memory) (data : UInt64) (size capacity : Nat) : Prop where
  heap : heapBase ≤ data.toNat
  fits : data.toNat + capacity * max size 1 ≤ heapBase + m.heap.size

/-- The elements of a list, one behind the other. -/
def HoldsItems (t : TypeTable) (elem : TypeId) (size : Nat) (m : Memory) (data : UInt64)
    (l : List Val) : Prop :=
  ∀ i v, l[i]? = some v → m.Contains t (slot data size i) elem size v

/-- What a number of elements takes is part of the buffer. -/
theorem items_le (hi : i ≤ capacity) : i * size ≤ capacity * max size 1 :=
  Nat.mul_le_mul hi (Nat.le_max_left size 1)

/-- There is room for each element of a buffer. -/
theorem IsBuffer.hasRoom_slot (h : IsBuffer m data size capacity) (hm : m.IsBounded)
    (hi : i < capacity) : (slot data size i).toNat = data.toNat + i * size ∧
      data.toNat + i * size + size ≤ data.toNat + capacity * max size 1 ∧
      m.HasRoom (slot data size i).toNat ((slot data size i).toNat + size) := by
  have hheap := hm.heap
  have hfits := h.fits
  have hend : (i + 1) * size ≤ capacity * max size 1 := items_le hi
  have hsucc : (i + 1) * size = i * size + size := Nat.succ_mul i size
  have hword : stackBase < wordRange := by decide
  have haddress : (slot data size i).toNat = data.toNat + i * size := toNat_slot (by omega)
  refine ⟨haddress, by omega, false, ?_, ?_, by omega, fun _ => by omega⟩
  · have := h.heap
    change heapBase ≤ _
    omega
  · change _ ≤ heapBase + m.heap.size
    omega

/-- A buffer stays where it is. -/
theorem IsBuffer.of_size_le (h : IsBuffer m data size capacity) (hsize : m.heap.size ≤ m'.heap.size) :
    IsBuffer m' data size capacity :=
  ⟨h.heap, Nat.le_trans h.fits (Nat.add_le_add_left hsize _)⟩

/-- A buffer with elements has few of them. -/
theorem IsBuffer.capacity_lt (h : IsBuffer m data size capacity) (hm : m.IsBounded) :
    capacity < stackBase := by
  have hheap := hm.heap
  have hfits := h.fits
  have hbase : 0 < heapBase := by decide
  have hunit : capacity * 1 ≤ capacity * max size 1 :=
    Nat.mul_le_mul_left capacity (Nat.le_max_right size 1)
  have := h.heap
  omega

namespace HoldsItems

theorem nil (m : Memory) (data : UInt64) : HoldsItems t elem size m data [] :=
  fun i v hi => by cases hi

/-- Each of them is inside of the buffer. -/
theorem slot_bounds (hm : m.IsBounded) (hbuffer : capacity ≠ 0 → IsBuffer m data size capacity)
    (hfits : l.length ≤ capacity) (hi : l[i]? = some v) :
    data.toNat ≤ (slot data size i).toNat ∧
      (slot data size i).toNat + size ≤ data.toNat + capacity * max size 1 ∧
      (slot data size i).toNat + size ≤ stackBase := by
  have hlt : i < capacity := Nat.lt_of_lt_of_le (List.getElem?_eq_some_iff.1 hi).1 hfits
  have hbuffer' := hbuffer (Nat.ne_of_gt (Nat.zero_lt_of_lt hlt))
  obtain ⟨haddress, hend, -⟩ := hbuffer'.hasRoom_slot hm hlt
  have hheap := hm.heap
  have := hbuffer'.fits
  omega

theorem of_changesOnly {lo hi : Nat} (h : HoldsItems t elem size m data l) (hm : m.IsBounded)
    (hbuffer : capacity ≠ 0 → IsBuffer m data size capacity) (hfits : l.length ≤ capacity)
    (hchange : m.ChangesOnly lo hi m')
    (hapart : data.toNat + capacity * max size 1 ≤ lo ∨ hi ≤ data.toNat) :
    HoldsItems t elem size m' data l := fun i v hi' => by
  obtain ⟨hlow, hhigh, -⟩ := slot_bounds hm hbuffer hfits hi'
  exact (h i v hi').of_changesOnly hchange (by omega)

theorem of_retains (h : HoldsItems t elem size m data l) (hretains : m.Retains m')
    (hm' : m'.IsBounded) : HoldsItems t elem size m' data l :=
  fun i v hi => (h i v hi).of_retains hretains hm'

/-- A further element is stored behind them. -/
theorem store (h : HoldsItems t elem size m data l) (hm : m.IsBounded)
    (hbuffer : IsBuffer m data size capacity) (hlt : l.length < capacity)
    (hv : t.Conforms elem v) (hsize : t.sizeOf elem = .ok size) :
    ∃ m', write t (slot data size l.length) elem v m = .ok () m' ∧
      HoldsItems t elem size m' data (l ++ [v]) ∧
      m.ChangesOnly data.toNat (data.toNat + capacity * max size 1) m' := by
  obtain ⟨haddress, hend, hroom⟩ := hbuffer.hasRoom_slot hm hlt
  obtain ⟨m', hwrite, hcontains, hchange⟩ := exists_contains hv hsize hroom
  refine ⟨m', hwrite, fun i w hi => ?_, hchange.mono (by omega) (by omega)⟩
  rcases Nat.lt_trichotomy i l.length with hlt' | rfl | hgt
  · -- The elements before it end where it starts.
    rw [List.getElem?_append_left hlt'] at hi
    have haddress' := (hbuffer.hasRoom_slot hm (Nat.lt_trans hlt' hlt)).1
    have hle : (i + 1) * size ≤ l.length * size := Nat.mul_le_mul_right size hlt'
    have hsucc : (i + 1) * size = i * size + size := Nat.succ_mul i size
    exact (h i w hi).of_changesOnly hchange (.inl (by omega))
  · rw [List.getElem?_concat_length] at hi
    cases hi
    exact hcontains
  · rw [List.getElem?_eq_none (by simp; omega)] at hi
    cases hi

end HoldsItems

/-! ### Fields -/

/-- The fields of the array at an address: the buffer, the number of elements and the capacity. -/
structure HasFields (t : TypeTable) (elemPtr long : TypeId) (m : Memory) (a data : UInt64)
    (n capacity : Nat) : Prop where
  room : m.HasRoom a.toNat (a.toNat + 24)
  atData : m.Contains t (fieldAt a dataField) elemPtr 8 (.ptr data)
  atLength : m.Contains t (fieldAt a lengthField) long 8 (.int (Int64.ofNat n))
  atCapacity : m.Contains t (fieldAt a capacityField) long 8 (.int (Int64.ofNat capacity))

/-- The fields of an array do not leave the address space. -/
theorem toNat_fieldAt_of_hasRoom (hroom : m.HasRoom a.toNat (a.toNat + 24)) (hi : i < 3) :
    (fieldAt a i).toNat = a.toNat + i * 8 := by
  obtain ⟨_, -, -, hword, -⟩ := hroom
  exact toNat_fieldAt (by omega)

/-- Where the fields of an array are. -/
theorem field_places (hroom : m.HasRoom a.toNat (a.toNat + 24)) :
    (fieldAt a dataField).toNat = a.toNat ∧ (fieldAt a lengthField).toNat = a.toNat + 8 ∧
      (fieldAt a capacityField).toNat = a.toNat + 16 :=
  ⟨toNat_fieldAt_of_hasRoom (i := 0) hroom (by decide),
    toNat_fieldAt_of_hasRoom (i := 1) hroom (by decide),
    toNat_fieldAt_of_hasRoom (i := 2) hroom (by decide)⟩

/-- A value of one word is stored in a field. -/
theorem exists_storeField {field : TypeId} (hroom : m.HasRoom a.toNat (a.toNat + 24)) (hi : i < 3)
    (hfield : t.IsWord field) (hv : t.Conforms field v) :
    ∃ m', write t (fieldAt a i) field v m = .ok () m' ∧ m'.Contains t (fieldAt a i) field 8 v ∧
      m.ChangesOnly (a.toNat + i * 8) (a.toNat + i * 8 + 8) m' := by
  have haddress := toNat_fieldAt_of_hasRoom hroom hi
  have hplace : m.HasRoom (fieldAt a i).toNat ((fieldAt a i).toNat + 8) :=
    hroom.mono (by omega) (by omega)
  obtain ⟨m', hwrite, hcontains, hchange⟩ := exists_contains hv hfield.2 hplace
  exact ⟨m', hwrite, hcontains, haddress ▸ hchange⟩

namespace HasFields

variable {data' : UInt64} {n' capacity' : Nat}

/-- The fields stay in a later memory. -/
theorem of_retains (h : HasFields t elemPtr long m a data n capacity) (hretains : m.Retains m')
    (hm' : m'.IsBounded) : HasFields t elemPtr long m' a data n capacity :=
  ⟨h.room.of_retains hretains, h.atData.of_retains hretains hm',
    h.atLength.of_retains hretains hm', h.atCapacity.of_retains hretains hm'⟩

/-- The fields stay when something apart from them changes. -/
theorem of_changesOnly {lo hi : Nat} (h : HasFields t elemPtr long m a data n capacity)
    (hchange : m.ChangesOnly lo hi m') (hapart : a.toNat + 24 ≤ lo ∨ hi ≤ a.toNat) :
    HasFields t elemPtr long m' a data n capacity := by
  obtain ⟨hdata, hlength, hcapacity⟩ := field_places h.room
  exact ⟨h.room.of_changesOnly hchange, h.atData.of_changesOnly hchange (by omega),
    h.atLength.of_changesOnly hchange (by omega), h.atCapacity.of_changesOnly hchange (by omega)⟩

/-- The fields stay when the stack is cut behind them. -/
theorem resetStack (h : HasFields t elemPtr long m a data n capacity)
    (hmark : a.toNat + 24 ≤ stackBase + mark) :
    HasFields t elemPtr long (m.resetStack mark) a data n capacity := by
  obtain ⟨hdata, hlength, hcapacity⟩ := field_places h.room
  exact ⟨h.room.resetStack hmark, h.atData.resetStack (by omega),
    h.atLength.resetStack (by omega), h.atCapacity.resetStack (by omega)⟩

theorem storeData (ht : t.HasArray ty elem elemPtr long size)
    (h : HasFields t elemPtr long m a data n capacity) (data' : UInt64) :
    ∃ m', write t (fieldAt a dataField) elemPtr (.ptr data') m = .ok () m' ∧
      HasFields t elemPtr long m' a data' n capacity ∧
      m.ChangesOnly a.toNat (a.toNat + 24) m' := by
  obtain ⟨m', hwrite, hdata, hchange⟩ := exists_storeField (i := dataField) h.room (by decide)
    ht.isWord_elemPtr (ht.conforms_elemPtr data')
  obtain ⟨-, hlength, hcapacity⟩ := field_places h.room
  simp only [dataField] at hchange
  exact ⟨m', hwrite, ⟨h.room.of_changesOnly hchange, hdata,
    h.atLength.of_changesOnly hchange (by omega), h.atCapacity.of_changesOnly hchange (by omega)⟩,
    hchange.mono (by omega) (by omega)⟩

/-- Another number of elements is stored. -/
theorem storeLength (ht : t.HasArray ty elem elemPtr long size)
    (h : HasFields t elemPtr long m a data n capacity) (n' : Nat) :
    ∃ m', write t (fieldAt a lengthField) long (.int (Int64.ofNat n')) m = .ok () m' ∧
      HasFields t elemPtr long m' a data n' capacity ∧
      m.ChangesOnly a.toNat (a.toNat + 24) m' := by
  obtain ⟨m', hwrite, hlength, hchange⟩ := exists_storeField (i := lengthField) h.room (by decide)
    ht.isWord_long (ht.conforms_long (Int64.ofNat n'))
  obtain ⟨hdata, -, hcapacity⟩ := field_places h.room
  simp only [lengthField] at hchange
  exact ⟨m', hwrite, ⟨h.room.of_changesOnly hchange, h.atData.of_changesOnly hchange (by omega),
    hlength, h.atCapacity.of_changesOnly hchange (by omega)⟩, hchange.mono (by omega) (by omega)⟩

theorem storeCapacity (ht : t.HasArray ty elem elemPtr long size)
    (h : HasFields t elemPtr long m a data n capacity) (capacity' : Nat) :
    ∃ m', write t (fieldAt a capacityField) long (.int (Int64.ofNat capacity')) m = .ok () m' ∧
      HasFields t elemPtr long m' a data n capacity' ∧
      m.ChangesOnly a.toNat (a.toNat + 24) m' := by
  obtain ⟨m', hwrite, hcapacity, hchange⟩ := exists_storeField (i := capacityField) h.room
    (by decide) ht.isWord_long (ht.conforms_long (Int64.ofNat capacity'))
  obtain ⟨hdata, hlength, -⟩ := field_places h.room
  simp only [capacityField] at hchange
  exact ⟨m', hwrite, ⟨h.room.of_changesOnly hchange, h.atData.of_changesOnly hchange (by omega),
    h.atLength.of_changesOnly hchange (by omega), hcapacity⟩, hchange.mono (by omega) (by omega)⟩

end HasFields

/-! ### Arrays -/

/-- The array at an address represents a list, with a buffer for a number of elements. -/
structure Represents (t : TypeTable) (elem elemPtr long : TypeId) (size : Nat) (m : Memory)
    (a : UInt64) (l : List Val) (data : UInt64) (capacity : Nat) : Prop where
  fields : HasFields t elemPtr long m a data l.length capacity
  fits : l.length ≤ capacity
  grown : capacity = 0 ∨ ∃ k, capacity = 4 * 2 ^ k
  buffer : capacity ≠ 0 → IsBuffer m data size capacity
  apart : a.toNat + 24 ≤ data.toNat ∨ data.toNat + capacity * max size 1 ≤ a.toNat
  items : HoldsItems t elem size m data l

namespace Represents

/-- There are not many elements. -/
theorem capacity_lt (h : Represents t elem elemPtr long size m a l data capacity)
    (hm : m.IsBounded) : capacity < stackBase := by
  by_cases hzero : capacity = 0
  · rw [hzero]
    decide
  · exact (h.buffer hzero).capacity_lt hm

/-- An array stays in a later memory. -/
theorem of_retains (h : Represents t elem elemPtr long size m a l data capacity)
    (hretains : m.Retains m') (hm' : m'.IsBounded) :
    Represents t elem elemPtr long size m' a l data capacity where
  fields := h.fields.of_retains hretains hm'
  fits := h.fits
  grown := h.grown
  buffer hne := (h.buffer hne).of_size_le (hretains.size_le false)
  apart := h.apart
  items := h.items.of_retains hretains hm'

/-- An array stays when the stack is cut behind it. -/
theorem resetStack (h : Represents t elem elemPtr long size m a l data capacity)
    (hm : m.IsBounded) (hmark : a.toNat + 24 ≤ stackBase + mark) :
    Represents t elem elemPtr long size (m.resetStack mark) a l data capacity where
  fields := h.fields.resetStack hmark
  fits := h.fits
  grown := h.grown
  buffer hne := (h.buffer hne).of_size_le (Nat.le_refl _)
  apart := h.apart
  items i v hi := by
    obtain ⟨-, -, hbelow⟩ := HoldsItems.slot_bounds hm h.buffer h.fits hi
    exact (h.items i v hi).resetStack (by omega)

/-- A further element is stored in a buffer that is not full, and then the number of elements. -/
theorem push (h : Represents t elem elemPtr long size m a l data capacity)
    (ht : t.HasArray ty elem elemPtr long size) (hm : m.IsBounded) (hlt : l.length < capacity)
    (hv : t.Conforms elem v) :
    ∃ m₁ m₂, write t (slot data size l.length) elem v m = .ok () m₁ ∧
      write t (fieldAt a lengthField) long (.int (Int64.ofNat (l.length + 1))) m₁ = .ok () m₂ ∧
      Represents t elem elemPtr long size m₂ a (l ++ [v]) data capacity ∧ m₂.IsBounded ∧
      m₂.live = m.live := by
  have hne : capacity ≠ 0 := Nat.ne_of_gt (Nat.zero_lt_of_lt hlt)
  have hlength : (l ++ [v]).length = l.length + 1 := List.length_append
  obtain ⟨m₁, hwrite₁, hitems₁, hchange₁⟩ := h.items.store hm (h.buffer hne) hlt hv ht.sizeOf
  have hm₁ := hm.of_changesOnly hchange₁
  have hbuffer₁ : IsBuffer m₁ data size capacity :=
    (h.buffer hne).of_size_le (hchange₁.size false).ge
  obtain ⟨m₂, hwrite₂, hfields₂, hchange₂⟩ :=
    (h.fields.of_changesOnly hchange₁ h.apart).storeLength ht (l.length + 1)
  have hitems₂ := hitems₁.of_changesOnly hm₁ (fun _ => hbuffer₁) (hlength ▸ hlt) hchange₂ h.apart.symm
  exact ⟨m₁, m₂, hwrite₁, hwrite₂, ⟨hlength ▸ hfields₂, hlength ▸ hlt, h.grown,
    fun _ => hbuffer₁.of_size_le (hchange₂.size false).ge, h.apart, hitems₂⟩,
    hm₁.of_changesOnly hchange₂, hchange₂.live.trans hchange₁.live⟩

/-- Another buffer with the same elements is put in the place of the old one, and then its
capacity. -/
theorem replace {data' : UInt64} {capacity' : Nat}
    (h : Represents t elem elemPtr long size m a l data capacity)
    (ht : t.HasArray ty elem elemPtr long size) (hm : m.IsBounded)
    (hbuffer : IsBuffer m data' size capacity') (hfits : l.length ≤ capacity')
    (hgrown : ∃ k, capacity' = 4 * 2 ^ k)
    (hapart : a.toNat + 24 ≤ data'.toNat ∨ data'.toNat + capacity' * max size 1 ≤ a.toNat)
    (hitems : HoldsItems t elem size m data' l) :
    ∃ m₁ m₂, write t (fieldAt a dataField) elemPtr (.ptr data') m = .ok () m₁ ∧
      write t (fieldAt a capacityField) long (.int (Int64.ofNat capacity')) m₁ = .ok () m₂ ∧
      Represents t elem elemPtr long size m₂ a l data' capacity' ∧ m₂.IsBounded ∧
      m₂.live = m.live := by
  obtain ⟨m₁, hwrite₁, hfields₁, hchange₁⟩ := h.fields.storeData ht data'
  obtain ⟨m₂, hwrite₂, hfields₂, hchange₂⟩ := hfields₁.storeCapacity ht capacity'
  have hchange := hchange₁.trans hchange₂
  exact ⟨m₁, m₂, hwrite₁, hwrite₂, ⟨hfields₂, hfits, .inr hgrown,
    fun _ => hbuffer.of_size_le (hchange.size false).ge, hapart,
    hitems.of_changesOnly hm (fun _ => hbuffer) hfits hchange hapart.symm⟩,
    hm.of_changesOnly hchange, hchange.live⟩

theorem clear (h : Represents t elem elemPtr long size m a l data capacity)
    (ht : t.HasArray ty elem elemPtr long size) (hm : m.IsBounded) :
    ∃ m₁ m₂ m₃, write t (fieldAt a dataField) elemPtr (.ptr 0) m = .ok () m₁ ∧
      write t (fieldAt a lengthField) long (.int 0) m₁ = .ok () m₂ ∧
      write t (fieldAt a capacityField) long (.int 0) m₂ = .ok () m₃ ∧
      Represents t elem elemPtr long size m₃ a [] 0 0 ∧ m₃.IsBounded ∧
      m₃.live = m.live := by
  obtain ⟨m₁, hwrite₁, hfields₁, hchange₁⟩ := h.fields.storeData ht 0
  obtain ⟨m₂, hwrite₂, hfields₂, hchange₂⟩ := hfields₁.storeLength ht 0
  obtain ⟨m₃, hwrite₃, hfields₃, hchange₃⟩ := hfields₂.storeCapacity ht 0
  have hchange := (hchange₁.trans hchange₂).trans hchange₃
  exact ⟨m₁, m₂, m₃, hwrite₁, hwrite₂, hwrite₃, ⟨hfields₃, Nat.le_refl 0, .inl rfl,
    fun hne => absurd rfl hne, .inr (by simp), .nil m₃ 0⟩, hm.of_changesOnly hchange,
    hchange.live⟩

end Represents

/-- The number of blocks of the heap that belong to an array with a capacity. -/
def blocksOf (capacity : Nat) : Nat := if capacity = 0 then 0 else 1

/-- A memory in which the array at an address models a list, and in which no block of the heap is
in use besides `others` many and the buffer of the array. -/
structure ModelsList (t : TypeTable) (elem elemPtr long : TypeId) (size others : Nat) (m : Memory)
    (a : UInt64) (l : List Val) : Prop where
  bounded : m.IsBounded
  array : ∃ data capacity, Represents t elem elemPtr long size m a l data capacity ∧
    m.live = others + blocksOf capacity

section

variable {others : Nat}

/-- The array ends below the end of the stack. -/
theorem ModelsList.le_stack (h : ModelsList t elem elemPtr long size others m a l) :
    a.toNat + 24 ≤ stackBase + m.stack.size := by
  obtain ⟨data, capacity, harray, -⟩ := h.array
  exact harray.fields.room.le_stack h.bounded

/-- The stack may be cut behind the array. -/
theorem ModelsList.resetStack
    (h : ModelsList t elem elemPtr long size others m a l) (hmark : a.toNat + 24 ≤ stackBase + mark) :
    ModelsList t elem elemPtr long size others (m.resetStack mark) a l := by
  obtain ⟨data, capacity, harray, hlive⟩ := h.array
  exact ⟨h.bounded.resetStack mark, data, capacity, harray.resetStack h.bounded hmark, hlive⟩

end

/-- An array whose fields are zero models the empty list. -/
theorem modelsList_nil (hm : m.IsBounded) (hfields : HasFields t elemPtr long m a 0 0 0) :
    ModelsList t elem elemPtr long size m.live m a [] :=
  ⟨hm, 0, 0, ⟨hfields, Nat.le_refl 0, .inl rfl, fun hne => absurd rfl hne, .inr (by simp),
    .nil m 0⟩, rfl⟩

/-! ### Copying -/

/-- A place for a counter and a place for a new buffer, both behind what an earlier memory holds
and apart from each other. -/
structure Workspace (m : Memory) (counter newData : UInt64) (size capacity : Nat) : Prop where
  bounded : m.IsBounded
  freshCounter : m.IsFresh counter.toNat (counter.toNat + 8)
  freshBuffer : m.IsFresh newData.toNat (newData.toNat + capacity * max size 1)
  apart : counter.toNat + 8 ≤ newData.toNat ∨
    newData.toNat + capacity * max size 1 ≤ counter.toNat

/-- The first `i` elements of a list have been copied to a new buffer, the counter says how many,
and the earlier memory is still there. -/
structure Copying (t : TypeTable) (elem long : TypeId) (size : Nat) (m₀ : Memory)
    (counter newData : UInt64) (capacity : Nat) (l : List Val) (live i : Nat) (m : Memory) :
    Prop where
  retains : m₀.Retains m
  bounded : m.IsBounded
  live : m.live = live
  counter : m.Contains t counter long 8 (.int (Int64.ofNat i))
  buffer : IsBuffer m newData size capacity
  items : HoldsItems t elem size m newData (l.take i)

theorem Copying.step {m₀ : Memory} {counter newData : UInt64} {live : Nat}
    (h : Copying t elem long size m₀ counter newData capacity l live i m)
    (ht : t.HasArray ty elem elemPtr long size)
    (hspace : Workspace m₀ counter newData size capacity) (hfits : l.length ≤ capacity)
    (hi : l[i]? = some v) (hv : t.Conforms elem v) :
    ∃ m₁ m₂, write t (slot newData size i) elem v m = .ok () m₁ ∧
      write t counter long (.int (Int64.ofNat (i + 1))) m₁ = .ok () m₂ ∧
      Copying t elem long size m₀ counter newData capacity l live (i + 1) m₂ := by
  obtain ⟨hlt, rfl⟩ := List.getElem?_eq_some_iff.1 hi
  have htake : (l.take i).length = i := List.length_take_of_le (Nat.le_of_lt hlt)
  obtain ⟨m₁, hwrite₁, hitems₁, hchange₁⟩ :=
    h.items.store h.bounded h.buffer (by omega) hv ht.sizeOf
  rw [htake] at hwrite₁
  rw [List.take_concat_get' l i hlt] at hitems₁
  have hm₁ := h.bounded.of_changesOnly hchange₁
  have hbuffer₁ := h.buffer.of_size_le (hchange₁.size false).ge
  have hretains₁ := h.retains.of_changesOnly hspace.bounded hspace.freshBuffer hchange₁
  have hcounter₁ := h.counter.of_changesOnly hchange₁ hspace.apart
  obtain ⟨m₂, hwrite₂, hcounter₂, hchange₂⟩ := exists_contains
    (ht.conforms_long (Int64.ofNat (i + 1))) ht.isWord_long.2 hcounter₁.room
  have hlength : (l.take (i + 1)).length ≤ capacity := by
    rw [List.length_take]
    omega
  exact ⟨m₁, m₂, hwrite₁, hwrite₂, hretains₁.of_changesOnly hspace.bounded hspace.freshCounter hchange₂,
    hm₁.of_changesOnly hchange₂, hchange₂.live.trans (hchange₁.live.trans h.live), hcounter₂,
    hbuffer₁.of_size_le (hchange₂.size false).ge,
    hitems₁.of_changesOnly hm₁ (fun _ => hbuffer₁) hlength hchange₂ hspace.apart.symm⟩

/-- A block that is given back is not looked at any more. -/
theorem Copying.free {m₀ : Memory} {counter newData old : UInt64} {live : Nat}
    (h : Copying t elem long size m₀ counter newData capacity l live i m) (hold : old ≠ 0) :
    Copying t elem long size m₀ counter newData capacity l (live - 1) i (m.free old) := by
  have hretains := retains_free m old
  have hm := h.bounded.free old
  exact ⟨h.retains.trans hretains, hm, by rw [live_free m hold, h.live],
    h.counter.of_retains hretains hm, h.buffer.of_size_le (hretains.size_le false),
    h.items.of_retains hretains hm⟩

/-- An array that is full gets a larger buffer: what is known while it is made. -/
structure Growing (t : TypeTable) (elem elemPtr long : TypeId) (size : Nat) (m : Memory)
    (a : UInt64) (l : List Val) (data : UInt64) (capacity : Nat) (counter newData : UInt64)
    (capacity' : Nat) : Prop where
  array : Represents t elem elemPtr long size m a l data capacity
  space : Workspace m counter newData size capacity'
  larger : l.length < capacity'
  grown : ∃ k, capacity' = 4 * 2 ^ k

/-- Nothing has been copied to a new block yet. -/
theorem Represents.startCopying {m₀ : Memory} {counter newData : UInt64} {capacity' : Nat}
    (h : Represents t elem elemPtr long size m₀ a l data capacity)
    (ht : t.HasArray ty elem elemPtr long size) (hm₀ : m₀.IsBounded)
    (hcounter : m₀.IsBlock counter 8 m)
    (hblock : m.IsBlock newData (capacity' * max size 1) m')
    (hbuffer : IsBuffer m' newData size capacity') (hlarger : l.length < capacity')
    (hgrown : ∃ k, capacity' = 4 * 2 ^ k) :
    Growing t elem elemPtr long size m₀ a l data capacity counter newData capacity' ∧
      ∃ m'', write t counter long (.int 0) m' = .ok () m'' ∧
        Copying t elem long size m₀ counter newData capacity' l m'.live 0 m'' := by
  obtain ⟨m'', hwrite, hcontains, hchange⟩ := exists_contains (ht.conforms_long 0)
    ht.isWord_long.2 (hcounter.room.of_retains hblock.retains)
  have hspace : Workspace m₀ counter newData size capacity' :=
    ⟨hm₀, hcounter.fresh, hblock.fresh.of_retains hcounter.retains,
      hblock.fresh.apart hcounter.bounded hcounter.room⟩
  have hretains := (hcounter.retains.trans hblock.retains).of_changesOnly hm₀ hcounter.fresh hchange
  exact ⟨⟨h, hspace, hlarger, hgrown⟩, m'', hwrite, hretains,
    hblock.bounded.of_changesOnly hchange, hchange.live, hcontains,
    hbuffer.of_size_le (hchange.size false).ge, .nil m'' newData⟩

/-- When all elements have been copied, the new buffer is put in the place of the old one. -/
theorem Growing.replace {m₀ : Memory} {counter newData : UInt64} {capacity' live : Nat}
    (h : Growing t elem elemPtr long size m₀ a l data capacity counter newData capacity')
    (ht : t.HasArray ty elem elemPtr long size)
    (hcopy : Copying t elem long size m₀ counter newData capacity' l live l.length m) :
    ∃ m₁ m₂, write t (fieldAt a dataField) elemPtr (.ptr newData) m = .ok () m₁ ∧
      write t (fieldAt a capacityField) long (.int (Int64.ofNat capacity')) m₁ = .ok () m₂ ∧
      Represents t elem elemPtr long size m₂ a l newData capacity' ∧ m₂.IsBounded ∧
      m₂.live = live := by
  have hitems := hcopy.items
  rw [List.take_length] at hitems
  have hapart := h.space.freshBuffer.apart h.space.bounded h.array.fields.room
  obtain ⟨m₁, m₂, hwrite₁, hwrite₂, harray, hm₂, hlive⟩ :=
    (h.array.of_retains hcopy.retains hcopy.bounded).replace ht hcopy.bounded hcopy.buffer
      (Nat.le_of_lt h.larger) h.grown hapart hitems
  exact ⟨m₁, m₂, hwrite₁, hwrite₂, harray, hm₂, hlive.trans hcopy.live⟩

end DynamicArray

end SsaCompiler
