/-
# Access through any address

A program may make a pointer out of any word. A value is read and stored part by part, and the
place of a part is computed from the address of the whole without wrapping around, so an address
near the last one could lead out of the address space. It does not: a part that takes any room is
only come to when the parts in front of it were there, and what is there ends far below the last
address.

What follows holds for reading and for storing. Behind the last byte that was there is at most the
padding up to the next multiple of the alignment, which is carried along as an invariant: a part is
come to at an offset that is zero or not above such a multiple. A value that is stored needs as many
parts as its type has, and a value that has been read has them.
-/

import SsaCompiler.Machine.Instruction
import SsaCompiler.Proofs.Ir.Extent
import SsaCompiler.Proofs.Machine.Endless
import SsaCompiler.Proofs.Machine.Memory

namespace SsaCompiler

/-! ### Computations that do not crash -/

/-- Reasons to stop some of which are crashes. -/
class MeetsCrash (ε : Type) where
  /-- Whether the reason is a crash. -/
  IsCrash : ε → Prop

instance : MeetsCrash Fault where
  IsCrash
    | .failed _ => False
    | .crashed _ => True

instance : MeetsCrash Stop where
  IsCrash
    | .crashed _ => True
    | _ => False

open MeetsCrash

/-- The computation does not crash, and an answer has a property. -/
def Fallible.Settles {α : Type} (x : Fallible α) (Q : α → Prop) : Prop :=
  match x with
  | .ok a => Q a
  | .error e => ¬ IsCrash e

namespace Fallible.Settles

variable {α β : Type} {x : Fallible α} {f : α → Fallible β} {Q Q' : α → Prop} {R : β → Prop}

theorem of_ok {a : α} (hx : x = .ok a) (ha : Q a) : x.Settles Q := by
  rw [hx]
  exact ha

theorem fail (e : ExecError) : (Fallible.fail e : Fallible α).Settles Q := id

/-- A weaker property of the answer. -/
theorem imp (hx : x.Settles Q) (h : ∀ a, x = .ok a → Q a → Q' a) : x.Settles Q' := by
  cases x with
  | ok a => exact h a rfl hx
  | error e => exact hx

theorem bind (hx : x.Settles Q) (hf : ∀ a, Q a → (f a).Settles R) : (x >>= f).Settles R := by
  cases x with
  | ok a => exact hf a hx
  | error e => exact hx

end Fallible.Settles

/-- The computation does not crash in a state, and an answer and the state behind it have a
property. -/
def Settles {ε σ α : Type} [MeetsCrash ε] (x : EStateM ε σ α) (s : σ) (Q : α → σ → Prop) : Prop :=
  match x s with
  | .ok a s' => Q a s'
  | .error e _ => ¬ IsCrash e

namespace Settles

variable {ε σ α β : Type} [MeetsCrash ε] {x : EStateM ε σ α} {f : α → EStateM ε σ β} {s : σ}
  {Q Q' : α → σ → Prop} {R : β → σ → Prop}

theorem of_ok {a : α} {s' : σ} (hx : x s = .ok a s') (ha : Q a s') : Settles x s Q := by
  unfold Settles
  rw [hx]
  exact ha

theorem of_error {e : ε} {s' : σ} (hx : x s = .error e s') (he : ¬ IsCrash e) : Settles x s Q := by
  unfold Settles
  rw [hx]
  exact he

/-- A weaker property of the answer. -/
theorem imp (hx : Settles x s Q) (h : ∀ a s', Q a s' → Q' a s') : Settles x s Q' := by
  unfold Settles at hx ⊢
  cases hrun : x s with
  | ok a s' =>
      rw [hrun] at hx
      exact h a s' hx
  | error e s' =>
      rw [hrun] at hx
      exact hx

theorem bind (hx : Settles x s Q) (hf : ∀ a s', Q a s' → Settles (f a) s' R) :
    Settles (x >>= f) s R := by
  unfold Settles at hx ⊢
  change match EStateM.bind x f s with
    | .ok b s' => R b s'
    | .error e _ => ¬ IsCrash e
  unfold EStateM.bind
  cases hrun : x s with
  | ok a s' =>
      rw [hrun] at hx
      exact hf a s' hx
  | error e s' =>
      rw [hrun] at hx
      exact hx

end Settles

/-! ### Offsets -/

/-- The first address behind everything that memory can hold. -/
def memoryEnd : Nat := stackBase + 2 ^ 63

/-- Behind the address `a` everything up to an offset is there, but for padding that ends with the
next multiple of an alignment. Nothing has to be there for the offset zero. -/
def Spans (a align offset : Nat) : Prop :=
  offset = 0 ∨ ∃ stop, a + stop ≤ memoryEnd ∧ offset ≤ alignTo stop align

namespace Spans

variable {a align align' start size offset : Nat}

theorem of_le (h : a + size ≤ memoryEnd) (align : Nat) : Spans a align size :=
  .inr ⟨size, h, TypeTable.le_alignTo size align⟩

/-- The next multiple of a smaller alignment is no further away. -/
theorem alignTo (h : Spans a align offset) (hdvd : align' ∣ align) (hpos : 0 < align) :
    Spans a align (alignTo offset align') := by
  rcases h with rfl | ⟨stop, hstop, hle⟩
  · exact .inl (Nat.le_zero.1 (alignTo_le (Nat.dvd_zero align') (Nat.le_refl 0)))
  · exact .inr ⟨stop, hstop, alignTo_le (hdvd.trans (dvd_alignTo stop hpos)) hle⟩

/-- The padding does not lead out of the address space. -/
theorem lt_wordRange (h : Spans a align offset) (halign : IsAlignment align) (ha : a < wordRange) :
    a + offset < wordRange := by
  rcases h with rfl | ⟨stop, hstop, hle⟩
  · exact ha
  · have hlt := alignTo_lt stop halign.pos
    have hend : memoryEnd + 8 < wordRange := by decide
    have halign8 : align ≤ 8 := by
      unfold IsAlignment at halign
      simp only [List.mem_cons, List.not_mem_nil, or_false] at halign
      omega
    omega

/-- A part that is there, at a multiple of its alignment. -/
theorem append (h : Spans a align start) (hpart : Spans (a + start) align' size)
    (hdvd : align' ∣ align) (hstart : align' ∣ start) (hpos : 0 < align) :
    Spans a align (start + size) := by
  rcases hpart with rfl | ⟨stop, hstop, hle⟩
  · exact h
  · refine .inr ⟨start + stop, by omega, ?_⟩
    have hmultiple := dvd_alignTo (start + stop) hpos
    have hge := TypeTable.le_alignTo (start + stop) align
    have hrest : SsaCompiler.alignTo stop align' ≤
        SsaCompiler.alignTo (start + stop) align - start :=
      alignTo_le (Nat.dvd_sub (hdvd.trans hmultiple) hstart) (by omega)
    omega

end Spans

/-- The parts of a structure with known fields are its fields. -/
theorem IrType.parts_of_fields? {ty : IrType} {fields : List TypeId}
    (h : ty.fields? = some fields) : ty.parts = fields := by
  rw [IrType.parts, IrType.shape_of_fields? h]
  rfl

/-- Of two alignments the smaller one divides the other. -/
theorem IsAlignment.dvd_of_le {k l : Nat} (hk : IsAlignment k) (hl : IsAlignment l) (h : k ≤ l) :
    k ∣ l := by
  unfold IsAlignment at hk hl
  simp only [List.mem_cons, List.not_mem_nil, or_false] at hk hl
  rcases hk with rfl | rfl | rfl | rfl <;> rcases hl with rfl | rfl | rfl | rfl <;>
    first | decide | omega

/-- The greatest of some alignments is not below any of them. -/
theorem le_greatestAlign {aligns : List Nat} {k : Nat} (h : k ∈ aligns) :
    k ≤ greatestAlign aligns := by
  have hmax : (1 :: aligns).max? = some (greatestAlign aligns) := rfl
  exact (List.max?_eq_some_iff.1 hmax).2 k (List.mem_cons_of_mem 1 h)

namespace TypeTable

variable {t : TypeTable} {id : TypeId} {ty : IrType} {fields : List TypeId}

/-- A value of a type is there at an address. -/
def SpansType (t : TypeTable) (a : UInt64) (id : TypeId) : Prop :=
  Spans a.toNat (t.extent id).align (t.extent id).size

/-- The alignment of a field divides that of the structure. -/
theorem align_field_dvd (hscoped : t.IsScoped) (hacyclic : t.IsAcyclic) (hty : t.get id = .ok ty)
    (hfields : ty.fields? = some fields) {field : TypeId} (hfield : field ∈ fields) :
    (t.extent field).align ∣ (t.extent id).align := by
  refine (t.isAlignment_extent field).1.dvd_of_le (t.isAlignment_extent id).1 ?_
  rw [extent_eq hscoped hacyclic hty, IrType.shape_of_fields? hfields]
  exact le_greatestAlign (List.mem_map_of_mem hfield)

/-- A structure is there when its fields are. -/
theorem SpansType.of_fields (hscoped : t.IsScoped) (hacyclic : t.IsAcyclic)
    (hty : t.get id = .ok ty) (hfields : ty.fields? = some fields) {a : UInt64}
    (h : Spans a.toNat (t.extent id).align (Extent.endOf t.extent 0 fields)) :
    t.SpansType a id := by
  unfold SpansType
  rw [extent_of_fields? hscoped hacyclic hty hfields]
  exact h.alignTo (Nat.dvd_refl _) (t.isAlignment_extent id).1.pos

/-- An array is there when its items are. -/
theorem SpansType.of_items (hscoped : t.IsScoped) (hacyclic : t.IsAcyclic) {elem : TypeId}
    {length : Nat} (hty : t.get id = .ok (.array elem length)) {a : UInt64}
    (h : Spans a.toNat (t.extent elem).align (length * (t.extent elem).size)) :
    t.SpansType a id := by
  unfold SpansType
  rw [extent_eq hscoped hacyclic hty]
  rwa [Nat.mul_comm] at h

end TypeTable

/-! ### Values that fill a type -/

namespace TypeTable

/-- A value with as many parts as a type has, where the type has parts. What stands in place of a
number or an address does not matter, and neither does a value without parts in place of one that
has them: it is refused. -/
inductive Fills (t : TypeTable) : TypeId → Val → Prop where
  | flat {id : TypeId} {ty : IrType} {v : Val} (hty : t.get id = .ok ty) (hparts : ty.parts = []) :
      Fills t id v
  | refused {id : TypeId} {v : Val} (hv : ∀ items, v ≠ .agg items) : Fills t id v
  | struct {id : TypeId} {ty : IrType} {fields : List TypeId} {items : List Val}
      (hty : t.get id = .ok ty) (hfields : ty.fields? = some fields)
      (hitems : List.Forall₂ (Fills t) fields items) : Fills t id (.agg items)
  | array {id elem : TypeId} {items : List Val}
      (hty : t.get id = .ok (.array elem items.length)) (hitems : ∀ v ∈ items, Fills t elem v) :
      Fills t id (.agg items)

variable {t : TypeTable} {id elem : TypeId} {ty : IrType} {fields : List TypeId} {items : List Val}
  {v : Val} {length : Nat}

/-- The parts of a value that fills a structure with fields. -/
theorem Fills.of_struct (h : t.Fills id (.agg items)) (hty : t.get id = .ok ty)
    (hfields : ty.fields? = some fields) : fields = [] ∨ List.Forall₂ t.Fills fields items := by
  cases h with
  | flat hty' hparts =>
      cases hty.symm.trans hty'
      exact .inl ((IrType.parts_of_fields? hfields).symm.trans hparts)
  | refused hv => exact absurd rfl (hv items)
  | struct hty' hfields' hitems =>
      cases hty.symm.trans hty'
      cases hfields.symm.trans hfields'
      exact .inr hitems
  | array hty' _ =>
      cases hty.symm.trans hty'
      cases hfields

/-- The items of a value that fills an array. -/
theorem Fills.of_array (h : t.Fills id (.agg items)) (hty : t.get id = .ok (.array elem length)) :
    length = items.length ∧ ∀ v ∈ items, t.Fills elem v := by
  cases h with
  | flat hty' hparts =>
      cases hty.symm.trans hty'
      cases hparts
  | refused hv => exact absurd rfl (hv items)
  | struct hty' hfields' _ =>
      cases hty.symm.trans hty'
      cases hfields'
  | array hty' hitems =>
      cases hty.symm.trans hty'
      exact ⟨rfl, hitems⟩

end TypeTable

/-! ### Reading -/

namespace Memory

variable {t : TypeTable} {id : TypeId} {ty : IrType} {m m' : Memory} {a b : UInt64} {v : Val}
  {n size align start next offset : Nat} {field elem : TypeId} {fields rest : List TypeId}
  {vs : List Val}

/-- A memory whose regions are so long that a signed word counts their bytes. -/
def IsAddressable (m : Memory) : Prop := ∀ isStack, (m.region isStack).size ≤ 2 ^ 63

/-- What is there ends in front of the end of memory. -/
theorem IsAddressable.le_memoryEnd (hm : m.IsAddressable) {isStack : Bool}
    (hplace : locate? a = some (isStack, start)) (hfits : start + n ≤ (m.region isStack).size) :
    a.toNat + n ≤ memoryEnd := by
  have haddress := toNat_of_locate? hplace
  have hsize := hm isStack
  have hbase : base isStack ≤ stackBase := by cases isStack <;> decide
  unfold memoryEnd
  omega

/-- Bytes are read where they are there. -/
theorem IsAddressable.readBytes (hm : m.IsAddressable) (a : UInt64) (n : Nat) :
    (m.readBytes a n).Settles fun _ => a.toNat + n ≤ memoryEnd := by
  unfold Memory.readBytes
  split
  · exact .fail _
  · rename_i isStack start hplace
    split
    · rename_i hfits
      exact .of_ok rfl (hm.le_memoryEnd hplace hfits)
    · exact .fail _

/-- A number is read where its bytes are there. -/
theorem IsAddressable.readWord (hm : m.IsAddressable) (a : UInt64) (n : Nat) :
    (m.readWord a n).Settles fun _ => a.toNat + n ≤ memoryEnd :=
  (hm.readBytes a n).bind fun _ h => .of_ok rfl h

/-- An address that does not leave the address space. -/
theorem addressPlus_eq_ok (h : a.toNat + n < wordRange) :
    ∃ b, addressPlus a n = .ok b ∧ b.toNat = a.toNat + n := by
  have hrun : addressPlus a n = .ok (UInt64.ofNat (a.toNat + n)) := by
    unfold addressPlus
    rw [show Checked.word (a.toNat + n) = .ok (a.toNat + n) from if_pos h]
    rfl
  exact ⟨_, hrun, toNat_of_addressPlus hrun⟩

/-- The first field is read at its place, and the others behind it. -/
theorem readFields_cons {one : UInt64 → TypeId → Fallible Val}
    (hstart : t.fieldStart offset field = .ok start) (hb : addressPlus a start = .ok b)
    (hnext : t.fieldEnd start field = .ok next) :
    readFields t one a offset (field :: rest) =
      one b field >>= fun v => readFields t one a next rest >>= fun vs => pure (v :: vs) := by
  rw [readFields, hstart]
  change (liftM (addressPlus a start) >>= _ : Fallible (List Val)) = _
  rw [hb]
  change (one b field >>= _) = _
  congr 1
  funext v
  cases rest with
  | nil => rfl
  | cons _ _ =>
      rw [hnext]
      rfl

/-- The first item is read at its place, and the others behind it. -/
theorem readItems_succ {one : UInt64 → Fallible Val} {i : Nat}
    (hb : addressPlus a (i * size) = .ok b) :
    readItems one a size (n + 1) i =
      one b >>= fun v => readItems one a size n (i + 1) >>= fun vs => pure (v :: vs) := by
  rw [readItems, hb]
  rfl

section Table

variable (hscoped : t.IsScoped) (hacyclic : t.IsAcyclic) (hbounded : t.IsBounded)

include hscoped hacyclic hbounded in
/-- The place of a field that is come to, and the end of the field. -/
theorem exists_place (hfield : t.Has field) (halign : IsAlignment align)
    (hdvd : (t.extent field).align ∣ align) (hoffset : Spans a.toNat align offset)
    (hfits : alignTo offset (t.extent field).align + (t.extent field).size < wordRange) :
    ∃ start b, t.fieldStart offset field = .ok start ∧ addressPlus a start = .ok b ∧
      t.fieldEnd start field = .ok (start + (t.extent field).size) ∧
      start = alignTo offset (t.extent field).align ∧
      (t.SpansType b field → Spans a.toNat align (start + (t.extent field).size)) := by
  have hpos := (t.isAlignment_extent field).1.pos
  have hstart := hoffset.alignTo hdvd halign.pos
  obtain ⟨b, hb, haddress⟩ :=
    addressPlus_eq_ok (hstart.lt_wordRange halign (by simpa [wordRange] using a.toNat_lt))
  refine ⟨_, b, TypeTable.fieldStart_eq_ok hscoped hacyclic hfield (by omega), hb,
    TypeTable.fieldEnd_eq_ok_iff.2
      ⟨_, TypeTable.sizeOf_eq_ok hscoped hacyclic hbounded hfield, rfl, by omega⟩, rfl, fun h => ?_⟩
  refine hstart.append ?_ hdvd (dvd_alignTo offset hpos) halign.pos
  unfold TypeTable.SpansType at h
  rwa [haddress] at h

include hscoped hacyclic hbounded in
/-- The fields of a structure are read where they are there. -/
theorem readFields_settles {one : UInt64 → TypeId → Fallible Val}
    (hone : ∀ f ∈ fields, ∀ b, (one b f).Settles fun v => t.SpansType b f ∧ t.Fills f v)
    (hhas : ∀ f ∈ fields, t.Has f) (halign : IsAlignment align)
    (hdvd : ∀ f ∈ fields, (t.extent f).align ∣ align) (hoffset : Spans a.toNat align offset)
    (hfits : Extent.endOf t.extent offset fields < wordRange) :
    (readFields t one a offset fields).Settles fun vs =>
      Spans a.toNat align (Extent.endOf t.extent offset fields) ∧
        List.Forall₂ t.Fills fields vs := by
  induction fields generalizing offset with
  | nil => exact .of_ok rfl ⟨hoffset, .nil⟩
  | cons field rest ih =>
      have hmem : field ∈ field :: rest := List.mem_cons_self
      have hend := Extent.le_endOf t.extent
        (alignTo offset (t.extent field).align + (t.extent field).size) rest
      rw [Extent.endOf] at hfits ⊢
      obtain ⟨start, b, hstart, hb, hnext, rfl, hspans⟩ := exists_place hscoped hacyclic hbounded
        (hhas field hmem) halign (hdvd field hmem) hoffset (by omega)
      rw [readFields_cons hstart hb hnext]
      refine (hone field hmem b).bind fun v hread => ?_
      obtain ⟨hv, hfills⟩ := hread
      refine (ih (fun f hf => hone f (List.mem_cons_of_mem _ hf))
        (fun f hf => hhas f (List.mem_cons_of_mem _ hf))
        (fun f hf => hdvd f (List.mem_cons_of_mem _ hf)) (hspans hv) hfits).bind fun vs hvs => ?_
      exact .of_ok rfl ⟨hvs.1, .cons hfills hvs.2⟩

/-- The items of an array are read where they are there. -/
theorem readItems_settles {one : UInt64 → Fallible Val} {i : Nat}
    (hone : ∀ b, (one b).Settles fun v => Spans b.toNat align size ∧ t.Fills elem v)
    (halign : IsAlignment align) (hdvd : align ∣ size) (hoffset : Spans a.toNat align (i * size)) :
    (readItems one a size n i).Settles fun vs =>
      Spans a.toNat align ((i + n) * size) ∧ vs.length = n ∧ ∀ v ∈ vs, t.Fills elem v := by
  induction n generalizing i with
  | zero => exact .of_ok rfl ⟨hoffset, rfl, nofun⟩
  | succ n ih =>
      obtain ⟨b, hb, haddress⟩ :=
        addressPlus_eq_ok (hoffset.lt_wordRange halign (by simpa [wordRange] using a.toNat_lt))
      rw [readItems_succ hb]
      refine (hone b).bind fun v hread => ?_
      obtain ⟨hv, hfills⟩ := hread
      have hnext : Spans a.toNat align ((i + 1) * size) := by
        rw [Nat.succ_mul]
        exact hoffset.append (haddress ▸ hv) (Nat.dvd_refl align) (Nat.dvd_mul_left_of_dvd hdvd i)
          halign.pos
      refine (ih hnext).bind fun vs hread => ?_
      obtain ⟨hvs, hlength, hall⟩ := hread
      rw [show i + (n + 1) = i + 1 + n by omega]
      exact .of_ok rfl ⟨hvs, congrArg _ hlength, List.forall_mem_cons.2 ⟨hfills, hall⟩⟩

include hscoped hacyclic hbounded in
/-- A structure is read where its fields are there. -/
theorem readWithin_struct_settles {n : Nat} (hty : t.get id = .ok ty)
    (hfields : ty.fields? = some fields)
    (hpart : ∀ p ∈ ty.parts, ∀ b,
      (m.readWithin t n b p).Settles fun v => t.SpansType b p ∧ t.Fills p v) :
    (m.readWithin t (n + 1) a id).Settles fun v => t.SpansType a id ∧ t.Fills id v := by
  rw [readWithin_struct hty hfields]
  refine (readFields_settles hscoped hacyclic hbounded
    (IrType.parts_of_fields? hfields ▸ hpart)
    (fun f => TypeTable.has_field hscoped hty hfields) (t.isAlignment_extent id).1
    (fun f => TypeTable.align_field_dvd hscoped hacyclic hty hfields) (.inl rfl)
    (TypeTable.endOf_lt_wordRange hscoped hacyclic hbounded hty hfields)).bind
      fun vs hread => .of_ok rfl ?_
  obtain ⟨hspans, hfills⟩ := hread
  exact ⟨.of_fields hscoped hacyclic hty hfields hspans, .struct hty hfields hfills⟩

include hscoped hacyclic hbounded in
/-- An array is read where its items are there. -/
theorem readWithin_array_settles {elem : TypeId} {n length : Nat}
    (hty : t.get id = .ok (.array elem length))
    (hpart : ∀ b, (m.readWithin t n b elem).Settles fun v => t.SpansType b elem ∧ t.Fills elem v) :
    (m.readWithin t (n + 1) a id).Settles fun v => t.SpansType a id ∧ t.Fills id v := by
  obtain ⟨halign, hdvd⟩ := t.isAlignment_extent elem
  have hitems := readItems_settles (n := length) (a := a) (i := 0) hpart halign hdvd
    (.inl (Nat.zero_mul _))
  rw [readWithin_array hty (TypeTable.sizeOf_eq_ok hscoped hacyclic hbounded
    (hscoped id elem ⟨_, hty, List.mem_cons_self⟩))]
  refine hitems.bind fun vs hread => .of_ok rfl ?_
  obtain ⟨hspans, hlength, hall⟩ := hread
  rw [Nat.zero_add] at hspans
  exact ⟨.of_items hscoped hacyclic hty hspans, .array (hlength ▸ hty) hall⟩

include hscoped hacyclic hbounded in
/-- A value of any type is read at any address, and then it is there and fills the type, or reading
fails with an error. -/
theorem IsAddressable.read (hm : m.IsAddressable) (hid : t.Has id) (a : UInt64) :
    (m.read t a id).Settles fun v => t.SpansType a id ∧ t.Fills id v := by
  refine hacyclic.of_parts (P := fun n id => t.Has id → ∀ a,
    (m.readWithin t n a id).Settles fun v => t.SpansType a id ∧ t.Fills id v) ?_ id hid a
  intro n id hparts hhas a
  obtain ⟨ty, hty⟩ := hhas
  have hpart : ∀ p ∈ ty.parts, ∀ b,
      (m.readWithin t n b p).Settles fun v => t.SpansType b p ∧ t.Fills p v :=
    fun p hp => hparts p ⟨ty, hty, hp⟩ (hscoped id p ⟨ty, hty, hp⟩)
  have hextent := TypeTable.extent_eq hscoped hacyclic hty
  have hstruct (fields : List TypeId) (hfields : ty.fields? = some fields) :=
    readWithin_struct_settles hscoped hacyclic hbounded (a := a) hty hfields hpart
  -- A type without parts takes the bytes of one number.
  have hword : ty.parts = [] → ∀ k, (t.extent id).size ≤ k → ∀ f : Nat → Val,
      (m.readWord a k >>= fun raw => pure (f raw)).Settles fun v =>
        t.SpansType a id ∧ t.Fills id v := fun hnone k hk f =>
    (hm.readWord a k).bind fun _ h => .of_ok rfl ⟨.of_le (by omega) _, .flat hty hnone⟩
  have hnothing : ty.parts = [] → (t.extent id).size = 0 → ∀ v,
      (pure v : Fallible Val).Settles fun v => t.SpansType a id ∧ t.Fills id v :=
    fun hnone hzero v => .of_ok rfl ⟨.inl hzero, .flat hty hnone⟩
  cases ty with
  | record fields => exact hstruct fields rfl
  | named name body =>
      cases body with
      | none =>
          rw [readWithin, lift_get_bind hty]
          exact hnothing rfl (by rw [hextent]; rfl) _
      | some fields => exact hstruct fields rfl
  | array elem length =>
      exact readWithin_array_settles hscoped hacyclic hbounded hty (hpart elem List.mem_cons_self)
  | int bits =>
      rw [readWithin_int hty]
      exact hword rfl _ (by rw [hextent]; exact Nat.le_refl _) _
  | float bits =>
      have hsize : (t.extent id).size = bytesForBits bits := by
        rw [hextent]
        rfl
      rw [readWithin, lift_get_bind hty]
      dsimp only
      split
      case isTrue h32 => exact hword rfl 4 (by rw [hsize, h32]; decide) _
      case isFalse => exact hword rfl 8 (hsize ▸ (bytesForBits_bounds bits).2) _
  | pointer _ | function _ _ _ =>
      rw [readWithin_address hty rfl]
      exact hword rfl _ (by rw [hextent]; exact Nat.le_refl _) _
  | void =>
      rw [readWithin, lift_get_bind hty]
      exact hnothing rfl (by rw [hextent]; rfl) _

end Table

end Memory

/-! ### Storing -/

namespace Memory

variable {t : TypeTable} {id : TypeId} {ty : IrType} {m m' : Memory} {a b : UInt64} {v : Val}
  {n size align start next offset : Nat} {field elem : TypeId} {fields rest : List TypeId}
  {vs : List Val}

/-- Bytes are stored where there are bytes. -/
theorem IsAddressable.writeBytes (hm : m.IsAddressable) (a : UInt64) (bytes : List UInt8) :
    Settles (Memory.writeBytes a bytes) m fun _ m' =>
      m'.IsAddressable ∧ a.toNat + bytes.length ≤ memoryEnd := by
  cases hrun : Memory.writeBytes a bytes m with
  | ok _ m' =>
      obtain ⟨isStack, start, hplace, hfits, -⟩ := writeBytes_eq_ok_iff.1 hrun
      have hchange := (readBytes_of_writeBytes hrun).2
      exact .of_ok hrun ⟨fun isStack => (hchange.size isStack).symm ▸ hm isStack,
        hm.le_memoryEnd hplace hfits⟩
  | error e m' =>
      obtain ⟨rfl, -⟩ := writeBytes_eq_error hrun
      exact .of_error hrun id

/-- A number is stored where there are bytes. -/
theorem IsAddressable.writeWord (hm : m.IsAddressable) (a : UInt64) (n w : Nat) :
    Settles (Memory.writeWord a n w) m fun _ m' =>
      m'.IsAddressable ∧ a.toNat + n ≤ memoryEnd := by
  have hbytes := hm.writeBytes a (toLittleEndian n w)
  rw [length_toLittleEndian] at hbytes
  exact hbytes

/-- An operation behind an answer that is known. -/
theorem liftM_ok_bind {α β : Type} (x : α) (f : α → MemoryOp β) :
    (liftM (.ok x : Checked α) >>= f : MemoryOp β) = f x := rfl

/-- A value that does not fit is refused. -/
theorem settles_mismatch (id : TypeId) (v : Val) {Q : Unit → Memory → Prop} :
    Settles (mismatch id v) m Q := .of_error rfl not_false

/-- The first field is stored at its place, and the others behind it. -/
theorem writeFields_cons {one : UInt64 → TypeId → Val → MemoryOp Unit}
    (hstart : t.fieldStart offset field = .ok start) (hb : addressPlus a start = .ok b)
    (hnext : t.fieldEnd start field = .ok next) :
    writeFields t one a offset (field :: rest) (v :: vs) =
      one b field v >>= fun _ => writeFields t one a next rest vs := by
  rw [writeFields, hstart]
  change (liftM (addressPlus a start) >>= _ : MemoryOp Unit) = _
  rw [hb]
  change (one b field v >>= _) = _
  congr 1
  funext _
  cases rest with
  | nil => cases vs <;> rfl
  | cons _ _ =>
      cases vs with
      | nil => rfl
      | cons _ _ =>
          rw [hnext]
          rfl

/-- The first item is stored at its place, and the others behind it. -/
theorem writeItems_cons {one : UInt64 → Val → MemoryOp Unit} {i : Nat}
    (hb : addressPlus a (i * size) = .ok b) :
    writeItems one a size i (v :: vs) = one b v >>= fun _ => writeItems one a size (i + 1) vs := by
  rw [writeItems, hb]
  rfl

section Table

variable (hscoped : t.IsScoped) (hacyclic : t.IsAcyclic) (hbounded : t.IsBounded)

include hscoped hacyclic hbounded in
/-- The fields of a structure are stored where there are bytes. -/
theorem writeFields_settles {one : UInt64 → TypeId → Val → MemoryOp Unit}
    (hone : ∀ f ∈ fields, ∀ b v (m : Memory), m.IsAddressable → t.Fills f v →
      Settles (one b f v) m fun _ m' => m'.IsAddressable ∧ t.SpansType b f)
    (hhas : ∀ f ∈ fields, t.Has f) (halign : IsAlignment align)
    (hdvd : ∀ f ∈ fields, (t.extent f).align ∣ align) (hoffset : Spans a.toNat align offset)
    (hfits : Extent.endOf t.extent offset fields < wordRange) (hm : m.IsAddressable)
    (hvs : List.Forall₂ t.Fills fields vs) :
    Settles (writeFields t one a offset fields vs) m fun _ m' =>
      m'.IsAddressable ∧ Spans a.toNat align (Extent.endOf t.extent offset fields) := by
  induction hvs generalizing offset m with
  | nil => exact .of_ok rfl ⟨hm, hoffset⟩
  | @cons field v rest vs hv _ ih =>
      have hmem : field ∈ field :: rest := List.mem_cons_self
      have hend := Extent.le_endOf t.extent
        (alignTo offset (t.extent field).align + (t.extent field).size) rest
      rw [Extent.endOf] at hfits ⊢
      obtain ⟨start, b, hstart, hb, hnext, rfl, hspans⟩ := exists_place hscoped hacyclic hbounded
        (hhas field hmem) halign (hdvd field hmem) hoffset (by omega)
      rw [writeFields_cons hstart hb hnext]
      refine (hone field hmem b v m hm hv).bind fun _ m₁ hwrite => ?_
      obtain ⟨hm₁, hstored⟩ := hwrite
      exact ih (fun f hf => hone f (List.mem_cons_of_mem _ hf))
        (fun f hf => hhas f (List.mem_cons_of_mem _ hf))
        (fun f hf => hdvd f (List.mem_cons_of_mem _ hf)) (hspans hstored) hfits hm₁

/-- The items of an array are stored where there are bytes. -/
theorem writeItems_settles {one : UInt64 → Val → MemoryOp Unit} {i : Nat}
    (hone : ∀ v ∈ vs, ∀ b (m : Memory), m.IsAddressable →
      Settles (one b v) m fun _ m' => m'.IsAddressable ∧ Spans b.toNat align size)
    (halign : IsAlignment align) (hdvd : align ∣ size) (hoffset : Spans a.toNat align (i * size))
    (hm : m.IsAddressable) :
    Settles (writeItems one a size i vs) m fun _ m' =>
      m'.IsAddressable ∧ Spans a.toNat align ((i + vs.length) * size) := by
  induction vs generalizing i m with
  | nil => exact .of_ok rfl ⟨hm, hoffset⟩
  | cons v vs ih =>
      obtain ⟨b, hb, haddress⟩ :=
        addressPlus_eq_ok (hoffset.lt_wordRange halign (by simpa [wordRange] using a.toNat_lt))
      rw [writeItems_cons hb]
      refine (hone v List.mem_cons_self b m hm).bind fun _ m₁ hwrite => ?_
      obtain ⟨hm₁, hstored⟩ := hwrite
      have hnext : Spans a.toNat align ((i + 1) * size) := by
        rw [Nat.succ_mul]
        exact hoffset.append (haddress ▸ hstored) (Nat.dvd_refl align)
          (Nat.dvd_mul_left_of_dvd hdvd i) halign.pos
      rw [List.length_cons, show i + (vs.length + 1) = i + 1 + vs.length by omega]
      exact ih (fun w hw => hone w (List.mem_cons_of_mem _ hw)) hnext hm₁

include hscoped hacyclic hbounded in
/-- The value of a structure is stored where there are bytes for its fields. -/
theorem writeFields_settles_of_struct {n : Nat} {items : List Val} (hty : t.get id = .ok ty)
    (hfields : ty.fields? = some fields) (hm : m.IsAddressable) (hv : t.Fills id (.agg items))
    (hpart : ∀ p ∈ ty.parts, ∀ b v (m : Memory), m.IsAddressable → t.Fills p v →
      Settles (writeWithin t n b p v) m fun _ m' => m'.IsAddressable ∧ t.SpansType b p) :
    Settles (writeFields t (writeWithin t n) a 0 fields items) m fun _ m' =>
      m'.IsAddressable ∧ t.SpansType a id := by
  rcases hv.of_struct hty hfields with rfl | hitems
  · exact .of_ok rfl ⟨hm, .of_fields hscoped hacyclic hty hfields (.inl rfl)⟩
  · refine (writeFields_settles hscoped hacyclic hbounded
      (IrType.parts_of_fields? hfields ▸ hpart)
      (fun f => TypeTable.has_field hscoped hty hfields) (t.isAlignment_extent id).1
      (fun f => TypeTable.align_field_dvd hscoped hacyclic hty hfields) (.inl rfl)
      (TypeTable.endOf_lt_wordRange hscoped hacyclic hbounded hty hfields) hm hitems).imp
        fun _ _ h => ⟨h.1, .of_fields hscoped hacyclic hty hfields h.2⟩

include hscoped hacyclic in
/-- The value of an array is stored where there are bytes for its items. -/
theorem writeItems_settles_of_array {elem : TypeId} {n : Nat} {items : List Val}
    (hty : t.get id = .ok (.array elem items.length)) (hm : m.IsAddressable)
    (hitems : ∀ v ∈ items, t.Fills elem v)
    (hpart : ∀ b v (m : Memory), m.IsAddressable → t.Fills elem v →
      Settles (writeWithin t n b elem v) m fun _ m' => m'.IsAddressable ∧ t.SpansType b elem) :
    Settles (writeItems (fun b v => writeWithin t n b elem v) a (t.extent elem).size 0 items) m
      fun _ m' => m'.IsAddressable ∧ t.SpansType a id := by
  obtain ⟨halign, hdvd⟩ := t.isAlignment_extent elem
  have hall := writeItems_settles (a := a) (i := 0)
    (fun v hv b m hm => hpart b v m hm (hitems v hv)) halign hdvd (.inl (Nat.zero_mul _)) hm
  refine hall.imp fun _ m' hwrite => ⟨hwrite.1, ?_⟩
  have hspans := hwrite.2
  rw [Nat.zero_add] at hspans
  exact .of_items hscoped hacyclic hty hspans

include hscoped hacyclic hbounded in
/-- A value that fills a type is stored at any address, and then there is room for it, or storing
fails with an error. -/
theorem IsAddressable.write (hm : m.IsAddressable) (hid : t.Has id) (a : UInt64)
    (hv : t.Fills id v) :
    Settles (Memory.write t a id v) m fun _ m' => m'.IsAddressable ∧ t.SpansType a id := by
  refine hacyclic.of_parts
    (P := fun n id => t.Has id → ∀ a v (m : Memory), m.IsAddressable → t.Fills id v →
      Settles (writeWithin t n a id v) m fun _ m' => m'.IsAddressable ∧ t.SpansType a id)
    ?_ id hid a v m hm hv
  intro n id hparts hhas a v m hm hv
  obtain ⟨ty, hty⟩ := hhas
  have hpart : ∀ p ∈ ty.parts, ∀ b v (m : Memory), m.IsAddressable → t.Fills p v →
      Settles (writeWithin t n b p v) m fun _ m' => m'.IsAddressable ∧ t.SpansType b p :=
    fun p hp => hparts p ⟨ty, hty, hp⟩ (hscoped id p ⟨ty, hty, hp⟩)
  have hextent := TypeTable.extent_eq hscoped hacyclic hty
  have hstruct (fields : List TypeId) (items : List Val) (hfields : ty.fields? = some fields)
      (hagg : v = .agg items) :=
    writeFields_settles_of_struct hscoped hacyclic hbounded (a := a) hty hfields hm (hagg ▸ hv) hpart
  -- A type without parts takes the bytes of one number.
  have hword : ∀ k w, (t.extent id).size ≤ k →
      Settles (Memory.writeWord a k w) m fun _ m' => m'.IsAddressable ∧ t.SpansType a id :=
    fun k w hk => (hm.writeWord a k w).imp fun _ _ h => ⟨h.1, .of_le (by omega) _⟩
  have hnothing : (t.extent id).size = 0 → m.IsAddressable ∧ t.SpansType a id :=
    fun hzero => ⟨hm, .inl hzero⟩
  unfold writeWithin
  rw [hty, liftM_ok_bind]
  cases ty with
  | int bits =>
      dsimp only
      cases v.asInt? with
      | some i => exact hword _ _ (by rw [hextent]; exact Nat.le_refl _)
      | none => exact settles_mismatch id v
  | float bits =>
      have hsize : (t.extent id).size = bytesForBits bits := by
        rw [hextent]
        rfl
      cases v with
      | float x =>
          dsimp only
          split
          case isTrue h32 => exact hword 4 _ (by rw [hsize, h32]; decide)
          case isFalse => exact hword 8 _ (hsize ▸ (bytesForBits_bounds bits).2)
      | _ => exact settles_mismatch id _
  | pointer _ | function _ _ _ =>
      dsimp only
      cases v.asPtr? with
      | some p => exact hword _ _ (by rw [hextent]; exact Nat.le_refl _)
      | none => exact settles_mismatch id v
  | record fields =>
      cases v with
      | agg items => exact hstruct fields items rfl rfl
      | _ => exact settles_mismatch id _
  | named name body =>
      cases body with
      | none =>
          cases v with
          | agg items => exact .of_ok rfl (hnothing (by rw [hextent]; rfl))
          | _ => exact settles_mismatch id _
      | some fields =>
          cases v with
          | agg items => exact hstruct fields items rfl rfl
          | _ => exact settles_mismatch id _
  | array elem length =>
      cases v with
      | agg items =>
          obtain ⟨rfl, hitems⟩ := hv.of_array hty
          have hsize := TypeTable.sizeOf_eq_ok hscoped hacyclic hbounded
            (hscoped id elem ⟨_, hty, List.mem_cons_self⟩)
          dsimp only
          rw [hsize, liftM_ok_bind]
          exact writeItems_settles_of_array hscoped hacyclic hty hm hitems
            (hpart elem List.mem_cons_self)
      | _ => exact settles_mismatch id _
  | void => exact .of_ok rfl (hnothing (by rw [hextent]; rfl))

end Table

end Memory

end SsaCompiler
