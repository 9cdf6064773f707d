/-
# Layout is sound and tight

Sizes are computed in machine words and in three walks: one for alignments, one for sizes and one
for the places of fields. Here the same layout is computed at once and in numbers without a bound.
In a table without cycles all three walks agree with it as long as no size passes a machine word.

What the layout says is read off there. Alignments are 1, 2, 4 or 8 and divide the sizes; each field
stands at the first place behind the one before it that its alignment allows, and a structure ends
where its own alignment first allows it.
-/

import Mathlib.Order.Bounds.Defs
import SsaCompiler.Proofs.Ir.Placement

namespace SsaCompiler

open TypeTable (le_alignTo)

/-! ### Alignments -/

/-- The next multiple of an alignment is a multiple of it. -/
theorem dvd_alignTo (offset : Nat) {align : Nat} (h : 0 < align) : align ∣ alignTo offset align := by
  unfold alignTo
  split
  · rw [show align = 1 from by omega]
    exact Nat.one_dvd offset
  · exact Nat.dvd_mul_left _ _

/-- The next multiple of an alignment comes before any other that is not below the offset. -/
theorem alignTo_le {offset align m : Nat} (hdvd : align ∣ m) (hle : offset ≤ m) :
    alignTo offset align ≤ m := by
  unfold alignTo
  split
  · exact hle
  · obtain ⟨k, rfl⟩ := hdvd
    have hquot : (offset + align - 1) / align < k + 1 := by
      rw [Nat.div_lt_iff_lt_mul (by omega), Nat.add_mul, Nat.mul_comm k align]
      omega
    rw [Nat.mul_comm align k]
    exact Nat.mul_le_mul_right align (Nat.lt_succ_iff.1 hquot)

/-- The next multiple of an alignment is the least one that is not below the offset. -/
theorem isLeast_alignTo (offset : Nat) {align : Nat} (h : 0 < align) :
    IsLeast {m | align ∣ m ∧ offset ≤ m} (alignTo offset align) :=
  ⟨⟨dvd_alignTo offset h, le_alignTo offset align⟩, fun _ hm => alignTo_le hm.1 hm.2⟩

/-- The next multiple of an alignment is less than the alignment away. -/
theorem alignTo_lt (offset : Nat) {align : Nat} (h : 0 < align) :
    alignTo offset align < offset + align := by
  unfold alignTo
  split
  · omega
  · have hle := Nat.div_mul_le_self (offset + align - 1) align
    omega

/-- The greatest alignment of a list is one of them, or one for want of any. -/
theorem greatestAlign_mem (aligns : List Nat) : greatestAlign aligns ∈ 1 :: aligns :=
  List.max?_mem rfl

/-- The alignments that there are. -/
def IsAlignment (align : Nat) : Prop := align ∈ [1, 2, 4, 8]

instance : DecidablePred IsAlignment :=
  fun align => inferInstanceAs (Decidable (align ∈ [1, 2, 4, 8]))

/-- An alignment is at least one. -/
theorem IsAlignment.pos {align : Nat} (h : IsAlignment align) : 0 < align := by
  unfold IsAlignment at h
  simp only [List.mem_cons, List.not_mem_nil, or_false] at h
  omega

/-- A number is aligned to its own bytes. -/
theorem isAlignment_bytesForBits (bits : Nat) : IsAlignment (bytesForBits bits) := by
  unfold bytesForBits IsAlignment
  split
  · decide
  · split
    · decide
    · split <;> decide

/-- The greatest of some alignments is one. -/
theorem isAlignment_greatestAlign {aligns : List Nat} (h : ∀ a ∈ aligns, IsAlignment a) :
    IsAlignment (greatestAlign aligns) := by
  rcases List.mem_cons.1 (greatestAlign_mem aligns) with heq | hmem
  · rw [heq]
    decide
  · exact h _ hmem

/-! ### Extents -/

/-- The alignment and the size of a type. -/
structure Extent where
  /-- The alignment in bytes. -/
  align : Nat
  /-- The size in bytes, padding included. -/
  size : Nat
  deriving DecidableEq, Repr, Inhabited

/-- Where a list of fields ends, the first of which comes behind an offset. -/
def Extent.endOf (of : TypeId → Extent) : Nat → List TypeId → Nat
  | stop, [] => stop
  | stop, field :: rest => endOf of (alignTo stop (of field).align + (of field).size) rest

namespace Extent

variable {of of' : TypeId → Extent} {fields rest : List TypeId} {stop : Nat}

/-- Fields end behind their start. -/
theorem le_endOf (of : TypeId → Extent) (stop : Nat) (fields : List TypeId) :
    stop ≤ endOf of stop fields := by
  induction fields generalizing stop with
  | nil => exact Nat.le_refl stop
  | cons field rest ih =>
      have hstart := le_alignTo stop (of field).align
      have hrest := ih (alignTo stop (of field).align + (of field).size)
      rw [endOf]
      omega

theorem endOf_append (of : TypeId → Extent) (stop : Nat) (fields rest : List TypeId) :
    endOf of stop (fields ++ rest) = endOf of (endOf of stop fields) rest := by
  induction fields generalizing stop with
  | nil => rfl
  | cons field fields ih => exact ih _

/-- Fields end where the last of them does. -/
theorem endOf_take_succ {i : Nat} {field : TypeId} (h : fields[i]? = some field) :
    endOf of stop (fields.take (i + 1)) =
      alignTo (endOf of stop (fields.take i)) (of field).align + (of field).size := by
  rw [List.take_add_one, h, endOf_append]
  rfl

theorem endOf_take_le {i j : Nat} (h : i ≤ j) :
    endOf of stop (fields.take i) ≤ endOf of stop (fields.take j) := by
  obtain ⟨k, rfl⟩ := Nat.exists_eq_add_of_le h
  rw [List.take_add, endOf_append]
  exact le_endOf _ _ _

/-- No field ends behind all of them. -/
theorem endOf_take_le_endOf (of : TypeId → Extent) (stop : Nat) (fields : List TypeId) (i : Nat) :
    endOf of stop (fields.take i) ≤ endOf of stop fields := by
  conv => rhs; rw [← List.take_append_drop i fields, endOf_append]
  exact le_endOf _ _ _

/-- Only the extents of the fields count for where they end. -/
theorem endOf_congr (h : ∀ f ∈ fields, of f = of' f) : endOf of stop fields = endOf of' stop fields := by
  induction fields generalizing stop with
  | nil => rfl
  | cons field rest ih =>
      rw [endOf, endOf, h field List.mem_cons_self]
      exact ih fun f hf => h f (List.mem_cons_of_mem _ hf)

end Extent

/-- A list answers with what each of its entries does. -/
theorem mapM_eq_ok_map {α β ε : Type} {f : α → Except ε β} {g : α → β} {xs : List α}
    (h : ∀ x ∈ xs, f x = .ok (g x)) : xs.mapM f = .ok (xs.map g) := by
  induction xs with
  | nil => rfl
  | cons x rest ih =>
      rw [List.mapM_cons, h x List.mem_cons_self,
        ih fun z hz => h z (List.mem_cons_of_mem _ hz)]
      rfl

namespace Shape

variable {s : Shape} {of of' : TypeId → Extent} {alignOf sizeOf : TypeId → Checked Nat}

/-- The extent from those of the parts. -/
def extent (of : TypeId → Extent) : Shape → Extent
  | flat align size => ⟨align, size⟩
  | copies elem length => ⟨(of elem).align, (of elem).size * length⟩
  | struct fields =>
    let align := greatestAlign (fields.map fun f => (of f).align)
    ⟨align, alignTo (Extent.endOf of 0 fields) align⟩

/-- Only the parts count for the extent. -/
theorem extent_congr (h : ∀ p ∈ s.parts, of p = of' p) : s.extent of = s.extent of' := by
  cases s with
  | flat _ _ => rfl
  | copies elem _ => rw [extent, extent, h elem List.mem_cons_self]
  | struct fields =>
      have haligns : fields.map (fun f => (of f).align) = fields.map fun f => (of' f).align :=
        List.map_congr_left fun f hf => by rw [h f hf]
      have hend : Extent.endOf of 0 fields = Extent.endOf of' 0 fields := Extent.endOf_congr h
      rw [extent, extent, haligns, hend]

/-- The alignment is that of the extent. -/
theorem align_eq_ok (h : ∀ p ∈ s.parts, alignOf p = .ok (of p).align) :
    s.align alignOf = .ok (s.extent of).align := by
  cases s with
  | flat _ _ => rfl
  | copies elem _ => exact h elem List.mem_cons_self
  | struct fields =>
      have haligns : fields.mapM alignOf = .ok (fields.map fun f => (of f).align) :=
        mapM_eq_ok_map h
      rw [align, haligns]
      rfl

/-- As long as the end of the fields fits a machine word it is found. -/
theorem endOfFields_eq_ok {fields : List TypeId} {stop : Nat}
    (h : Extent.endOf of stop fields < wordRange) :
    TypeTable.endOfFields stop (fields.map fun f => ((of f).align, (of f).size)) =
      .ok (Extent.endOf of stop fields) := by
  induction fields generalizing stop with
  | nil => rfl
  | cons field rest ih =>
      rw [Extent.endOf] at h ⊢
      have hend := Extent.le_endOf of (alignTo stop (of field).align + (of field).size) rest
      have hstart : Checked.word (alignTo stop (of field).align) =
          .ok (alignTo stop (of field).align) := Checked.word_eq_ok_iff.2 ⟨by omega, rfl⟩
      have hstop : Checked.word (alignTo stop (of field).align + (of field).size) =
          .ok (alignTo stop (of field).align + (of field).size) :=
        Checked.word_eq_ok_iff.2 ⟨by omega, rfl⟩
      rw [List.map_cons, TypeTable.endOfFields, hstart]
      change (Checked.word (alignTo stop (of field).align + (of field).size) >>= fun stop =>
        TypeTable.endOfFields stop (rest.map fun f => ((of f).align, (of f).size))) = _
      rw [hstop]
      exact ih h

/-- The size is that of the extent when it fits a machine word. -/
theorem size_eq_ok (halign : ∀ p ∈ s.parts, alignOf p = .ok (of p).align)
    (hsize : ∀ p ∈ s.parts, sizeOf p = .ok (of p).size)
    (hfits : (s.extent of).size < wordRange) : s.size alignOf sizeOf = .ok (s.extent of).size := by
  cases s with
  | flat _ _ => rfl
  | copies elem length =>
      rw [size, hsize elem List.mem_cons_self]
      exact Checked.word_eq_ok_iff.2 ⟨hfits, rfl⟩
  | struct fields =>
      have hshapes : (fields.mapM fun f => do return ((← alignOf f), (← sizeOf f))) =
          .ok (fields.map fun f => ((of f).align, (of f).size)) :=
        mapM_eq_ok_map fun f hf => by
          rw [halign f hf, hsize f hf]
          rfl
      have haligns : (fields.map fun f => ((of f).align, (of f).size)).map Prod.fst =
          fields.map fun f => (of f).align := by
        rw [List.map_map]
        rfl
      have hend : Extent.endOf of 0 fields ≤ (extent of (struct fields)).size := le_alignTo _ _
      rw [size, hshapes]
      change (TypeTable.endOfFields 0 _ >>= _) = _
      rw [endOfFields_eq_ok (by omega)]
      refine Checked.word_eq_ok_iff.2 ⟨?_, ?_⟩ <;> rw [haligns]
      · exact hfits
      · rfl

/-- An alignment comes from those of the parts and divides the size. -/
theorem isAlignment_extent (hflat : ∀ align size, s = .flat align size →
    IsAlignment align ∧ align ∣ size)
    (h : ∀ p ∈ s.parts, IsAlignment (of p).align ∧ (of p).align ∣ (of p).size) :
    IsAlignment (s.extent of).align ∧ (s.extent of).align ∣ (s.extent of).size := by
  cases s with
  | flat align size => exact hflat align size rfl
  | copies elem length =>
      obtain ⟨halign, hdvd⟩ := h elem List.mem_cons_self
      exact ⟨halign, Nat.dvd_mul_right_of_dvd hdvd length⟩
  | struct fields =>
      have halign : IsAlignment (greatestAlign (fields.map fun f => (of f).align)) := by
        refine isAlignment_greatestAlign fun a ha => ?_
        obtain ⟨f, hf, rfl⟩ := List.mem_map.1 ha
        exact (h f hf).1
      exact ⟨halign, dvd_alignTo _ halign.pos⟩

end Shape

/-- A type without parts takes a multiple of its alignment. -/
theorem IrType.isAlignment_of_flat {ty : IrType} {align size : Nat} (h : ty.shape = .flat align size) :
    IsAlignment align ∧ align ∣ size := by
  have hself : ∀ bits, IsAlignment (bytesForBits bits) ∧ bytesForBits bits ∣ bytesForBits bits :=
    fun bits => ⟨isAlignment_bytesForBits bits, Nat.dvd_refl _⟩
  cases ty with
  | named name body =>
      cases body with
      | none =>
          cases h
          decide
      | some fields => cases h
  | void => cases h; decide
  | int bits => cases h; exact hself bits
  | float bits => cases h; exact hself bits
  | pointer _ => cases h; decide
  | function _ _ _ => cases h; decide
  | array _ _ => cases h
  | record _ => cases h

/-- A type has fields that are known or it is a structure without body or no structure. -/
theorem IrType.fields?_eq_none_iff {ty : IrType} :
    ty.fields? = none ↔ ty.isOpaque = true ∨ ty.isStruct = false := by
  cases ty with
  | named _ body => cases body <;> simp [IrType.fields?, IrType.isOpaque, IrType.isStruct]
  | _ => simp [IrType.fields?, IrType.isOpaque, IrType.isStruct]

namespace TypeTable

variable {t : TypeTable} {id : TypeId} {ty : IrType} {fields : List TypeId} {n k : Nat}

/-- The extent of a type, following at most `n` levels of components. -/
def extentWithin (t : TypeTable) : Nat → TypeId → Extent
  | 0, _ => ⟨1, 0⟩
  | n + 1, id =>
    match t.get id with
    | .ok ty => ty.shape.extent (t.extentWithin n)
    | .error _ => ⟨1, 0⟩

/-- The extent of a type, in numbers without a bound. -/
def extent (t : TypeTable) (id : TypeId) : Extent := t.extentWithin (t.size + 1) id

/-- The sizes of all types are below the bound of a machine word. -/
def IsBounded (t : TypeTable) : Prop := ∀ i < t.size, (t.extent ⟨i⟩).size < wordRange

instance (t : TypeTable) : Decidable t.IsBounded :=
  inferInstanceAs (Decidable (∀ i < t.size, (t.extent ⟨i⟩).size < wordRange))

/-- The extent of a type at one more level is that of its shape. -/
theorem extentWithin_succ (hty : t.get id = .ok ty) (n : Nat) :
    t.extentWithin (n + 1) id = ty.shape.extent (t.extentWithin n) := by
  rw [extentWithin, hty]

/-- Where the alignment of a type is found, its extent has it and does not change with more
levels. -/
theorem extentWithin_of_alignWithin (h : t.alignWithin n id = .ok k) :
    t.extentWithin (n + 1) id = t.extentWithin n id ∧ (t.extentWithin n id).align = k := by
  induction n generalizing id k with
  | zero => cases h
  | succ n ih =>
      rw [alignWithin_succ] at h
      obtain ⟨ty, hty, halign⟩ := answer_bind_eq_ok_iff.1 h
      have hparts := Shape.exists_of_align_eq_ok halign
      rw [extentWithin_succ hty, extentWithin_succ hty]
      constructor
      · refine Shape.extent_congr fun p hp => ?_
        obtain ⟨j, hj⟩ := hparts p hp
        exact (ih hj).1
      · have hextent : ty.shape.align (t.alignWithin n) =
            .ok (ty.shape.extent (t.extentWithin n)).align := by
          refine Shape.align_eq_ok fun p hp => ?_
          obtain ⟨j, hj⟩ := hparts p hp
          rw [hj, (ih hj).2]
        exact (Except.ok.inj (halign.symm.trans hextent)).symm

/-- The extent of a type is found within as many levels as its alignment. -/
theorem extent_eq_of_alignWithin (hn : n ≤ t.size + 1) (h : t.alignWithin n id = .ok k) :
    t.extent id = t.extentWithin n id := by
  obtain ⟨extra, hextra⟩ := Nat.exists_eq_add_of_le hn
  rw [extent, hextra]
  clear hextra
  have hmore : t.alignWithin (n + extra) id = .ok k ∧
      t.extentWithin (n + extra) id = t.extentWithin n id := by
    induction extra with
    | zero => exact ⟨h, rfl⟩
    | succ extra ih =>
        exact ⟨alignWithin_succ_of_ok ih.1, (extentWithin_of_alignWithin ih.1).1.trans ih.2⟩
  exact hmore.2

/-- A type whose parts are all in the table has an alignment unless it contains itself. -/
theorem IsScoped.alignWithin_cases (hscoped : t.IsScoped) (hid : t.Has id) (n : Nat) :
    (∃ k, t.alignWithin n id = .ok k) ∨ t.alignWithin n id = .error .endless := by
  induction n generalizing id with
  | zero => exact .inr rfl
  | succ n ih =>
      obtain ⟨ty, hty⟩ := hid
      rw [alignWithin_succ, hty]
      change (∃ k, ty.shape.align (t.alignWithin n) = .ok k) ∨
        ty.shape.align (t.alignWithin n) = .error .endless
      cases h : ty.shape.align (t.alignWithin n) with
      | ok k => exact .inl ⟨k, rfl⟩
      | error e =>
          obtain ⟨p, hp, herror⟩ := Shape.exists_of_align_eq_error h
          rcases ih (hscoped id p ⟨ty, hty, hp⟩) with ⟨k, hk⟩ | hendless
          · cases hk.symm.trans herror
          · exact .inr (congrArg Except.error (Except.error.inj (herror.symm.trans hendless)))

/-- In a table without cycles the alignment of every type is that of its extent. -/
theorem alignOf_eq_ok (hscoped : t.IsScoped) (hacyclic : t.IsAcyclic) (hid : t.Has id) :
    t.alignOf id = .ok (t.extent id).align := by
  rcases hscoped.alignWithin_cases hid (t.size + 1) with ⟨k, hk⟩ | hendless
  · rw [extent, (extentWithin_of_alignWithin hk).2]
    exact hk
  · exact absurd hendless (hacyclic.ne_endless id).1

/-- A type that has an alignment has the size of its extent, as long as sizes fit machine words. -/
theorem IsBounded.sizeWithin_eq_ok (hbounded : t.IsBounded) (hn : n ≤ t.size + 1)
    (h : t.alignWithin n id = .ok k) : t.sizeWithin n id = .ok (t.extent id).size := by
  induction n generalizing id k with
  | zero => cases h
  | succ n ih =>
      have hextent := extent_eq_of_alignWithin hn h
      rw [alignWithin_succ] at h
      obtain ⟨ty, hty, halign⟩ := answer_bind_eq_ok_iff.1 h
      have hn' : n ≤ t.size + 1 := by omega
      have hparts := Shape.exists_of_align_eq_ok halign
      have hof : ∀ p ∈ ty.shape.parts, t.extentWithin n p = t.extent p := fun p hp => by
        obtain ⟨j, hj⟩ := hparts p hp
        exact (extent_eq_of_alignWithin hn' hj).symm
      have hshape : t.extent id = ty.shape.extent t.extent := by
        rw [hextent, extentWithin_succ hty]
        exact Shape.extent_congr hof
      rw [sizeWithin_succ, hty, hshape]
      refine Shape.size_eq_ok (fun p hp => ?_) (fun p hp => ?_) ?_
      · obtain ⟨j, hj⟩ := hparts p hp
        rw [← hof p hp, (extentWithin_of_alignWithin hj).2, hj]
      · obtain ⟨j, hj⟩ := hparts p hp
        exact ih hn' hj
      · exact hshape ▸ hbounded id.index (lt_size_of_get hty)

/-- The size of every type is that of its extent. -/
theorem sizeOf_eq_ok (hscoped : t.IsScoped) (hacyclic : t.IsAcyclic) (hbounded : t.IsBounded)
    (hid : t.Has id) : t.sizeOf id = .ok (t.extent id).size :=
  hbounded.sizeWithin_eq_ok (Nat.le_refl _) (alignOf_eq_ok hscoped hacyclic hid)

/-- The extent of a type is that of its shape. -/
theorem extent_eq (hscoped : t.IsScoped) (hacyclic : t.IsAcyclic) (hty : t.get id = .ok ty) :
    t.extent id = ty.shape.extent t.extent := by
  rw [extent, extentWithin_succ hty]
  refine Shape.extent_congr fun p hp => ?_
  have halign := alignOf_eq_ok hscoped hacyclic ⟨ty, hty⟩
  rw [alignOf, alignWithin_succ, hty] at halign
  obtain ⟨j, hj⟩ := Shape.exists_of_align_eq_ok halign p hp
  exact (extent_eq_of_alignWithin (Nat.le_succ _) hj).symm

/-- Every alignment is 1, 2, 4 or 8 and divides the size. -/
theorem isAlignment_extent (t : TypeTable) (id : TypeId) :
    IsAlignment (t.extent id).align ∧ (t.extent id).align ∣ (t.extent id).size := by
  have hempty : IsAlignment 1 ∧ 1 ∣ 0 := by decide
  have hwithin : ∀ n id, IsAlignment (t.extentWithin n id).align ∧
      (t.extentWithin n id).align ∣ (t.extentWithin n id).size := by
    intro n
    induction n with
    | zero => exact fun _ => hempty
    | succ n ih =>
        intro id
        cases hty : t.get id with
        | error c =>
            rw [extentWithin, hty]
            exact hempty
        | ok ty =>
            rw [extentWithin_succ hty]
            exact Shape.isAlignment_extent (fun _ _ => IrType.isAlignment_of_flat) fun p _ => ih p
  exact hwithin (t.size + 1) id

/-! ### Fields -/

/-- There are no offsets where no fields are known. -/
theorem fieldOffset_of_fields?_eq_none (hty : t.get id = .ok ty) (hnone : ty.fields? = none) (i : Nat) :
    t.fieldOffset id i = .ok none := by
  rw [fieldOffset, hty]
  simp [hnone, bind, Except.bind, pure, Except.pure]

/-- A structure with known fields has no offset for a field it does not have. -/
theorem fieldOffset_of_getElem?_eq_none (hty : t.get id = .ok ty) (hfields : ty.fields? = some fields)
    {i : Nat} (hi : fields[i]? = none) : t.fieldOffset id i = .ok none := by
  rw [fieldOffset, hty]
  simp [hfields, hi, bind, Except.bind, pure, Except.pure]

/-- A structure with known fields has an offset for each of them. -/
theorem fieldOffset_of_getElem? (hty : t.get id = .ok ty) (hfields : ty.fields? = some fields)
    {i : Nat} {field : TypeId} (hi : fields[i]? = some field) :
    t.fieldOffset id i = do
      return some (← t.fieldStart (← t.fieldsEnd 0 (fields.take i)) field) := by
  rw [fieldOffset, hty]
  simp [hfields, hi, bind, Except.bind, pure, Except.pure]

section Fields

variable (hscoped : t.IsScoped) (hacyclic : t.IsAcyclic) (hbounded : t.IsBounded)
  (hty : t.get id = .ok ty) (hfields : ty.fields? = some fields)

include hscoped hty hfields in
/-- The fields of a structure are in the table. -/
theorem has_field {field : TypeId} (hfield : field ∈ fields) : t.Has field := by
  refine hscoped id field ⟨ty, hty, ?_⟩
  rw [IrType.parts, IrType.shape_of_fields? hfields]
  exact hfield

include hscoped hacyclic in
theorem fieldStart_eq_ok {field : TypeId} {offset : Nat} (hfield : t.Has field)
    (hfits : alignTo offset (t.extent field).align < wordRange) :
    t.fieldStart offset field = .ok (alignTo offset (t.extent field).align) := by
  rw [fieldStart, alignOf_eq_ok hscoped hacyclic hfield]
  exact Checked.word_eq_ok_iff.2 ⟨hfits, rfl⟩

include hscoped hacyclic hbounded in
/-- The end of a list of fields. -/
theorem fieldsEnd_eq_ok {offset : Nat} {list : List TypeId} (hlist : ∀ f ∈ list, t.Has f)
    (hfits : Extent.endOf t.extent offset list < wordRange) :
    t.fieldsEnd offset list = .ok (Extent.endOf t.extent offset list) := by
  induction list generalizing offset with
  | nil => rfl
  | cons field rest ih =>
      rw [Extent.endOf] at hfits ⊢
      have hfield := hlist field List.mem_cons_self
      have hend := Extent.le_endOf t.extent
        (alignTo offset (t.extent field).align + (t.extent field).size) rest
      have hstart : t.fieldStart offset field = .ok (alignTo offset (t.extent field).align) :=
        fieldStart_eq_ok hscoped hacyclic hfield (by omega)
      have hstop : t.fieldEnd (alignTo offset (t.extent field).align) field =
          .ok (alignTo offset (t.extent field).align + (t.extent field).size) :=
        fieldEnd_eq_ok_iff.2
          ⟨_, sizeOf_eq_ok hscoped hacyclic hbounded hfield, rfl, by omega⟩
      rw [fieldsEnd, hstart]
      change (t.fieldEnd (alignTo offset (t.extent field).align) field >>= fun stop =>
        t.fieldsEnd stop rest) = _
      rw [hstop]
      exact ih (fun f hf => hlist f (List.mem_cons_of_mem _ hf)) hfits

/-- Where the fields of a structure stand: each field from `start` on, as many fields as a number
says up to `stop`. -/
structure Packs (t : TypeTable) (id : TypeId) (fields : List TypeId) (align size : Nat)
    (start stop : Nat → Nat) : Prop where
  /-- Without a field there is nothing in front. -/
  stop_zero : stop 0 = 0
  /-- A field stands at the first multiple of its alignment behind the fields before it, and there
  its offset is. -/
  field : ∀ i field, fields[i]? = some field →
    t.fieldOffset id i = .ok (some (start i)) ∧
      ∃ align size, t.alignOf field = .ok align ∧ t.sizeOf field = .ok size ∧
        IsLeast {offset | align ∣ offset ∧ stop i ≤ offset} (start i) ∧
        stop (i + 1) = start i + size
  /-- No field reaches into one behind it. -/
  apart : ∀ i j, i < j → j < fields.length → stop (i + 1) ≤ start j
  /-- The last field ends inside. -/
  inside : stop fields.length ≤ size
  /-- The padding behind the last field is less than the alignment. -/
  tight : size < stop fields.length + align

include hscoped hacyclic hty hfields in
theorem extent_of_fields? :
    t.extent id =
      ⟨(t.extent id).align, alignTo (Extent.endOf t.extent 0 fields) (t.extent id).align⟩ := by
  rw [extent_eq hscoped hacyclic hty, IrType.shape_of_fields? hfields]
  rfl

include hscoped hacyclic hbounded hty hfields in
/-- The fields of a structure end within a machine word. -/
theorem endOf_lt_wordRange : Extent.endOf t.extent 0 fields < wordRange := by
  have hsize := hbounded id.index (lt_size_of_get hty)
  have hle := le_alignTo (Extent.endOf t.extent 0 fields) (t.extent id).align
  have heq := congrArg Extent.size (extent_of_fields? hscoped hacyclic hty hfields)
  change (t.extent id).size < wordRange at hsize
  rw [heq] at hsize
  exact Nat.lt_of_le_of_lt hle hsize

include hscoped hacyclic hbounded hty hfields in
/-- The offset of a field is where it starts in the extent. -/
theorem fieldOffset_eq_ok {i : Nat} {field : TypeId} (hi : fields[i]? = some field) :
    t.fieldOffset id i =
      .ok (some (alignTo (Extent.endOf t.extent 0 (fields.take i)) (t.extent field).align)) := by
  have hfits := endOf_lt_wordRange hscoped hacyclic hbounded hty hfields
  have hbefore := Extent.endOf_take_le_endOf t.extent 0 fields i
  have hwith := Extent.endOf_take_le_endOf t.extent 0 fields (i + 1)
  rw [Extent.endOf_take_succ hi] at hwith
  have hhas : ∀ f ∈ fields, t.Has f := fun f => has_field hscoped hty hfields
  have hend : t.fieldsEnd 0 (fields.take i) = .ok (Extent.endOf t.extent 0 (fields.take i)) :=
    fieldsEnd_eq_ok hscoped hacyclic hbounded (fun f hf => hhas f (List.mem_of_mem_take hf))
      (by omega)
  have hstart : t.fieldStart (Extent.endOf t.extent 0 (fields.take i)) field =
      .ok (alignTo (Extent.endOf t.extent 0 (fields.take i)) (t.extent field).align) :=
    fieldStart_eq_ok hscoped hacyclic (hhas field (List.mem_of_getElem? hi)) (by omega)
  rw [fieldOffset_of_getElem? hty hfields hi]
  change (t.fieldsEnd 0 (fields.take i) >>= fun stop => t.fieldStart stop field >>= fun start =>
    Except.ok (some start)) = _
  rw [hend]
  change (t.fieldStart _ field >>= fun start => Except.ok (some start)) = _
  rw [hstart]
  rfl

include hscoped hacyclic hbounded hty hfields in
/-- The fields of a structure are packed. -/
theorem packs :
    t.Packs id fields (t.extent id).align (t.extent id).size
      (fun i => alignTo (Extent.endOf t.extent 0 (fields.take i))
        ((fields[i]?.map fun f => (t.extent f).align).getD 1))
      (fun i => Extent.endOf t.extent 0 (fields.take i)) where
  stop_zero := rfl
  field i field hi := by
    have hhas := has_field hscoped hty hfields (List.mem_of_getElem? hi)
    have halign := (t.isAlignment_extent field).1.pos
    have hstart : (fields[i]?.map fun f => (t.extent f).align).getD 1 = (t.extent field).align := by
      rw [hi]
      rfl
    rw [hstart]
    exact ⟨fieldOffset_eq_ok hscoped hacyclic hbounded hty hfields hi, _, _,
      alignOf_eq_ok hscoped hacyclic hhas, sizeOf_eq_ok hscoped hacyclic hbounded hhas,
      isLeast_alignTo _ halign, Extent.endOf_take_succ hi⟩
  apart i j hij _ := (Extent.endOf_take_le hij).trans (le_alignTo _ _)
  inside := by
    rw [List.take_length, extent_of_fields? hscoped hacyclic hty hfields]
    exact le_alignTo _ _
  tight := by
    have halign := (t.isAlignment_extent id).1.pos
    rw [List.take_length]
    conv => lhs; rw [extent_of_fields? hscoped hacyclic hty hfields]
    exact alignTo_lt _ halign

end Fields

/-! ### The layout of a table -/

/-- The layout of a table whose types do not contain themselves and whose sizes fit machine words:
every type has an alignment and a size, the size is a multiple of the alignment, the fields of a
structure are packed into it, and offsets are there for those fields and for nothing else. -/
theorem layout_is_tight (hscoped : t.IsScoped) (hacyclic : t.IsAcyclic) (hbounded : t.IsBounded)
    (hty : t.get id = .ok ty) :
    ∃ align size, t.alignOf id = .ok align ∧ t.sizeOf id = .ok size ∧
      align ∈ [1, 2, 4, 8] ∧ align ∣ size ∧
      (∀ fields, ty.fields? = some fields → ∃ start stop, t.Packs id fields align size start stop) ∧
      ∀ i, t.fieldOffset id i = .ok none ↔
        (∃ fields, ty.fields? = some fields ∧ fields.length ≤ i) ∨
          ty.isOpaque = true ∨ ty.isStruct = false := by
  obtain ⟨halign, hdvd⟩ := t.isAlignment_extent id
  refine ⟨_, _, alignOf_eq_ok hscoped hacyclic ⟨ty, hty⟩,
    sizeOf_eq_ok hscoped hacyclic hbounded ⟨ty, hty⟩, halign, hdvd, fun fields hfields =>
      ⟨_, _, packs hscoped hacyclic hbounded hty hfields⟩, fun i => ?_⟩
  rw [← IrType.fields?_eq_none_iff]
  cases hfields : ty.fields? with
  | none => simp [fieldOffset_of_fields?_eq_none hty hfields i]
  | some fields =>
      cases hi : fields[i]? with
      | none =>
          simp [fieldOffset_of_getElem?_eq_none hty hfields hi, List.getElem?_eq_none_iff.1 hi]
      | some field =>
          have hlt : i < fields.length := (List.getElem?_eq_some_iff.1 hi).1
          simp [fieldOffset_eq_ok hscoped hacyclic hbounded hty hfields hi, hlt]

/-- A structure of a byte, a word and half a word. -/
def mixedTable : TypeTable := .ofTypes [.int 8, .int 64, .int 32, .record [⟨0⟩, ⟨1⟩, ⟨2⟩]]

/-- The structure of a byte, a word and half a word is packed. -/
theorem layout_is_tight_mixed :
    ∃ align size, mixedTable.alignOf ⟨3⟩ = .ok align ∧ mixedTable.sizeOf ⟨3⟩ = .ok size ∧
      align ∈ [1, 2, 4, 8] ∧ align ∣ size ∧
      (∀ fields, (IrType.record [⟨0⟩, ⟨1⟩, ⟨2⟩]).fields? = some fields →
        ∃ start stop, mixedTable.Packs ⟨3⟩ fields align size start stop) ∧
      ∀ i, mixedTable.fieldOffset ⟨3⟩ i = .ok none ↔
        (∃ fields, (IrType.record [⟨0⟩, ⟨1⟩, ⟨2⟩]).fields? = some fields ∧ fields.length ≤ i) ∨
          (IrType.record [⟨0⟩, ⟨1⟩, ⟨2⟩]).isOpaque = true ∨
          (IrType.record [⟨0⟩, ⟨1⟩, ⟨2⟩]).isStruct = false :=
  layout_is_tight (isScoped_of_older (by decide)) (isAcyclic_of_older (by decide)) (by decide) rfl

/- Seven bytes of padding are in front of the word, and four follow the last field. -/
example : mixedTable.fieldOffset ⟨3⟩ 1 = .ok (some 8) ∧ mixedTable.sizeOf ⟨3⟩ = .ok 24 := by
  decide

end TypeTable

end SsaCompiler
