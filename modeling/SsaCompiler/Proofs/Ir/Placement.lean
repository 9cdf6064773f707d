/-
# Places of fields and items

A structure has room for its fields one behind the other, and an array for its items. Here the
size of a type is taken apart: where each field starts and ends, and what the size of an array
is in terms of the size of its items. Sizes are found within as many levels as the table has
types, so what is found within fewer levels is the same.
-/

import SsaCompiler.Proofs.Ir.Development

namespace SsaCompiler

theorem Checked.word_eq_ok_iff {n k : Nat} : Checked.word n = .ok k ↔ n < wordRange ∧ n = k := by
  unfold Checked.word
  split <;> simp_all

namespace IrType

/-- Whether the values of the type are addresses. -/
def isAddress : IrType → Bool
  | pointer _ | function .. => true
  | _ => false

/-- An address takes a machine word. -/
theorem shape_of_isAddress {kind : IrType} (h : kind.isAddress = true) :
    kind.shape = .flat pointerSize pointerSize := by
  cases kind with
  | pointer _ | function _ _ _ => rfl
  | _ => cases h

/-- A structure whose fields are known is laid out by them. -/
theorem shape_of_fields? {kind : IrType} {fields : List TypeId}
    (h : kind.fields? = some fields) : kind.shape = .struct fields := by
  cases kind with
  | record _ => cases h; rfl
  | named name body => cases h; rfl
  | _ => cases h

end IrType

namespace TypeTable

variable {t : TypeTable} {ty field elem : TypeId} {kind : IrType} {fields rest : List TypeId}
  {offset start stop size length : Nat}

/-- The next multiple of an alignment is not before an offset. -/
theorem le_alignTo (offset align : Nat) : offset ≤ alignTo offset align := by
  unfold alignTo
  split
  · exact Nat.le_refl _
  · have hdiv := Nat.div_add_mod (offset + align - 1) align
    have hmod := Nat.mod_lt (offset + align - 1) (show 0 < align by omega)
    rw [Nat.mul_comm] at hdiv
    omega

/-- A field starts behind the fields before it. -/
theorem le_of_fieldStart (h : t.fieldStart offset field = .ok start) : offset ≤ start := by
  obtain ⟨align, -, h⟩ := answer_bind_eq_ok_iff.1 h
  obtain ⟨-, rfl⟩ := Checked.word_eq_ok_iff.1 h
  exact le_alignTo offset align

/-- A field ends as many bytes behind its start as its type has. -/
theorem fieldEnd_eq_ok_iff : t.fieldEnd start field = .ok stop ↔
    ∃ size, t.sizeOf field = .ok size ∧ stop = start + size ∧ stop < wordRange := by
  unfold fieldEnd
  rw [answer_bind_eq_ok_iff]
  refine exists_congr fun size => and_congr_right fun _ => ?_
  rw [Checked.word_eq_ok_iff]
  constructor
  · rintro ⟨hlt, rfl⟩
    exact ⟨rfl, hlt⟩
  · rintro ⟨rfl, hlt⟩
    exact ⟨hlt, rfl⟩

/-- The places of a list of fields. -/
theorem fieldsEnd_cons_eq_ok (h : t.fieldsEnd offset (field :: rest) = .ok stop) :
    ∃ start size, t.fieldStart offset field = .ok start ∧ t.sizeOf field = .ok size ∧
      t.fieldEnd start field = .ok (start + size) ∧ offset ≤ start ∧
      t.fieldsEnd (start + size) rest = .ok stop := by
  obtain ⟨start, hstart, h⟩ := answer_bind_eq_ok_iff.1 h
  obtain ⟨next, hnext, h⟩ := answer_bind_eq_ok_iff.1 h
  obtain ⟨size, hsize, rfl, -⟩ := fieldEnd_eq_ok_iff.1 hnext
  exact ⟨start, size, hstart, hsize, hnext, le_of_fieldStart hstart, h⟩

/-- A list of fields ends behind its start. -/
theorem le_of_fieldsEnd (h : t.fieldsEnd offset fields = .ok stop) : offset ≤ stop := by
  induction fields generalizing offset with
  | nil => cases h; exact Nat.le_refl _
  | cons field rest ih =>
      obtain ⟨start, size, -, -, -, hle, h⟩ := fieldsEnd_cons_eq_ok h
      have := ih h
      omega

/-- A size that is found within few enough levels is the size of the type. -/
theorem sizeOf_of_sizeWithin {n k : Nat} (hn : n ≤ t.size + 1) (h : t.sizeWithin n ty = .ok k) :
    t.sizeOf ty = .ok k := by
  obtain ⟨extra, hextra⟩ := Nat.exists_eq_add_of_le hn
  rw [sizeOf, hextra]
  clear hextra
  induction extra with
  | zero => exact h
  | succ extra ih => exact sizeWithin_succ_of_ok ih

/-- An alignment that is found within few enough levels is the alignment of the type. -/
theorem alignOf_of_alignWithin {n k : Nat} (hn : n ≤ t.size + 1)
    (h : t.alignWithin n ty = .ok k) : t.alignOf ty = .ok k := by
  obtain ⟨extra, hextra⟩ := Nat.exists_eq_add_of_le hn
  rw [alignOf, hextra]
  clear hextra
  induction extra with
  | zero => exact h
  | succ extra ih => exact alignWithin_succ_of_ok ih

/-- The end of the fields is the end of their alignments and sizes. -/
theorem fieldsEnd_of_endOfFields {n : Nat} {shapes : List (Nat × Nat)} (hn : n ≤ t.size + 1)
    (hshapes : (fields.mapM fun f => do return ((← t.alignWithin n f), (← t.sizeWithin n f))) =
      .ok shapes) (h : endOfFields offset shapes = .ok stop) :
    t.fieldsEnd offset fields = .ok stop := by
  induction fields generalizing offset shapes with
  | nil =>
      cases hshapes
      exact h
  | cons field rest ih =>
      rw [List.mapM_cons] at hshapes
      obtain ⟨shape, hshape, hshapes⟩ := answer_bind_eq_ok_iff.1 hshapes
      obtain ⟨align, halign, hshape⟩ := answer_bind_eq_ok_iff.1 hshape
      obtain ⟨size, hsize, hshape⟩ := answer_bind_eq_ok_iff.1 hshape
      cases hshape
      obtain ⟨others, hothers, hshapes⟩ := answer_bind_eq_ok_iff.1 hshapes
      cases hshapes
      obtain ⟨start, hstart, h⟩ := answer_bind_eq_ok_iff.1 h
      obtain ⟨next, hnext, h⟩ := answer_bind_eq_ok_iff.1 h
      have halign' := alignOf_of_alignWithin hn halign
      have hsize' := sizeOf_of_sizeWithin hn hsize
      have hfield : t.fieldStart offset field = .ok start := by
        rw [fieldStart, halign']
        exact hstart
      have hend : t.fieldEnd start field = .ok next := by
        rw [fieldEnd, hsize']
        exact hnext
      rw [fieldsEnd, hfield]
      change (t.fieldEnd start field >>= fun stop => t.fieldsEnd stop rest) = _
      rw [hend]
      exact ih hothers h

/-- A structure has room for its fields. -/
theorem exists_fieldsEnd (hty : t.get ty = .ok kind) (hfields : kind.fields? = some fields)
    (hsize : t.sizeOf ty = .ok size) : ∃ stop ≤ size, t.fieldsEnd 0 fields = .ok stop := by
  rw [sizeOf, sizeWithin_succ, hty] at hsize
  change kind.shape.size _ _ = _ at hsize
  rw [IrType.shape_of_fields? hfields] at hsize
  obtain ⟨shapes, hshapes, hsize⟩ := answer_bind_eq_ok_iff.1 hsize
  obtain ⟨stop, hstop, hsize⟩ := answer_bind_eq_ok_iff.1 hsize
  obtain ⟨-, rfl⟩ := Checked.word_eq_ok_iff.1 hsize
  exact ⟨stop, le_alignTo _ _, fieldsEnd_of_endOfFields (Nat.le_succ _) hshapes hstop⟩

/-- An array has room for its items. -/
theorem exists_sizeOf_elem (hty : t.get ty = .ok (.array elem length))
    (hsize : t.sizeOf ty = .ok size) : ∃ k, t.sizeOf elem = .ok k ∧ size = k * length := by
  rw [sizeOf, sizeWithin_succ, hty] at hsize
  change (t.sizeWithin t.size elem >>= fun k => Checked.word (k * length)) = .ok size at hsize
  obtain ⟨k, hk, hsize⟩ := answer_bind_eq_ok_iff.1 hsize
  obtain ⟨-, rfl⟩ := Checked.word_eq_ok_iff.1 hsize
  exact ⟨k, sizeWithin_succ_of_ok hk, rfl⟩

/-- The size of a type without parts. -/
theorem sizeOf_flat {align : Nat} (hty : t.get ty = .ok kind) (hshape : kind.shape = .flat align size) :
    t.sizeOf ty = .ok size := by
  rw [sizeOf, sizeWithin_succ, hty]
  change kind.shape.size _ _ = _
  rw [hshape]
  rfl

end TypeTable

end SsaCompiler
