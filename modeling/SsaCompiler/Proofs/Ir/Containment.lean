/-
# Containment by value

A structure holds a whole value of each of its fields and an array one of its element type,
while a pointer holds only an address. Sizes and alignments are computed along containment,
so they have an answer exactly when no type is met again inside itself.

Named structures get their fields late. Filling in a body is the only way in which a table
without cycles can come to have one, and it does so exactly when one of the new fields leads
back to the structure.
-/

import Mathlib.Data.Finset.Card
import Mathlib.Logic.Relation
import SsaCompiler.Proofs.Ir.Request

namespace SsaCompiler

open Relation

/-! ### Sequences of answers -/

section Answers

variable {α β ε : Type} {x : Except ε α} {k : α → Except ε β} {f g : α → Except ε β}
  {xs : List α}

/-- A list crashes only where one of its entries does. -/
theorem exists_of_mapM_eq_error {e : ε} (h : xs.mapM f = .error e) : ∃ x ∈ xs, f x = .error e := by
  induction xs with
  | nil => cases h
  | cons x rest ih =>
      rw [List.mapM_cons] at h
      rcases answer_bind_eq_error_iff.1 h with hx | ⟨y, -, h⟩
      · exact ⟨x, List.mem_cons_self, hx⟩
      · rcases answer_bind_eq_error_iff.1 h with hrest | ⟨ys, -, h⟩
        · obtain ⟨z, hz, heq⟩ := ih hrest
          exact ⟨z, List.mem_cons_of_mem _ hz, heq⟩
        · cases h

/-- A list answers only when each of its entries does. -/
theorem exists_of_mapM_eq_ok {ys : List β} (h : xs.mapM f = .ok ys) :
    ∀ x ∈ xs, ∃ y, f x = .ok y := by
  induction xs generalizing ys with
  | nil => simp
  | cons x rest ih =>
      rw [List.mapM_cons] at h
      obtain ⟨y, hy, h⟩ := answer_bind_eq_ok_iff.1 h
      obtain ⟨zs, hzs, -⟩ := answer_bind_eq_ok_iff.1 h
      simpa [hy] using ih hzs

/-- The answer of a list depends on its entries alone. -/
theorem mapM_congr_of_mem (h : ∀ x ∈ xs, f x = g x) : xs.mapM f = xs.mapM g := by
  induction xs with
  | nil => rfl
  | cons x rest ih =>
      rw [List.mapM_cons, List.mapM_cons, h x List.mem_cons_self,
        ih fun z hz => h z (List.mem_cons_of_mem _ hz)]

end Answers

/-! ### Types and their parts -/

/-- How values of a type lie in memory: without parts, as copies of one part, or as one part
behind the other. -/
inductive Shape where
  | flat (align size : Nat)
  | copies (elem : TypeId) (length : Nat)
  | struct (fields : List TypeId)

namespace Shape

/-- The types of the parts. -/
def parts : Shape → List TypeId
  | flat _ _ => []
  | copies elem _ => [elem]
  | struct fields => fields

/-- The alignment from those of the parts. -/
def align (alignOf : TypeId → Checked Nat) : Shape → Checked Nat
  | flat align _ => .ok align
  | copies elem _ => alignOf elem
  | struct fields => do return greatestAlign (← fields.mapM alignOf)

/-- The size from the alignments and the sizes of the parts. -/
def size (alignOf sizeOf : TypeId → Checked Nat) : Shape → Checked Nat
  | flat _ size => .ok size
  | copies elem length => do Checked.word ((← sizeOf elem) * length)
  | struct fields => do
    let shapes ← fields.mapM fun f => do return ((← alignOf f), (← sizeOf f))
    let stop ← TypeTable.endOfFields 0 shapes
    Checked.word (alignTo stop (greatestAlign (shapes.map Prod.fst)))

variable {s : Shape} {alignOf alignOf' sizeOf sizeOf' : TypeId → Checked Nat} {k : Nat}

/-- Only the parts count for the alignment. -/
theorem align_congr (h : ∀ p ∈ s.parts, alignOf p = alignOf' p) :
    s.align alignOf = s.align alignOf' := by
  cases s with
  | flat _ _ => rfl
  | copies elem _ => exact h elem List.mem_cons_self
  | struct fields =>
      have hfields : fields.mapM alignOf = fields.mapM alignOf' := mapM_congr_of_mem h
      simp only [align, hfields]

/-- Only the parts count for the size. -/
theorem size_congr (halign : ∀ p ∈ s.parts, alignOf p = alignOf' p)
    (hsize : ∀ p ∈ s.parts, sizeOf p = sizeOf' p) :
    s.size alignOf sizeOf = s.size alignOf' sizeOf' := by
  cases s with
  | flat _ _ => rfl
  | copies elem _ => simp only [size, hsize elem List.mem_cons_self]
  | struct fields =>
      have hfields : (fields.mapM fun f => do return ((← alignOf f), (← sizeOf f))) =
          fields.mapM fun f => do return ((← alignOf' f), (← sizeOf' f)) :=
        mapM_congr_of_mem fun p hp => by rw [halign p hp, hsize p hp]
      simp only [size, hfields]

/-- There is no alignment without one for each of the parts. -/
theorem exists_of_align_eq_ok (h : s.align alignOf = .ok k) :
    ∀ p ∈ s.parts, ∃ j, alignOf p = .ok j := by
  cases s with
  | flat _ _ => simp [parts]
  | copies elem _ => simpa [parts] using ⟨k, h⟩
  | struct fields =>
      obtain ⟨aligns, haligns, -⟩ := answer_bind_eq_ok_iff.1 h
      exact exists_of_mapM_eq_ok haligns

/-- There is an alignment when there is one for each of the parts. -/
theorem exists_align (h : ∀ p ∈ s.parts, ∃ j, alignOf p = .ok j) : ∃ j, s.align alignOf = .ok j := by
  cases s with
  | flat align _ => exact ⟨align, rfl⟩
  | copies elem _ => exact h elem List.mem_cons_self
  | struct fields =>
      cases haligns : fields.mapM alignOf with
      | ok aligns => exact ⟨greatestAlign aligns, by rw [align, haligns]; rfl⟩
      | error c =>
          obtain ⟨p, hp, hcrash⟩ := exists_of_mapM_eq_error haligns
          obtain ⟨j, hj⟩ := h p hp
          cases hcrash.symm.trans hj

/-- There is no size without one for each of the parts. -/
theorem exists_of_size_eq_ok (h : s.size alignOf sizeOf = .ok k) :
    ∀ p ∈ s.parts, ∃ j, sizeOf p = .ok j := by
  cases s with
  | flat _ _ => simp [parts]
  | copies elem _ =>
      obtain ⟨j, hj, -⟩ := answer_bind_eq_ok_iff.1 h
      simpa [parts] using ⟨j, hj⟩
  | struct fields =>
      obtain ⟨shapes, hshapes, -⟩ := answer_bind_eq_ok_iff.1 h
      intro p hp
      obtain ⟨shape, hshape⟩ := exists_of_mapM_eq_ok hshapes p hp
      obtain ⟨_, -, hrest⟩ := answer_bind_eq_ok_iff.1 hshape
      obtain ⟨j, hj, -⟩ := answer_bind_eq_ok_iff.1 hrest
      exact ⟨j, hj⟩

/-- A machine word is too small or it is not, but it always comes to an end. -/
theorem word_ne_endless (n : Nat) : Checked.word n ≠ .error .endless := by
  unfold Checked.word
  split <;> simp

theorem endOfFields_ne_endless (offset : Nat) (shapes : List (Nat × Nat)) :
    TypeTable.endOfFields offset shapes ≠ .error .endless := by
  induction shapes generalizing offset with
  | nil => simp [TypeTable.endOfFields]
  | cons shape rest ih =>
      obtain ⟨align, size⟩ := shape
      intro h
      rcases answer_bind_eq_error_iff.1 h with h | ⟨start, -, h⟩
      · exact word_ne_endless _ h
      · rcases answer_bind_eq_error_iff.1 h with h | ⟨stop, -, h⟩
        · exact word_ne_endless _ h
        · exact ih stop h

/-- An alignment crashes only where that of a part does. -/
theorem exists_of_align_eq_error {e : Crash} (h : s.align alignOf = .error e) :
    ∃ p ∈ s.parts, alignOf p = .error e := by
  cases s with
  | flat _ _ => cases h
  | copies elem _ => exact ⟨elem, List.mem_cons_self, h⟩
  | struct fields =>
      rcases answer_bind_eq_error_iff.1 h with h | ⟨_, -, h⟩
      · exact exists_of_mapM_eq_error h
      · cases h

/-- A size does not come to an end only where the alignment or the size of a part does not. -/
theorem exists_of_size_endless (h : s.size alignOf sizeOf = .error .endless) :
    ∃ p ∈ s.parts, alignOf p = .error .endless ∨ sizeOf p = .error .endless := by
  cases s with
  | flat _ _ => cases h
  | copies elem _ =>
      rcases answer_bind_eq_error_iff.1 h with h | ⟨_, -, h⟩
      · exact ⟨elem, List.mem_cons_self, .inr h⟩
      · exact (word_ne_endless _ h).elim
  | struct fields =>
      rcases answer_bind_eq_error_iff.1 h with h | ⟨_, -, h⟩
      · obtain ⟨p, hp, hshape⟩ := exists_of_mapM_eq_error h
        rcases answer_bind_eq_error_iff.1 hshape with hp' | ⟨_, -, hshape⟩
        · exact ⟨p, hp, .inl hp'⟩
        · rcases answer_bind_eq_error_iff.1 hshape with hp' | ⟨_, -, hshape⟩
          · exact ⟨p, hp, .inr hp'⟩
          · cases hshape
      · rcases answer_bind_eq_error_iff.1 h with h | ⟨_, -, h⟩
        · exact (endOfFields_ne_endless _ _ h).elim
        · exact (word_ne_endless _ h).elim

end Shape

namespace IrType

/-- How values of a type lie in memory. A structure without body takes no room. -/
def shape : IrType → Shape
  | void | named _ none => .flat 1 0
  | int bits | float bits => .flat (bytesForBits bits) (bytesForBits bits)
  | pointer _ | function .. => .flat pointerSize pointerSize
  | array elem length => .copies elem length
  | record fields | named _ (some fields) => .struct fields

/-- The types of which every value of a type holds a whole value. -/
def parts (ty : IrType) : List TypeId := ty.shape.parts

/-- Whether the type is a structure whose fields are not known. -/
def isOpaque : IrType → Bool
  | named _ none => true
  | _ => false

end IrType

namespace TypeTable

variable {t t' : TypeTable} {id : TypeId} {ty : IrType} {n k : Nat}

/-- The alignment of a type at one more level is that of its shape. -/
theorem alignWithin_succ (t : TypeTable) (n : Nat) (id : TypeId) :
    t.alignWithin (n + 1) id = t.get id >>= fun ty => ty.shape.align (t.alignWithin n) := by
  rw [alignWithin]
  congr 1
  funext ty
  cases ty with
  | named name body => cases body <;> rfl
  | _ => rfl

/-- The size of a type at one more level is that of its shape. -/
theorem sizeWithin_succ (t : TypeTable) (n : Nat) (id : TypeId) :
    t.sizeWithin (n + 1) id =
      t.get id >>= fun ty => ty.shape.size (t.alignWithin n) (t.sizeWithin n) := by
  rw [sizeWithin]
  congr 1
  funext ty
  cases ty with
  | named name body => cases body <;> rfl
  | _ => rfl

/-! ### Cycles -/

/-- A type of the table that holds a whole value of another one. -/
def Contains (t : TypeTable) (outer inner : TypeId) : Prop :=
  ∃ ty, t.get outer = .ok ty ∧ inner ∈ ty.parts

/-- No type holds a whole value of itself, however far inside. -/
def IsAcyclic (t : TypeTable) : Prop := ∀ id, ¬ TransGen t.Contains id id

/-- What contains something is in the table. -/
theorem Contains.lt_size {outer inner : TypeId} (h : t.Contains outer inner) :
    outer.index < t.size := by
  obtain ⟨ty, hty, -⟩ := h
  exact (Array.getElem?_eq_some_iff.1 (Checked.at_eq_ok_iff.1 hty)).1

/-- Types that only have older parts do not contain themselves. -/
theorem isAcyclic_of_older
    (h : ∀ i (hi : i < t.types.size), ∀ p ∈ t.types[i].parts, p.index < i) : t.IsAcyclic := by
  have hstep : ∀ {a b}, t.Contains a b → b.index < a.index := by
    rintro a b ⟨ty, hty, hb⟩
    obtain ⟨ha, rfl⟩ := Array.getElem?_eq_some_iff.1 (Checked.at_eq_ok_iff.1 hty)
    exact h a.index ha b hb
  have hlt : ∀ {a b}, TransGen t.Contains a b → b.index < a.index := by
    intro a b hab
    induction hab with
    | single hab => exact hstep hab
    | tail _ hbc ih => exact (hstep hbc).trans ih
  exact fun id hcycle => Nat.lt_irrefl _ (hlt hcycle)

/-- Something that hands itself on from a type to one of its parts, losing a level each time,
runs out of types: there are no more of them than the table has. -/
theorem IsAcyclic.not_of_descends {E : Nat → TypeId → Prop} (h : t.IsAcyclic)
    (hE : ∀ {n id}, E (n + 1) id → ∃ p, t.Contains id p ∧ E n p) (above : Finset TypeId)
    (habove : ∀ a ∈ above, a.index < t.size ∧ TransGen t.Contains a id)
    (hcard : t.size < n + above.card) : ¬ E n id := by
  classical
  induction n generalizing id above with
  | zero =>
      -- As many types as the table has positions, and one more, are all in the table.
      have hinj : Set.InjOn TypeId.index above := by
        rintro ⟨i⟩ - ⟨j⟩ - rfl
        rfl
      have hrange : above.image TypeId.index ⊆ Finset.range t.size := by
        intro i hi
        obtain ⟨a, ha, rfl⟩ := Finset.mem_image.1 hi
        exact Finset.mem_range.2 (habove a ha).1
      have hle := Finset.card_le_card hrange
      rw [Finset.card_image_of_injOn hinj, Finset.card_range] at hle
      omega
  | succ n ih =>
      intro hid
      obtain ⟨p, hp, hEp⟩ := hE hid
      have hfresh : id ∉ above := fun hmem => h id (habove id hmem).2
      refine ih (insert id above) ?_ ?_ hEp
      · intro a ha
        rcases Finset.mem_insert.1 ha with rfl | ha
        · exact ⟨hp.lt_size, .single hp⟩
        · exact ⟨(habove a ha).1, (habove a ha).2.tail hp⟩
      · rw [Finset.card_insert_of_notMem hfresh]
        omega

/-- The alignment or the size of a type does not come to an end within a number of levels. -/
def IsEndless (t : TypeTable) (n : Nat) (id : TypeId) : Prop :=
  t.alignWithin n id = .error .endless ∨ t.sizeWithin n id = .error .endless

/-- Where a type does not come to an end, neither does one of its parts. -/
theorem IsEndless.exists_part (h : t.IsEndless (n + 1) id) :
    ∃ p, t.Contains id p ∧ t.IsEndless n p := by
  rw [IsEndless, alignWithin_succ, sizeWithin_succ] at h
  cases hty : t.get id with
  | error c =>
      have hc : c = .outOfRange := by
        unfold TypeTable.get Checked.at at hty
        split at hty <;> simp_all
      subst hc
      rw [hty] at h
      simp [bind, Except.bind] at h
  | ok ty =>
      rw [hty] at h
      rcases h with h | h
      · obtain ⟨p, hp, hendless⟩ := Shape.exists_of_align_eq_error h
        exact ⟨p, ⟨ty, hty, hp⟩, .inl hendless⟩
      · obtain ⟨p, hp, hendless⟩ := Shape.exists_of_size_endless h
        exact ⟨p, ⟨ty, hty, hp⟩, hendless⟩

/-- In a table without cycles alignments and sizes always come to an end. -/
theorem IsAcyclic.ne_endless (h : t.IsAcyclic) (id : TypeId) :
    t.alignOf id ≠ .error .endless ∧ t.sizeOf id ≠ .error .endless := by
  have hnot : ¬ t.IsEndless (t.size + 1) id :=
    h.not_of_descends IsEndless.exists_part ∅ (by simp) (by simp)
  exact not_or.1 hnot

/-- A type that has an alignment hands one to everything inside it, on a lower level. -/
theorem exists_lt_alignWithin_eq_ok {outer inner : TypeId} (h : TransGen t.Contains outer inner)
    (hk : t.alignWithin n outer = .ok k) : ∃ m < n, ∃ j, t.alignWithin m inner = .ok j := by
  have hstep : ∀ {n k a b}, t.Contains a b → t.alignWithin n a = .ok k →
      ∃ m < n, ∃ j, t.alignWithin m b = .ok j := by
    rintro (_ | n) k a b ⟨ty, hty, hb⟩ hk
    · cases hk
    · rw [alignWithin_succ, hty] at hk
      exact ⟨n, Nat.lt_succ_self n, Shape.exists_of_align_eq_ok hk b hb⟩
  induction h with
  | single hab => exact hstep hab hk
  | tail _ hbc ih =>
      obtain ⟨m, hm, j, hj⟩ := ih
      obtain ⟨m', hm', hj'⟩ := hstep hbc hj
      exact ⟨m', hm'.trans hm, hj'⟩

/-- A type that contains itself has no alignment. -/
theorem alignWithin_ne_ok_of_cycle (h : TransGen t.Contains id id) (n k : Nat) :
    t.alignWithin n id ≠ .ok k := by
  induction n using Nat.strong_induction_on generalizing k with
  | _ n ih =>
      intro hk
      obtain ⟨m, hm, j, hj⟩ := exists_lt_alignWithin_eq_ok h hk
      exact ih m hm j hj

/-! ### Filling in a body -/

/-- A body is filled in where there is a structure without one. -/
theorem get_of_setStructBody {body : List TypeId} (h : t.setStructBody id body = .ok (true, t')) :
    ∃ name, t.get id = .ok (.named name none) ∧
      t' = { t with types := t.types.modify id.index fun _ => .named name (some body) } := by
  obtain ⟨ty, hty, h⟩ := answer_bind_eq_ok_iff.1 h
  split at h
  · cases h
    exact ⟨_, hty, rfl⟩
  · cases h

/-- Where no body is filled in, nothing changes. -/
theorem eq_of_setStructBody {body : List TypeId} (h : t.setStructBody id body = .ok (false, t')) :
    t' = t := by
  obtain ⟨ty, hty, h⟩ := answer_bind_eq_ok_iff.1 h
  split at h
  · cases h
  · cases h
    rfl

/-- The types after a body has been filled in. -/
theorem get_setStructBody {body : List TypeId} (h : t.setStructBody id body = .ok (true, t'))
    (other : TypeId) : ∃ name, t.get id = .ok (.named name none) ∧
      t'.get other = if other = id then .ok (.named name (some body)) else t.get other := by
  obtain ⟨name, hid, rfl⟩ := get_of_setStructBody h
  refine ⟨name, hid, ?_⟩
  unfold TypeTable.get Checked.at
  rw [Array.getElem?_modify]
  by_cases heq : other = id
  · subst heq
    rw [if_pos rfl, if_pos rfl, Checked.at_eq_ok_iff.1 hid, Option.map_some]
  · have hindex : id.index ≠ other.index := by
      intro hindex
      cases id
      cases other
      exact heq (congrArg TypeId.mk hindex.symm)
    rw [if_neg hindex, if_neg heq]

/-- What contains what after a body has been filled in. -/
theorem contains_setStructBody_iff {body : List TypeId} {outer inner : TypeId}
    (h : t.setStructBody id body = .ok (true, t')) :
    t'.Contains outer inner ↔ t.Contains outer inner ∨ outer = id ∧ inner ∈ body := by
  obtain ⟨name, hid, hget⟩ := get_setStructBody h outer
  unfold Contains
  rw [hget]
  by_cases heq : outer = id
  · subst heq
    simp [hid, IrType.parts, IrType.shape, Shape.parts]
  · simp [heq]

/-- With new ways from one type to some others, a way is one from before, or it leads to that type
and on from one of those. -/
theorem transGen_of_new_ways {R R' : TypeId → TypeId → Prop} {body : List TypeId} {a b : TypeId}
    (h : ∀ {a b}, R' a b → R a b ∨ a = id ∧ b ∈ body) (hab : TransGen R' a b) :
    TransGen R a b ∨ ReflTransGen R a id ∧ ∃ f ∈ body, ReflTransGen R f b := by
  induction hab with
  | single hab =>
      rcases h hab with hab | ⟨rfl, hb⟩
      · exact .inl (.single hab)
      · exact .inr ⟨.refl, _, hb, .refl⟩
  | tail _ hbc ih =>
      rcases h hbc with hbc | ⟨rfl, hc⟩
      · rcases ih with hold | ⟨hid, f, hf, hfb⟩
        · exact .inl (hold.tail hbc)
        · exact .inr ⟨hid, f, hf, hfb.tail hbc⟩
      · rcases ih with hold | ⟨hid, -⟩
        · exact .inr ⟨hold.to_reflTransGen, _, hc, .refl⟩
        · exact .inr ⟨hid, _, hc, .refl⟩

/-- There is a new cycle only if one of those leads back to the type. -/
theorem not_transGen_of_new_ways {R R' : TypeId → TypeId → Prop} {body : List TypeId}
    (h : ∀ {a b}, R' a b → R a b ∨ a = id ∧ b ∈ body) (hacyclic : ∀ a, ¬ TransGen R a a)
    (hback : ∀ f ∈ body, ¬ ReflTransGen R f id) (a : TypeId) : ¬ TransGen R' a a := by
  intro hcycle
  rcases transGen_of_new_ways h hcycle with hold | ⟨hid, f, hf, hfa⟩
  · exact hacyclic a hold
  · exact hback f hf (hfa.trans hid)

/-- Filling in a body keeps a table free of cycles exactly when no field leads back to the
structure. -/
theorem IsAcyclic.setStructBody_iff {body : List TypeId} (hacyclic : t.IsAcyclic)
    (h : t.setStructBody id body = .ok (true, t')) :
    t'.IsAcyclic ↔ ∀ f ∈ body, ¬ ReflTransGen t.Contains f id := by
  have hmono : t.Contains ≤ t'.Contains := fun _ _ hab =>
    (contains_setStructBody_iff h).2 (.inl hab)
  constructor
  · intro hacyclic' f hf hback
    have hfield : t'.Contains id f := (contains_setStructBody_iff h).2 (.inr ⟨rfl, hf⟩)
    exact hacyclic' id (.head' hfield (ReflTransGen.mono hmono _ _ hback))
  · exact not_transGen_of_new_ways (contains_setStructBody_iff h).1 hacyclic

end TypeTable

end SsaCompiler
