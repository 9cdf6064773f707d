/-
# The development of a type table

The types of a program enter its table one after the other, and a named structure is there
before its fields are known. A type that is known in all its parts is what it will be: its size
and its alignment are those of the finished table. The size of a structure that is still
without body, or of a type with such a structure inside, says nothing about later.

No change makes a structure a field of itself. A cycle of several types is closed in one way
only: a structure gets a field that was given the structure, while it had no body, as a part.
-/

import SsaCompiler.Proofs.Ir.Containment

namespace SsaCompiler

open Relation

/-- What a type may be later: the same, or the same structure with its body. -/
def IrType.Becomes (ty ty' : IrType) : Prop :=
  ty' = ty ∨ ∃ name body, ty = .named name none ∧ ty' = .named name (some body)

/-- A type becomes what it becomes in the end. -/
theorem IrType.Becomes.trans {ty ty' ty'' : IrType} (h : ty.Becomes ty') (h' : ty'.Becomes ty'') :
    ty.Becomes ty'' := by
  rcases h with rfl | ⟨name, body, rfl, rfl⟩
  · exact h'
  · rcases h' with rfl | ⟨_, _, hfull, -⟩
    · exact .inr ⟨name, body, rfl, rfl⟩
    · cases hfull

/-- Only a structure without body becomes something else. -/
theorem IrType.Becomes.eq {ty ty' : IrType} (h : ty.Becomes ty') (hfull : ty.isOpaque = false) :
    ty' = ty := by
  rcases h with rfl | ⟨_, _, rfl, -⟩
  · rfl
  · cases hfull

/-- An entry that is found after one more has been added is that one or was there. -/
theorem Checked.at_push_cases {α : Type} {xs : Array α} {i : Nat} {x y : α}
    (h : Checked.at (xs.push y) i = .ok x) : Checked.at xs i = .ok x ∨ i = xs.size ∧ x = y := by
  rw [Checked.at_eq_ok_iff, Array.getElem?_push] at h
  split at h
  · rename_i hsize
    cases h
    exact .inr ⟨hsize, rfl⟩
  · exact .inl (Checked.at_eq_ok_iff.2 h)

namespace TypeTable

variable {t t' t'' : TypeTable} {id : TypeId} {ty : IrType} {n k : Nat}

/-! ### Changes -/

/-- A type is in the table. -/
def Has (t : TypeTable) (id : TypeId) : Prop := ∃ ty, t.get id = .ok ty

/-- One change of a type table. Named structures are never entered by their components, and
none of them is one of its own fields. The parts of a type are there before it. -/
inductive Change : TypeTable → TypeTable → Prop where
  | intern (t : TypeTable) (ty : IrType) (hname : ty.structName? = none)
      (hparts : ∀ p ∈ ty.parts, t.Has p) : Change t (t.intern ty).2
  | namedStruct (t : TypeTable) (name : String) : Change t (t.namedStruct name).2
  | setStructBody {t t' : TypeTable} {id : TypeId} {body : List TypeId}
      (hset : t.setStructBody id body = .ok (true, t')) (hself : id ∉ body)
      (hbody : ∀ f ∈ body, t.Has f) : Change t t'

/-- A table some changes later. -/
def Develops : TypeTable → TypeTable → Prop := ReflTransGen Change

theorem Develops.refl (t : TypeTable) : t.Develops t := ReflTransGen.refl

theorem Develops.trans (h : t.Develops t') (h' : t'.Develops t'') : t.Develops t'' :=
  ReflTransGen.trans h h'

theorem Change.develops (h : t.Change t') : t.Develops t' := ReflTransGen.single h

/-- A position that is handed out is in the table. -/
theorem lt_size_of_get (h : t.get id = .ok ty) : id.index < t.size :=
  (Array.getElem?_eq_some_iff.1 (Checked.at_eq_ok_iff.1 h)).1

/-- After a change every type is still there, as what it has become. -/
theorem Change.get_of_ok (h : t.Change t') (hty : t.get id = .ok ty) :
    ∃ ty', t'.get id = .ok ty' ∧ ty.Becomes ty' := by
  cases h with
  | intern new _ _ => exact ⟨ty, get_intern_of_ok new hty, .inl rfl⟩
  | namedStruct name => exact ⟨ty, Checked.at_push _ hty, .inl rfl⟩
  | @setStructBody _ owner body hset _ _ =>
      obtain ⟨name, howner, hget⟩ := get_setStructBody hset id
      by_cases heq : id = owner
      · subst heq
        rw [if_pos rfl] at hget
        cases howner.symm.trans hty
        exact ⟨_, hget, .inr ⟨name, body, rfl, rfl⟩⟩
      · rw [if_neg heq] at hget
        exact ⟨ty, hget.trans hty, .inl rfl⟩

/-- Later every type is still there, as what it has become. -/
theorem Develops.get_of_ok (h : t.Develops t') (hty : t.get id = .ok ty) :
    ∃ ty', t'.get id = .ok ty' ∧ ty.Becomes ty' := by
  induction h with
  | refl => exact ⟨ty, hty, .inl rfl⟩
  | tail _ hchange ih =>
      obtain ⟨ty₁, hty₁, hbecomes⟩ := ih
      obtain ⟨ty₂, hty₂, hbecomes'⟩ := hchange.get_of_ok hty₁
      exact ⟨ty₂, hty₂, hbecomes.trans hbecomes'⟩

/-- A type of the table stays in it. -/
theorem Develops.has (h : t.Develops t') (hid : t.Has id) : t'.Has id := by
  obtain ⟨ty, hty⟩ := hid
  obtain ⟨ty', hty', -⟩ := h.get_of_ok hty
  exact ⟨ty', hty'⟩

/-- A type that is no structure without body stays what it is. -/
theorem Develops.get_of_isOpaque_eq_false (h : t.Develops t') (hty : t.get id = .ok ty)
    (hfull : ty.isOpaque = false) : t'.get id = .ok ty := by
  obtain ⟨ty', hty', hbecomes⟩ := h.get_of_ok hty
  rw [hty', hbecomes.eq hfull]

/-- What a type holds it holds later. -/
theorem Develops.contains {inner : TypeId} (h : t.Develops t') (hinner : t.Contains id inner) :
    t'.Contains id inner := by
  obtain ⟨ty, hty, hpart⟩ := hinner
  refine ⟨ty, h.get_of_isOpaque_eq_false hty ?_, hpart⟩
  cases ty with
  | named name body =>
      cases body with
      | none => cases hpart
      | some fields => rfl
  | _ => rfl

/-- No type is ever lost. -/
theorem Develops.size_le (h : t.Develops t') : t.size ≤ t'.size := by
  cases hsize : t.size with
  | zero => exact Nat.zero_le _
  | succ n =>
      have hlt : n < t.types.size := by
        have : t.types.size = n + 1 := hsize
        omega
      have hlast : t.get ⟨n⟩ = .ok t.types[n] :=
        Checked.at_eq_ok_iff.2 (Array.getElem?_eq_getElem hlt)
      obtain ⟨ty', hty', -⟩ := h.get_of_ok hlast
      exact lt_size_of_get hty'

/-! ### Types that are known in all their parts -/

/-- No structure without body is met inside a type. -/
def IsComplete (t : TypeTable) (id : TypeId) : Prop :=
  ∀ inner, ReflTransGen t.Contains id inner → ∃ ty, t.get inner = .ok ty ∧ ty.isOpaque = false

/-- A type without parts is complete, unless it is a structure without body. -/
theorem isComplete_of_parts (hty : t.get id = .ok ty) (hparts : ty.parts = [])
    (hfull : ty.isOpaque = false) : t.IsComplete id := by
  intro inner hinner
  rcases hinner.cases_head with rfl | ⟨part, ⟨ty', hty', hpart⟩, -⟩
  · exact ⟨ty, hty, hfull⟩
  · cases hty.symm.trans hty'
    rw [hparts] at hpart
    cases hpart

/-- The parts of a complete type are complete. -/
theorem IsComplete.part {inner : TypeId} (h : t.IsComplete id) (hinner : t.Contains id inner) :
    t.IsComplete inner := fun _ hin => h _ (.head hinner hin)

/-- A type that is known in all its parts stays so. -/
theorem IsComplete.mono (h : t.IsComplete id)
    (ht : t.Develops t') : t'.IsComplete id := by
  have hpath : ∀ inner, ReflTransGen t'.Contains id inner → ReflTransGen t.Contains id inner := by
    intro inner hinner
    induction hinner with
    | refl => exact .refl
    | tail _ hbc ih =>
        obtain ⟨ty, hty, hfull⟩ := h _ ih
        obtain ⟨ty', hty', hpart⟩ := hbc
        cases (ht.get_of_isOpaque_eq_false hty hfull).symm.trans hty'
        exact ih.tail ⟨ty, hty, hpart⟩
  intro inner hinner
  obtain ⟨ty, hty, hfull⟩ := h inner (hpath inner hinner)
  exact ⟨ty, ht.get_of_isOpaque_eq_false hty hfull, hfull⟩

/-- The alignment of a complete type is computed in the same way later. -/
theorem IsComplete.alignWithin_eq (h : t.IsComplete id) (ht : t.Develops t') (n : Nat) :
    t'.alignWithin n id = t.alignWithin n id := by
  induction n generalizing id with
  | zero => rfl
  | succ n ih =>
      obtain ⟨ty, hty, hfull⟩ := h id .refl
      rw [alignWithin_succ, alignWithin_succ, hty, ht.get_of_isOpaque_eq_false hty hfull]
      exact Shape.align_congr fun p hp => ih (h.part ⟨ty, hty, hp⟩)

/-- The size of a complete type is computed in the same way later. -/
theorem IsComplete.sizeWithin_eq (h : t.IsComplete id) (ht : t.Develops t') (n : Nat) :
    t'.sizeWithin n id = t.sizeWithin n id := by
  induction n generalizing id with
  | zero => rfl
  | succ n ih =>
      obtain ⟨ty, hty, hfull⟩ := h id .refl
      rw [sizeWithin_succ, sizeWithin_succ, hty, ht.get_of_isOpaque_eq_false hty hfull]
      exact Shape.size_congr (fun p hp => (h.part ⟨ty, hty, hp⟩).alignWithin_eq ht n)
        fun p hp => ih (h.part ⟨ty, hty, hp⟩)

/-- An alignment that has been found within some levels is found within more. -/
theorem alignWithin_succ_of_ok (h : t.alignWithin n id = .ok k) :
    t.alignWithin (n + 1) id = .ok k := by
  induction n generalizing id k with
  | zero => cases h
  | succ n ih =>
      rw [alignWithin_succ] at h ⊢
      obtain ⟨ty, hty, h⟩ := answer_bind_eq_ok_iff.1 h
      rw [hty]
      refine (Shape.align_congr fun p hp => ?_).trans h
      obtain ⟨j, hj⟩ := Shape.exists_of_align_eq_ok h p hp
      rw [ih hj, hj]

/-- A type that has a size has an alignment. -/
theorem exists_alignWithin_of_sizeWithin (h : t.sizeWithin n id = .ok k) :
    ∃ j, t.alignWithin n id = .ok j := by
  induction n generalizing id k with
  | zero => cases h
  | succ n ih =>
      rw [sizeWithin_succ] at h
      obtain ⟨ty, hty, h⟩ := answer_bind_eq_ok_iff.1 h
      rw [alignWithin_succ, hty]
      exact Shape.exists_align fun p hp => by
        obtain ⟨j, hj⟩ := Shape.exists_of_size_eq_ok h p hp
        exact ih hj

/-- A size that has been found within some levels is found within more. -/
theorem sizeWithin_succ_of_ok (h : t.sizeWithin n id = .ok k) :
    t.sizeWithin (n + 1) id = .ok k := by
  induction n generalizing id k with
  | zero => cases h
  | succ n ih =>
      rw [sizeWithin_succ] at h ⊢
      obtain ⟨ty, hty, h⟩ := answer_bind_eq_ok_iff.1 h
      rw [hty]
      refine (Shape.size_congr (fun p hp => ?_) fun p hp => ?_).trans h
      · obtain ⟨j, hj⟩ := Shape.exists_of_size_eq_ok h p hp
        obtain ⟨a, ha⟩ := exists_alignWithin_of_sizeWithin hj
        rw [alignWithin_succ_of_ok ha, ha]
      · obtain ⟨j, hj⟩ := Shape.exists_of_size_eq_ok h p hp
        rw [ih hj, hj]

/-- The size of a complete type is its size in every later table. -/
theorem IsComplete.sizeOf_eq (h : t.IsComplete id) (ht : t.Develops t') (hk : t.sizeOf id = .ok k) :
    t'.sizeOf id = .ok k := by
  have hmore : ∀ extra, t.sizeWithin (t.size + 1 + extra) id = .ok k := by
    intro extra
    induction extra with
    | zero => exact hk
    | succ extra ih => exact sizeWithin_succ_of_ok ih
  have hlevels : t.size + 1 + (t'.size - t.size) = t'.size + 1 := by
    have := ht.size_le
    omega
  rw [sizeOf, h.sizeWithin_eq ht, ← hlevels]
  exact hmore _

/-! ### Fields of their own structure -/

/-- No named structure is one of its own fields. -/
def IsIrreflexive (t : TypeTable) : Prop :=
  ∀ id name fields, t.get id = .ok (.named name (some fields)) → id ∉ fields

theorem isIrreflexive_empty : TypeTable.empty.IsIrreflexive := by
  intro id name fields h
  cases h

/-- A type that is found behind a new one is the new one or was there. -/
theorem get_push {new : IrType} (hpush : t'.types = t.types.push new) (h : t'.get id = .ok ty) :
    t.get id = .ok ty ∨ id.index = t.size ∧ ty = new := by
  unfold get at h
  rw [hpush] at h
  exact Checked.at_push_cases h

/-- A change enters a new type behind the others, or it fills in a body. -/
theorem Change.cases (h : t.Change t') : t' = t ∨
    (∃ new : IrType, t'.types = t.types.push new ∧ (∀ p ∈ new.parts, t.Has p) ∧
      ∀ name fields, new ≠ .named name (some fields)) ∨
    ∃ id body, t.setStructBody id body = .ok (true, t') ∧ id ∉ body ∧ ∀ f ∈ body, t.Has f := by
  cases h with
  | intern new hname hparts =>
      unfold TypeTable.intern
      split
      · exact .inl rfl
      · refine .inr (.inl ⟨new, rfl, hparts, ?_⟩)
        rintro name fields rfl
        cases hname
  | namedStruct name =>
      refine .inr (.inl ⟨.named name none, rfl, ?_, ?_⟩)
      · intro p hp
        cases hp
      · intro name' fields heq
        cases heq
  | setStructBody hset hself hbody => exact .inr (.inr ⟨_, _, hset, hself, hbody⟩)

/-- A change does not make a structure a field of itself. -/
theorem Change.isIrreflexive (h : t.Change t') (ht : t.IsIrreflexive) : t'.IsIrreflexive := by
  intro id name fields hid
  rcases h.cases with rfl | ⟨new, hpush, -, hnamed⟩ | ⟨owner, body, hset, hself, -⟩
  · exact ht id name fields hid
  · rcases get_push hpush hid with hold | ⟨-, hnew⟩
    · exact ht id name fields hold
    · exact (hnamed name fields hnew.symm).elim
  · obtain ⟨_, -, hget⟩ := get_setStructBody hset id
    rw [hid] at hget
    split at hget
    · rename_i heq
      cases hget
      exact heq ▸ hself
    · exact ht id name fields hget.symm

/-- As long as no structure is a field of itself, none becomes one. -/
theorem Develops.isIrreflexive (h : t.Develops t') (ht : t.IsIrreflexive) : t'.IsIrreflexive := by
  induction h with
  | refl => exact ht
  | tail _ hchange ih => exact hchange.isIrreflexive ih

/-! ### Types that stand in the table once -/

/-- Every type but the named structures stands in the table once. -/
def IsUnique (t : TypeTable) : Prop :=
  ∀ i j ty, t.get i = .ok ty → t.get j = .ok ty → ty.structName? = none → i = j

/-- The index gives one position for a type, so the type stands at no other. -/
theorem IsIndexed.isUnique (ht : t.IsIndexed) : t.IsUnique := by
  intro i j ty hi hj hname
  have hfound := ht.interned_eq_some_iff.2 ⟨hi, hname⟩
  exact Option.some.inj (hfound.symm.trans (ht.interned_eq_some_iff.2 ⟨hj, hname⟩))

/-- A change keeps the index in step with the types. -/
theorem Change.isIndexed (h : t.Change t') (ht : t.IsIndexed) : t'.IsIndexed := by
  cases h with
  | intern ty hname _ => exact ht.intern (IrType.description?_eq_self_iff.2 hname)
  | namedStruct name => exact ht.namedStruct name
  | setStructBody hset _ _ => exact ht.setStructBody hset

/-! ### Cycles -/

/-- The parts of the types of a table are in the table. -/
def IsScoped (t : TypeTable) : Prop := ∀ outer inner, t.Contains outer inner → t.Has inner

theorem isScoped_empty : TypeTable.empty.IsScoped := by
  rintro outer inner ⟨ty, hty, -⟩
  cases hty

/-- Types that only have older parts have their parts in the table. -/
theorem isScoped_of_older
    (h : ∀ i (hi : i < t.types.size), ∀ p ∈ t.types[i].parts, p.index < i) : t.IsScoped := by
  rintro outer inner ⟨ty, hty, hinner⟩
  obtain ⟨houter, rfl⟩ := Array.getElem?_eq_some_iff.1 (Checked.at_eq_ok_iff.1 hty)
  have hlt : inner.index < t.types.size := (h outer.index houter inner hinner).trans houter
  exact ⟨t.types[inner.index], Checked.at_eq_ok_iff.2 (Array.getElem?_eq_getElem hlt)⟩

/-- What a new type contains was there before. -/
theorem Change.isScoped (h : t.Change t') (ht : t.IsScoped) : t'.IsScoped := by
  intro outer inner hcontains
  refine h.develops.has ?_
  rcases h.cases with rfl | ⟨new, hpush, hparts, -⟩ | ⟨owner, body, hset, -, hbody⟩
  · exact ht outer inner hcontains
  · obtain ⟨ty, hty, hinner⟩ := hcontains
    rcases get_push hpush hty with hold | ⟨-, rfl⟩
    · exact ht outer inner ⟨ty, hold, hinner⟩
    · exact hparts inner hinner
  · rcases (contains_setStructBody_iff hset).1 hcontains with hold | ⟨-, hinner⟩
    · exact ht outer inner hold
    · exact hbody inner hinner

/-- A new type behind the others closes no cycle, for nothing contains it. -/
theorem IsAcyclic.push {new : IrType} (h : t.IsAcyclic) (hscoped : t.IsScoped)
    (hpush : t'.types = t.types.push new) (hparts : ∀ p ∈ new.parts, t.Has p) :
    t'.IsAcyclic := by
  have hstep : ∀ {outer inner}, t'.Contains outer inner →
      t.Has inner ∧ (t.Has outer → t.Contains outer inner) := by
    rintro outer inner ⟨ty, hty, hinner⟩
    rcases get_push hpush hty with hold | ⟨hsize, rfl⟩
    · exact ⟨hscoped outer inner ⟨ty, hold, hinner⟩, fun _ => ⟨ty, hold, hinner⟩⟩
    · refine ⟨hparts inner hinner, fun ⟨old, hold⟩ => ?_⟩
      have := lt_size_of_get hold
      omega
  have hpath : ∀ {outer inner}, TransGen t'.Contains outer inner →
      t.Has inner ∧ (t.Has outer → TransGen t.Contains outer inner) := by
    intro outer inner hpath
    induction hpath with
    | single hab => exact ⟨(hstep hab).1, fun hhas => .single ((hstep hab).2 hhas)⟩
    | tail _ hbc ih => exact ⟨(hstep hbc).1, fun hhas => (ih.2 hhas).tail ((hstep hbc).2 ih.1)⟩
  intro id hcycle
  obtain ⟨hhas, hback⟩ := hpath hcycle
  exact h id (hback hhas)

/-- Somewhere on the way to a table a structure gets a body with a field that contains the
structure already. -/
def ClosesCycle (start t : TypeTable) : Prop :=
  ∃ t₁ t₂ id body, start.Develops t₁ ∧ t₁.setStructBody id body = .ok (true, t₂) ∧
    t₂.Develops t ∧ ∃ f ∈ body, f ≠ id ∧ TransGen t₁.Contains f id

/-- There are no cycles in a table unless one has been closed on the way to it. -/
theorem Develops.isAcyclic_or_closes (h : TypeTable.empty.Develops t) :
    t.IsScoped ∧ (t.IsAcyclic ∨ empty.ClosesCycle t) := by
  induction h with
  | refl =>
      refine ⟨isScoped_empty, .inl fun id hcycle => ?_⟩
      obtain ⟨_, ⟨_, hty, -⟩, -⟩ := TransGen.head'_iff.1 hcycle
      cases hty
  | @tail t₁ t₂ hbefore hchange ih =>
      obtain ⟨hscoped, ih⟩ := ih
      refine ⟨hchange.isScoped hscoped, ?_⟩
      rcases ih with hacyclic | ⟨u₁, u₂, id, body, hu₁, hset, hu₂, hclosed⟩
      · rcases hchange.cases with rfl | ⟨new, hpush, hparts, -⟩ | ⟨id, body, hset, hself, hbody⟩
        · exact .inl hacyclic
        · exact .inl (hacyclic.push hscoped hpush hparts)
        · by_cases hback : ∀ f ∈ body, ¬ ReflTransGen t₁.Contains f id
          · exact .inl ((hacyclic.setStructBody_iff hset).2 hback)
          · push Not at hback
            obtain ⟨f, hf, hback⟩ := hback
            have hne : f ≠ id := fun heq => hself (heq ▸ hf)
            rcases reflTransGen_iff_eq_or_transGen.1 hback with heq | hpath
            · exact (hne heq.symm).elim
            · exact .inr ⟨t₁, t₂, id, body, hbefore, hset, .refl _, f, hf, hne, hpath⟩
      · exact .inr ⟨u₁, u₂, id, body, hu₁, hset, hu₂.trans hchange.develops, hclosed⟩

end TypeTable

/-- In a module every type but the named structures stands once. -/
theorem Module.isUnique (m : Module) : m.types.IsUnique := m.typesIndexed.isUnique

end SsaCompiler
