/-
# Objects agree with the structures of the module

An object lists its members, and its type is a structure with a field for each of them. The two are
put down one after the other, so they are compared where both are there: an object that is complete
has a structure with a body, and any other one has a structure without. Since a structure gets its
body only once, nothing that is done to types afterwards undoes this.

A placeholder hides the object with its name. While it does, the object cannot be completed, and its
structure is left alone, so it fits its type when it is found again.
-/

import SsaCompiler.Proofs.Ir.Development
import SsaCompiler.Proofs.Symbols.Links
import SsaCompiler.Proofs.Symbols.Outline

namespace SsaCompiler

/-! ### Types -/

namespace TypeTable

variable {t t' t'' : TypeTable} {id : TypeId} {ty : IrType} {X Y : Set TypeId}

/-- Types are still there as what they have become, and all but some are what they were. -/
structure KeepsBut (X : Set TypeId) (t t' : TypeTable) : Prop where
  get : ∀ {id ty}, id ∉ X → t.get id = .ok ty → t'.get id = .ok ty
  becomes : ∀ {id ty}, t.get id = .ok ty → ∃ ty', t'.get id = .ok ty' ∧ ty.Becomes ty'

/-- All types are what they were. -/
theorem KeepsBut.of_get (h : ∀ {id ty}, t.get id = .ok ty → t'.get id = .ok ty) :
    t.KeepsBut X t' := ⟨fun _ => h, fun hty => ⟨_, h hty, .inl rfl⟩⟩

theorem KeepsBut.refl (X : Set TypeId) (t : TypeTable) : t.KeepsBut X t := .of_get id

/-- Types that stay what they are. -/
theorem KeepsBut.trans (h : t.KeepsBut X t') (h' : t'.KeepsBut X t'') : t.KeepsBut X t'' where
  get hid hty := h'.get hid (h.get hid hty)
  becomes hty := by
    obtain ⟨ty', hty', hbecomes⟩ := h.becomes hty
    obtain ⟨ty'', hty'', hbecomes'⟩ := h'.becomes hty'
    exact ⟨ty'', hty'', hbecomes.trans hbecomes'⟩

theorem KeepsBut.mono (h : t.KeepsBut X t') (hXY : X ⊆ Y) : t.KeepsBut Y t' :=
  ⟨fun hid => h.get fun hmem => hid (hXY hmem), h.becomes⟩

/-- Nothing changes about types that are not there. -/
theorem KeepsBut.of_new (h : t.KeepsBut {id} t') (hid : ∀ ty, t.get id ≠ .ok ty) : t.KeepsBut X t' where
  get {other ty} _ hty := by
    refine h.get (fun heq => ?_) hty
    cases heq
    exact hid ty hty
  becomes := h.becomes

/-- Behind the last type there is none. -/
theorem get_size_ne_ok (t : TypeTable) (ty : IrType) : t.get ⟨t.size⟩ ≠ .ok ty := fun h =>
  absurd (lt_size_of_get h) (Nat.lt_irrefl _)

/-- A structure that has no body gets the one that is asked for. -/
theorem setStructBody_of_opaque {name : String} (hid : t.get id = .ok (.named name none))
    (body : List TypeId) : ∃ t', t.setStructBody id body = .ok (true, t') := by
  unfold setStructBody
  rw [hid]
  exact ⟨_, rfl⟩

theorem keepsBut_of_setStructBody {body : List TypeId} (h : t.setStructBody id body = .ok (true, t')) :
    t.KeepsBut {id} t' where
  get {other ty} hother hty := by
    obtain ⟨name, -, hget⟩ := get_setStructBody h other
    rw [hget, if_neg fun heq => hother (Set.mem_singleton_iff.2 heq)]
    exact hty
  becomes {other ty} hty := by
    obtain ⟨name, hopaque, hget⟩ := get_setStructBody h other
    split at hget
    · rename_i heq
      cases (heq ▸ hopaque).symm.trans hty
      exact ⟨_, hget, .inr ⟨name, body, rfl, rfl⟩⟩
    · exact ⟨ty, hget.trans hty, .inl rfl⟩

/-- Types stay what they are, and no structure with a body is new. -/
structure SameBodies (t t' : TypeTable) : Prop where
  get : ∀ {id ty}, t.get id = .ok ty → t'.get id = .ok ty
  body : ∀ {id name fields}, t'.get id = .ok (.named name (some fields)) →
    t.get id = .ok (.named name (some fields))

theorem SameBodies.refl (t : TypeTable) : t.SameBodies t := ⟨id, id⟩

theorem SameBodies.trans (h : t.SameBodies t') (h' : t'.SameBodies t'') : t.SameBodies t'' :=
  ⟨fun hty => h'.get (h.get hty), fun hbody => h.body (h'.body hbody)⟩

theorem SameBodies.keepsBut (h : t.SameBodies t') : t.KeepsBut X t' := .of_get h.get

/-- A new type behind the others is no structure with a body. -/
theorem sameBodies_push {new : IrType} (hpush : t'.types = t.types.push new)
    (hnew : ∀ name fields, new ≠ .named name (some fields)) : t.SameBodies t' where
  get {id ty} hty := by
    unfold TypeTable.get
    rw [hpush]
    exact Checked.at_push _ hty
  body hbody := by
    rcases get_push hpush hbody with hold | ⟨-, rfl⟩
    · exact hold
    · exact (hnew _ _ rfl).elim

/-- A type that is entered by its components has no body. -/
theorem sameBodies_intern {new : IrType} (hname : new.structName? = none) :
    t.SameBodies (t.intern new).2 := by
  unfold TypeTable.intern
  split
  · exact .refl _
  · refine sameBodies_push rfl ?_
    rintro name fields rfl
    cases hname

/-- A change after which all types are what they were gives no structure a body. -/
theorem Change.sameBodies (h : t.Change t')
    (htypes : ∀ {id ty}, t.get id = .ok ty → t'.get id = .ok ty) : t.SameBodies t' := by
  rcases h.cases with rfl | ⟨new, hpush, -, hnew⟩ | ⟨id, body, hset, -, -⟩
  · exact .refl _
  · exact sameBodies_push hpush hnew
  · obtain ⟨name, hopaque, hget⟩ := get_setStructBody hset id
    rw [if_pos rfl, htypes hopaque] at hget
    cases hget

end TypeTable

/-! ### Objects -/

namespace ObjectInfo

variable {info info' : ObjectInfo} {types types' : TypeTable}

/-- The fields of the structure that is the type of an object, when its members are known. -/
def body? (info : ObjectInfo) : Option (List TypeId) :=
  if info.complete then some (info.members.map Prod.snd) else none

/-- The type of an object is a structure, which has a body when the object is complete: one field for
each member, in their order and of their types. No two members have the same name. -/
structure Fits (info : ObjectInfo) (types : TypeTable) : Prop where
  body : ∃ text, types.get info.ty = .ok (.named text info.body?)
  members : (info.members.map Prod.fst).Nodup

/-- Methods and constructors do not matter for this. -/
theorem Fits.of_outline (h : info.Fits types) (hsame : info.outline = info'.outline) :
    info'.Fits types := by
  have hty : info.outline.ty = info'.outline.ty := congrArg ObjectInfo.ty hsame
  have hmembers : info.outline.members = info'.outline.members := congrArg ObjectInfo.members hsame
  have hcomplete : info.outline.complete = info'.outline.complete :=
    congrArg ObjectInfo.complete hsame
  obtain ⟨⟨text, hget⟩, hnodup⟩ := h
  refine ⟨⟨text, ?_⟩, ?_⟩
  · change types.get info.outline.ty = .ok (.named text
      (if info.outline.complete then some (info.outline.members.map Prod.snd) else none)) at hget
    rwa [hty, hmembers, hcomplete] at hget
  · change (info.outline.members.map Prod.fst).Nodup at hnodup
    rwa [hmembers] at hnodup

/-- An object fits its type as long as the type is what it was. -/
theorem Fits.mono {X : Set TypeId} (h : info.Fits types) (htypes : types.KeepsBut X types')
    (hty : info.ty ∉ X) : info.Fits types' := by
  obtain ⟨text, hget⟩ := h.body
  exact ⟨⟨text, htypes.get hty hget⟩, h.members⟩

/-- A member is found by its name at its position, when there is no other of that name. -/
theorem member?_eq_some_iff (hnodup : (info.members.map Prod.fst).Nodup) {name : Name}
    {slot : MemberSlot} :
    info.member? name = some slot ↔ info.members[slot.index]? = some (name, slot.ty) := by
  constructor
  · intro h
    obtain ⟨i, hi, hslot⟩ := Option.bind_eq_some_iff.1 h
    obtain ⟨hlt, hname, -⟩ := List.findIdx?_eq_some_iff_getElem.1 hi
    obtain ⟨entry, hentry, rfl⟩ := Option.map_eq_some_iff.1 hslot
    obtain ⟨_, rfl⟩ := List.getElem?_eq_some_iff.1 hentry
    exact hentry.trans (by rw [← of_decide_eq_true hname])
  · intro h
    obtain ⟨hlt, hentry⟩ := List.getElem?_eq_some_iff.1 h
    have hfirst : info.members.findIdx? (·.1 = name) = some slot.index := by
      refine List.findIdx?_eq_some_iff_getElem.2 ⟨hlt, by simp [hentry], fun j hj => ?_⟩
      have hne := List.pairwise_iff_getElem.1 hnodup j slot.index (by simp; omega) (by simpa) hj
      simp only [List.getElem_map, hentry] at hne
      simpa using hne
    rw [member?, hfirst, Option.bind_some, memberAt?, h]
    rfl

/-- An object of the same type that is a placeholder if the other is one. -/
structure SameKind (info info' : ObjectInfo) : Prop where
  ty : info'.ty = info.ty
  placeholder : info'.placeholder = info.placeholder

theorem SameKind.refl (info : ObjectInfo) : info.SameKind info := ⟨rfl, rfl⟩

theorem SameKind.trans {info'' : ObjectInfo} (h : info.SameKind info') (h' : info'.SameKind info'') :
    info.SameKind info'' := ⟨h'.ty.trans h.ty, h'.placeholder.trans h.placeholder⟩

theorem SameKind.of_outline (h : info.outline = info'.outline) : info.SameKind info' where
  ty := show info'.outline.ty = info.outline.ty from congrArg ObjectInfo.ty h.symm
  placeholder := show info'.outline.placeholder = info.outline.placeholder from
    congrArg ObjectInfo.placeholder h.symm

end ObjectInfo

/-! ### Symbols -/

namespace SymbolTable

variable {t t' t'' : SymbolTable} {types types' : TypeTable} {X : Set TypeId} {name : Name}
  {ty : TypeId} {info : ObjectInfo} {text : String}

/-- Names keep standing for objects of the same types, and types keep leading to the same names. -/
structure Persists (t t' : SymbolTable) : Prop where
  objects : t.objects.Retains ObjectInfo.SameKind t'.objects
  byType : t.byType.Grow t'.byType

theorem Persists.refl (t : SymbolTable) : t.Persists t := ⟨.refl .refl _, .refl _⟩

/-- Names and types go on like this. -/
theorem Persists.trans (h : t.Persists t') (h' : t'.Persists t'') : t.Persists t'' :=
  ⟨h.objects.trans .trans h'.objects, h.byType.trans h'.byType⟩

/-- Methods and constructors do not matter for this. -/
theorem SameOutlines.persists (h : t.SameOutlines t') : t.Persists t' where
  objects name info hinfo := by
    obtain ⟨info', hinfo', hsame⟩ := h.symm.exists_object hinfo
    exact ⟨info', hinfo', .of_outline hsame.symm⟩
  byType := h.byType ▸ .refl _

/-- A new object takes no name and no type from another. -/
theorem persists_declareObject (hname : t.objects.get? name = none) (hty : t.byType.get? ty = none) :
    t.Persists (t.declareObject (.new name ty)) where
  objects := .insert ObjectInfo.SameKind.refl fun old hold => by cases hname.symm.trans hold
  byType := Table.grow_insert hty

/-- Objects fit their types, and their types lead to them. Placeholders are left out: they have the
types of other objects, and they are never completed. -/
structure Agrees (t : SymbolTable) (types : TypeTable) : Prop where
  fits : ∀ {name info}, t.objects.get? name = some info → info.placeholder = false → info.Fits types
  found : ∀ {name info}, t.objects.get? name = some info → info.placeholder = false →
    t.byType.get? info.ty = some name
  types : ∀ {ty name}, t.byType.get? ty = some name → ∃ u, types.get ty = .ok u
  complete : ∀ {name info}, t.objects.get? name = some info → info.placeholder = true →
    info.complete = true

theorem agrees_empty (types : TypeTable) : empty.Agrees types where
  fits h := by cases h
  found h := by cases h
  types h := by cases h
  complete h := by cases h

/-- An object is found by its type. -/
theorem Agrees.objectByType? (h : t.Agrees types) (hinfo : t.objects.get? name = some info)
    (hplain : info.placeholder = false) : t.objectByType? info.ty = some info := by
  rw [SymbolTable.objectByType?, h.found hinfo hplain]
  exact hinfo

/-- A type that is not there leads to no object. -/
theorem Agrees.byType_eq_none (h : t.Agrees types) (hty : ∀ u, types.get ty ≠ .ok u) :
    t.byType.get? ty = none := by
  refine Option.eq_none_iff_forall_ne_some.2 fun name hname => ?_
  obtain ⟨u, hu⟩ := h.types hname
  exact hty u hu

/-- Types that stay what they are, and symbols with the same outlines. -/
theorem Agrees.of_sameOutlines (h : t.Agrees types) (hsame : t.SameOutlines t')
    (htypes : types.KeepsBut ∅ types') : t'.Agrees types' where
  fits hinfo hplain := by
    obtain ⟨old, hold, houtline⟩ := hsame.exists_object hinfo
    have hkind := ObjectInfo.SameKind.of_outline houtline
    exact ((h.fits hold (hkind.placeholder ▸ hplain)).mono htypes (Set.notMem_empty _)).of_outline
      houtline
  found hinfo hplain := by
    obtain ⟨old, hold, houtline⟩ := hsame.exists_object hinfo
    have hkind := ObjectInfo.SameKind.of_outline houtline
    rw [hsame.byType, hkind.ty]
    exact h.found hold (hkind.placeholder ▸ hplain)
  types hname := by
    obtain ⟨u, hu⟩ := h.types (hsame.byType ▸ hname)
    obtain ⟨u', hu', -⟩ := htypes.becomes hu
    exact ⟨u', hu'⟩
  complete hinfo hplaceholder := by
    obtain ⟨old, hold, houtline⟩ := hsame.exists_object hinfo
    have hkind := ObjectInfo.SameKind.of_outline houtline
    have hcomplete := h.complete hold (hkind.placeholder ▸ hplaceholder)
    change old.outline.complete = true at hcomplete
    rwa [houtline] at hcomplete

/-! ### Objects that wait for their members -/

/-- A name stands for an object whose type has no body. -/
structure Awaits (t : SymbolTable) (types : TypeTable) (name : Name) (ty : TypeId) : Prop where
  object : ∃ info, t.objects.get? name = some info ∧ info.ty = ty ∧ info.placeholder = false
  noBody : ∃ text, types.get ty = .ok (.named text none)

theorem Awaits.mono (h : t.Awaits types name ty) (hsymbols : t.Persists t')
    (htypes : types.KeepsBut X types') (hty : ty ∉ X) : t'.Awaits types' name ty where
  object := by
    obtain ⟨info, hinfo, rfl, hplain⟩ := h.object
    obtain ⟨info', hinfo', hkind⟩ := hsymbols.objects _ _ hinfo
    exact ⟨info', hinfo', hkind.ty, hkind.placeholder.trans hplain⟩
  noBody := by
    obtain ⟨text, hget⟩ := h.noBody
    exact ⟨text, htypes.get hty hget⟩

/-- Objects that are not complete wait for their members. -/
theorem Agrees.awaits (h : t.Agrees types) (hinfo : t.objects.get? name = some info)
    (hincomplete : info.complete = false) : t.Awaits types name info.ty := by
  have hplain : info.placeholder = false := by
    by_contra hplaceholder
    rw [h.complete hinfo (by simpa using hplaceholder)] at hincomplete
    cases hincomplete
  obtain ⟨text, hget⟩ := (h.fits hinfo hplain).body
  rw [ObjectInfo.body?, hincomplete] at hget
  exact ⟨⟨info, hinfo, rfl, hplain⟩, text, hget⟩

/-- The objects with a new one, which takes the place of another of its name. -/
theorem get?_declareObject (t : SymbolTable) (name : Name) (ty : TypeId) (name' : Name) :
    (t.declareObject (.new name ty)).objects.get? name' =
      if name' = name then some (.new name ty) else t.objects.get? name' :=
  Table.get?_insert

/-- A new object has a structure without body. -/
theorem Agrees.declareObject (h : t.Agrees types) (hty : types.get ty = .ok (.named text none))
    (hnew : t.byType.get? ty = none) : (t.declareObject (.new name ty)).Agrees types := by
  have hobjects := t.get?_declareObject name ty
  have hbyType (ty' : TypeId) : (t.declareObject (.new name ty)).byType.get? ty' =
      if ty' = ty then some name else t.byType.get? ty' := Table.get?_insert
  refine ⟨fun {name' info} hinfo hplain => ?_, fun {name' info} hinfo hplain => ?_,
    fun {ty' name'} hget => ?_, fun {name' info} hinfo hplaceholder => ?_⟩
  · rw [hobjects] at hinfo
    split at hinfo
    · cases hinfo
      exact ⟨⟨text, hty⟩, .nil⟩
    · exact h.fits hinfo hplain
  · rw [hobjects] at hinfo
    rw [hbyType]
    split at hinfo
    · rename_i hname
      cases hinfo
      exact (if_pos rfl).trans (congrArg some hname.symm)
    · have hold := h.found hinfo hplain
      rw [if_neg fun heq => by rw [heq, hnew] at hold; cases hold]
      exact hold
  · rw [hbyType] at hget
    split at hget
    · rename_i heq
      exact ⟨_, heq ▸ hty⟩
    · exact h.types hget
  · rw [hobjects] at hinfo
    split at hinfo
    · cases hinfo
      cases hplaceholder
    · exact h.complete hinfo hplaceholder

/-- A change of the object with a type. -/
theorem get?_modifyByType (hname : t.byType.get? ty = some name)
    (hinfo : t.objects.get? name = some info) (g : ObjectInfo → ObjectInfo) (name' : Name) :
    (t.modifyByType ty g).objects.get? name' =
      if name' = name then some (g info) else t.objects.get? name' := by
  rw [modifyByType, hname]
  change (t.objects.modify name _).get? name' = _
  rw [Table.get?_modify, hinfo]
  rfl

/-- An object that waits for its members gets them together with the fields of its structure. -/
theorem Agrees.complete_object {members : List (Name × TypeId)} {done : Bool} (h : t.Agrees types)
    (hawaits : t.Awaits types name ty) (hmembers : (members.map Prod.fst).Nodup)
    (hset : types.setStructBody ty (members.map Prod.snd) = .ok (done, types')) :
    (t.modifyByType ty fun old => { old with members := members, complete := true }).Agrees types' ∧
      t.Persists (t.modifyByType ty fun old => { old with members := members, complete := true }) ∧
      types.KeepsBut {ty} types' := by
  obtain ⟨info, hinfo, rfl, hplain⟩ := hawaits.object
  obtain ⟨text, hget⟩ := hawaits.noBody
  obtain ⟨filled, hfilled⟩ := TypeTable.setStructBody_of_opaque hget (members.map Prod.snd)
  cases hset.symm.trans hfilled
  have htypes := TypeTable.keepsBut_of_setStructBody hset
  obtain ⟨text', -, hbody⟩ := TypeTable.get_setStructBody hset info.ty
  rw [if_pos rfl] at hbody
  have hname := h.found hinfo hplain
  have hobjects := get?_modifyByType hname hinfo fun old =>
    { old with members := members, complete := true }
  have hbyType := t.byType_modifyByType info.ty fun old =>
    { old with members := members, complete := true }
  refine ⟨⟨fun {name' other} hother hplain' => ?_, fun {name' other} hother hplain' => ?_,
    fun hget => ?_, fun {name' other} hother hplaceholder => ?_⟩,
    ⟨fun name' other hother => ?_, hbyType ▸ .refl _⟩, htypes⟩
  · rw [hobjects] at hother
    split at hother
    · cases hother
      exact ⟨⟨text', hbody⟩, hmembers⟩
    · rename_i hne
      -- The type leads to one name only, so no other object has it.
      refine (h.fits hother hplain').mono htypes fun heq => hne ?_
      have hother' := h.found hother hplain'
      rw [Set.mem_singleton_iff.1 heq, hname] at hother'
      exact (Option.some.inj hother').symm
  · rw [hobjects] at hother
    rw [hbyType]
    split at hother
    · rename_i heq
      cases hother
      exact heq ▸ hname
    · exact h.found hother hplain'
  · rw [hbyType] at hget
    obtain ⟨u, hu⟩ := h.types hget
    obtain ⟨u', hu', -⟩ := htypes.becomes hu
    exact ⟨u', hu'⟩
  · rw [hobjects] at hother
    split at hother
    · cases hother
      rfl
    · exact h.complete hother hplaceholder
  · rw [hobjects]
    split
    · rename_i heq
      rw [heq, hinfo] at hother
      cases hother
      exact ⟨_, rfl, rfl, rfl⟩
    · exact ⟨other, hother, .refl other⟩

/-! ### Placeholders -/

/-- A placeholder is left out, so the other objects agree as before. -/
theorem Agrees.bindPlaceholder (h : t.Agrees types) :
    (t.bindPlaceholder name ty).2.Agrees types where
  fits hinfo hplain := by
    rw [get?_bindPlaceholder] at hinfo
    split at hinfo
    · cases hinfo
      cases hplain
    · exact h.fits hinfo hplain
  found hinfo hplain := by
    rw [get?_bindPlaceholder] at hinfo
    split at hinfo
    · cases hinfo
      cases hplain
    · exact h.found hinfo hplain
  types := h.types
  complete hinfo hplaceholder := by
    rw [get?_bindPlaceholder] at hinfo
    split at hinfo
    · cases hinfo
      rfl
    · exact h.complete hinfo hplaceholder

theorem Agrees.bindPlaceholders (h : t.Agrees types) (params : List (Name × TypeId)) :
    (bindPlaceholders params t).2.Agrees types := by
  induction params generalizing t with
  | nil => exact h
  | cons param rest ih => exact ih h.bindPlaceholder

/-- An object waits for its members behind placeholders with other names. -/
theorem Awaits.bindPlaceholders (h : t.Awaits types name ty) {params : List (Name × TypeId)}
    (hparams : ∀ param ∈ params, param.1 ≠ name) :
    (SymbolTable.bindPlaceholders params t).2.Awaits types name ty := by
  induction params generalizing t with
  | nil => exact h
  | cons param rest ih =>
      obtain ⟨hfirst, hrest⟩ := List.forall_mem_cons.1 hparams
      obtain ⟨info, hinfo, hkind⟩ := h.object
      exact ih ⟨⟨info, (get?_bindPlaceholder t _ _ _).trans ((if_neg hfirst.symm).trans hinfo), hkind⟩,
        h.noBody⟩ hrest

/-- Behind a placeholder the object that it hid fits its type again, if the type is what it was. -/
theorem Agrees.unbindPlaceholder (h : t.Agrees types) (htypes : types.KeepsBut X types')
    (hX : ∀ ty ∈ X, t.byType.get? ty ≠ some name)
    (hinside : (t.bindPlaceholder name ty).2.Persists t') (h' : t'.Agrees types') :
    (t'.unbindPlaceholder name (t.bindPlaceholder name ty).1).Agrees types' ∧
      t.Persists (t'.unbindPlaceholder name (t.bindPlaceholder name ty).1) ∧
      ∀ {name' info}, (t'.unbindPlaceholder name (t.bindPlaceholder name ty).1).objects.get? name' =
        some info → t.objects.get? name' = some info ∨
          name' ≠ name ∧ t'.objects.get? name' = some info := by
  have hbound := get?_bindPlaceholder t name ty
  obtain ⟨o, ho, hkind⟩ := hinside.objects _ _ ((hbound name).trans (if_pos rfl))
  have hobjects := get?_unbindPlaceholder t ty ho hkind.placeholder
  have hbyType := t'.byType_unbindPlaceholder name (t.bindPlaceholder name ty).1
  generalize t'.unbindPlaceholder name (t.bindPlaceholder name ty).1 = u at *
  refine ⟨⟨fun {name' info} hinfo hplain => ?_, fun {name' info} hinfo hplain => ?_, fun hget => ?_,
    fun {name' info} hinfo hplaceholder => ?_⟩, ⟨fun name' info hinfo => ?_,
    hbyType ▸ hinside.byType⟩, fun {name' info} hinfo => ?_⟩
  · rw [hobjects] at hinfo
    split at hinfo
    · exact (h.fits hinfo hplain).mono htypes fun hty => hX _ hty (h.found hinfo hplain)
    · exact h'.fits hinfo hplain
  · rw [hobjects] at hinfo
    rw [hbyType]
    split at hinfo
    · rename_i hname
      exact hname ▸ hinside.byType _ _ (h.found hinfo hplain)
    · exact h'.found hinfo hplain
  · exact h'.types (hbyType ▸ hget)
  · rw [hobjects] at hinfo
    split at hinfo
    · exact h.complete hinfo hplaceholder
    · exact h'.complete hinfo hplaceholder
  · rw [hobjects]
    split
    · rename_i hname
      exact ⟨info, hname ▸ hinfo, .refl info⟩
    · rename_i hne
      exact hinside.objects _ _ ((hbound name').trans (if_neg hne) ▸ hinfo)
  · rw [hobjects] at hinfo
    split at hinfo
    · rename_i hname
      exact .inl (hname ▸ hinfo)
    · rename_i hne
      exact .inr ⟨hne, hinfo⟩

/-- So it is behind several, of which some may have the same name. -/
theorem Agrees.unbindPlaceholders (h : t.Agrees types) (htypes : types.KeepsBut X types')
    {params : List (Name × TypeId)} (hX : ∀ ty ∈ X, ∀ param ∈ params, t.byType.get? ty ≠ some param.1)
    (hinside : (SymbolTable.bindPlaceholders params t).2.Persists t') (h' : t'.Agrees types') :
    (SymbolTable.unbindPlaceholders (SymbolTable.bindPlaceholders params t).1 t').Agrees types' ∧
      t.Persists (SymbolTable.unbindPlaceholders (SymbolTable.bindPlaceholders params t).1 t') ∧
      ∀ {name' info}, (SymbolTable.unbindPlaceholders (SymbolTable.bindPlaceholders params t).1
        t').objects.get? name' = some info →
          t.objects.get? name' = some info ∨ t'.objects.get? name' = some info := by
  induction params generalizing t with
  | nil => exact ⟨h', hinside, .inr⟩
  | cons param rest ih =>
      obtain ⟨hrest, hpersists, hobjects⟩ := ih h.bindPlaceholder
        (fun ty hty other hother => hX ty hty other (.tail _ hother)) hinside
      obtain ⟨hagrees, hbehind, hfirst⟩ :=
        h.unbindPlaceholder htypes (fun ty hty => hX ty hty param (.head _)) hpersists hrest
      refine ⟨hagrees, hbehind, fun {name' info} hinfo => ?_⟩
      rcases hfirst hinfo with hold | ⟨hne, hinfo⟩
      · exact .inl hold
      · rcases hobjects hinfo with hbound | hinfo
        · rw [get?_bindPlaceholder, if_neg hne] at hbound
          exact .inl hbound
        · exact .inr hinfo

end SymbolTable

end SsaCompiler
