/-
# What has been declared is found again

An object is known by its name, and its type leads to that name. So there are two ways to lose what
has been declared: a name may come to stand for something else, and a type may lead to a name that
stands for nothing. Declarations do neither. They only add to what a name stands for, and a type
leads to a name once an object has it.

A placeholder hides the object with its name, so as long as it stands there what has been declared
is not all found. Behind it everything is, whatever has been declared in the meantime.
-/

import SsaCompiler.Proofs.Lower.Registry
import SsaCompiler.Proofs.Lower.Step

namespace SsaCompiler

/-! ### Tables -/

namespace Table

variable {κ α : Type} [DecidableEq κ] {t t' t'' : Table κ α} {R : α → α → Prop} {k : κ} {a : α}

/-- What a table finds it finds later, or something that has come of it. -/
def Retains (R : α → α → Prop) (t t' : Table κ α) : Prop :=
  ∀ k a, t.get? k = some a → ∃ a', t'.get? k = some a' ∧ R a a'

theorem Retains.refl (hR : ∀ a, R a a) (t : Table κ α) : t.Retains R t :=
  fun _ a h => ⟨a, h, hR a⟩

theorem Retains.trans (hR : ∀ {a b c}, R a b → R b c → R a c) (h : t.Retains R t')
    (h' : t'.Retains R t'') : t.Retains R t'' := by
  intro k a ha
  obtain ⟨b, hb, hab⟩ := h k a ha
  obtain ⟨c, hc, hbc⟩ := h' k b hb
  exact ⟨c, hc, hR hab hbc⟩

/-- A new entry for a key, which has come of the old one if there was one. -/
theorem Retains.insert (hR : ∀ a, R a a) (hnew : ∀ old, t.get? k = some old → R old a) :
    t.Retains R (t.insert k a) := by
  intro k' a' ha'
  rw [get?_insert]
  split
  · rename_i hk
    exact ⟨a, rfl, hnew a' (hk ▸ ha')⟩
  · exact ⟨a', ha', hR a'⟩

/-- A changed entry for a key. -/
theorem Retains.modify {f : α → α} (hR : ∀ a, R a a) (hf : ∀ a, t.get? k = some a → R a (f a)) :
    t.Retains R (t.modify k f) := by
  intro k' a' ha'
  rw [get?_modify]
  split
  · rename_i hk
    subst hk
    rw [ha']
    exact ⟨f a', rfl, hf a' ha'⟩
  · exact ⟨a', ha', hR a'⟩

end Table

/-! ### Overloads and objects -/

namespace OverloadSet

variable {set set' set'' : OverloadSet} {o : Overload} {i : Nat} {f : FunctionId}

/-- The functions that overloads lead to. -/
def functions (set : OverloadSet) : List FunctionId := set.overloads.map (·.function)

/-- There is an overload with a function if the function is one of theirs. -/
theorem isSome_byFunction?_iff : (set.byFunction? f).isSome ↔ f ∈ set.functions := by
  simp [byFunction?, functions]

/-- All functions of the overloads are those of others. -/
def Retains (set set' : OverloadSet) : Prop := set.functions ⊆ set'.functions

theorem Retains.refl (set : OverloadSet) : set.Retains set := List.Subset.refl _

theorem Retains.trans (h : set.Retains set') (h' : set'.Retains set'') : set.Retains set'' :=
  List.Subset.trans h h'

/-- A new overload leaves the others where they are. -/
theorem retains_of_insert (h : set.insert o = some (i, set')) :
    set.Retains set' ∧ o.function ∈ set'.functions := by
  unfold insert at h
  split at h
  · cases h
  · cases h
    simp [Retains, functions]

/-- The functions stay the same when something else of an overload changes. -/
theorem functions_modifyByFunction {g : Overload → Overload}
    (hg : ∀ o, (g o).function = o.function) :
    (set.modifyByFunction f g).functions = set.functions := by
  unfold modifyByFunction modify functions
  split
  · refine List.ext_getElem? fun j => ?_
    simp only [List.getElem?_map, List.getElem?_modify]
    cases set.overloads[j]? with
    | none => rfl
    | some o =>
        simp only [Option.map_some]
        split <;> simp [hg]
  · rfl

end OverloadSet

/-- An object with the same type that has at least the same methods and constructors. -/
structure ObjectInfo.Retains (info info' : ObjectInfo) : Prop where
  ty : info'.ty = info.ty
  placeholder : info'.placeholder = info.placeholder
  complete : info.complete = true → info'.complete = true
  methods : info.methods.Retains OverloadSet.Retains info'.methods
  constructors : info.constructors.Retains info'.constructors

namespace ObjectInfo.Retains

variable {info info' info'' : ObjectInfo}

theorem refl (info : ObjectInfo) : info.Retains info :=
  ⟨rfl, rfl, id, .refl .refl _, .refl _⟩

theorem trans (h : info.Retains info') (h' : info'.Retains info'') : info.Retains info'' where
  ty := h'.ty.trans h.ty
  placeholder := h'.placeholder.trans h.placeholder
  complete := h'.complete ∘ h.complete
  methods := h.methods.trans .trans h'.methods
  constructors := h.constructors.trans h'.constructors

end ObjectInfo.Retains

/-! ### Symbols -/

namespace SymbolTable

variable {t t' t'' : SymbolTable} {ty : TypeId} {name : Name} {g : ObjectInfo → ObjectInfo}

/-- Types lead to objects, and from an object that is no placeholder its type leads to one. What a
placeholder stands for needs no declaration. -/
structure IsLinked (t : SymbolTable) : Prop where
  objects : ∀ {ty name}, t.byType.get? ty = some name → (t.objects.get? name).isSome
  types : ∀ {name info}, t.objects.get? name = some info → info.placeholder = false →
    (t.byType.get? info.ty).isSome
  complete : ∀ {name info}, t.objects.get? name = some info → info.placeholder = true →
    info.complete = true

/-- What has been declared is still there. A type that leads to a name now did so before, or there
was no object with the name. -/
structure Retains (t t' : SymbolTable) : Prop where
  objects : t.objects.Retains ObjectInfo.Retains t'.objects
  functions : t.functions.Retains OverloadSet.Retains t'.functions
  byType : t.byType.Grow t'.byType
  fresh : ∀ {ty name}, t'.byType.get? ty = some name →
    t.byType.get? ty = some name ∨ t.objects.get? name = none

theorem Retains.refl (t : SymbolTable) : t.Retains t :=
  ⟨.refl .refl _, .refl .refl _, .refl _, .inl⟩

theorem Retains.trans (h : t.Retains t') (h' : t'.Retains t'') : t.Retains t'' where
  objects := h.objects.trans .trans h'.objects
  functions := h.functions.trans .trans h'.functions
  byType := h.byType.trans h'.byType
  fresh {ty name} hname := by
    rcases h'.fresh hname with hname | hnone
    · exact h.fresh hname
    · refine .inr (Option.eq_none_iff_forall_ne_some.2 fun info hinfo => ?_)
      obtain ⟨info', hinfo', -⟩ := h.objects _ _ hinfo
      cases hnone.symm.trans hinfo'

theorem isLinked_empty : empty.IsLinked where
  objects h := by cases h
  types h := by cases h
  complete h := by cases h

/-- There is an object with a type. -/
def HasType (t : SymbolTable) (ty : TypeId) : Prop := (t.objectByType? ty).isSome

/-- An object is found by its type as long as its type leads to it. -/
theorem IsLinked.hasType (ht : t.IsLinked) (h : (t.byType.get? ty).isSome) : t.HasType ty := by
  obtain ⟨name, hname⟩ := Option.isSome_iff_exists.1 h
  rw [HasType, objectByType?, hname]
  exact ht.objects hname

/-- What is found by a type stays. -/
theorem Retains.objectByType? (h : t.Retains t') {info : ObjectInfo}
    (hinfo : t.objectByType? ty = some info) :
    ∃ info', t'.objectByType? ty = some info' ∧ info.Retains info' := by
  obtain ⟨name, hname, hget⟩ := Option.bind_eq_some_iff.1 hinfo
  obtain ⟨info', hget', hretains⟩ := h.objects _ _ hget
  exact ⟨info', Option.bind_eq_some_iff.2 ⟨name, h.byType _ _ hname, hget'⟩, hretains⟩

/-- There is an object with a type later on. -/
theorem HasType.mono (h : t.HasType ty) (hlater : t.Retains t') : t'.HasType ty := by
  obtain ⟨info, hinfo⟩ := Option.isSome_iff_exists.1 h
  obtain ⟨info', hinfo', -⟩ := hlater.objectByType? hinfo
  exact Option.isSome_iff_exists.2 ⟨info', hinfo'⟩

/-! ### Changes of an object -/

/-- An object is changed to one that has come of it. -/
theorem retains_modifyByType (hg : ∀ info, t.objectByType? ty = some info → info.Retains (g info)) :
    t.Retains (t.modifyByType ty g) := by
  unfold modifyByType modifyObject
  split
  · rename_i name hname
    refine ⟨.modify .refl fun info hinfo => hg info ?_, .refl .refl _, .refl _, .inl⟩
    rw [objectByType?, hname]
    exact hinfo
  · exact .refl t

theorem IsLinked.modifyByType (ht : t.IsLinked)
    (hg : ∀ info, t.objectByType? ty = some info → info.Retains (g info)) :
    (t.modifyByType ty g).IsLinked := by
  have hretains := t.retains_modifyByType hg
  unfold SymbolTable.modifyByType modifyObject at *
  split at hretains
  · rename_i owner howner
    -- An object behind the change is one from before it, or has come of one.
    have hold {name : Name} {info : ObjectInfo}
        (hinfo : (t.objects.modify owner g).get? name = some info) :
        ∃ old, t.objects.get? name = some old ∧ old.Retains info := by
      rw [Table.get?_modify] at hinfo
      split at hinfo
      · rename_i hname
        obtain ⟨old, hget, rfl⟩ := Option.map_eq_some_iff.1 hinfo
        refine ⟨old, hname ▸ hget, hg old ?_⟩
        rw [SymbolTable.objectByType?, howner]
        exact hget
      · exact ⟨info, hinfo, .refl info⟩
    refine ⟨fun hname => ?_, fun hinfo hplain => ?_, fun hinfo hplaceholder => ?_⟩
    · obtain ⟨info, hinfo⟩ := Option.isSome_iff_exists.1 (ht.objects hname)
      obtain ⟨info', hinfo', -⟩ := hretains.objects _ _ hinfo
      exact Option.isSome_iff_exists.2 ⟨info', hinfo'⟩
    · obtain ⟨old, hget, hinto⟩ := hold hinfo
      rw [hinto.ty]
      exact ht.types hget (hinto.placeholder.symm.trans hplain)
    · obtain ⟨old, hget, hinto⟩ := hold hinfo
      exact hinto.complete (ht.complete hget (hinto.placeholder.symm.trans hplaceholder))
  · exact ht

/-- The object that a type leads to is the changed one. -/
theorem objectByType?_modifyByType {info : ObjectInfo} (h : t.objectByType? ty = some info) :
    (t.modifyByType ty g).objectByType? ty = some (g info) := by
  obtain ⟨name, hname, hget⟩ := Option.bind_eq_some_iff.1 h
  simp only [modifyByType, modifyObject, hname, objectByType?, Option.bind_some, Table.get?_modify,
    if_true, hget, Option.map_some]

/-! ### New names -/

theorem retains_insertFunctions {set : OverloadSet}
    (h : ∀ old, t.functions.get? name = some old → old.Retains set) :
    t.Retains { t with functions := t.functions.insert name set } :=
  ⟨.refl .refl _, .insert .refl h, .refl _, .inl⟩

/-- A new object gets a type that leads to it. -/
theorem retains_declareObject (hname : t.objects.get? name = none) (hty : t.byType.get? ty = none) :
    t.Retains (t.declareObject (.new name ty)) where
  objects := .insert ObjectInfo.Retains.refl fun old hold => by cases hname.symm.trans hold
  functions := .refl .refl _
  byType := Table.grow_insert hty
  fresh {ty' name'} hget := by
    have hget : (t.byType.insert ty name).get? ty' = some name' := hget
    rw [Table.get?_insert] at hget
    split at hget
    · cases hget
      exact .inr hname
    · exact .inl hget

/-- Types lead to objects when there is one more. -/
theorem IsLinked.declareObject (ht : t.IsLinked) : (t.declareObject (.new name ty)).IsLinked where
  objects {ty' name'} hget := by
    have hget : (t.byType.insert ty name).get? ty' = some name' := hget
    change ((t.objects.insert name (.new name ty)).get? name').isSome
    rw [Table.get?_insert] at hget ⊢
    split
    · rfl
    · rename_i hne
      split at hget
      · cases hget
        exact absurd rfl hne
      · exact ht.objects hget
  types {name' info} hget hplain := by
    have hget : (t.objects.insert name (.new name ty)).get? name' = some info := hget
    change ((t.byType.insert ty name).get? info.ty).isSome
    rw [Table.get?_insert] at hget ⊢
    split
    · rfl
    · rename_i hne
      split at hget
      · cases hget
        exact absurd rfl hne
      · exact ht.types hget hplain
  complete {name' info} hget hplaceholder := by
    have hget : (t.objects.insert name (.new name ty)).get? name' = some info := hget
    rw [Table.get?_insert] at hget
    split at hget
    · cases hget
      cases hplaceholder
    · exact ht.complete hget hplaceholder

/-- There is an object with the type of a new one. -/
theorem hasType_declareObject : (t.declareObject (.new name ty)).HasType ty := by
  have hname : (t.byType.insert ty name).get? ty = some name := by
    rw [Table.get?_insert, if_pos rfl]
  change (((t.byType.insert ty name).get? ty).bind
    (t.objects.insert name (.new name ty)).get?).isSome
  rw [hname, Option.bind_some, Table.get?_insert, if_pos rfl]
  rfl

/-! ### Placeholders -/

/-- Placeholders for several names, one after the other, and what they hide. -/
def bindPlaceholders : List (Name × TypeId) → SymbolTable → List (Name × Shadowed) × SymbolTable
  | [], t => ([], t)
  | (name, ty) :: rest, t =>
    let (hidden, t) := t.bindPlaceholder name ty
    let (shadowed, t) := bindPlaceholders rest t
    ((name, hidden) :: shadowed, t)

/-- Several placeholders are taken away, the last one first. -/
def unbindPlaceholders : List (Name × Shadowed) → SymbolTable → SymbolTable
  | [], t => t
  | (name, hidden) :: rest, t => (unbindPlaceholders rest t).unbindPlaceholder name hidden

/-- Placeholders are not found by the types that they stand for. -/
theorem byType_bindPlaceholders (params : List (Name × TypeId)) (t : SymbolTable) :
    (bindPlaceholders params t).2.byType = t.byType := by
  induction params generalizing t with
  | nil => rfl
  | cons param rest ih => exact ih (t.bindPlaceholder param.1 param.2).2

/-- Types still lead to objects, though to others while a placeholder hides one. -/
theorem IsLinked.bindPlaceholder (ht : t.IsLinked) : (t.bindPlaceholder name ty).2.IsLinked where
  objects {ty' name'} hget := by
    change ((t.objects.insert name (.placeholderFor name ty)).get? name').isSome
    rw [Table.get?_insert]
    split
    · rfl
    · exact ht.objects hget
  types {name' info} hget hplain := by
    have hget : (t.objects.insert name (.placeholderFor name ty)).get? name' = some info := hget
    rw [Table.get?_insert] at hget
    split at hget
    · cases hget
      cases hplain
    · exact ht.types hget hplain
  complete {name' info} hget hplaceholder := by
    have hget : (t.objects.insert name (.placeholderFor name ty)).get? name' = some info := hget
    rw [Table.get?_insert] at hget
    split at hget
    · cases hget
      rfl
    · exact ht.complete hget hplaceholder

theorem IsLinked.bindPlaceholders (ht : t.IsLinked) (params : List (Name × TypeId)) :
    (bindPlaceholders params t).2.IsLinked := by
  induction params generalizing t with
  | nil => exact ht
  | cons param rest ih => exact ih ht.bindPlaceholder

/-- Behind a placeholder there are, under its name, the object that it hid, or nothing if it hid
nothing. -/
theorem get?_unbindPlaceholder (t : SymbolTable) (ty : TypeId) {o : ObjectInfo}
    (ho : t'.objects.get? name = some o) (hplaceholder : o.placeholder = true) (name' : Name) :
    (t'.unbindPlaceholder name (t.bindPlaceholder name ty).1).objects.get? name' =
      if name' = name then t.objects.get? name else t'.objects.get? name' := by
  unfold unbindPlaceholder bindPlaceholder
  dsimp only
  cases hprevious : t.objects.get? name with
  | some previous => exact Table.get?_insert
  | none =>
      simp only [ho, hplaceholder, if_true]
      exact Table.get?_erase

/-- While a placeholder stands its name is that of the placeholder. -/
theorem get?_bindPlaceholder (t : SymbolTable) (name : Name) (ty : TypeId) (name' : Name) :
    (t.bindPlaceholder name ty).2.objects.get? name' =
      if name' = name then some (.placeholderFor name ty) else t.objects.get? name' :=
  Table.get?_insert

/-- Behind a placeholder everything is found that was declared before it. -/
theorem Retains.unbindPlaceholder (ht : t.IsLinked) (h : (t.bindPlaceholder name ty).2.Retains t')
    (ht' : t'.IsLinked) :
    t.Retains (t'.unbindPlaceholder name (t.bindPlaceholder name ty).1) ∧
      (t'.unbindPlaceholder name (t.bindPlaceholder name ty).1).IsLinked := by
  have hinside := get?_bindPlaceholder t name ty
  obtain ⟨o, ho, hinto⟩ := h.objects _ _ ((hinside name).trans (if_pos rfl))
  have hobjects := get?_unbindPlaceholder t ty ho hinto.placeholder
  have hbyType := t'.byType_unbindPlaceholder name (t.bindPlaceholder name ty).1
  have hfunctions := t'.functions_unbindPlaceholder name (t.bindPlaceholder name ty).1
  generalize t'.unbindPlaceholder name (t.bindPlaceholder name ty).1 = u at *
  -- Where there is an object a type that leads to it did so before.
  have hfresh {ty' : TypeId} {name' : Name} (hget : t'.byType.get? ty' = some name') :
      t.byType.get? ty' = some name' ∨ name' ≠ name ∧ t.objects.get? name' = none := by
    rcases h.fresh hget with hold | hnone
    · exact .inl hold
    · rw [hinside] at hnone
      split at hnone
      · cases hnone
      · rename_i hne
        exact .inr ⟨hne, hnone⟩
  refine ⟨⟨fun name' info hinfo => ?_, hfunctions ▸ h.functions, hbyType ▸ h.byType, ?_⟩,
    ⟨?_, ?_, ?_⟩⟩
  · rw [hobjects]
    split
    · rename_i hname
      exact ⟨info, hname ▸ hinfo, .refl info⟩
    · rename_i hne
      exact h.objects _ _ ((hinside name').trans (if_neg hne) ▸ hinfo)
  · intro ty' name' hget
    exact (hfresh (hbyType ▸ hget)).imp_right And.right
  · intro ty' name' hget
    rw [hbyType] at hget
    rw [hobjects]
    split
    · rename_i hname
      rcases hfresh hget with hold | ⟨hne, -⟩
      · exact hname ▸ ht.objects hold
      · exact absurd hname hne
    · exact ht'.objects hget
  · intro name' info hinfo hplain
    rw [hobjects] at hinfo
    rw [hbyType]
    split at hinfo
    · obtain ⟨owner, howner⟩ := Option.isSome_iff_exists.1 (ht.types hinfo hplain)
      exact Option.isSome_iff_exists.2 ⟨owner, h.byType _ _ howner⟩
    · exact ht'.types hinfo hplain
  · intro name' info hinfo hplaceholder
    rw [hobjects] at hinfo
    split at hinfo
    · exact ht.complete hinfo hplaceholder
    · exact ht'.complete hinfo hplaceholder

/-- Behind several placeholders, of which some may have the same name, everything is found that was
declared before them. -/
theorem Retains.unbindPlaceholders (ht : t.IsLinked) (params : List (Name × TypeId))
    (h : (bindPlaceholders params t).2.Retains t') (ht' : t'.IsLinked) :
    t.Retains (SymbolTable.unbindPlaceholders (bindPlaceholders params t).1 t') ∧
      (SymbolTable.unbindPlaceholders (bindPlaceholders params t).1 t').IsLinked := by
  induction params generalizing t with
  | nil => exact ⟨h, ht'⟩
  | cons param rest ih =>
      have hbound : (t.bindPlaceholder param.1 param.2).2.IsLinked := ht.bindPlaceholder
      obtain ⟨hrest, hlinked⟩ := ih hbound h
      exact hrest.unbindPlaceholder ht hlinked

/-- Taking placeholders away leaves the types of objects alone. -/
theorem byType_unbindPlaceholders (shadowed : List (Name × Shadowed)) (t : SymbolTable) :
    (unbindPlaceholders shadowed t).byType = t.byType := by
  induction shadowed with
  | nil => rfl
  | cons entry rest ih => exact (byType_unbindPlaceholder _ _ _).trans ih

end SymbolTable

/-! ### Callees -/

namespace Callee

variable {t t' : SymbolTable} {callee : Callee} {f : FunctionId} {o : Overload}

/-- A function is found among the candidates. -/
def Finds (t : SymbolTable) (f : FunctionId) (callee : Callee) : Prop :=
  ((callee.overloads? t).bind (·.byFunction? f)).isSome

/-- A function is found when it is one of the candidates'. -/
theorem finds_iff :
    callee.Finds t f ↔ ∃ set, callee.overloads? t = some set ∧ f ∈ set.functions := by
  unfold Finds
  cases callee.overloads? t with
  | none => simp
  | some set => simp [OverloadSet.isSome_byFunction?_iff]

theorem exists_overloads? (h : t.Retains t') {set : OverloadSet}
    (hset : callee.overloads? t = some set) :
    ∃ set', callee.overloads? t' = some set' ∧ set.Retains set' := by
  cases callee with
  | function name => exact h.functions _ _ hset
  | method object name =>
      obtain ⟨info, hinfo, hmethods⟩ := Option.bind_eq_some_iff.1 hset
      obtain ⟨info', hinfo', hinto⟩ := h.objectByType? hinfo
      obtain ⟨set', hset', hretains⟩ := hinto.methods _ _ hmethods
      exact ⟨set', Option.bind_eq_some_iff.2 ⟨info', hinfo', hset'⟩, hretains⟩
  | constructor object =>
      obtain ⟨info, hinfo, rfl⟩ := Option.map_eq_some_iff.1 hset
      obtain ⟨info', hinfo', hinto⟩ := h.objectByType? hinfo
      exact ⟨info'.constructors, Option.map_eq_some_iff.2 ⟨info', hinfo', rfl⟩, hinto.constructors⟩

/-- A function that is found is found later. -/
theorem Finds.mono (h : callee.Finds t f) (hlater : t.Retains t') : callee.Finds t' f := by
  obtain ⟨set, hset, hf⟩ := finds_iff.1 h
  obtain ⟨set', hset', hretains⟩ := exists_overloads? hlater hset
  exact finds_iff.2 ⟨set', hset', hretains hf⟩

/-- The object of a method or a constructor is there. -/
def IsKnown (t : SymbolTable) : Callee → Prop
  | function _ => True
  | method object _ => t.HasType object
  | constructor object => t.HasType object

/-- What comes of a declaration whose object is there: a candidate that takes the same types keeps
it out, or it is found from then on. -/
inductive Declares (t : SymbolTable) (o : Overload) (callee : Callee) : Prop
  | taken (h : callee.declare t o = (some none, t))
  | entered {i : Nat} {t' : SymbolTable} (h : callee.declare t o = (some (some i), t'))
      (hretains : t.Retains t') (hlinked : t.IsLinked → t'.IsLinked)
      (hfinds : callee.Finds t' o.function)

/-- A change of an object that keeps what it had, after which a function is found. -/
theorem Declares.of_modifyByType {ty : TypeId} {g : ObjectInfo → ObjectInfo} {info : ObjectInfo}
    {i : Nat} (hinfo : t.objectByType? ty = some info) (hg : info.Retains (g info))
    (h : callee.declare t o = (some (some i), t.modifyByType ty g))
    (hfinds : callee.Finds (t.modifyByType ty g) o.function) : callee.Declares t o := by
  have hsame : ∀ other, t.objectByType? ty = some other → other.Retains (g other) := by
    intro other hother
    cases hinfo.symm.trans hother
    exact hg
  exact .entered h (t.retains_modifyByType hsame) (fun ht => ht.modifyByType hsame) hfinds

/-- A declaration whose object is there is entered unless it is kept out. -/
theorem IsKnown.declares (h : callee.IsKnown t) (o : Overload) : callee.Declares t o := by
  cases callee with
  | function name =>
      have hold : ∀ old, t.functions.get? name = some old →
          (t.functions.get? name).getD .empty = old := by
        intro old hold
        rw [hold]
        rfl
      cases hinsert : ((t.functions.get? name).getD .empty).insert o with
      | none => exact .taken (by simp only [declare, SymbolTable.declareFunction, hinsert])
      | some entered =>
          obtain ⟨hretains, hmem⟩ := OverloadSet.retains_of_insert hinsert
          refine .entered (by simp only [declare, SymbolTable.declareFunction, hinsert]; rfl)
            (t.retains_insertFunctions fun old h => hold old h ▸ hretains)
            (fun ht => ⟨ht.objects, ht.types, ht.complete⟩) (finds_iff.2 ⟨entered.2, ?_, hmem⟩)
          change (t.functions.insert name entered.2).get? name = some entered.2
          rw [Table.get?_insert, if_pos rfl]
  | method object name =>
      obtain ⟨info, hinfo⟩ := Option.isSome_iff_exists.1 h
      cases hinsert : (info.methodSet name).insert o with
      | none => exact .taken (by simp only [declare, SymbolTable.declareMethod, hinfo, hinsert])
      | some entered =>
          obtain ⟨hretains, hmem⟩ := OverloadSet.retains_of_insert hinsert
          have hinto : info.Retains
              { info with methods := info.methods.insert name entered.2 } := by
            refine ⟨rfl, rfl, id, .insert OverloadSet.Retains.refl fun old hold => ?_, .refl _⟩
            have hset : info.methodSet name = old := by rw [ObjectInfo.methodSet, hold]; rfl
            exact hset ▸ hretains
          refine .of_modifyByType hinfo hinto
            (by simp only [declare, SymbolTable.declareMethod, hinfo, hinsert]; rfl)
            (finds_iff.2 ⟨entered.2, ?_, hmem⟩)
          rw [overloads?, SymbolTable.objectByType?_modifyByType hinfo, Option.bind_some,
            Table.get?_insert, if_pos rfl]
  | constructor object =>
      obtain ⟨info, hinfo⟩ := Option.isSome_iff_exists.1 h
      cases hinsert : info.constructors.insert o with
      | none =>
          exact .taken (by simp only [declare, SymbolTable.declareConstructor, hinfo, hinsert])
      | some entered =>
          obtain ⟨hretains, hmem⟩ := OverloadSet.retains_of_insert hinsert
          have hinto : info.Retains { info with constructors := entered.2 } :=
            ⟨rfl, rfl, id, .refl OverloadSet.Retains.refl _, hretains⟩
          refine .of_modifyByType hinfo hinto
            (by simp only [declare, SymbolTable.declareConstructor, hinfo, hinsert]; rfl)
            (finds_iff.2 ⟨entered.2, ?_, hmem⟩)
          rw [overloads?, SymbolTable.objectByType?_modifyByType hinfo, Option.map_some]

/-- Candidates may change as long as their functions stay. -/
theorem retains_modify {g : OverloadSet → OverloadSet}
    (hg : ∀ set : OverloadSet, set.Retains (g set)) (t : SymbolTable) (callee : Callee) :
    t.Retains (callee.modify t g) ∧ (t.IsLinked → (callee.modify t g).IsLinked) := by
  cases callee with
  | function name =>
      exact ⟨⟨.refl .refl _, .modify .refl fun set _ => hg set, .refl _, .inl⟩,
        fun ht => ⟨ht.objects, ht.types, ht.complete⟩⟩
  | method object name =>
      have hinto (info : ObjectInfo) :
          info.Retains { info with methods := info.methods.modify name g } :=
        ⟨rfl, rfl, id, .modify OverloadSet.Retains.refl fun set _ => hg set, .refl _⟩
      exact ⟨t.retains_modifyByType fun info _ => hinto info,
        fun ht => ht.modifyByType fun info _ => hinto info⟩
  | constructor object =>
      have hinto (info : ObjectInfo) :
          info.Retains { info with constructors := g info.constructors } :=
        ⟨rfl, rfl, id, .refl OverloadSet.Retains.refl _, hg info.constructors⟩
      exact ⟨t.retains_modifyByType fun info _ => hinto info,
        fun ht => ht.modifyByType fun info _ => hinto info⟩

end Callee

end SsaCompiler
