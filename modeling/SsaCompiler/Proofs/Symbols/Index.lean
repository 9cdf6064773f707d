/-
# Objects by their types

A type leads to the name of the object that was declared with it, and the name leads to an object.
So what is found by a type depends on what the name stands for. When every object has a name and a
type of its own, that is the object that was declared with the type, or nothing, or a placeholder
which hides the object: then a type leads to an object of another type. A placeholder has neither
members nor methods nor constructors, so none of those are mistaken for another object's; but those
of the object are not found while it is hidden.
-/

import SsaCompiler.Proofs.Symbols.Scope
import SsaCompiler.Symbols.Callee

namespace SsaCompiler

variable {t : SymbolTable} {name name' : Name} {ty : TypeId} {hidden : List (Name × Shadowed)}
  {shadowed : Shadowed} {o : ObjectInfo} {objects : List ObjectInfo}

/-- An object that a name stands for was declared under it, or is a placeholder that is to be taken
away. -/
inductive ObjectInfo.IsOf (objects : List ObjectInfo) (names : List Name) (name : Name) :
    ObjectInfo → Prop
  | declared {o : ObjectInfo} (hmem : o ∈ objects) (hname : o.name = name) :
      IsOf objects names name o
  | placeholder (ty : TypeId) (hmem : name ∈ names) :
      IsOf objects names name (.placeholderFor name ty)

/-- It is so still when more objects have been declared and more placeholders put up. -/
theorem ObjectInfo.IsOf.mono {objects' : List ObjectInfo} {names names' : List Name}
    (h : o.IsOf objects names name) (hobjects : objects ⊆ objects')
    (hnames : name ∈ names → name ∈ names') : o.IsOf objects' names' name := by
  cases h with
  | declared hmem hname => exact .declared (hobjects hmem) hname
  | placeholder ty hmem => exact .placeholder ty (hnames hmem)

namespace ScopedTable

/-- What placeholders hide was declared, or is a placeholder that was put up before. -/
def Hides (objects : List ObjectInfo) : List (Name × Shadowed) → Prop
  | [] => True
  | (name, shadowed) :: rest =>
    (∀ o, shadowed.previous = some o → o.IsOf objects (rest.map Prod.fst) name) ∧
      Hides objects rest

/-- Placeholders hide what they hid when more objects have been declared. -/
theorem Hides.mono {objects' : List ObjectInfo} (h : Hides objects hidden)
    (hobjects : objects ⊆ objects') : Hides objects' hidden := by
  induction hidden with
  | nil => trivial
  | cons entry rest ih => exact ⟨fun o ho => (h.1 o ho).mono hobjects id, ih h.2⟩

/-- How a table is related to the objects that have been declared. -/
structure IsMadeOf (objects : List ObjectInfo) (s : ScopedTable) : Prop where
  types : ∀ ty name, s.table.byType.get? ty = some name ↔
    ∃ o ∈ objects, o.placeholder = false ∧ o.ty = ty ∧ o.name = name
  names : ∀ name o, s.table.objects.get? name = some o →
    o.IsOf objects (s.hidden.map Prod.fst) name
  hides : Hides objects s.hidden

end ScopedTable

/-- What a name stands for behind a placeholder: what the placeholder hid, or what was declared while
it stood. -/
theorem SymbolTable.eq_of_get?_unbindPlaceholder
    (h : (t.unbindPlaceholder name shadowed).objects.get? name' = some o) :
    (name' ≠ name ∧ t.objects.get? name' = some o) ∨
      name' = name ∧ (shadowed.previous = some o ∨
        t.objects.get? name = some o ∧ o.placeholder = false) := by
  by_cases hname : name' = name
  · subst hname
    refine .inr ⟨rfl, ?_⟩
    obtain ⟨previous, hprevious, heq⟩ | ⟨-, heq⟩ | ⟨-, heq, hplain⟩ :=
      t.unbindPlaceholder_cases name' shadowed
    · rw [heq, Table.get?_insert, if_pos rfl] at h
      exact .inl (hprevious.trans h)
    · rw [heq, Table.get?_erase, if_pos rfl] at h
      cases h
    · rw [heq] at h
      exact .inr ⟨h, hplain o h⟩
  · rw [get?_unbindPlaceholder_of_ne hname] at h
    exact .inl ⟨hname, h⟩

namespace ScopedTable

variable {s : ScopedTable} {actions : List ScopeAction}

/-- At the beginning there is nothing. -/
theorem isMadeOf_empty : IsMadeOf [] (ofTable .empty) where
  types := by simp [ofTable, SymbolTable.empty, Table.get?, Table.empty, Table.findIn]
  names name o h := by cases h
  hides := trivial

/-- A type leads to the new object if it has the type, and to the old ones otherwise. -/
theorem IsMadeOf.declare (h : IsMadeOf objects s) (hty : ∀ old ∈ objects, old.ty ≠ o.ty) :
    IsMadeOf (objects ++ [o]) (s.perform (.declare o)) where
  types ty name := by
    have hold := h.types ty name
    show (s.table.declareObject o).byType.get? ty = some name ↔ _
    by_cases hplaceholder : o.placeholder
    · simp [SymbolTable.declareObject, hplaceholder, hold]
    · by_cases hnew : ty = o.ty
      · subst hnew
        have hnone : ¬ ∃ old ∈ objects,
            old.placeholder = false ∧ old.ty = o.ty ∧ old.name = name := by
          rintro ⟨old, hmem, -, heq, -⟩
          exact hty old hmem heq
        simp_all [SymbolTable.declareObject, Table.get?_insert, or_and_right, exists_or]
      · simp_all [SymbolTable.declareObject, Table.get?_insert, or_and_right, exists_or, Ne.symm]
  names name info hinfo := by
    have hinfo : (s.table.objects.insert o.name o).get? name = some info := hinfo
    rw [Table.get?_insert] at hinfo
    by_cases hname : name = o.name
    · rw [if_pos hname] at hinfo
      cases hinfo
      exact .declared (by simp) hname.symm
    · rw [if_neg hname] at hinfo
      exact (h.names name info hinfo).mono (by simp) id
  hides := h.hides.mono (by simp)

/-- A placeholder hides what its name stood for. -/
theorem IsMadeOf.bind (h : IsMadeOf objects s) (name : Name) (ty : TypeId) :
    IsMadeOf objects (s.perform (.bind name ty)) where
  types := h.types
  names name' info hinfo := by
    have hinfo := (SymbolTable.get?_bindPlaceholder s.table name ty name').symm.trans hinfo
    by_cases hname : name' = name
    · subst hname
      rw [if_pos rfl] at hinfo
      cases hinfo
      exact .placeholder ty (by simp)
    · rw [if_neg hname] at hinfo
      exact (h.names name' info hinfo).mono (List.Subset.refl _) fun hmem => by simp [hmem]
  hides := ⟨fun o ho => h.names name o ho, h.hides⟩

/-- Behind a placeholder its name stands for what was hidden, or for what was declared meanwhile. -/
theorem IsMadeOf.unbind (h : IsMadeOf objects s) : IsMadeOf objects (s.perform .unbind) := by
  obtain ⟨t, hidden⟩ := s
  cases hidden with
  | nil => exact h
  | cons entry rest =>
      obtain ⟨name, shadowed⟩ := entry
      obtain ⟨hprevious, hrest⟩ := h.hides
      refine ⟨fun ty name' => ?_, fun name' info hinfo => ?_, hrest⟩
      · show (t.unbindPlaceholder name shadowed).byType.get? ty = some name' ↔ _
        rw [SymbolTable.byType_unbindPlaceholder]
        exact h.types ty name'
      · obtain ⟨hne, hold⟩ | ⟨rfl, hback | ⟨hold, hplain⟩⟩ :=
          SymbolTable.eq_of_get?_unbindPlaceholder hinfo
        · refine (h.names name' info hold).mono (List.Subset.refl _) fun hmem => ?_
          simpa [hne] using hmem
        · exact hprevious info hback
        · cases h.names name' info hold with
          | declared hmem hname => exact .declared hmem hname
          | placeholder ty => cases hplain

/-- After any actions the table is made of the objects that have been declared, as long as these have
types of their own. -/
theorem IsMadeOf.run (h : IsMadeOf objects s)
    (htypes : ((objects ++ ScopeAction.declared actions).map ObjectInfo.ty).Nodup) :
    IsMadeOf (objects ++ ScopeAction.declared actions) (s.run actions) := by
  induction actions generalizing objects s with
  | nil => simpa [ScopeAction.declared] using h
  | cons action rest ih =>
      cases action with
      | declare o =>
          have happend : objects ++ ScopeAction.declared (.declare o :: rest) =
              (objects ++ [o]) ++ ScopeAction.declared rest := by simp [ScopeAction.declared]
          rw [happend] at htypes ⊢
          refine ih (h.declare fun old hold heq => ?_) htypes
          simp only [List.map_append, List.nodup_append] at htypes
          exact htypes.1.2.2 old.ty (List.mem_map_of_mem hold) o.ty (by simp) heq
      | bind name ty => exact ih (h.bind name ty) htypes
      | unbind => exact ih h.unbind htypes

theorem isMadeOf_run
    (htypes : ((ScopeAction.declared actions).map ObjectInfo.ty).Nodup) :
    IsMadeOf (ScopeAction.declared actions) ((ofTable .empty).run actions) :=
  isMadeOf_empty.run htypes

/-- What is found by a type was declared with the type, or it is a placeholder that hides what was
declared with the type. -/
theorem IsMadeOf.eq_or_hidden (h : IsMadeOf objects s)
    (hnames : (objects.map ObjectInfo.name).Nodup) (ho : s.table.objectByType? ty = some o) :
    (o ∈ objects ∧ o.placeholder = false ∧ o.ty = ty) ∨
      (∃ arg, o = .placeholderFor o.name arg) ∧ o.name ∈ s.hidden.map Prod.fst ∧
        ∃ d ∈ objects, d.placeholder = false ∧ d.ty = ty ∧ d.name = o.name := by
  obtain ⟨name, hname, hget⟩ := Option.bind_eq_some_iff.1 ho
  obtain ⟨d, hmem, hplain, hty, hdname⟩ := (h.types ty name).1 hname
  cases h.names name o hget with
  | declared hmem' hname' =>
      obtain rfl := List.inj_on_of_nodup_map hnames hmem hmem' (hdname.trans hname'.symm)
      exact .inl ⟨hmem, hplain, hty⟩
  | placeholder arg hopen => exact .inr ⟨⟨arg, rfl⟩, hopen, d, hmem, hplain, hty, hdname⟩

/-- What placeholders do not have is only found in an object that was declared with the type. -/
theorem IsMadeOf.exists_of_bind {β : Type} {f : ObjectInfo → Option β} {x : β}
    (h : IsMadeOf objects s) (hnames : (objects.map ObjectInfo.name).Nodup)
    (hf : ∀ name arg, f (.placeholderFor name arg) = none)
    (hx : (s.table.objectByType? ty).bind f = some x) :
    ∃ d ∈ objects, d.ty = ty ∧ f d = some x := by
  obtain ⟨o, ho, hfo⟩ := Option.bind_eq_some_iff.1 hx
  obtain ⟨hmem, -, hty⟩ | ⟨⟨arg, heq⟩, -⟩ := h.eq_or_hidden hnames ho
  · exact ⟨o, hmem, hty, hfo⟩
  · rw [heq, hf] at hfo
    cases hfo

/-- What is found by a type at any time while objects are declared, each with a name and a type of its
own, and placeholders come and go. It is what the name of the object that was declared with the type
stands for, and so it is that object, or else a placeholder that hides it. Members and methods that
are found by a type are those of the object that was declared with it, and so are constructors unless
there are none. The actions are any beginning of others, in which more placeholders may be taken
away. -/
theorem found_by_type_unless_hidden (actions : List ScopeAction)
    (hnames : ((ScopeAction.declared actions).map ObjectInfo.name).Nodup)
    (htypes : ((ScopeAction.declared actions).map ObjectInfo.ty).Nodup) :
    let s := (ofTable .empty).run actions
    let objects := ScopeAction.declared actions
    (∀ d ∈ objects, d.placeholder = false →
        s.table.objectByType? d.ty = s.table.object? d.name) ∧
      (∀ ty o, s.table.objectByType? ty = some o →
        (o ∈ objects ∧ o.placeholder = false ∧ o.ty = ty) ∨
          (∃ arg, o = .placeholderFor o.name arg) ∧ o.name ∈ s.hidden.map Prod.fst ∧
            ∃ d ∈ objects, d.placeholder = false ∧ d.ty = ty ∧ d.name = o.name) ∧
      (∀ ty name slot, s.table.member? ty name = some slot →
        ∃ d ∈ objects, d.ty = ty ∧ d.member? name = some slot) ∧
      (∀ ty name set, (Callee.method ty name).overloads? s.table = some set →
        ∃ d ∈ objects, d.ty = ty ∧ d.methods.get? name = some set) ∧
      ∀ ty set, (Callee.constructor ty).overloads? s.table = some set →
        (∃ d ∈ objects, d.ty = ty ∧ d.constructors = set) ∨ set = .empty := by
  intro s objects
  have hmade : IsMadeOf objects s := isMadeOf_run htypes
  refine ⟨fun d hmem hplain => ?_, fun ty o ho => hmade.eq_or_hidden hnames ho,
    fun ty name slot hslot => ?_, fun ty name set hset => ?_, fun ty set hset => ?_⟩
  · have hindex := (hmade.types d.ty d.name).2 ⟨d, hmem, hplain, rfl, rfl⟩
    rw [SymbolTable.objectByType?, hindex]
    rfl
  · exact hmade.exists_of_bind hnames (fun _ _ => rfl) hslot
  · exact hmade.exists_of_bind hnames (fun _ _ => rfl) hset
  · obtain ⟨o, ho, rfl⟩ := Option.map_eq_some_iff.1 hset
    obtain ⟨hmem, -, hty⟩ | ⟨⟨arg, heq⟩, -⟩ := hmade.eq_or_hidden hnames ho
    · exact .inl ⟨o, hmem, hty, rfl⟩
    · right
      rw [heq]
      rfl

/-- An object with a member. -/
def pointObject : ObjectInfo := { ObjectInfo.new ⟨0⟩ ⟨30⟩ with members := [(⟨1⟩, ⟨4⟩)] }

/-- An object is found by its type while another one is hidden. -/
theorem found_by_type_unless_hidden_point :
    let s := (ofTable .empty).run
      [.declare pointObject, .declare (.new ⟨2⟩ ⟨31⟩), .bind ⟨2⟩ ⟨5⟩]
    s.table.objectByType? ⟨30⟩ = some pointObject ∧ pointObject.ty = ⟨30⟩ ∧
      s.table.objectByType? ⟨31⟩ = some (.placeholderFor ⟨2⟩ ⟨5⟩) ∧ ⟨2⟩ ∈ s.hidden.map Prod.fst := by
  intro s
  obtain ⟨hfound, hkind, -⟩ := found_by_type_unless_hidden
    [.declare pointObject, .declare (.new ⟨2⟩ ⟨31⟩), .bind ⟨2⟩ ⟨5⟩] (by decide) (by decide)
  refine ⟨(hfound pointObject (.head _) rfl).trans rfl, rfl, rfl, ?_⟩
  obtain ⟨-, hplain, -⟩ | ⟨-, hopen, -⟩ := hkind ⟨31⟩ (.placeholderFor ⟨2⟩ ⟨5⟩) rfl
  · cases hplain
  · exact hopen

/-- While a placeholder has the name of an object, the type of the object leads to the placeholder,
whose type is another one, and the member of the object is not found. -/
theorem objectByType?_of_hidden :
    let s := (ofTable .empty).run [.declare pointObject, .bind ⟨0⟩ ⟨2⟩]
    s.table.objectByType? ⟨30⟩ = some (.placeholderFor ⟨0⟩ ⟨2⟩) ∧
      (ObjectInfo.placeholderFor ⟨0⟩ ⟨2⟩).ty ≠ ⟨30⟩ ∧
      pointObject.member? ⟨1⟩ = some ⟨⟨4⟩, 0⟩ ∧ s.table.member? ⟨30⟩ ⟨1⟩ = none :=
  ⟨rfl, by decide, rfl, rfl⟩

end ScopedTable

end SsaCompiler
