/-
# Placeholders come and go

While a template is made concrete its parameters stand for the arguments: each of them is an object
of its own, which hides what had the name before. Meanwhile other templates are made concrete, with
placeholders of their own, and objects are declared. Then the placeholders are taken away, the last
one first, and each of them brings back what it hid.

What matters is what a table would be without its placeholders. Letting a name stand for a type and
taking the placeholder away leaves that as it is, whichever names are hidden, and a declaration is
made in it as well. So nothing is left of placeholders when they are gone, and nothing of what was
there before them or was declared meanwhile is lost.
-/

import SsaCompiler.Proofs.Lower.Around

namespace SsaCompiler

/-! ### Tables -/

namespace Table

variable {κ α : Type} [DecidableEq κ] {t : Table κ α} {k k' : κ} {a b : α}

/-- An entry that is put back into the place where it was. -/
theorem replaceIn_replaceIn {entries : List (κ × α)} (h : findIn k entries = some a) :
    replaceIn k a (replaceIn k b entries) = entries := by
  induction entries with
  | nil => cases h
  | cons entry rest ih =>
      obtain ⟨k₁, a₁⟩ := entry
      by_cases hk : k₁ = k
      · simp_all [findIn, replaceIn]
      · simp [replaceIn, hk, ih (by simpa [findIn, hk] using h)]

/-- A key that does not occur has nothing to be taken away. -/
theorem filter_ne_of_findIn {entries : List (κ × α)} (h : findIn k entries = none) :
    entries.filter (fun entry => entry.1 ≠ k) = entries := by
  induction entries with
  | nil => rfl
  | cons entry rest ih =>
      obtain ⟨k₁, a₁⟩ := entry
      by_cases hk : k₁ = k
      · simp [findIn, hk] at h
      · simpa [hk] using ih (by simpa [findIn, hk] using h)

/-- A new key stands in front of the others. -/
theorem insert_of_new (h : t.get? k = none) : t.insert k a = ⟨(k, a) :: t.entries⟩ := by
  simp [insert, contains, h]

/-- A key that is there keeps its place. -/
theorem insert_of_old (h : (t.get? k).isSome) : t.insert k a = ⟨replaceIn k a t.entries⟩ :=
  if_pos h

/-- An old entry that is put back in the place of a newer one. -/
theorem insert_insert_of_old (h : t.get? k = some a) : (t.insert k b).insert k a = t := by
  have hsome : (t.get? k).isSome := by simp [h]
  have hsome' : ((t.insert k b).get? k).isSome := by simp [get?_insert]
  rw [insert_of_old hsome', insert_of_old hsome, replaceIn_replaceIn h]

/-- A new key that is taken away again. -/
theorem erase_insert_of_new (h : t.get? k = none) : (t.insert k a).erase k = t := by
  rw [insert_of_new h, erase, List.filter_cons_of_neg (by simp), filter_ne_of_findIn h]

/-- A new key stands in front of the others, whatever entry another key gets. -/
theorem insert_comm_of_new (hk : t.get? k = none) (hk' : (t.get? k').isSome) :
    (t.insert k a).insert k' b = (t.insert k' b).insert k a := by
  have hne : k ≠ k' := by
    rintro rfl
    simp [hk] at hk'
  have hold : ((t.insert k a).get? k').isSome := by
    rw [get?_insert, if_neg hne.symm]
    exact hk'
  have hnew : (t.insert k' b).get? k = none := by
    rw [get?_insert, if_neg hne, hk]
  rw [insert_of_old hold, insert_of_new hnew, insert_of_old hk', insert_of_new hk]
  simp [replaceIn, hne]

/-- A new key stands in front of the others, whichever other key is taken away. -/
theorem erase_insert_comm_of_new (hk : t.get? k = none) (hne : k ≠ k') :
    (t.insert k a).erase k' = (t.erase k').insert k a := by
  have hnew : (t.erase k').get? k = none := by
    rw [get?_erase, if_neg hne, hk]
  rw [insert_of_new hnew, insert_of_new hk, erase, List.filter_cons_of_pos (by simpa using hne)]
  rfl

end Table

/-! ### A placeholder -/

namespace SymbolTable

variable {t : SymbolTable} {name name' : Name} {ty : TypeId} {hidden : Shadowed} {o : ObjectInfo}

/-- All that taking a placeholder away can do to the objects: it brings back the one that was hidden,
or it leaves the name without an object, or it finds no placeholder there. -/
theorem unbindPlaceholder_cases (t : SymbolTable) (name : Name) (hidden : Shadowed) :
    (∃ previous, hidden.previous = some previous ∧
        t.unbindPlaceholder name hidden =
          { t with objects := t.objects.insert name previous }) ∨
      (hidden.previous = none ∧ t.unbindPlaceholder name hidden =
          { t with objects := t.objects.erase name }) ∨
      hidden.previous = none ∧ t.unbindPlaceholder name hidden = t ∧
        ∀ o, t.objects.get? name = some o → o.placeholder = false := by
  unfold unbindPlaceholder
  cases hidden.previous with
  | some previous => exact .inl ⟨previous, rfl, rfl⟩
  | none =>
      cases hget : t.objects.get? name with
      | none => exact .inr (.inr ⟨rfl, rfl, by simp⟩)
      | some o =>
          by_cases hplaceholder : o.placeholder
          · exact .inr (.inl ⟨rfl, if_pos hplaceholder⟩)
          · refine .inr (.inr ⟨rfl, if_neg hplaceholder, ?_⟩)
            simpa using hplaceholder

/-- A placeholder that is taken away at once leaves nothing behind. -/
theorem unbindPlaceholder_bindPlaceholder (t : SymbolTable) (name : Name) (ty : TypeId) :
    (t.bindPlaceholder name ty).2.unbindPlaceholder name (t.bindPlaceholder name ty).1 = t := by
  unfold unbindPlaceholder bindPlaceholder
  cases hget : t.objects.get? name with
  | some previous => simp only [Table.insert_insert_of_old hget]
  | none =>
      simp only [Table.get?_insert, if_true, ObjectInfo.placeholderFor,
        Table.erase_insert_of_new hget]

/-- Taking a placeholder away leaves the other names alone. -/
theorem get?_unbindPlaceholder_of_ne (hne : name' ≠ name) :
    (t.unbindPlaceholder name hidden).objects.get? name' = t.objects.get? name' := by
  obtain ⟨previous, -, heq⟩ | ⟨-, heq⟩ | ⟨-, heq, -⟩ := t.unbindPlaceholder_cases name hidden
  · rw [heq, Table.get?_insert, if_neg hne]
  · rw [heq, Table.get?_erase, if_neg hne]
  · rw [heq]

/-- It makes no difference whether an object with another name is declared before a placeholder is
taken away or behind it. -/
theorem unbindPlaceholder_declareObject (hidden : Shadowed)
    (hname : (t.objects.get? name).isSome) (ho : t.objects.get? o.name = none) :
    (t.declareObject o).unbindPlaceholder name hidden =
      (t.unbindPlaceholder name hidden).declareObject o := by
  have hne : name ≠ o.name := by
    rintro rfl
    simp [ho] at hname
  have hget : (t.declareObject o).objects.get? name = t.objects.get? name :=
    Table.get?_insert.trans (if_neg hne)
  obtain ⟨current, hcurrent⟩ := Option.isSome_iff_exists.1 hname
  unfold unbindPlaceholder
  cases hidden.previous with
  | some previous => simp [declareObject, Table.insert_comm_of_new ho hname]
  | none =>
      simp only [hget, hcurrent]
      by_cases hplaceholder : current.placeholder
      · simp [hplaceholder, declareObject, Table.erase_insert_comm_of_new ho hne.symm]
      · simp [hplaceholder]

end SymbolTable

/-! ### Tables with placeholders -/

/-- What happens to the objects while templates are made concrete. -/
inductive ScopeAction where
  /-- An object is declared. -/
  | declare (o : ObjectInfo)
  /-- A name stands for a type from now on. -/
  | bind (name : Name) (ty : TypeId)
  /-- The last placeholder is taken away. -/
  | unbind

/-- A table with placeholders. -/
structure ScopedTable where
  /-- The table. -/
  table : SymbolTable
  /-- The names of the placeholders and what they hide, the last one first. -/
  hidden : List (Name × Shadowed)

/-- The objects that are declared. -/
def ScopeAction.declared (actions : List ScopeAction) : List ObjectInfo :=
  actions.filterMap fun
    | .declare o => some o
    | _ => none

/-- Every placeholder that is put up is taken away again, and no other is. -/
inductive ScopeAction.IsNested : List ScopeAction → Prop
  | done : IsNested []
  | declare (o : ObjectInfo) {rest : List ScopeAction} (hrest : IsNested rest) :
      IsNested (.declare o :: rest)
  | scope (name : Name) (ty : TypeId) {inner rest : List ScopeAction} (hinner : IsNested inner)
      (hrest : IsNested rest) : IsNested (.bind name ty :: (inner ++ .unbind :: rest))

/-- An object is no placeholder, and neither its name nor its type is in use. -/
structure SymbolTable.Admits (t : SymbolTable) (o : ObjectInfo) : Prop where
  placeholder : o.placeholder = false
  name : t.objects.get? o.name = none
  ty : t.byType.get? o.ty = none

/-- An object that is declared is a new one. -/
def ScopeAction.IsFresh (t : SymbolTable) : ScopeAction → Prop
  | declare o => t.Admits o
  | bind _ _ | unbind => True

namespace ScopedTable

variable {s : ScopedTable} {t : SymbolTable} {actions : List ScopeAction} {name : Name}
  {o : ObjectInfo} {hidden : List (Name × Shadowed)}

/-- A table without placeholders that are to be taken away. -/
def ofTable (t : SymbolTable) : ScopedTable := ⟨t, []⟩

/-- The table after an action. -/
def perform (s : ScopedTable) : ScopeAction → ScopedTable
  | .declare o => { s with table := s.table.declareObject o }
  | .bind name ty =>
    let (shadowed, table) := s.table.bindPlaceholder name ty
    ⟨table, (name, shadowed) :: s.hidden⟩
  | .unbind =>
    match s.hidden with
    | [] => s
    | (name, shadowed) :: rest => ⟨s.table.unbindPlaceholder name shadowed, rest⟩

/-- The table after several actions. -/
def run (s : ScopedTable) (actions : List ScopeAction) : ScopedTable := actions.foldl perform s

/-- The table once all placeholders have been taken away, the last one first. -/
def settled (s : ScopedTable) : SymbolTable :=
  s.hidden.foldl (fun t entry => t.unbindPlaceholder entry.1 entry.2) s.table

/-- All objects are fresh when they are declared. -/
def AllFresh : ScopedTable → List ScopeAction → Prop
  | _, [] => True
  | s, action :: rest => action.IsFresh s.table ∧ AllFresh (s.perform action) rest

/-- Every placeholder has an object under its name when it is taken away. -/
def Stands : List (Name × Shadowed) → SymbolTable → Prop
  | [], _ => True
  | (name, shadowed) :: rest, t =>
    (t.objects.get? name).isSome ∧ Stands rest (t.unbindPlaceholder name shadowed)

/-! ### Nested actions -/

@[simp]
theorem run_nil (s : ScopedTable) : s.run [] = s := rfl

@[simp]
theorem run_cons (s : ScopedTable) (action : ScopeAction) (rest : List ScopeAction) :
    s.run (action :: rest) = (s.perform action).run rest := rfl

@[simp]
theorem run_append (s : ScopedTable) (first second : List ScopeAction) :
    s.run (first ++ second) = (s.run first).run second := List.foldl_append

@[simp]
theorem hidden_declare (s : ScopedTable) (o : ObjectInfo) :
    (s.perform (.declare o)).hidden = s.hidden := rfl

@[simp]
theorem hidden_bind (s : ScopedTable) (name : Name) (ty : TypeId) :
    (s.perform (.bind name ty)).hidden = (name, (s.table.bindPlaceholder name ty).1) :: s.hidden :=
  rfl

@[simp]
theorem hidden_unbind (s : ScopedTable) : (s.perform .unbind).hidden = s.hidden.tail := by
  obtain ⟨t, hidden⟩ := s
  cases hidden <;> rfl

/-- Behind nested actions the same placeholders are left as before. -/
theorem hidden_run_of_isNested (h : ScopeAction.IsNested actions) (s : ScopedTable) :
    (s.run actions).hidden = s.hidden := by
  induction h generalizing s with
  | done => rfl
  | declare o _ ih => simp [ih]
  | scope name ty _ _ ihinner ihrest => simp [ihinner, ihrest]

/-! ### What is left without placeholders -/

/-- A name that no object has has none without the placeholders. -/
theorem get?_settled_of_none (hstands : Stands hidden t) (hname : t.objects.get? name = none) :
    (settled ⟨t, hidden⟩).objects.get? name = none := by
  induction hidden generalizing t with
  | nil => exact hname
  | cons entry rest ih =>
      obtain ⟨hentry, hrest⟩ := hstands
      have hne : name ≠ entry.1 := by
        rintro rfl
        simp [hname] at hentry
      exact ih hrest ((SymbolTable.get?_unbindPlaceholder_of_ne hne).trans hname)

/-- Types lead to the same names without the placeholders. -/
theorem byType_settled (hidden : List (Name × Shadowed)) (t : SymbolTable) :
    (settled ⟨t, hidden⟩).byType = t.byType := by
  induction hidden generalizing t with
  | nil => rfl
  | cons entry rest ih =>
      exact (ih _).trans (t.byType_unbindPlaceholder entry.1 entry.2)

/-- An object that is declared while placeholders stand is declared in the table without them. -/
theorem settled_declareObject (hstands : Stands hidden t) (ho : t.objects.get? o.name = none) :
    Stands hidden (t.declareObject o) ∧
      settled ⟨t.declareObject o, hidden⟩ = (settled ⟨t, hidden⟩).declareObject o := by
  induction hidden generalizing t with
  | nil => exact ⟨trivial, rfl⟩
  | cons entry rest ih =>
      obtain ⟨hentry, hrest⟩ := hstands
      have hne : o.name ≠ entry.1 := by
        intro heq
        simp [← heq, ho] at hentry
      have hcomm := SymbolTable.unbindPlaceholder_declareObject entry.2 hentry ho
      have hgone : (t.unbindPlaceholder entry.1 entry.2).objects.get? o.name = none :=
        (SymbolTable.get?_unbindPlaceholder_of_ne hne).trans ho
      obtain ⟨hstands', hsettled⟩ := ih hrest hgone
      refine ⟨⟨?_, hcomm ▸ hstands'⟩, ?_⟩
      · show ((t.objects.insert o.name o).get? entry.1).isSome
        rw [Table.get?_insert, if_neg hne.symm]
        exact hentry
      · show settled ⟨(t.declareObject o).unbindPlaceholder entry.1 entry.2, rest⟩ = _
        rw [hcomm, hsettled]
        rfl

end ScopedTable

/-! ### Declarations -/

namespace SymbolTable

variable {t : SymbolTable} {name : Name} {ty : TypeId} {o : ObjectInfo}
  {objects objects' : List ObjectInfo}

/-- The table with several objects more. -/
def declareAll (t : SymbolTable) (objects : List ObjectInfo) : SymbolTable :=
  objects.foldl declareObject t

/-- Each of several objects is new when its turn comes. -/
def AdmitsAll : SymbolTable → List ObjectInfo → Prop
  | _, [] => True
  | t, o :: rest => t.Admits o ∧ (t.declareObject o).AdmitsAll rest

theorem declareAll_append (t : SymbolTable) (objects objects' : List ObjectInfo) :
    t.declareAll (objects ++ objects') = (t.declareAll objects).declareAll objects' :=
  List.foldl_append

theorem admitsAll_append : t.AdmitsAll (objects ++ objects') ↔
    t.AdmitsAll objects ∧ (t.declareAll objects).AdmitsAll objects' := by
  induction objects generalizing t with
  | nil => simp [AdmitsAll, declareAll]
  | cons o rest ih => simp [AdmitsAll, declareAll, ih, and_assoc]

theorem AdmitsAll.placeholder (h : t.AdmitsAll objects) (ho : o ∈ objects) :
    o.placeholder = false := by
  induction objects generalizing t with
  | nil => cases ho
  | cons first rest ih =>
      rcases List.mem_cons.1 ho with rfl | ho
      · exact h.1.placeholder
      · exact ih h.2 ho

/-- The objects behind new declarations are the old ones and the new ones. -/
theorem AdmitsAll.get?_objects (h : t.AdmitsAll objects) :
    (t.declareAll objects).objects.get? name = some o ↔
      t.objects.get? name = some o ∨ o ∈ objects ∧ o.name = name := by
  induction objects generalizing t with
  | nil => simp [declareAll]
  | cons first rest ih =>
      have hstep : (t.declareObject first).objects.get? name = some o ↔
          t.objects.get? name = some o ∨ o = first ∧ o.name = name := by
        show (t.objects.insert first.name first).get? name = some o ↔ _
        rw [Table.get?_insert]
        by_cases hname : name = first.name
        · subst hname
          simp only [if_true, h.1.name, Option.some.injEq, reduceCtorEq, false_or]
          constructor
          · rintro rfl
            exact ⟨rfl, rfl⟩
          · rintro ⟨rfl, -⟩
            rfl
        · rw [if_neg hname]
          refine ⟨.inl, fun hold => hold.resolve_right ?_⟩
          rintro ⟨rfl, rfl⟩
          exact hname rfl
      show ((t.declareObject first).declareAll rest).objects.get? name = some o ↔ _
      rw [ih h.2, hstep]
      simp only [List.mem_cons, or_and_right, or_assoc]

/-- The types behind new declarations lead to the old names and to the new ones. -/
theorem AdmitsAll.get?_byType (h : t.AdmitsAll objects) :
    (t.declareAll objects).byType.get? ty = some name ↔
      t.byType.get? ty = some name ∨ ∃ o ∈ objects, o.ty = ty ∧ o.name = name := by
  induction objects generalizing t with
  | nil => simp [declareAll]
  | cons first rest ih =>
      have hstep : (t.declareObject first).byType.get? ty = some name ↔
          t.byType.get? ty = some name ∨ first.ty = ty ∧ first.name = name := by
        simp only [declareObject, h.1.placeholder, Bool.false_eq_true, if_false, Table.get?_insert]
        by_cases hty : ty = first.ty
        · subst hty
          simp [h.1.ty]
        · simp [hty, Ne.symm hty]
      show ((t.declareObject first).declareAll rest).byType.get? ty = some name ↔ _
      rw [ih h.2, hstep]
      simp only [List.exists_mem_cons_iff, or_assoc]

end SymbolTable

/-! ### Runs -/

namespace ScopedTable

variable {s s' s'' : ScopedTable} {t : SymbolTable} {actions : List ScopeAction}
  {objects objects' : List ObjectInfo}

/-- Between two tables objects have been declared that were new, and without their placeholders the
tables do not differ in anything else. -/
structure Adds (objects : List ObjectInfo) (s s' : ScopedTable) : Prop where
  stands : Stands s'.hidden s'.table
  admits : s.settled.AdmitsAll objects
  settled : s'.settled = s.settled.declareAll objects

theorem Adds.trans (h : Adds objects s s') (h' : Adds objects' s' s'') :
    Adds (objects ++ objects') s s'' where
  stands := h'.stands
  admits := SymbolTable.admitsAll_append.2 ⟨h.admits, h.settled ▸ h'.admits⟩
  settled := by rw [h'.settled, h.settled, SymbolTable.declareAll_append]

/-- An action adds the object that it declares, if it declares one. -/
theorem adds_perform (action : ScopeAction) (hstands : Stands s.hidden s.table)
    (hfresh : action.IsFresh s.table) :
    Adds (ScopeAction.declared [action]) s (s.perform action) := by
  obtain ⟨t, hidden⟩ := s
  cases action with
  | declare o =>
      obtain ⟨hplain, hname, hty⟩ := hfresh
      obtain ⟨hstands', hsettled⟩ := settled_declareObject hstands hname
      refine ⟨hstands', ⟨⟨hplain, get?_settled_of_none hstands hname, ?_⟩, trivial⟩, hsettled⟩
      rw [byType_settled, hty]
  | bind name ty =>
      have hback := t.unbindPlaceholder_bindPlaceholder name ty
      refine ⟨⟨?_, hback.symm ▸ hstands⟩, trivial, ?_⟩
      · simp [perform, SymbolTable.get?_bindPlaceholder]
      · show settled ⟨(t.bindPlaceholder name ty).2.unbindPlaceholder name
          (t.bindPlaceholder name ty).1, hidden⟩ = _
        rw [hback]
        rfl
  | unbind =>
      cases hidden with
      | nil => exact ⟨trivial, trivial, rfl⟩
      | cons entry rest => exact ⟨hstands.2, trivial, rfl⟩

theorem adds_run (hstands : Stands s.hidden s.table) (hfresh : s.AllFresh actions) :
    Adds (ScopeAction.declared actions) s (s.run actions) := by
  induction actions generalizing s with
  | nil => exact ⟨hstands, trivial, rfl⟩
  | cons action rest ih =>
      have hfirst := adds_perform action hstands hfresh.1
      have hrest := ih hfirst.stands hfresh.2
      have happend : ScopeAction.declared (action :: rest) =
          ScopeAction.declared [action] ++ ScopeAction.declared rest :=
        List.filterMap_append (l := [action])
      rw [happend]
      exact hfirst.trans hrest

/-! ### Parameters -/

/-- A table in which parameters stand for arguments. -/
def within (params : List (Name × TypeId)) (t : SymbolTable) : ScopedTable :=
  (ofTable t).run (params.map fun param => .bind param.1 param.2)

/-- Putting up one placeholder after the other. -/
theorem run_bind (params : List (Name × TypeId)) (t : SymbolTable)
    (hidden : List (Name × Shadowed)) :
    run ⟨t, hidden⟩ (params.map fun param => .bind param.1 param.2) =
      ⟨(SymbolTable.bindPlaceholders params t).2,
        (SymbolTable.bindPlaceholders params t).1.reverse ++ hidden⟩ := by
  induction params generalizing t hidden with
  | nil => rfl
  | cons param rest ih =>
      rw [List.map_cons, run_cons]
      apply (ih _ _).trans
      rw [SymbolTable.bindPlaceholders, List.reverse_cons, List.append_assoc]
      rfl

theorem within_eq (params : List (Name × TypeId)) (t : SymbolTable) :
    within params t = ⟨(SymbolTable.bindPlaceholders params t).2,
      (SymbolTable.bindPlaceholders params t).1.reverse⟩ := by
  simpa [within, ofTable] using run_bind params t []

/-- Nothing has been declared where parameters stand for arguments. -/
theorem adds_within (params : List (Name × TypeId)) (t : SymbolTable) :
    Adds [] (ofTable t) (within params t) := by
  have hfresh (s : ScopedTable) : s.AllFresh (params.map fun param => .bind param.1 param.2) := by
    induction params generalizing s with
    | nil => trivial
    | cons param rest ih => exact ⟨trivial, ih _⟩
  have hnone : ScopeAction.declared (params.map fun param => .bind param.1 param.2) = [] := by
    simp [ScopeAction.declared]
  exact hnone ▸ adds_run trivial (hfresh (ofTable t))

/-- Taking the parameters away again, the last one first. -/
theorem settled_reverse (shadowed : List (Name × Shadowed)) (t : SymbolTable) :
    settled ⟨t, shadowed.reverse⟩ = SymbolTable.unbindPlaceholders shadowed t := by
  unfold settled
  rw [List.foldl_reverse]
  induction shadowed with
  | nil => rfl
  | cons entry rest ih => rw [List.foldr_cons, ih, SymbolTable.unbindPlaceholders]

end ScopedTable

/-! ### Templates -/

/-- Parameters stand for arguments while templates are made concrete and objects are declared, and
are taken away afterwards. -/
def Lower.whilePlaceholders (params : List (Name × TypeId)) (actions : List ScopeAction) :
    Lower Unit := do
  let shadowed ← bindPlaceholders params
  modifySymbols fun t => (ScopedTable.run ⟨t, shadowed.reverse⟩ actions).table
  unbindPlaceholders shadowed

/-- Nothing is left of placeholders. Whatever the names of the parameters are, and whatever scopes
are opened and closed within, behind them the tables are those from before with the objects that
have been declared: every object from before is what it was, the new ones are kept, no placeholder
is there that was not there before, and types lead to names as before apart from the types of new
objects. The names of the parameters are in use within, so no object is declared under them. -/
theorem Lower.placeholders_vanish (params : List (Name × TypeId)) (s : Lowering)
    {actions : List ScopeAction} (hnested : ScopeAction.IsNested actions)
    (hfresh : (ScopedTable.within params s.context.symbols).AllFresh actions) :
    ∃ t, whilePlaceholders params actions s =
        .ok ((), { s with context := { s.context with symbols := t } }) ∧
      t = s.context.symbols.declareAll (ScopeAction.declared actions) ∧
      (∀ name o, t.objects.get? name = some o ↔ s.context.symbols.objects.get? name = some o ∨
        o ∈ ScopeAction.declared actions ∧ o.name = name) ∧
      (∀ name o, t.objects.get? name = some o → o.placeholder = true →
        s.context.symbols.objects.get? name = some o) ∧
      ∀ ty name, t.byType.get? ty = some name ↔ s.context.symbols.byType.get? ty = some name ∨
        ∃ o ∈ ScopeAction.declared actions, o.ty = ty ∧ o.name = name := by
  generalize hshadowed : (SymbolTable.bindPlaceholders params s.context.symbols).1 = shadowed
  have hwithin := ScopedTable.within_eq params s.context.symbols
  rw [hshadowed] at hwithin
  have hopened := ScopedTable.adds_within params s.context.symbols
  have hadds := hopened.trans (ScopedTable.adds_run hopened.stands hfresh)
  have hhidden : ((ScopedTable.within params s.context.symbols).run actions).hidden =
      shadowed.reverse := by
    rw [ScopedTable.hidden_run_of_isNested hnested, hwithin]
  -- What is taken away in the end are the placeholders that stand behind the actions.
  have hleft : SymbolTable.unbindPlaceholders shadowed
      ((ScopedTable.within params s.context.symbols).run actions).table =
      s.context.symbols.declareAll (ScopeAction.declared actions) := by
    rw [← ScopedTable.settled_reverse, ← hhidden]
    exact hadds.settled
  have hadmits : s.context.symbols.AdmitsAll (ScopeAction.declared actions) := hadds.admits
  refine ⟨_, ?_, rfl, fun name o => hadmits.get?_objects, fun name o ho hplaceholder => ?_,
    fun ty name => hadmits.get?_byType⟩
  · rw [← hleft, hwithin, whilePlaceholders, bind_of_ok (bindPlaceholders_apply params s), hshadowed]
    exact unbindPlaceholders_apply shadowed _
  · obtain hold | ⟨hmem, -⟩ := hadmits.get?_objects.1 ho
    · exact hold
    · simp [hadmits.placeholder hmem] at hplaceholder

/-- A state in which one object has been declared. -/
def Lowering.oneObject : Lowering :=
  { (default : Lowering) with
    context := { (default : Context) with
      symbols := SymbolTable.empty.declareObject (.new ⟨0⟩ ⟨30⟩) } }

/-- An object is declared, then another one while the first is hidden. -/
def ScopeAction.twoObjects : List ScopeAction :=
  [.declare (.new ⟨1⟩ ⟨31⟩), .bind ⟨1⟩ ⟨4⟩, .declare (.new ⟨2⟩ ⟨32⟩), .unbind]

/-- Two parameters have the name of the object that was there. Behind them it is there again, and so
are the two that have been declared within. -/
theorem Lower.placeholders_vanish_twoObjects :
    ∃ t, whilePlaceholders [(⟨0⟩, ⟨2⟩), (⟨0⟩, ⟨3⟩)] ScopeAction.twoObjects .oneObject = .ok ((),
        { Lowering.oneObject with context := { Lowering.oneObject.context with symbols := t } }) ∧
      t.object? ⟨0⟩ = some (.new ⟨0⟩ ⟨30⟩) ∧ t.object? ⟨1⟩ = some (.new ⟨1⟩ ⟨31⟩) ∧
      t.object? ⟨2⟩ = some (.new ⟨2⟩ ⟨32⟩) ∧ t.byType.get? ⟨32⟩ = some ⟨2⟩ := by
  have hnested : ScopeAction.IsNested ScopeAction.twoObjects :=
    .declare _ (.scope _ _ (.declare _ .done) .done)
  have hfresh : (ScopedTable.within [(⟨0⟩, ⟨2⟩), (⟨0⟩, ⟨3⟩)]
      Lowering.oneObject.context.symbols).AllFresh ScopeAction.twoObjects :=
    ⟨⟨rfl, rfl, rfl⟩, trivial, ⟨rfl, rfl, rfl⟩, trivial, trivial⟩
  obtain ⟨t, hrun, -, hobjects, -, htypes⟩ := placeholders_vanish _ _ hnested hfresh
  have hfirst : ObjectInfo.new ⟨1⟩ ⟨31⟩ ∈ ScopeAction.declared ScopeAction.twoObjects := .head _
  have hsecond : ObjectInfo.new ⟨2⟩ ⟨32⟩ ∈ ScopeAction.declared ScopeAction.twoObjects :=
    .tail _ (.head _)
  exact ⟨t, hrun, (hobjects _ _).2 (.inl rfl), (hobjects _ _).2 (.inr ⟨hfirst, rfl⟩),
    (hobjects _ _).2 (.inr ⟨hsecond, rfl⟩), (htypes _ _).2 (.inr ⟨_, hsecond, rfl, rfl⟩)⟩

end SsaCompiler
