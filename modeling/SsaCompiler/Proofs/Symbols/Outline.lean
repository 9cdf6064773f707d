/-
# What declarations leave of an object

An object is entered with its type, and it gets its members when its layout is known. In between and
afterwards only methods and constructors are added to it. So what is left of an object without them
is changed by few operations of the table, and those are the ones that matter for layouts.
-/

import SsaCompiler.Proofs.Lower.Registry
import SsaCompiler.Proofs.Lower.Step

namespace SsaCompiler

/-- An object without its methods and constructors. -/
def ObjectInfo.outline (info : ObjectInfo) : ObjectInfo :=
  { info with methods := .empty, constructors := .empty }

namespace SymbolTable

variable {t t' : SymbolTable} {name : Name} {info : ObjectInfo}

/-- The same objects, found by the same types. Methods and constructors may differ. -/
structure SameOutlines (t t' : SymbolTable) : Prop where
  objects : ∀ name, (t'.objects.get? name).map ObjectInfo.outline =
    (t.objects.get? name).map ObjectInfo.outline
  byType : t'.byType = t.byType

theorem SameOutlines.refl (t : SymbolTable) : t.SameOutlines t := ⟨fun _ => rfl, rfl⟩

/-- An object of one table is one of the other. -/
theorem SameOutlines.exists_object (h : t.SameOutlines t')
    (hinfo : t'.objects.get? name = some info) :
    ∃ old, t.objects.get? name = some old ∧ old.outline = info.outline := by
  have hsame := h.objects name
  rw [hinfo, Option.map_some] at hsame
  exact Option.map_eq_some_iff.1 hsame.symm

theorem SameOutlines.symm (h : t.SameOutlines t') : t'.SameOutlines t :=
  ⟨fun name => (h.objects name).symm, h.byType.symm⟩

/-- A change of the object with a type that leaves its outline alone. -/
theorem sameOutlines_modifyByType (t : SymbolTable) (ty : TypeId) {g : ObjectInfo → ObjectInfo}
    (hg : ∀ info, (g info).outline = info.outline) : t.SameOutlines (t.modifyByType ty g) := by
  unfold modifyByType
  split
  · refine ⟨fun name => ?_, rfl⟩
    change ((t.objects.modify _ g).get? name).map _ = _
    rw [Table.get?_modify]
    split
    · rename_i hname
      rw [hname, Option.map_map]
      exact congrArg (Option.map · _) (funext hg)
    · rfl
  · exact .refl t

theorem sameOutlines_declareMethod (t : SymbolTable) (ty : TypeId) (name : Name) (o : Overload) :
    t.SameOutlines (t.declareMethod ty name o).2 := by
  unfold declareMethod
  split
  · exact .refl t
  · split
    · exact t.sameOutlines_modifyByType ty fun _ => rfl
    · exact .refl t

theorem sameOutlines_declareConstructor (t : SymbolTable) (ty : TypeId) (o : Overload) :
    t.SameOutlines (t.declareConstructor ty o).2 := by
  unfold declareConstructor
  split
  · exact .refl t
  · split
    · exact t.sameOutlines_modifyByType ty fun _ => rfl
    · exact .refl t

end SymbolTable

namespace Callee

/-- A new candidate is no part of an outline. -/
theorem sameOutlines_declare (callee : Callee) (t : SymbolTable) (o : Overload) :
    t.SameOutlines (callee.declare t o).2 := by
  cases callee with
  | function name =>
      change t.SameOutlines (t.declareFunction name o).2
      unfold SymbolTable.declareFunction
      dsimp only
      split <;> exact ⟨fun _ => rfl, rfl⟩
  | method object name => exact t.sameOutlines_declareMethod object name o
  | constructor object => exact t.sameOutlines_declareConstructor object o

/-- Candidates are no part of an outline. -/
theorem sameOutlines_modify (callee : Callee) (t : SymbolTable) (g : OverloadSet → OverloadSet) :
    t.SameOutlines (callee.modify t g) := by
  cases callee with
  | function name => exact ⟨fun _ => rfl, rfl⟩
  | method object name => exact t.sameOutlines_modifyByType object fun _ => rfl
  | constructor object => exact t.sameOutlines_modifyByType object fun _ => rfl

end Callee

namespace TemplateTable

variable {t t' : TemplateTable} {key : Name × Nat} {template new : Template}

/-- The only template at the beginning is the array. -/
theorem eq_of_initial {names : Names} (h : (initial names).1.templates.get? key = some template) :
    key = ((names.intern TypeExpr.arrayName).1, 1) ∧
      template = ⟨(names.intern TypeExpr.arrayName).1,
        [((names.intern TypeExpr.arrayName).2.intern "T").1], .dynamicArray⟩ := by
  have hinitial : (initial names).1.templates = Table.insert .empty
      ((names.intern TypeExpr.arrayName).1, 1) ⟨(names.intern TypeExpr.arrayName).1,
        [((names.intern TypeExpr.arrayName).2.intern "T").1], .dynamicArray⟩ := rfl
  rw [hinitial, Table.get?_insert] at h
  split at h
  · rename_i hkey
    cases h
    exact ⟨hkey, rfl⟩
  · cases h

/-- A new template takes no place of another, and no instance changes by it. -/
theorem same_of_insert (h : t.insert new = some t') :
    t'.instances = t.instances ∧ t'.arrayName = t.arrayName ∧
      ∀ {key template}, t.templates.get? key = some template → t'.templates.get? key = some template := by
  unfold insert at h
  split at h
  · cases h
  · rename_i hnew
    cases h
    refine ⟨rfl, rfl, fun {key template} hget => ?_⟩
    refine Table.get?_insert.trans ?_
    split
    · rename_i heq
      rw [Table.contains, ← heq, hget] at hnew
      exact absurd rfl hnew
    · exact hget

/-- Behind a new template there are that one and those that were there. -/
theorem eq_or_get?_of_insert (h : t.insert new = some t')
    (hget : t'.templates.get? key = some template) :
    template = new ∨ t.templates.get? key = some template := by
  unfold insert at h
  split at h
  · cases h
  · cases h
    have hget : (t.templates.insert (new.name, new.arity) new).get? key = some template := hget
    rw [Table.get?_insert] at hget
    split at hget
    · cases hget
      exact .inl rfl
    · exact .inr hget

end TemplateTable

/-- The same outlines of objects, and the same templates with the same instances. -/
structure Context.SameLayouts (c c' : Context) : Prop where
  symbols : c.symbols.SameOutlines c'.symbols
  templates : c'.templates = c.templates

end SsaCompiler
