/-
# The history of a module

Whatever is asked of a module under construction comes down to a few kinds of change: a type,
a value, an instruction at the end of the current block, the end of that block, a block, a
function with a new name, a global. A request is followed through the changes that it makes,
and what every change keeps is kept by every request, however many of them a program takes.
-/

import SsaCompiler.Proofs.ControlFlow.Flow
import SsaCompiler.Proofs.Ir.Development

namespace SsaCompiler

open Relation HasModule

namespace Module

/-- One change of a module under construction. -/
inductive Change : Module → Module → Prop where
  | types {m : Module} {t : TypeTable} (ht : m.types.Change t) (hindexed : t.IsIndexed) :
      Change m (m.withTypes t hindexed)
  | value (m : Module) (ty : TypeId) (origin : ValueDef) : Change m (m.withValue ty origin)
  | instr {m : Module} {b : BlockId} (hb : m.position = some b) (hopen : m.IsOpen b)
      (ty : TypeId) (i : Instr) : Change m (m.withInstr b ty i)
  | detached (m : Module) (ty : TypeId) (i : Instr) : Change m (m.withDetached ty i)
  | terminator {m : Module} {b : BlockId} (hb : m.position = some b) (hopen : m.IsOpen b)
      (t : Terminator) : Change m (m.withTerminator b t)
  | error (m : Module) : Change m { m with codegenErrors := m.codegenErrors + 1 }
  | function {m : Module} {name : String} (hnew : m.functionByName? name = none) (ty : TypeId)
      (params : List ValueId) :
      Change m (m.withFunction ⟨name, ty, params, [], none, none⟩ hnew)
  | address (m : Module) (f : FunctionId) (v : ValueId) :
      Change m (m.modifyFunction f (fun d => { d with address := some v }) fun _ => rfl)
  | personality (m : Module) (f g : FunctionId) :
      Change m (m.modifyFunction f (fun d => { d with personality := some g }) fun _ => rfl)
  | block (m : Module) (f : FunctionId) (name : String) : Change m (m.withBlock f name)
  | position (m : Module) (p : Option BlockId) : Change m (m.withPosition p)
  | global (m : Module) (g : Global) (strings : Nat) :
      Change m { m with globals := m.globals.push g, stringCount := strings }
  | init (m : Module) (index : Nat) (v : ValueId) :
      Change m { m with globals := m.globals.modify index fun g => { g with init := some v } }

/-- A module some changes later. -/
def Evolves : Module → Module → Prop := ReflTransGen Change

variable {m m' m'' : Module}

theorem Evolves.refl (m : Module) : m.Evolves m := ReflTransGen.refl

theorem Evolves.trans (h : m.Evolves m') (h' : m'.Evolves m'') : m.Evolves m'' :=
  ReflTransGen.trans h h'

theorem Change.evolves (h : m.Change m') : m.Evolves m' := ReflTransGen.single h

/-! ### What every change keeps -/

/-- The types of a module develop. -/
theorem Evolves.types (h : m.Evolves m') : m.types.Develops m'.types := by
  induction h with
  | refl => exact .refl _
  | tail _ hchange ih =>
      refine ih.trans ?_
      cases hchange with
      | types ht => exact ht.develops
      | _ => exact .refl _

theorem Evolves.value {v : ValueId} {d : ValueData} (h : m.Evolves m') (hv : m.value v = .ok d) :
    m'.value v = .ok d := by
  induction h with
  | refl => exact hv
  | tail _ hchange ih =>
      cases hchange with
      | value ty origin => exact Checked.at_push _ ih
      | instr _ _ ty i => exact Checked.at_push _ ih
      | detached ty i => exact Checked.at_push _ ih
      | _ => exact ih

/-! ### The names of functions -/

/-- No function is found under two names. -/
theorem eq_of_functionByName? {name name' : String} {f : FunctionId}
    (h : m.functionByName? name = some f) (h' : m.functionByName? name' = some f) :
    name = name' := by
  obtain ⟨d, hd, rfl⟩ := functionByName?_eq_some_iff.1 h
  obtain ⟨d', hd', rfl⟩ := functionByName?_eq_some_iff.1 h'
  cases hd.symm.trans hd'
  rfl

/-- What is found when a function has been added. -/
theorem functionByName?_withFunction (m : Module) (d : FunctionData)
    (hnew : m.functionByName? d.name = none) (name : String) :
    (m.withFunction d hnew).functionByName? name =
      if name = d.name then some ⟨m.functions.size⟩ else m.functionByName? name :=
  Table.get?_insert

/-- A function is found under its name ever after. -/
theorem Evolves.functionByName? {name : String} {f : FunctionId} (h : m.Evolves m')
    (hf : m.functionByName? name = some f) : m'.functionByName? name = some f := by
  induction h with
  | refl => exact hf
  | tail _ hchange ih =>
      cases hchange with
      | @function new hnew ty params =>
          have hne : name ≠ new := by
            rintro rfl
            rw [ih] at hnew
            cases hnew
          rw [functionByName?_withFunction, if_neg hne, ih]
      | _ => exact ih

end Module

/-- States of which one may come after another, and what holds of a state ever after. -/
class Timeline (σ : Type) where
  /-- What holds of states. -/
  Valid : σ → Prop
  /-- The second state comes after the first. -/
  Later : σ → σ → Prop
  refl : ∀ s, Later s s
  trans : ∀ {s s' s''}, Later s s' → Later s' s'' → Later s s''
  valid : ∀ {s s'}, Later s s' → Valid s → Valid s'

open Timeline in
/-- A computation that only goes from a state to later ones. -/
class Stepwise {σ α : Type} [Timeline σ] (x : StateT σ (Except Crash) α) : Prop where
  later : ∀ {s a s'}, Valid s → x s = .ok (a, s') → Later s s'

namespace Stepwise

variable {σ α β γ : Type} [Timeline σ]

instance pure (a : α) : Stepwise (Pure.pure a : StateT σ (Except Crash) α) where
  later _ h := by
    cases h
    exact Timeline.refl _

theorem bind {x : StateT σ (Except Crash) α} {f : α → StateT σ (Except Crash) β}
    [hx : Stepwise x] (hf : ∀ a, Stepwise (f a)) : Stepwise (x >>= f) where
  later hs h := by
    obtain ⟨a, s₁, hx', hf'⟩ := bind_eq_ok_iff.1 h
    have hlater := hx.later hs hx'
    exact Timeline.trans hlater ((hf a).later (Timeline.valid hlater hs) hf')

instance {x : StateT σ (Except Crash) α} {f : α → StateT σ (Except Crash) β} [Stepwise x]
    [hf : ∀ a, Stepwise (f a)] : Stepwise (x >>= f) := bind hf

/-- Where the answer is of no concern, the second computation is looked at only once. -/
instance {x : StateT σ (Except Crash) α} {y : StateT σ (Except Crash) β} [Stepwise x]
    [hy : Stepwise y] : Stepwise (x >>= fun _ => y) := bind fun _ => hy

instance {p : Prop} [Decidable p] {x y : StateT σ (Except Crash) α} [Stepwise x] [Stepwise y] :
    Stepwise (if p then x else y) := by
  split <;> assumption

instance {x : StateT σ (Except Crash) α} [Stepwise x] : Stepwise (discard x) :=
  inferInstanceAs (Stepwise (x >>= fun _ => Pure.pure PUnit.unit))

instance (xs : List γ) (b : β) (f : γ → β → StateT σ (Except Crash) (ForInStep β))
    [∀ c b, Stepwise (f c b)] : Stepwise (forIn xs b f) := by
  induction xs generalizing b with
  | nil => exact pure b
  | cons x xs ih =>
      rw [List.forIn_cons]
      refine bind fun step => ?_
      cases step <;> infer_instance

instance (xs : List γ) (f : γ → StateT σ (Except Crash) β) [∀ c, Stepwise (f c)] :
    Stepwise (xs.mapM f) := by
  induction xs with
  | nil => exact pure []
  | cons x xs ih =>
      rw [List.mapM_cons]
      infer_instance

instance : Stepwise (get : StateT σ (Except Crash) σ) where
  later _ h := by
    cases h
    exact Timeline.refl _

instance (c : Crash) : Stepwise (throw c : StateT σ (Except Crash) α) where
  later _ h := by cases h

instance (c : Checked α) : Stepwise (liftM c : StateT σ (Except Crash) α) where
  later _ h := by
    cases c with
    | error e => cases h
    | ok a =>
        cases h
        exact Timeline.refl _

end Stepwise

/-! ### The types of values -/

namespace Module

variable {m m' : Module} {v : ValueId} {ty : TypeId} {t : IrType}

/-- A value with its type is there. -/
theorem exists_value_of_typeOf (h : m.typeOf v = .ok ty) : ∃ d, m.value v = .ok d ∧ d.ty = ty := by
  obtain ⟨d, hd, hty⟩ := answer_bind_eq_ok_iff.1 h
  cases hty
  exact ⟨d, hd, rfl⟩

theorem Evolves.typeOf (h : m.Evolves m') (hv : m.typeOf v = .ok ty) : m'.typeOf v = .ok ty := by
  obtain ⟨d, hd, rfl⟩ := exists_value_of_typeOf hv
  exact typeOf_of_value (h.value hd)

/-- What the type of a value is, by its position. -/
theorem exists_typeOf_of_valueType (h : m.valueType v = .ok t) :
    ∃ ty, m.typeOf v = .ok ty ∧ m.types.get ty = .ok t := answer_bind_eq_ok_iff.1 h

/-- What the type of a value is when the type is known. -/
theorem valueType_of_typeOf (hv : m.typeOf v = .ok ty) (ht : m.types.get ty = .ok t) :
    m.valueType v = .ok t := by
  rw [valueType, hv]
  exact ht

theorem Evolves.valueType_pointer (h : m.Evolves m') (hv : m.valueType v = .ok (.pointer ty)) :
    m'.valueType v = .ok (.pointer ty) := by
  obtain ⟨id, hid, hptr⟩ := exists_typeOf_of_valueType hv
  exact valueType_of_typeOf (h.typeOf hid) (h.types.get_of_isOpaque_eq_false hptr rfl)

/-- There is one position only for a type that is no named structure. -/
theorem typeOf_of_valueType (hv : m.valueType v = .ok t) (ht : m.types.get ty = .ok t)
    (hname : t.structName? = none) : m.typeOf v = .ok ty := by
  obtain ⟨id, hid, hget⟩ := exists_typeOf_of_valueType hv
  rwa [← m.isUnique id ty t hget ht hname]

end Module

end SsaCompiler
