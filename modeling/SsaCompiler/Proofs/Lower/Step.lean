/-
# Steps of lowering

What the single steps of lowering answer and which state they leave behind: requests to the
module, questions about the state, changes of it, and sequences of attempts, which stop at the
first one that fails.
-/

import SsaCompiler.Lower.Compilation
import SsaCompiler.Proofs.Computation

namespace SsaCompiler

variable {α β : Type} {s s' : Lowering} {a : α}

namespace Lower

/-! ### Requests to the module -/

/-- A request leaves everything but the module alone. -/
theorem build_of_ok {b : Build α} {m : Module} (hb : b s.module = .ok (a, m)) :
    (liftM b : Lower α) s = .ok (a, { s with module := m }) := by
  change ofBuild b s = _
  rw [ofBuild, hb]

/-- A request answers exactly when the module does. -/
theorem build_eq_ok_iff {b : Build α} : (liftM b : Lower α) s = .ok (a, s') ↔
    ∃ m, b s.module = .ok (a, m) ∧ s' = { s with module := m } := by
  constructor
  · intro h
    change ofBuild b s = _ at h
    rw [ofBuild] at h
    split at h
    · rename_i a' m hb
      cases h
      exact ⟨m, hb, rfl⟩
    · cases h
  · rintro ⟨m, hb, rfl⟩
    exact build_of_ok hb

theorem build_pure (a : α) : (liftM (pure a : Build α) : Lower α) = pure a := rfl

theorem build_bind (x : Build α) (f : α → Build β) :
    (liftM (x >>= f) : Lower β) = liftM x >>= fun a => liftM (f a) := by
  funext s
  have hfirst : (liftM x : Lower α) s = ofBuild x s := rfl
  change ofBuild (x >>= f) s = _
  rw [ofBuild]
  cases hx : x s.module with
  | error e =>
      have hleft : (x >>= f) s.module = .error e := bind_of_error hx
      have hright : (liftM x : Lower α) s = .error e := by rw [hfirst, ofBuild, hx]
      rw [hleft, bind_of_error hright]
  | ok first =>
      rw [bind_of_ok hx, bind_of_ok (build_of_ok hx)]
      rfl

/-! ### The state -/

@[simp]
theorem modifyPass_apply (f : Pass → Pass) (s : Lowering) :
    modifyPass f s = .ok ((), { s with pass := f s.pass }) := rfl

@[simp]
theorem modifyContext_apply (f : Context → Context) (s : Lowering) :
    modifyContext f s = .ok ((), { s with context := f s.context }) := rfl

@[simp]
theorem func_apply (s : Lowering) : func s = .ok (s.pass.func, s) := rfl

@[simp]
theorem symbols_apply (s : Lowering) : symbols s = .ok (s.context.symbols, s) := rfl

@[simp]
theorem position_apply (s : Lowering) : position s = .ok (s.module.position, s) := rfl

@[simp]
theorem errorCount_apply (s : Lowering) : errorCount s = .ok (s.context.errorCount, s) := rfl

@[simp]
theorem isAbandoned_apply (s : Lowering) : isAbandoned s = .ok (s.pass.fatal.isSome, s) := rfl

/-- The text of a name that has one. -/
theorem nameText_of_ok {n : Name} {text : String} (h : s.names.text n = .ok text) :
    nameText n s = .ok (text, s) := by
  refine (bind_of_ok (get_apply s)).trans ?_
  rw [h]
  rfl

end Lower

/-! ### Attempts -/

namespace Attempt

/-- A sequence of attempts goes on when the first one succeeds. -/
theorem bind_of_some {x : Attempt α} {f : α → Attempt β} (hx : x s = .ok (some a, s')) :
    (x >>= f) s = f a s' := by
  change (x >>= f).run s = f a s'
  rw [OptionT.run_bind]
  exact SsaCompiler.bind_of_ok (x := x.run) hx

/-- A sequence of attempts crashes when the first one does. -/
theorem bind_of_error {x : Attempt α} {f : α → Attempt β} {c : Crash} (hx : x s = .error c) :
    (x >>= f) s = .error c := by
  change (x >>= f).run s = _
  rw [OptionT.run_bind]
  exact SsaCompiler.bind_of_error (x := x.run) hx

/-- A computation that answers, as an attempt. -/
theorem lift_of_ok {x : Lower α} (hx : x s = .ok (a, s')) :
    (liftM x : Attempt α) s = .ok (some a, s') :=
  SsaCompiler.bind_of_ok (f := fun a => pure (some a)) hx

/-- A computation that crashes, as an attempt. -/
theorem lift_of_error {x : Lower α} {c : Crash} (hx : x s = .error c) :
    (liftM x : Attempt α) s = .error c :=
  SsaCompiler.bind_of_error (f := fun a => pure (some a)) hx

/-- What becomes of a sequence of attempts. -/
theorem bind_cases {x : Attempt α} {f : α → Attempt β} {o : Option β}
    (h : (x >>= f) s = .ok (o, s')) :
    (∃ a s₁, x s = .ok (some a, s₁) ∧ f a s₁ = .ok (o, s')) ∨
      x s = .ok (none, s') ∧ o = none := by
  change (x >>= f).run s = _ at h
  rw [OptionT.run_bind] at h
  obtain ⟨oa, s₁, hx, hf⟩ := bind_eq_ok_iff.1 h
  cases oa with
  | none =>
      cases hf
      exact .inr ⟨hx, rfl⟩
  | some a => exact .inl ⟨a, s₁, hx, hf⟩

/-- A sequence of attempts succeeds when each of them does. -/
theorem bind_eq_some {x : Attempt α} {f : α → Attempt β} {b : β}
    (h : (x >>= f) s = .ok (some b, s')) :
    ∃ a s₁, x s = .ok (some a, s₁) ∧ f a s₁ = .ok (some b, s') := by
  rcases bind_cases h with hboth | ⟨-, hnone⟩
  · exact hboth
  · cases hnone

/-- An attempt whose result is handed on in another form. -/
theorem bind_pure_eq_ok {x : Attempt α} {g : α → β} {o : Option β}
    (h : (x >>= fun a => pure (g a)) s = .ok (o, s')) :
    ∃ oa, x s = .ok (oa, s') ∧ o = oa.map g := by
  rcases bind_cases h with ⟨a, s₁, hx, ha⟩ | ⟨hx, rfl⟩
  · cases ha
    exact ⟨some a, hx, rfl⟩
  · exact ⟨none, hx, rfl⟩

/-- A computation that cannot fail, as an attempt. -/
theorem lift_eq_ok {x : Lower α} {o : Option α} (h : (liftM x : Attempt α) s = .ok (o, s')) :
    ∃ a, x s = .ok (a, s') ∧ o = some a := by
  change (x >>= fun a => pure (some a)) s = _ at h
  obtain ⟨a, s₁, hx, ha⟩ := bind_eq_ok_iff.1 h
  cases ha
  exact ⟨a, hx, rfl⟩

/-- A request to the module, as an attempt. -/
theorem build_eq_ok {b : Build α} {o : Option α} (h : (liftM b : Attempt α) s = .ok (o, s')) :
    ∃ a m, b s.module = .ok (a, m) ∧ o = some a ∧ s' = { s with module := m } := by
  obtain ⟨a, hx, rfl⟩ := lift_eq_ok (x := liftM b) h
  obtain ⟨m, hb, rfl⟩ := Lower.build_eq_ok_iff.1 hx
  exact ⟨a, m, hb, rfl, rfl⟩

/-- A computation that cannot fail, as the first of a sequence of attempts. -/
theorem bind_lift {x : Lower α} {f : α → Attempt β} {o : Option β}
    (h : ((liftM x : Attempt α) >>= f) s = .ok (o, s')) :
    ∃ a s₁, x s = .ok (a, s₁) ∧ f a s₁ = .ok (o, s') := by
  rcases bind_cases h with ⟨a, s₁, hx, hf⟩ | ⟨hx, -⟩
  · obtain ⟨a', hx', heq⟩ := lift_eq_ok hx
    cases heq
    exact ⟨a, s₁, hx', hf⟩
  · obtain ⟨a', -, heq⟩ := lift_eq_ok hx
    cases heq

/-- A request to the module, as the first of a sequence of attempts. -/
theorem bind_build {b : Build α} {f : α → Attempt β} {o : Option β}
    (h : ((liftM b : Attempt α) >>= f) s = .ok (o, s')) :
    ∃ a m, b s.module = .ok (a, m) ∧ f a { s with module := m } = .ok (o, s') := by
  obtain ⟨a, s₁, hx, hf⟩ := bind_lift (x := liftM b) h
  obtain ⟨m, hb, rfl⟩ := Lower.build_eq_ok_iff.1 hx
  exact ⟨a, m, hb, hf⟩

end Attempt

/-! ### What tables keep -/

namespace SymbolTable

@[simp]
theorem bindings_modifyByType (t : SymbolTable) (ty : TypeId) (g : ObjectInfo → ObjectInfo) :
    (t.modifyByType ty g).bindings = t.bindings := by
  unfold modifyByType
  split <;> rfl

/-- A change of an object leaves the types of objects alone. -/
theorem byType_modifyByType (t : SymbolTable) (ty : TypeId) (g : ObjectInfo → ObjectInfo) :
    (t.modifyByType ty g).byType = t.byType := by
  unfold modifyByType modifyObject
  split <;> rfl

@[simp]
theorem bindings_declareFunction (t : SymbolTable) (name : Name) (o : Overload) :
    (t.declareFunction name o).2.bindings = t.bindings := by
  unfold declareFunction
  dsimp only
  split <;> rfl

@[simp]
theorem bindings_declareMethod (t : SymbolTable) (ty : TypeId) (name : Name) (o : Overload) :
    (t.declareMethod ty name o).2.bindings = t.bindings := by
  unfold declareMethod
  split
  · rfl
  · split
    · exact bindings_modifyByType t ty _
    · rfl

@[simp]
theorem bindings_declareConstructor (t : SymbolTable) (ty : TypeId) (o : Overload) :
    (t.declareConstructor ty o).2.bindings = t.bindings := by
  unfold declareConstructor
  split
  · rfl
  · split
    · exact bindings_modifyByType t ty _
    · rfl

@[simp]
theorem bindings_unbindPlaceholder (t : SymbolTable) (name : Name) (shadowed : Shadowed) :
    (t.unbindPlaceholder name shadowed).bindings = t.bindings := by
  unfold unbindPlaceholder
  split
  · rfl
  · split
    · split <;> rfl
    · rfl

/-- Taking a placeholder away leaves the types of objects alone. -/
theorem byType_unbindPlaceholder (t : SymbolTable) (name : Name) (hidden : Shadowed) :
    (t.unbindPlaceholder name hidden).byType = t.byType := by
  unfold unbindPlaceholder
  repeat' split
  all_goals rfl

theorem functions_unbindPlaceholder (t : SymbolTable) (name : Name) (hidden : Shadowed) :
    (t.unbindPlaceholder name hidden).functions = t.functions := by
  unfold unbindPlaceholder
  repeat' split
  all_goals rfl

end SymbolTable

@[simp]
theorem Callee.bindings_declare (c : Callee) (t : SymbolTable) (o : Overload) :
    (c.declare t o).2.bindings = t.bindings := by
  cases c with
  | function name => exact t.bindings_declareFunction name o
  | method object name => exact t.bindings_declareMethod object name o
  | constructor object => exact t.bindings_declareConstructor object o

@[simp]
theorem Callee.bindings_modify (c : Callee) (t : SymbolTable) (g : OverloadSet → OverloadSet) :
    (c.modify t g).bindings = t.bindings := by
  cases c with
  | function name => rfl
  | method object name => exact t.bindings_modifyByType object _
  | constructor object => exact t.bindings_modifyByType object _

end SsaCompiler
