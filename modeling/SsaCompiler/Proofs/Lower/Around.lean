/-
# What is put around a part of a tree

Some of what lowering does around a part of a tree it takes back behind it: the exceptions that are
collected for the part, the loop or the `try` around it, the function whose body it is, the walk
through an instance of a template. Each time the part is lowered in a state that is like the one
before, and what it leaves behind is put in order in one step.
-/

import SsaCompiler.Proofs.Lower.Composed
import SsaCompiler.Proofs.Symbols.Links

namespace SsaCompiler

namespace Lower

variable {α : Type} {s s' : Lowering}

/-- What follows a question about the state goes on with the state itself. -/
theorem get_eq_ok {f : Lowering → Lower α} {a : α} (h : (get >>= f) s = .ok (a, s')) :
    f s s = .ok (a, s') := by
  rwa [bind_of_ok (get_apply s)] at h

/-- What is done depends on whether there is a current function. -/
theorem ifOutside_eq_ok {x y : Lower α} {a : α}
    (h : (do if (← func).isNone then x else y : Lower α) s = .ok (a, s')) :
    s.pass.func = none ∧ x s = .ok (a, s') ∨ s.pass.func.isSome ∧ y s = .ok (a, s') := by
  rw [bind_of_ok (func_apply s)] at h
  cases hfunc : s.pass.func with
  | none =>
      rw [hfunc] at h
      exact .inl ⟨rfl, h⟩
  | some f =>
      rw [hfunc] at h
      exact .inr ⟨rfl, h⟩

/-- The exceptions that have been collected last are taken away. -/
theorem popThrowFrame_eq_ok {throws : ThrowSet} (h : popThrowFrame s = .ok (throws, s')) :
    throws = s.pass.thrown ∧
      s' = { s with pass := { s.pass with throwStack := s.pass.throwStack.tail } } := by
  unfold popThrowFrame at h
  unfold Pass.thrown
  rw [bind_of_ok (get_apply s)] at h
  cases hstack : s.pass.throwStack with
  | nil =>
      simp only [hstack] at h
      cases h
      rw [List.tail_nil, ← hstack]
      exact ⟨by rw [hstack]; rfl, rfl⟩
  | cons top rest =>
      simp only [hstack] at h
      cases h
      exact ⟨rfl, rfl⟩

/-- Exceptions are collected for a part and taken away behind it. -/
theorem collecting_eq_ok {x : Lower α} {p : α × ThrowSet} (h : collecting x s = .ok (p, s')) :
    ∃ s₁, x { s with pass := { s.pass with throwStack := [] :: s.pass.throwStack } } =
        .ok (p.1, s₁) ∧ p.2 = s₁.pass.thrown ∧
      s' = { s₁ with pass := { s₁.pass with throwStack := s₁.pass.throwStack.tail } } := by
  obtain ⟨⟨⟩, inside, hpush, h⟩ := bind_eq_ok_iff.1 h
  cases hpush
  obtain ⟨a, s₁, hrun, h⟩ := bind_eq_ok_iff.1 h
  obtain ⟨throws, s₂, hpop, h⟩ := bind_eq_ok_iff.1 h
  cases h
  exact ⟨s₁, hrun, popThrowFrame_eq_ok hpop⟩

/-- A loop is put around a body, and behind it the loops are cut down to those from before. -/
theorem withTargets_eq_ok {targets : JumpTargets} {body : Lower Unit} {u : Unit}
    (h : withTargets targets body s = .ok (u, s')) :
    ∃ s₁, body { s with pass := { s.pass with loops := targets :: s.pass.loops } } = .ok ((), s₁) ∧
      s' = { s₁ with pass := { s₁.pass with
        loops := s₁.pass.loops.drop (s₁.pass.loops.length - s.pass.loops.length) } } := by
  obtain ⟨⟨⟩, s₁, hrun, h⟩ := bind_eq_ok_iff.1 (show (body >>= fun _ => modifyPass fun p =>
      { p with loops := p.loops.drop (p.loops.length - s.pass.loops.length) })
    { s with pass := { s.pass with loops := targets :: s.pass.loops } } = .ok (u, s') from h)
  cases h
  exact ⟨s₁, hrun, rfl⟩

/-- A `try` is put around a body, and behind it the innermost `try` is taken away. -/
theorem withTry_eq_ok {frame : TryFrame} {body : Lower Unit} {thrown : ThrowSet}
    (h : withTry frame body s = .ok (thrown, s')) :
    ∃ s₁, body { s with pass := { s.pass with
        tries := frame :: s.pass.tries, throwStack := [] :: s.pass.throwStack } } = .ok ((), s₁) ∧
      thrown = s₁.pass.thrown ∧ s' = { s₁ with pass := { s₁.pass with
        tries := s₁.pass.tries.tail, throwStack := s₁.pass.throwStack.tail } } := by
  let back (thrown : ThrowSet) : Lower ThrowSet := do
    modifyPass fun p => { p with tries := p.tries.tail }
    return thrown
  have hstart : (pushThrowFrame >>= fun _ => body >>= fun _ => popThrowFrame >>= back)
      { s with pass := { s.pass with tries := frame :: s.pass.tries } } = .ok (thrown, s') := h
  obtain ⟨⟨⟩, s₁, hpush, h⟩ := bind_eq_ok_iff.1 hstart
  cases hpush
  obtain ⟨⟨⟩, s₂, hrun, h⟩ := bind_eq_ok_iff.1 h
  obtain ⟨thrown, s₃, hpop, h⟩ := bind_eq_ok_iff.1 h
  cases h
  obtain ⟨hthrown, rfl⟩ := popThrowFrame_eq_ok hpop
  exact ⟨s₂, hrun, hthrown, rfl⟩

/-- A body is lowered without the variables, loops and tries around its function, and code goes on
where it was. A loop that is left open ends the walk. -/
theorem inFunction_eq_ok {f : FunctionState} {body : Lower ThrowSet} {throws : ThrowSet}
    (h : inFunction f body s = .ok (throws, s')) :
    ∃ s₁ fatal, body { s with
        context := { s.context with
          symbols := (s.context.symbols.enterFunction (isGlobalBinding s.module)).2 }
        pass := { s.pass with func := some f, loops := [], tries := [] } } = .ok (throws, s₁) ∧
      s' = { s₁ with
        context := { s₁.context with
          symbols := s₁.context.symbols.exitFunction ⟨s.context.symbols.bindings⟩ }
        module := { s₁.module with position := s.module.position }
        pass := { s₁.pass with
          func := s.pass.func, loops := s.pass.loops, tries := s.pass.tries, fatal := fatal } } ∧
      (∀ e, s₁.pass.fatal = some e → fatal = some e) ∧
      (s₁.pass.loops = [] → fatal = s₁.pass.fatal) := by
  let entered := s.context.symbols.enterFunction (isGlobalBinding s.module)
  let close (throws : ThrowSet) : Lower ThrowSet := do
    modifySymbols (·.exitFunction entered.1)
    modifyPass fun p =>
      { p with func := s.pass.func, loops := s.pass.loops, tries := s.pass.tries }
    Build.restorePosition s.module.position
    return throws
  let unbalanced (n : Nat) : InternalError := .unbalancedTargets f.symbol 0 n
  have hstart : (body >>= fun throws => get >>= fun s₁ =>
      if s₁.pass.loops.length > 0 then
        abandon (unbalanced s₁.pass.loops.length) >>= fun _ => close throws
      else close throws) { s with
        context := { s.context with symbols := entered.2 }
        pass := { s.pass with func := some f, loops := [], tries := [] } } = .ok (throws, s') := h
  obtain ⟨thrown, s₁, hrun, htail⟩ := bind_eq_ok_iff.1 hstart
  rw [bind_of_ok (get_apply s₁)] at htail
  split at htail
  · rename_i hopen
    have hloops : s₁.pass.loops ≠ [] := List.length_pos_iff.1 hopen
    cases htail
    exact ⟨s₁, _, hrun, rfl, fun e he => by simp [he], fun h => absurd h hloops⟩
  · cases htail
    exact ⟨s₁, s₁.pass.fatal, hrun, rfl, fun _ he => he, fun _ => rfl⟩

/-- A walk of its own starts anew, and of the walk around it only changes whether it has ended. -/
theorem asNewPass_eq_ok {body : Lower Unit} {u : Unit} (h : asNewPass body s = .ok (u, s')) :
    ∃ s₁, body { s with
        names := (s.names.intern "this").2
        pass := .new (s.names.intern "this").1 } = .ok ((), s₁) ∧
      s' = { s₁ with pass := { s.pass with fatal := s.pass.fatal.or s₁.pass.fatal } } := by
  unfold asNewPass at h
  rw [bind_of_ok (get_apply s)] at h
  obtain ⟨thisName, s₀, hintern, h⟩ := bind_eq_ok_iff.1 h
  cases hintern
  rw [bind_of_ok (modifyPass_apply _ _)] at h
  obtain ⟨⟨⟩, s₁, hrun, h⟩ := bind_eq_ok_iff.1 h
  rw [bind_of_ok (get_apply s₁), bind_of_ok (modifyPass_apply _ s₁)] at h
  refine ⟨s₁, hrun, ?_⟩
  cases hfatal : s₁.pass.fatal with
  | some e =>
      rw [hfatal] at h
      cases h
      rfl
  | none =>
      rw [hfatal] at h
      cases h
      rw [Option.or_none]

/-- Room for a value is made in the first block of the function, and code goes on where it was. -/
theorem entryAlloca_eq_ok {ty : TypeId} {slot : ValueId} (h : entryAlloca ty s = .ok (slot, s')) :
    ∃ m, Build.alloca ty { s.module with
        position := (s.pass.func.map (·.allocaBlock)).or s.module.position } = .ok (slot, m) ∧
      s' = { s with module := { m with position := s.module.position.or m.position } } := by
  unfold entryAlloca at h
  rw [bind_of_ok (position_apply s), bind_of_ok (func_apply s)] at h
  cases hfunc : s.pass.func with
  | none =>
      rw [hfunc] at h
      obtain ⟨v, s₁, halloca, h⟩ := bind_eq_ok_iff.1 h
      obtain ⟨m, hrun, rfl⟩ := build_eq_ok_iff.1 halloca
      cases hhere : s.module.position with
      | none =>
          rw [hhere] at h
          cases h
          exact ⟨m, hhere ▸ hrun, rfl⟩
      | some b =>
          rw [hhere] at h
          cases h
          exact ⟨m, hhere ▸ hrun, rfl⟩
  | some f =>
      rw [hfunc] at h
      obtain ⟨⟨⟩, s₁, hentry, h⟩ := bind_eq_ok_iff.1 h
      cases hentry
      obtain ⟨v, s₂, halloca, h⟩ := bind_eq_ok_iff.1 h
      obtain ⟨m, hrun, rfl⟩ := build_eq_ok_iff.1 halloca
      cases hhere : s.module.position with
      | none =>
          rw [hhere] at h
          cases h
          exact ⟨m, hrun, rfl⟩
      | some b =>
          rw [hhere] at h
          cases h
          exact ⟨m, hrun, rfl⟩

/-- A part that has to have a value is lowered, and there may be one more report. -/
theorem demand_eq_ok {x : Lower (Option Operand)} {span : Span} {o : Option Operand}
    (h : demand x span s = .ok (o, s')) :
    ∃ s₁, x s = .ok (o, s₁) ∧ (s' = s₁ ∨
      o = none ∧ report .typeMismatch "expression has no value" span s₁ = .ok ((), s')) := by
  unfold demand at h
  rw [bind_of_ok (errorCount_apply s)] at h
  obtain ⟨found, s₁, hx, h⟩ := bind_eq_ok_iff.1 h
  cases found with
  | some op =>
      cases h
      exact ⟨s', hx, .inl rfl⟩
  | none =>
      dsimp only at h
      rw [unlessReported, bind_of_ok (errorCount_apply s₁), bind_of_ok (isAbandoned_apply s₁)] at h
      split at h
      · obtain ⟨⟨⟩, s₂, hreport, hend⟩ := bind_eq_ok_iff.1 h
        cases hend
        exact ⟨s₁, hx, .inr ⟨rfl, hreport⟩⟩
      · cases h
        exact ⟨s', hx, .inl rfl⟩

theorem bindPlaceholders_apply (params : List (Name × TypeId)) (s : Lowering) :
    bindPlaceholders params s = .ok
      ((SymbolTable.bindPlaceholders params s.context.symbols).1,
        { s with context := { s.context with
            symbols := (SymbolTable.bindPlaceholders params s.context.symbols).2 } }) := by
  induction params generalizing s with
  | nil => rfl
  | cons param rest ih =>
      have hrest := ih { s with context := { s.context with
        symbols := (s.context.symbols.bindPlaceholder param.1 param.2).2 } }
      change (bindPlaceholders rest >>= fun shadowed => Pure.pure
        ((param.1, (s.context.symbols.bindPlaceholder param.1 param.2).1) :: shadowed))
          { s with context := { s.context with
            symbols := (s.context.symbols.bindPlaceholder param.1 param.2).2 } } = _
      rw [bind_of_ok hrest]
      rfl

theorem unbindPlaceholders_apply (shadowed : List (Name × Shadowed)) (s : Lowering) :
    unbindPlaceholders shadowed s = .ok ((),
      { s with context := { s.context with
          symbols := SymbolTable.unbindPlaceholders shadowed s.context.symbols } }) := by
  induction shadowed with
  | nil => rfl
  | cons entry rest ih =>
      unfold unbindPlaceholders
      rw [bind_of_ok ih]
      rfl

end Lower

end SsaCompiler
