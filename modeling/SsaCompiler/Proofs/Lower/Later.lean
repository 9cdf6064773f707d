/-
# What lowering leaves as it found it

Whatever part of a tree is lowered, and whether or not that fails, reports are never taken back,
a walk that has ended early stays ended, and afterwards the current function, the loops and the
tries around the current node are the ones from before, and every block is still in its function. So
a tree that has been lowered without a report has been lowered without one in each of its parts, and
jumps and exceptions in a part lead where they led before it. Of the exceptions that are collected
around a part only those of the node next to it may be more than before.

This holds of every step of lowering, and so of what is put together from them: what a step puts
around a part of the tree it takes away again.
-/

import SsaCompiler.Proofs.Diagnostic.Queue
import SsaCompiler.Proofs.Lower.Around

namespace SsaCompiler

/-- A state in which some part of a tree has been lowered. -/
structure Lowering.Later (s s' : Lowering) : Prop where
  reports : s.context.errorCount ≤ s'.context.errorCount
  func : s'.pass.func = s.pass.func
  loops : s'.pass.loops = s.pass.loops
  tries : s'.pass.tries = s.pass.tries
  thisName : s'.pass.thisName = s.pass.thisName
  fatal : ∀ {e}, s.pass.fatal = some e → s'.pass.fatal = some e
  throwStack : s'.pass.throwStack.length = s.pass.throwStack.length
  outer : s'.pass.throwStack.tail = s.pass.throwStack.tail
  module : s.module.GrowsLoosely s'.module

namespace Lowering.Later

theorem refl (s : Lowering) : s.Later s :=
  ⟨Nat.le_refl _, rfl, rfl, rfl, rfl, id, rfl, rfl, .refl _⟩

theorem trans {s s' s'' : Lowering} (h : s.Later s') (h' : s'.Later s'') : s.Later s'' where
  reports := Nat.le_trans h.reports h'.reports
  func := h'.func.trans h.func
  loops := h'.loops.trans h.loops
  tries := h'.tries.trans h.tries
  thisName := h'.thisName.trans h.thisName
  fatal he := h'.fatal (h.fatal he)
  throwStack := h'.throwStack.trans h.throwStack
  outer := h'.outer.trans h.outer
  module := h.module.trans h'.module

/-- Every block is still in its function. -/
theorem blocks {s s' : Lowering} (h : s.Later s') {f : FunctionId} {b : BlockId}
    (hb : s.module.HasBlock f b) : s'.module.HasBlock f b := h.module.hasBlock hb

end Lowering.Later

namespace Lower

variable {α β : Type} {s s' : Lowering} {x : Lower α} {a : α}

/-! ### Reports -/

/-- A report is one more report. -/
theorem later_of_report {kind : DiagnosticKind} {message : String} {span : Span} {u : Unit}
    (h : report kind message span s = .ok (u, s')) : s.Later s' := by
  cases h
  exact ⟨(s.context.diagnostics.later_push _).errorCount_le, rfl, rfl, rfl, rfl, id, rfl, rfl,
    .refl _⟩

/-! ### What is put around a part -/

/-- What is collected for a part of the tree is taken away again. -/
theorem later_of_collecting {p : α × ThrowSet} (ih : ∀ {s a s'}, x s = .ok (a, s') → s.Later s')
    (h : collecting x s = .ok (p, s')) : s.Later s' := by
  obtain ⟨s₁, hrun, -, rfl⟩ := collecting_eq_ok h
  have hlater := ih hrun
  have hback : s₁.pass.throwStack.tail = s.pass.throwStack := hlater.outer
  exact { hlater with throwStack := congrArg List.length hback, outer := congrArg List.tail hback }

/-- The loop around a body is taken away again, and no other, since the body leaves the loops as it
found them. -/
theorem later_of_withTargets {targets : JumpTargets} {body : Lower Unit} {u : Unit}
    (ih : ∀ {s a s'}, body s = .ok (a, s') → s.Later s')
    (h : withTargets targets body s = .ok (u, s')) : s.Later s' := by
  obtain ⟨s₁, hrun, rfl⟩ := withTargets_eq_ok h
  have hlater := ih hrun
  have hloops : s₁.pass.loops = targets :: s.pass.loops := hlater.loops
  exact { hlater with loops := by simp [hloops] }

/-- The `try` around a body is taken away again, and no other, since the body leaves the tries as it
found them. -/
theorem later_of_withTry {frame : TryFrame} {body : Lower Unit} {thrown : ThrowSet}
    (ih : ∀ {s a s'}, body s = .ok (a, s') → s.Later s')
    (h : withTry frame body s = .ok (thrown, s')) : s.Later s' := by
  obtain ⟨s₁, hrun, -, rfl⟩ := withTry_eq_ok h
  have hlater := ih hrun
  have hback : s₁.pass.throwStack.tail = s.pass.throwStack := hlater.outer
  exact { hlater with
    tries := congrArg List.tail hlater.tries
    throwStack := congrArg List.length hback
    outer := congrArg List.tail hback }

/-- Behind a body the function around it is the current one again, with its loops and tries. -/
theorem later_of_inFunction {f : FunctionState} {body : Lower ThrowSet} {throws : ThrowSet}
    (ih : ∀ {s a s'}, body s = .ok (a, s') → s.Later s')
    (h : inFunction f body s = .ok (throws, s')) : s.Later s' := by
  obtain ⟨s₁, fatal, hrun, rfl, hfatal, -⟩ := inFunction_eq_ok h
  have hlater := ih hrun
  exact { hlater with
    func := rfl
    loops := rfl
    tries := rfl
    fatal := fun he => hfatal _ (hlater.fatal he)
    module := hlater.module.trans (Module.growsLoosely_withPosition _ _) }

/-- A walk of its own leaves the walk around it alone, but for ending it early. -/
theorem later_of_asNewPass {body : Lower Unit} {u : Unit}
    (ih : ∀ {s a s'}, body s = .ok (a, s') → s.Later s')
    (h : asNewPass body s = .ok (u, s')) : s.Later s' := by
  obtain ⟨s₁, hrun, rfl⟩ := asNewPass_eq_ok h
  have hlater := ih hrun
  exact ⟨hlater.reports, rfl, rfl, rfl, rfl, fun he => by simp [he], rfl, rfl, hlater.module⟩

/-! ### All of lowering -/

/-- A request to the module leaves the walk alone. -/
theorem later_of_build {b : Build α} [b.GrowsLoosely] (h : (liftM b : Lower α) s = .ok (a, s')) :
    s.Later s' := by
  obtain ⟨m, hb, rfl⟩ := build_eq_ok_iff.1 h
  exact ⟨Nat.le_refl _, rfl, rfl, rfl, rfl, id, rfl, rfl, Build.GrowsLoosely.later hb⟩

/-- A new block leaves the walk alone. -/
theorem later_of_appendBlock {name : String} {b : BlockId}
    (h : appendBlock name s = .ok (b, s')) : s.Later s' := by
  unfold appendBlock at h
  rw [bind_of_ok (func_apply s)] at h
  cases hfunc : s.pass.func with
  | some f =>
      rw [hfunc] at h
      exact later_of_build h
  | none =>
      rw [hfunc] at h
      obtain ⟨f, s₁, hask, h⟩ := bind_eq_ok_iff.1 h
      rw [pure_bind] at h
      exact (later_of_build hask).trans (later_of_build h)

/-- Room for a value leaves the walk alone. -/
theorem later_of_entryAlloca {ty : TypeId} {slot : ValueId}
    (h : entryAlloca ty s = .ok (slot, s')) : s.Later s' := by
  obtain ⟨m, hrun, rfl⟩ := entryAlloca_eq_ok h
  refine ⟨Nat.le_refl _, rfl, rfl, rfl, rfl, id, rfl, rfl, ?_⟩
  refine (Module.growsLoosely_withPosition _ _).trans ((Build.GrowsLoosely.later hrun).trans ?_)
  exact Module.growsLoosely_withPosition m _

/-- A step of lowering leaves the walk as it was. -/
theorem later_of_elementary {L : Leeway} (hx : Elementary L α x) (h : x s = .ok (a, s')) :
    s.Later s' := by
  cases hx with
  | still b => exact later_of_build h
  | alloca ty => exact later_of_build h
  | choose b => exact later_of_build h
  | entryAlloca ty => exact later_of_entryAlloca h
  | modifyContext hf =>
      cases h
      refine ⟨?_, rfl, rfl, rfl, rfl, id, rfl, rfl, .refl _⟩
      exact (congrArg DiagnosticQueue.errorCount (hf.diagnostics s.context)).ge
  | modifyPass hf =>
      cases h
      exact ⟨Nat.le_refl _, hf.func _, hf.loops _, hf.tries _, hf.thisName _, hf.fatal _ _,
        hf.throws _, hf.outer _, .refl _⟩

/-- What is put together from the steps of lowering leaves a later state behind. -/
theorem Composed.later_of {L : Leeway} (hx : Composed Elementary L x) (h : x s = .ok (a, s')) :
    s.Later s' := by
  induction hx generalizing s s' with
  | part hx => exact later_of_elementary hx h
  | pure =>
      cases h
      exact .refl _
  | seq _ _ ihx ihf =>
      obtain ⟨b, s₁, hx, hf⟩ := bind_eq_ok_iff.1 h
      exact (ihx hx).trans (ihf b hf)
  | check c =>
      cases c with
      | error e => cases h
      | ok a =>
          cases h
          exact .refl _
  | ask =>
      cases h
      exact .refl _
  | intern =>
      cases h
      exact ⟨Nat.le_refl _, rfl, rfl, rfl, rfl, id, rfl, rfl, .refl _⟩
  | outer _ _ ih => exact ih s (get_eq_ok h)
  | within _ _ ihx ihy =>
      rcases ifOutside_eq_ok h with ⟨-, h⟩ | ⟨-, h⟩
      · exact ihx h
      · exact ihy h
  | report => exact later_of_report h
  | note f hf => exact later_of_elementary (L := .free) (.modifyPass hf.toKeepsPlace) h
  | goOn b => exact later_of_build h
  | enter b _ _ _ ih =>
      obtain ⟨⟨⟩, s₁, hgo, hrest⟩ := bind_eq_ok_iff.1 h
      exact (later_of_build hgo).trans (ih hrest)
  | fresh name _ _ ih =>
      obtain ⟨b, s₁, hblock, hf⟩ := bind_eq_ok_iff.1 h
      exact (later_of_appendBlock hblock).trans (ih b hf)
  | freshIn _ g name _ _ ih | entryIn _ g _ ih =>
      obtain ⟨b, s₁, hblock, hf⟩ := bind_eq_ok_iff.1 h
      exact (later_of_build hblock).trans (ih b hf)
  | comingBack _ ih =>
      obtain ⟨⟨⟩, s₁, hx, hback⟩ := bind_eq_ok_iff.1 (comingBack_apply _ s ▸ h)
      exact (ih hx).trans (later_of_build hback)
  | demand _ _ ih =>
      obtain ⟨s₁, hx, rfl | ⟨-, hreport⟩⟩ := demand_eq_ok h
      · exact ih hx
      · exact (ih hx).trans (later_of_report hreport)
  | collecting _ ih => exact later_of_collecting ih h
  | withTargets _ _ _ ih => exact later_of_withTargets ih h
  | withTry _ _ _ ih => exact later_of_withTry ih h
  | withBody g _ _ ih =>
      obtain ⟨a, s₁, ha, h⟩ := bind_eq_ok_iff.1 h
      obtain ⟨b, s₂, hb, h⟩ := bind_eq_ok_iff.1 h
      exact ((later_of_build ha).trans (later_of_build hb)).trans (later_of_inFunction (ih a b) h)
  | asNewPass _ ih => exact later_of_asNewPass ih h

theorem Composed.later [hx : Composed Elementary .free x] (h : x s = .ok (a, s')) : s.Later s' :=
  hx.later_of h

end Lower

end SsaCompiler
