/-
# What is kept up along a computation

An invariant holds from state to state, and every state is related to the ones behind it. When each
part of a computation sees to that, the whole does, and it may say something about its answer as well.
The parts are looked at one after the other, each from the state where it starts.
-/

import Mathlib.Order.Defs.Unbundled
import SsaCompiler.Proofs.Lower.Step

namespace SsaCompiler

open Lower

variable {α β : Type} {I : Lowering → Prop} {R : Lowering → Lowering → Prop} {s : Lowering}

/-- From a state with an invariant a computation leads to one in which the invariant holds again and
which is related to the first, and something holds of its answer. -/
structure Maintains (I : Lowering → Prop) (R : Lowering → Lowering → Prop) {α : Type}
    (Q : Lowering → α → Prop) (x : Lower α) (s : Lowering) : Prop where
  run : ∀ {a s'}, I s → x s = .ok (a, s') → R s s' ∧ I s' ∧ Q s' a

namespace Maintains

variable {Q : Lowering → α → Prop} {T : Lowering → β → Prop}

/-- Less may be said about the answer. -/
theorem imp {Q' : Lowering → α → Prop} {x : Lower α} (hx : Maintains I R Q x s)
    (h : ∀ s' a, Q s' a → Q' s' a) : Maintains I R Q' x s where
  run hs hrun := by
    obtain ⟨hrel, hs', ha⟩ := hx.run hs hrun
    exact ⟨hrel, hs', h _ _ ha⟩

/-- Nothing may be said about it. -/
theorem unit {x : Lower α} (hx : Maintains I R Q x s) : Maintains I R (fun _ _ => True) x s :=
  hx.imp fun _ _ _ => trivial

variable [IsPreorder Lowering R]

theorem pure {a : α} (ha : Q s a) : Maintains I R Q (Pure.pure a) s where
  run hs h := by
    cases h
    exact ⟨Std.Refl.refl s, hs, ha⟩

theorem state (f : Lowering → α) :
    Maintains I R (fun s' a => s' = s ∧ a = f s) (do return f (← get)) s where
  run hs h := by
    cases h
    exact ⟨Std.Refl.refl s, hs, rfl, rfl⟩

theorem bind {x : Lower α} {f : α → Lower β} (hx : Maintains I R Q x s)
    (hf : ∀ a s', R s s' → I s' → Q s' a → Maintains I R T (f a) s') :
    Maintains I R T (x >>= f) s where
  run hs h := by
    obtain ⟨a, s₁, hx', hf'⟩ := bind_eq_ok_iff.1 h
    obtain ⟨h₁, hs₁, ha⟩ := hx.run hs hx'
    obtain ⟨h₂, hs₂, hb⟩ := (hf a s₁ h₁ hs₁ ha).run hs₁ hf'
    exact ⟨IsTrans.trans _ _ _ h₁ h₂, hs₂, hb⟩

theorem get : Maintains I R (fun s' a => s' = s ∧ a = s) MonadState.get s where
  run hs h := by
    cases h
    exact ⟨Std.Refl.refl s, hs, rfl, rfl⟩

theorem symbols : Maintains I R (fun s' table => s' = s ∧ table = s.context.symbols) symbols s :=
  .state (·.context.symbols)

theorem nameText (n : Name) :
    Maintains I R (fun s' text => s' = s ∧ s.names.text n = .ok text) (nameText n) s where
  run hs h := by
    rw [Lower.nameText, bind_of_ok (get_apply s)] at h
    cases htext : s.names.text n with
    | error c =>
        rw [htext] at h
        cases h
    | ok text =>
        rw [htext] at h
        cases h
        exact ⟨Std.Refl.refl s, hs, rfl, rfl⟩

theorem mapM_describe (tys : List TypeId) :
    Maintains I R (fun s' _ => s' = s) (tys.mapM describe) s := by
  have hone (ty : TypeId) : Maintains I R (fun s' _ => s' = s) (describe ty) s := by
    unfold describe
    refine get.bind fun a s₁ _ _ hsame => ?_
    obtain ⟨rfl, rfl⟩ := hsame
    cases a.module.types.describe ty with
    | error c => exact ⟨fun _ h => by cases h⟩
    | ok text => exact pure rfl
  induction tys with
  | nil => exact pure rfl
  | cons ty rest ih =>
      rw [List.mapM_cons]
      refine (hone ty).bind fun text s₁ _ _ hsame => ?_
      subst hsame
      exact ih.bind fun texts s₂ _ _ hsame => pure hsame

end Maintains

/-- From a state with an invariant an attempt leads to one in which the invariant holds again and
which is related to the first, and something holds of its answer, if it has one. -/
abbrev Attempt.Maintains (I : Lowering → Prop) (R : Lowering → Lowering → Prop) {α : Type}
    (Q : Lowering → α → Prop) (x : Attempt α) (s : Lowering) : Prop :=
  SsaCompiler.Maintains I R (fun s' o => ∀ a ∈ o, Q s' a) x.run s

namespace Attempt.Maintains

variable {Q : Lowering → α → Prop} {T : Lowering → β → Prop}

/-- An attempt of whose answer nothing is said. -/
theorem of_run {x : Attempt α} (hx : SsaCompiler.Maintains I R (fun _ _ => True) x.run s) :
    Attempt.Maintains I R (fun _ _ => True) x s :=
  hx.imp fun _ _ _ _ _ => trivial

variable [IsPreorder Lowering R]

theorem pure {a : α} (ha : Q s a) : Attempt.Maintains I R Q (Pure.pure a) s :=
  SsaCompiler.Maintains.pure fun b hb => by
    cases hb
    exact ha

theorem failure : Attempt.Maintains I R Q (Alternative.failure : Attempt α) s :=
  SsaCompiler.Maintains.pure fun a ha => by cases ha

theorem lift {x : Lower α} (hx : SsaCompiler.Maintains I R Q x s) :
    Attempt.Maintains I R Q (liftM x) s := by
  have hrun : Attempt.Maintains I R Q (liftM x) s ↔ SsaCompiler.Maintains I R
      (fun s' o => ∀ a ∈ o, Q s' a) (x >>= fun a => Pure.pure (some a)) s := Iff.rfl
  rw [hrun]
  exact hx.bind fun a s' _ _ ha => pure ha

theorem bind {x : Attempt α} {f : α → Attempt β} (hx : Attempt.Maintains I R Q x s)
    (hf : ∀ a s', R s s' → I s' → Q s' a → Attempt.Maintains I R T (f a) s') :
    Attempt.Maintains I R T (x >>= f) s := by
  unfold Attempt.Maintains
  rw [OptionT.run_bind]
  refine SsaCompiler.Maintains.bind hx fun o s' h hs' ho => ?_
  cases o with
  | none => exact failure
  | some a => exact hf a s' h hs' (ho a rfl)

/-- A report instead of an answer. -/
theorem reject {kind : DiagnosticKind} {message : String} {span : Span}
    (hreport : SsaCompiler.Maintains I R (fun _ _ => True) (report kind message span) s) :
    Attempt.Maintains I R Q (reject kind message span) s := by
  unfold Attempt.reject
  exact (lift hreport).bind fun _ _ _ _ _ => failure

end Attempt.Maintains

end SsaCompiler
