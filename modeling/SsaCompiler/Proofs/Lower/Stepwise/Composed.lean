/-
# What is put together from steps goes to later states

The steps of lowering go to later states, and so does what is put together from them and from other
computations that do. So one instance is enough for all functions that lower expressions and
statements, handle exceptions, or write the body of a function.
-/

import SsaCompiler.Proofs.Lower.Composed.Function

namespace SsaCompiler

open Lower

variable {s : Lowering}

/-! ### What is put around a part -/

theorem gives_get (s : Lowering) : Gives (fun s' a => s' = s ∧ a = s) get s where
  run h := by
    cases h
    exact ⟨.refl _, rfl, rfl⟩

theorem gives_symbols (s : Lowering) :
    Gives (fun s' table => s' = s ∧ table = s.context.symbols) symbols s where
  run h := by
    cases h
    exact ⟨.refl _, rfl, rfl⟩

/-- A computation goes to later states from the one where it starts. -/
abbrev Proceeds {α : Type} (x : Lower α) (s : Lowering) : Prop := Gives (fun _ _ => True) x s

instance (saved : SavedVariables) : Stepwise (modifySymbols (·.exitFunction saved)) :=
  stepwise_modifySymbols (fun _ => rfl) (fun _ => rfl) fun _ => rfl

/-- Where a body starts, only variables are put aside. -/
theorem proceeds_enterFunction {table : SymbolTable} {keep : VarBinding → Bool}
    (htable : table = s.context.symbols) :
    Proceeds (modifySymbols fun _ => (table.enterFunction keep).2) s where
  run h := by
    cases h
    subst htable
    have hsame : s.context.SameEntries
        { s.context with symbols := (s.context.symbols.enterFunction keep).2 } :=
      ⟨rfl, rfl, rfl, rfl, rfl, rfl, rfl⟩
    exact ⟨Lowering.evolves_context rfl (.refl _) hsame.known, trivial⟩

instance (f : FunctionState) (body : Lower ThrowSet) [Stepwise body] :
    Stepwise (inFunction f body) where
  later {s throws s'} hs h := by
    have hgives : Proceeds (inFunction f body) s := by
      unfold inFunction
      refine Gives.step hs fun outer s₁ _ hs₁ => Gives.step hs₁ fun here s₂ _ hs₂ =>
        Gives.step hs₂ fun m s₃ _ hs₃ => ?_
      refine (gives_symbols s₃).bind hs₃ fun table s₄ _ hs₄ hsame => ?_
      obtain ⟨rfl, htable⟩ := hsame
      refine (proceeds_enterFunction htable).bind hs₄ fun _ s₅ _ hs₅ _ => ?_
      refine Gives.step hs₅ fun _ s₆ _ hs₆ => Gives.step hs₆ fun throws s₇ _ hs₇ => ?_
      exact .of_stepwise hs₇
    exact (hgives.run h).1

instance (body : Lower Unit) [Stepwise body] : Stepwise (asNewPass body) := by
  unfold asNewPass
  refine .bind fun _ => .bind fun _ => .bind fun _ => .bind fun _ => .bind fun _ =>
    .bind fun _ => ?_
  split <;> infer_instance

namespace Lower

variable {α : Type} {x : Lower α}

/-- Computations that go to later states. -/
def IsStepwise : Parts := fun _ _ x => Stepwise x

instance (targets : JumpTargets) (body : Lower Unit) [Stepwise body] :
    Stepwise (withTargets targets body) := by
  unfold withTargets
  infer_instance

instance (frame : TryFrame) (body : Lower Unit) [Stepwise body] : Stepwise (withTry frame body) := by
  unfold withTry
  infer_instance

instance [Stepwise x] : Stepwise (collecting x) := by
  unfold collecting
  infer_instance

instance (name : String) : Stepwise (appendBlock name) := by
  unfold appendBlock
  refine .bind fun f => ?_
  cases f <;> infer_instance

instance (ty : TypeId) : Stepwise (entryAlloca ty) := by
  unfold entryAlloca
  refine .bind fun here => .bind fun f => ?_
  cases f <;> cases here <;> infer_instance

instance (x : Lower Unit) [Stepwise x] : Stepwise (comingBack x) := by
  unfold comingBack
  infer_instance

instance (x : Lower (Option Operand)) [Stepwise x] (span : Span) : Stepwise (demand x span) := by
  have (before : Nat) : Stepwise (unlessReported before span) := by
    unfold unlessReported
    infer_instance
  unfold demand
  refine .bind fun _ => .bind fun found => ?_
  cases found <;> infer_instance

/-! ### All that is put together -/

/-- What is put together from steps and from computations that go to later states does so too. -/
theorem Composed.stepwise {L : Leeway} (hx : Composed IsStepwise L x) : Stepwise x := by
  induction hx with
  | part hx => exact hx
  | pure a => exact .pure a
  | seq _ _ ihx ihf => exact .bind ihf
  | check c => infer_instance
  | ask f => infer_instance
  | outer _ _ ih => exact .bind ih
  | within _ _ ihx ihy => infer_instance
  | intern text => infer_instance
  | report kind message span => infer_instance
  | note f => infer_instance
  | goOn b => infer_instance
  | enter b _ _ _ ih => infer_instance
  | fresh name _ _ ih => exact .bind ih
  | freshIn _ g name _ _ ih => exact .bind ih
  | entryIn _ g _ ih => exact .bind ih
  | comingBack _ ih => infer_instance
  | demand _ span ih => infer_instance
  | collecting _ ih => infer_instance
  | withTargets targets _ _ ih => infer_instance
  | withTry frame _ _ ih => infer_instance
  | withBody g _ _ ih =>
      unfold Lower.withBody
      infer_instance
  | asNewPass _ ih => infer_instance

instance (priority := low) [hx : Composed IsStepwise .free x] : Stepwise x := hx.stepwise

instance : HasSteps IsStepwise where
  still b := .part (Stepwise.build b)
  alloca ty := .part (Stepwise.build (Build.alloca ty))
  choose b _ ty incoming := .part (Stepwise.build (choose b ty incoming))
  entryAlloca ty := .part (inferInstanceAs (Stepwise (entryAlloca ty)))
  entries hf _ _ := .part (stepwise_modifyContext hf)
  support f := .part (inferInstanceAs (Stepwise (support f)))
  operator index _ label hk := by
    have hentry entry := (hk entry).stepwise
    unfold withOperator
    refine .part (Stepwise.andThen fun s => ?_)
    split <;> infer_instance
  found key span hnone hsome := by
    have : Stepwise (findOperator key span).run := Composed.stepwise (L := .free) inferInstance
    refine .part (Stepwise.andThen fun o => ?_)
    cases o with
    | none => exact hnone.stepwise
    | some index => exact (hsome index).stepwise

instance (b : DynamicArray.AppendBlocks) (v : DynamicArray.AppendValues)
    (newData oldData capacity : ValueId) :
    Stepwise (DynamicArray.replaceBuffer b v newData oldData capacity) :=
  (inferInstance : Composed IsStepwise
    (((Leeway.free.offering b.copyDone).offering b.freeOld).offering b.commit)
    (DynamicArray.replaceBuffer b v newData oldData capacity)).stepwise

end Lower

end SsaCompiler
