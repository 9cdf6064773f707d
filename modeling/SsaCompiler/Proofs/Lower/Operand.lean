/-
# The types of operands

An expression is lowered to an operand: a value, or the address of one. What is loaded from it has
the type that it stands for, its address points to that type, and a conversion has the type that it
is asked for.
-/

import SsaCompiler.Proofs.Ir.Typing
import SsaCompiler.Proofs.Lower.Compilation

namespace SsaCompiler

open Lower

variable {m m' : Module} {s s' : Lowering} {v : ValueId} {ty dest : TypeId}

/-! ### Conversions -/

/-- A conversion as by a cast has the type that was asked for, or both types are that of a truth
value. -/
theorem Lower.typed_of_convert {value : ValueId} (hrun : convert value dest m = .ok (some v, m')) :
    m'.typeOf v = .ok dest ∨
      m.types.get dest = .ok (.int 1) ∧ m'.valueType v = .ok (.int 1) := by
  have hcast (op : CastOp) (x : ValueId) := (Build.makes_cast op x dest).some
  have hicmp (pred : IntPredicate) (l r : ValueId) := (Build.makesA_icmp pred l r).some
  have hfcmp (pred : FloatPredicate) (l r : ValueId) := (Build.makesA_fcmp pred l r).some
  obtain ⟨source, m₁, hask, h⟩ := bind_eq_ok_iff.1 hrun
  obtain ⟨hsource, rfl⟩ := Build.ask_eq_ok_iff.1 hask
  split at h
  · rename_i heq
    cases h
    exact .inl (heq ▸ hsource)
  obtain ⟨sourceTy, m₂, hfrom, hrest⟩ := bind_eq_ok_iff.1 h
  obtain ⟨-, rfl⟩ := Build.ask_eq_ok_iff.1 hfrom
  obtain ⟨destTy, m₃, hto, hcase⟩ := bind_eq_ok_iff.1 hrest
  obtain ⟨hdest, rfl⟩ := Build.ask_eq_ok_iff.1 hto
  split at hcase
  · exact .inr ⟨hdest, (Build.Ensures.last fun zero => hicmp _ _ zero).run hcase v rfl⟩
  · exact .inl ((hcast _ _).run hcase v rfl)
  · exact .inl ((hcast _ _).run hcase v rfl)
  · exact .inl ((Build.Ensures.last fun word => .last fun wide => hcast _ wide).run hcase v rfl)
  · exact .inl ((hcast _ _).run hcase v rfl)
  · exact .inr ⟨hdest, (Build.Ensures.last fun zero => hfcmp _ _ zero).run hcase v rfl⟩
  · exact .inl ((hcast _ _).run hcase v rfl)
  · exact .inl ((hcast _ _).run hcase v rfl)
  · exact .inr ⟨hdest, (Build.Ensures.last fun long => .last fun address => .last fun zero =>
      hicmp _ address zero).run hcase v rfl⟩
  · exact .inl ((hcast _ _).run hcase v rfl)
  · exact .inl ((hcast _ _).run hcase v rfl)
  · exact .inl ((hcast _ _).run hcase v rfl)
  · cases hcase

/-- A conversion as by a cast has the type that was asked for. -/
theorem Lower.typeOf_of_convert {value : ValueId}
    (hrun : convert value dest m = .ok (some v, m')) : m'.typeOf v = .ok dest := by
  rcases typed_of_convert hrun with hv | ⟨hdest, hv⟩
  · exact hv
  · have hlater : m.Evolves m' := Build.evolves hrun
    exact Module.typeOf_of_valueType hv
      (hlater.types.get_of_isOpaque_eq_false hdest rfl) rfl

theorem Attempt.reject_ne_some {α : Type} {kind : DiagnosticKind} {message : String} {span : Span}
    {a : α} : (Attempt.reject kind message span : Attempt α) s ≠ .ok (some a, s') := by
  intro h
  obtain ⟨_, _, -, hend⟩ := Attempt.bind_lift h
  cases hend

theorem Lower.typeOf_of_coerce {value : ValueId} {span : Span} (hs : s.Known)
    (h : coerce value dest span s = .ok (some v, s')) :
    s'.module.typeOf v = .ok dest := by
  have hlater := Stepwise.later (x := (coerce value dest span).run) hs h
  obtain ⟨source, m, hask, hrest⟩ := Attempt.bind_build h
  obtain ⟨hsource, rfl⟩ := Build.ask_eq_ok_iff.1 hask
  split at hrest
  · rename_i heq
    cases hrest
    exact heq ▸ hsource
  obtain ⟨sourceTy, m₁, -, h₁⟩ := Attempt.bind_build hrest
  obtain ⟨destTy, m₂, -, h₂⟩ := Attempt.bind_build h₁
  obtain ⟨implicit, m₃, -, h₃⟩ := Attempt.bind_build h₂
  have hreport {s₀ : Lowering} (hrun : (do
      let expected ← describe dest
      let found ← describe source
      Attempt.reject .typeMismatch s!"expected '{expected}', found '{found}'" span :
        Attempt ValueId) s₀ = .ok (some v, s')) : s'.module.typeOf v = .ok dest := by
    obtain ⟨_, _, -, hrun'⟩ := Attempt.bind_lift hrun
    obtain ⟨_, _, -, hreject⟩ := Attempt.bind_lift hrun'
    exact (Attempt.reject_ne_some hreject).elim
  split at h₃
  · obtain ⟨converted, m₄, hconvert, h₄⟩ := Attempt.bind_build h₃
    cases converted with
    | none => exact hreport h₄
    | some _ =>
        cases h₄
        exact typeOf_of_convert hconvert
  · exact hreport h₃

/-- A conversion that may not do without a result makes a value of its type. -/
theorem Lower.valueType_of_convert {value : ValueId} {ty : IrType}
    (hget : s.module.types.get dest = .ok ty) (hdest : ty.isOpaque = false)
    (h : (do
      match ← (liftM (convert value dest) : Attempt (Option ValueId)) with
      | some t => return t
      | none => failure : Attempt ValueId) s = .ok (some v, s')) :
    s'.module.valueType v = .ok ty := by
  obtain ⟨converted, m, hrun, hend⟩ := Attempt.bind_build h
  cases converted with
  | none => cases hend
  | some u =>
      cases hend
      rcases typed_of_convert hrun with hv | ⟨hint, hv⟩
      · have hlater : s.module.Evolves m := Build.evolves hrun
        exact Module.valueType_of_typeOf hv (hlater.types.get_of_isOpaque_eq_false hget hdest)
      · obtain rfl : ty = .int 1 := Except.ok.inj (hget.symm.trans hint)
        exact hv

/-- The truth of a value is a truth value. -/
theorem Lower.valueType_of_toBool {value : ValueId} {span : Span}
    (h : toBool value span s = .ok (some v, s')) : s'.module.valueType v = .ok (.int 1) := by
  obtain ⟨source, m₁, hask, h₁⟩ := Attempt.bind_build h
  obtain ⟨truth, m₂, htruth, h₂⟩ := Attempt.bind_build h₁
  cases htruth
  have hget : (m₁.types.intern (.int 1)).2.get (m₁.types.intern (.int 1)).1 = .ok (.int 1) :=
    Module.get_intern _ _
  obtain ⟨found, m₃, hfound, h₃⟩ := Attempt.bind_build h₂
  obtain ⟨-, rfl⟩ := Build.ask_eq_ok_iff.1 hfound
  split at h₃
  · exact valueType_of_convert hget rfl h₃
  · exact valueType_of_convert hget rfl h₃
  · exact valueType_of_convert hget rfl h₃
  · obtain ⟨_, _, -, hreject⟩ := Attempt.bind_lift h₃
    exact absurd hreject Attempt.reject_ne_some

/-! ### Operands -/

namespace Operand

/-- An operand stands for a value of a type: it is such a value, or the address of one. -/
inductive StandsFor (m : Module) : Operand → TypeId → Prop where
  | value {v : ValueId} {ty : TypeId} (htype : m.typeOf v = .ok ty) : StandsFor m ⟨v, false⟩ ty
  | place {v : ValueId} {ty : TypeId} (htype : m.valueType v = .ok (.pointer ty)) :
      StandsFor m ⟨v, true⟩ ty

variable {op : Operand}

theorem StandsFor.mono (h : op.StandsFor m ty) (hm : m.Evolves m') : op.StandsFor m' ty := by
  cases h with
  | value htype => exact .value (hm.typeOf htype)
  | place htype => exact .place (hm.valueType_pointer htype)

/-- The type of what an operand stands for can be asked. -/
theorem StandsFor.ty_eq (h : op.StandsFor m ty) : op.ty m = .ok (ty, m) := by
  cases h with
  | value htype =>
      have hask : Build.typeOf _ m = .ok (ty, m) := Build.ask_of_ok htype
      exact bind_of_ok hask
  | place htype =>
      obtain ⟨id, hid, hget⟩ := Module.exists_typeOf_of_valueType htype
      have hask : Build.typeOf _ m = .ok (id, m) := Build.ask_of_ok hid
      have hpointee : Lower.pointee? id m = .ok (some ty, m) := bind_of_ok (Build.typeAt_of_ok hget)
      refine (bind_of_ok hask).trans ?_
      exact bind_of_ok hpointee

/-- What is loaded has the type. -/
theorem StandsFor.typeOf_load (h : op.StandsFor s.module ty) (hrun : op.load s = .ok (v, s')) :
    s'.module.typeOf v = .ok ty := by
  have hty := h.ty_eq
  cases h with
  | value htype =>
      cases hrun
      exact htype
  | place htype =>
      obtain ⟨f, s₁, hf, hrest⟩ := bind_eq_ok_iff.1 hrun
      obtain rfl : s₁ = s := by
        cases hf
        rfl
      cases f with
      | some f =>
          obtain ⟨m, hload, rfl⟩ := build_eq_ok_iff.1 hrest
          exact Build.typeOf_of_load htype hload
      | none =>
          -- Nothing is loaded outside a function, but a zero takes the place of the value.
          obtain ⟨here, s₂, hhere, hreport⟩ := bind_eq_ok_iff.1 hrest
          cases hhere
          obtain ⟨_, s₃, hreported, hzero⟩ := bind_eq_ok_iff.1 hreport
          cases hreported
          obtain ⟨ty', s₄, hask, hconst⟩ := bind_eq_ok_iff.1 hzero
          obtain ⟨m, hty', rfl⟩ := build_eq_ok_iff.1 hask
          cases hty.symm.trans hty'
          obtain ⟨m', hconst', rfl⟩ := build_eq_ok_iff.1 hconst
          exact (Build.makes_constZero ty).run hconst'

end Operand

/-- New room is the address of a value of the type. -/
theorem Lower.valueType_entryAlloca (hs : s.Known) (h : entryAlloca ty s = .ok (v, s')) :
    s'.module.valueType v = .ok (.pointer ty) := by
  obtain ⟨here, s₁, hhere, hrest⟩ := bind_eq_ok_iff.1 h
  have hs₁ := (Stepwise.later hs hhere).known hs
  obtain ⟨f, s₂, hf, hrest'⟩ := bind_eq_ok_iff.1 hrest
  have hs₂ := (Stepwise.later hs₁ hf).known hs₁
  have hmade {s₀ : Lowering} {back : ValueId → Lower ValueId} (hs₀ : s₀.Known)
      (hback : ∀ slot, back slot = pure slot ∨ ∃ b : BlockId, back slot = (do
        Build.positionAtEnd b
        return slot))
      (hrun : (do back (← Build.alloca ty) : Lower ValueId) s₀ = .ok (v, s')) :
      s'.module.valueType v = .ok (.pointer ty) := by
    obtain ⟨slot, s₃, halloca, hrest⟩ := bind_eq_ok_iff.1 hrun
    have hs₃ := (Stepwise.later hs₀ halloca).known hs₀
    obtain ⟨m, halloca', rfl⟩ := build_eq_ok_iff.1 halloca
    have hslot := (Build.makesA_alloca ty).run halloca'
    rcases hback slot with heq | ⟨b, heq⟩
    · rw [heq] at hrest
      cases hrest
      exact hslot
    · rw [heq] at hrest
      obtain ⟨_, s₄, hposition, hend⟩ := bind_eq_ok_iff.1 hrest
      cases hend
      exact (Stepwise.later hs₃ hposition).module.valueType_pointer hslot
  cases f with
  | none =>
      refine hmade hs₂ ?_ hrest'
      cases here with
      | none => exact fun slot => .inl rfl
      | some b => exact fun slot => .inr ⟨b, rfl⟩
  | some f =>
      obtain ⟨_, s₃, hposition, hrun⟩ := bind_eq_ok_iff.1 hrest'
      refine hmade ((Stepwise.later hs₂ hposition).known hs₂) ?_ hrun
      cases here with
      | none => exact fun slot => .inl rfl
      | some b => exact fun slot => .inr ⟨b, rfl⟩

/-- The address of an operand points to the type. -/
theorem Operand.StandsFor.valueType_address {op : Operand} (h : op.StandsFor s.module ty)
    (hs : s.Known) (hrun : op.address s = .ok (v, s')) :
    s'.module.valueType v = .ok (.pointer ty) := by
  cases h with
  | place htype =>
      cases hrun
      exact htype
  | value htype =>
      obtain ⟨ty', s₁, hask, hrest⟩ := bind_eq_ok_iff.1 hrun
      obtain ⟨m, hask', rfl⟩ := build_eq_ok_iff.1 hask
      obtain ⟨htype', rfl⟩ := Build.ask_eq_ok_iff.1 hask'
      cases htype.symm.trans htype'
      obtain ⟨slot, s₂, halloca, hstored⟩ := bind_eq_ok_iff.1 hrest
      have hslot := valueType_entryAlloca hs halloca
      obtain ⟨_, s₃, hstore, hend⟩ := bind_eq_ok_iff.1 hstored
      cases hend
      have hlater := Stepwise.later ((Stepwise.later hs halloca).known hs) hstore
      exact hlater.module.valueType_pointer hslot

end SsaCompiler
