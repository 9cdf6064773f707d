/-
# Assignments and declarations

A value that is stored in a variable is first brought to the type of the variable, and so is the
result of a function. A variable gets its room where it is declared. The room is part of the first
block, so that it is there once for every call, however often control comes to the declaration.
-/

import SsaCompiler.Proofs.Structured.Statement

namespace SsaCompiler

open Lower

/-! ### Conversions without a cast -/

namespace Build

instance {α : Type} {c : Prop} [Decidable c] {x y : Build α} [Silent x] [Silent y] :
    Silent (if c then x else y) := by
  split <;> infer_instance

instance (value : ValueId) : Silent (typeOf value) := inferInstanceAs (Silent (ask _))

instance (value : ValueId) : Silent (isNullConstant value) := by
  unfold isNullConstant
  infer_instance

instance (value : ValueId) (source target : IrType) : Silent (isImplicit value source target) := by
  unfold isImplicit
  infer_instance

end Build

/-- Code that begins with requests that write none. -/
theorem Module.Code.after {m m₁ m₂ : Module} {b b₂ : BlockId} {k k₂ : Nat} {v : ValueId}
    {t : ScalarType} {meaning : Module → Point → Option Scalar → Prop}
    (hpiece : m.Piece [b] b k m₁ b k) (h : m₁.Code b k m₂ b₂ k₂ v t meaning) :
    m.Code b k m₂ b₂ k₂ v t meaning :=
  ⟨hpiece.trans h.piece, h.value, fun hM _ _ _ _ hb hk hmeaning =>
    (h.runs hM hb hk hmeaning).mono hpiece.writes.grows.values_size⟩

section

variable {s s' : Lowering} {b : BlockId} {k : Nat} {v : ValueId} {t t' : ScalarType}
  {dest : TypeId} {span : Span}

/-- The code that brings an integer to a type without being asked to. -/
theorem Lower.code_coerce (hat : s.module.StandsAt b k) (hv : s.module.IsScalar v t)
    (hdest : s.module.types.get dest = .ok (.int t'.bits)) {res : Option ValueId}
    (hrun : coerce v dest span s = .ok (res, s')) (hclean : s'.context.errorCount = 0) :
    ∃ u m' k', res = some u ∧ s' = { s with module := m' } ∧
      s.module.Code b k m' b k' u t' fun M p o =>
        ∃ x : Scalar, x.ty = t ∧ p.Carries M v x ∧ o = some (x.cast t') := by
  have hv' := hv
  obtain ⟨d, hd, ht⟩ := hv
  unfold coerce at hrun
  obtain ⟨_, _, hty, hrun⟩ := Attempt.bind_build hrun
  cases (Build.typeOf_of_ok hd).symm.trans hty
  split at hrun
  · rename_i hsame
    cases hrun
    have hself : convert v dest s.module = .ok (some v, s.module) := by
      unfold convert
      rw [bind_of_ok (Build.typeOf_of_ok hd), if_pos hsame]
      rfl
    obtain ⟨u, k', hu, hcode⟩ := code_convert hat hv' hdest hself
    cases hu
    exact ⟨v, s.module, k', rfl, rfl, hcode⟩
  · have hreject {s₀ : Lowering} (hrun : (do
        let expected ← describe dest
        let found ← describe d.ty
        Attempt.reject .typeMismatch s!"expected '{expected}', found '{found}'" span :
          Attempt ValueId) s₀ = .ok (res, s')) : False := by
      obtain ⟨_, _, -, hrun⟩ := Attempt.bind_lift hrun
      obtain ⟨_, _, -, hrun⟩ := Attempt.bind_lift hrun
      have hpos := errorCount_reject hrun
      omega
    obtain ⟨_, _, hsource, hrun⟩ := Attempt.bind_build hrun
    cases (Build.typeAt_of_ok ht).symm.trans hsource
    obtain ⟨_, _, htarget, hrun⟩ := Attempt.bind_build hrun
    cases (Build.typeAt_of_ok hdest).symm.trans htarget
    obtain ⟨implicit, m₁, himplicit, hrun⟩ := Attempt.bind_build hrun
    have hpiece := Build.Silent.piece himplicit hat
    split at hrun
    · obtain ⟨_, m₂, hconvert, hrun⟩ := Attempt.bind_build hrun
      have hgrows := hpiece.writes.grows
      obtain ⟨u, k', rfl, hcode⟩ :=
        code_convert hpiece.stop (hv'.mono hgrows) (hgrows.types hdest (by simp)) hconvert
      cases hrun
      refine ⟨u, m₂, k', rfl, rfl, .after hpiece (hcode.imp ?_)⟩
      exact fun _ h => h
    · exact (hreject hrun).elim

/-- A value that has been computed is brought to a type. -/
theorem Lowering.Operates.coerce {s₁ : Lowering} {scope : Name → Prop} {b₁ : BlockId} {k₁ : Nat}
    {t₁ : ScalarType} {f : Valuation → Option Scalar} {res : Option ValueId}
    (h : s.Operates b k s₁ b₁ k₁ (.ofValue v) t₁ fun M p o =>
      ∃ ρ, p.Agrees M s scope ρ ∧ o = f ρ)
    (hdest : s₁.module.types.get dest = .ok (.int t.bits))
    (hrun : Lower.coerce v dest span s₁ = .ok (res, s')) (hclean : s'.context.errorCount = 0) :
    ∃ u k', res = some u ∧ s.Operates b k s' b₁ k' (.ofValue u) t fun M p o =>
      ∃ ρ, p.Agrees M s scope ρ ∧ o = (f ρ).map (Scalar.cast t) := by
  obtain ⟨u, m', k', rfl, rfl, hcode⟩ := code_coerce h.piece.stop h.operand hdest hrun hclean
  refine ⟨u, k', rfl, (h.bind (.ofCode hcode)).imp ?_⟩
  rintro M p o - ⟨ρ, hagrees, rfl⟩
  refine ⟨f ρ, fun x => some (x.cast t), ⟨ρ, hagrees, rfl⟩, ?_, ?_⟩
  · cases f ρ <;> rfl
  · exact fun x q _ _ hx hcarries => ⟨x, hx, hcarries, rfl⟩

end

namespace Recur

variable {s s' : Lowering} {scope : Name → Prop} {b : BlockId} {k n : Nat} {t : ScalarType}
  {ty : TypeId} {span : Span} {e : Expr} {node : Node} {res : Option ValueId}

/-- A child is lowered for its value, which is brought to a type. -/
theorem operates_coerced (hspelled : e.Spelled scope node) (hready : s.Ready scope)
    (hat : s.module.StandsAt b k) (hty : s.module.types.get ty = .ok (.int t.bits))
    (hrun : (do
      let v ← (within n).value (some node)
      coerce v ty span : Attempt ValueId) s = .ok (res, s'))
    (hclean : s'.context.errorCount = 0) :
    ∃ v b' k', res = some v ∧ s.Operates b k s' b' k' (.ofValue v) t fun M p o =>
      ∃ ρ, p.Agrees M s scope ρ ∧ o = (e.eval ρ).map (Scalar.cast t) := by
  rcases Attempt.bind_cases hrun with ⟨v, s₁, hvalue, hcoerce⟩ | ⟨hvalue, rfl⟩
  · have hreports := (Lower.Composed.later (x := (coerce v ty span).run) hcoerce).reports
    obtain ⟨v', b₁, k₁, t₁, hsome, hoperates⟩ :=
      (handles_within n).value hspelled hready hat hvalue (by omega)
    cases hsome
    obtain ⟨u, k', rfl, hcoerced⟩ := hoperates.coerce
      (hoperates.piece.writes.grows.types hty (by simp)) hcoerce hclean
    exact ⟨u, b₁, k', rfl, hcoerced⟩
  · obtain ⟨v, -, -, -, hsome, -⟩ :=
      (handles_within n).value hspelled hready hat hvalue hclean
    cases hsome

/-- A variable as the target of an assignment. -/
theorem required_ident {x : Name} {res : Option Operand} (hkind : node.kind = .ident x)
    (hready : s.Ready scope) (hx : scope x)
    (hrun : (within n).required (some node) s = .ok (res, s'))
    (hclean : s'.context.errorCount = 0) :
    ∃ id, s.Binds x id ∧ res = some (.ofPlace id) ∧ s.Same s' ∧ s'.module = s.module := by
  obtain ⟨o, s₁, hchild, hle, hres⟩ := required_eq_ok hrun
  cases n with
  | zero => cases hchild
  | succ n =>
      obtain ⟨f, hfunc, -⟩ := hready.func
      obtain ⟨s₂, hlower, hmarks, hsame⟩ := lowerNode_eq_ok hfunc hready.fatal hchild
      unfold lowerKind at hlower
      rw [hkind] at hlower
      have hclean₂ : s₂.context.errorCount = 0 := by
        rw [← hmarks.context]
        omega
      obtain ⟨id, hid, rfl, rfl⟩ :=
        identifier_eq_ok (hready.entered node.span) hx hlower hclean₂
      obtain ⟨rfl, rfl⟩ := hres _ rfl
      exact ⟨id, hid, rfl, hsame (.refl _), hmarks.module⟩

/-- The value that an assignment to a variable stores, before it is brought to a type. -/
theorem operates_assignedValue {op : Option BinaryOp} {x : Name} {id : ValueId}
    (hop : ∀ op' ∈ op, op'.isScalar = true) (hx : scope x) (hid : s.Binds x id)
    (hspelled : e.Spelled scope node) (hready : s.Ready scope) (hat : s.module.StandsAt b k)
    (hrun : (within n).assignedValue op (.ofPlace id) (some node) span s = .ok (res, s'))
    (hclean : s'.context.errorCount = 0) :
    ∃ v b' k' t, res = some v ∧ s.Operates b k s' b' k' (.ofValue v) t fun M p o =>
      ∃ ρ, p.Agrees M s scope ρ ∧ o = (e.eval ρ).bind fun y => Expr.combined op (ρ x) y := by
  cases op with
  | none =>
      obtain ⟨v, b', k', t, rfl, hoperates⟩ :=
        (handles_within n).value hspelled hready hat hrun hclean
      refine ⟨v, b', k', t, rfl, hoperates.imp ?_⟩
      rintro M p o - ⟨ρ, hagrees, rfl⟩
      refine ⟨ρ, hagrees, ?_⟩
      cases e.eval ρ <;> rfl
  | some op =>
      unfold assignedValue at hrun
      obtain ⟨rop, s₁, b₁, k₁, t₁, hcode₁, hready₁, hrun⟩ :=
        required_bind ((handles_within n).computes e) hspelled hready hat hrun hclean
      obtain ⟨f, hfunc, -⟩ := hready₁.func
      obtain ⟨t₀, hplace⟩ := hready.places hx hid
      rcases Attempt.bind_cases hrun with ⟨combined, s₂, happly, hload⟩ | ⟨happly, rfl⟩
      · obtain ⟨v, m₂, k₂, hsome, rfl, hcode₂⟩ := code_applyBinary (hop op rfl) hfunc
          hready₁.operators hcode₁.piece.stop (hplace.mono hcode₁.piece.writes.grows)
          hcode₁.operand happly
        cases hsome
        cases hload
        refine ⟨v, b₁, k₂, _, rfl, (hcode₁.bind (.ofCode hcode₂)).imp ?_⟩
        rintro M p o hM ⟨ρ, hagrees, rfl⟩
        refine ⟨e.eval ρ, fun y => Scalar.binary op (ρ x) y, ⟨ρ, hagrees, rfl⟩, rfl, ?_⟩
        intro y q hy hkeeps ht hshows
        have hold := hagrees hx hid
        refine ⟨ρ x, y, ?_, ht, hold.keeps hkeeps hplace.value_lt, hshows, rfl⟩
        obtain ⟨ty, hty, -⟩ := hold
        obtain ⟨ty', hty'⟩ := hplace.mono ((hcode₁.piece.writes.grows.trans
          hcode₂.piece.writes.grows).trans hM)
        exact (hty.unique hty').2
      · obtain ⟨v, m₂, k₂, hsome, -⟩ := code_applyBinary (hop op rfl) hfunc
          hready₁.operators hcode₁.piece.stop (hplace.mono hcode₁.piece.writes.grows)
          hcode₁.operand happly
        cases hsome

/-- The value that an assignment to a variable stores, brought to the type of the variable. -/
theorem operates_assigned {op : Option BinaryOp} {x : Name} {id : ValueId}
    (hop : ∀ op' ∈ op, op'.isScalar = true) (hx : scope x) (hid : s.Binds x id)
    (hspelled : e.Spelled scope node) (hready : s.Ready scope) (hat : s.module.StandsAt b k)
    (hty : s.module.types.get ty = .ok (.int t.bits))
    (hrun : (do
      let assigned ← (within n).assignedValue op (.ofPlace id) (some node) span
      coerce assigned ty span : Attempt ValueId) s = .ok (res, s'))
    (hclean : s'.context.errorCount = 0) :
    ∃ v b' k', res = some v ∧ s.Operates b k s' b' k' (.ofValue v) t fun M p o =>
      ∃ ρ, p.Agrees M s scope ρ ∧
        o = ((e.eval ρ).bind fun y => Expr.combined op (ρ x) y).map (Scalar.cast t) := by
  rcases Attempt.bind_cases hrun with ⟨a, s₁, hassigned, hcoerce⟩ | ⟨hassigned, rfl⟩
  · have hreports := (Lower.Composed.later (x := (coerce a ty span).run) hcoerce).reports
    obtain ⟨v, b₁, k₁, t₁, hsome, hoperates⟩ :=
      operates_assignedValue hop hx hid hspelled hready hat hassigned (by omega)
    cases hsome
    obtain ⟨u, k', rfl, hcoerced⟩ := hoperates.coerce
      (hoperates.piece.writes.grows.types hty (by simp)) hcoerce hclean
    exact ⟨u, b₁, k', rfl, hcoerced⟩
  · obtain ⟨v, -, -, -, hsome, -⟩ :=
      operates_assignedValue hop hx hid hspelled hready hat hassigned hclean
    cases hsome

end Recur

/-! ### Storing -/

theorem Exec.instruction_store {m : Module} {frame : Frame} {s : MachineState} {value ptr : ValueId}
    {ty : TypeId} {a : UInt64} {x : Val} {μ : Memory} (call : Caller) (id : ValueId)
    (hty : m.typeOf value = .ok ty) (hptr : frame.operand m s.globals ptr = .ok (.ptr a))
    (hx : frame.operand m s.globals value = .ok x)
    (hwrite : Memory.write m.types a ty x s.memory = .ok () μ) :
    instruction m call frame id (.store value ptr) s =
      .ok (frame.bind id .void) { s with memory := μ } := by
  refine (bind_of_ok (ptrOperand_of_ok hptr rfl)).trans ?_
  refine (bind_of_ok (operand_of_ok hx)).trans ?_
  rw [hty]
  refine (bind_of_ok (liftM_checked_ok ty s)).trans ?_
  exact bind_of_ok (onMemory_of_ok hwrite)

/-- Behind a place code stores a value in a variable. -/
def Activation.Stores (A : Activation) (b : BlockId) (k : Nat) (v : LocalVar) (u : ValueId) : Prop :=
  ∀ ⦃st p x⦄, p.At b k → A.Matches st p → x.ty = v.ty → p.Carries A.module u x →
    ∃ q, A.Reaches p q ∧ q.At b (k + 1) ∧
      A.Matches { st with values := Function.update st.values v.name x } q

/-- Code that computes a value and stores it. -/
theorem Activation.Computes.store {A : Activation} {loops : List JumpTargets} {low : Nat}
    {b b' : BlockId} {k k' : Nat} {v : LocalVar} {u : ValueId} {f : Valuation → Option Scalar}
    (h : A.Computes low b k b' k' f fun x q => x.ty = v.ty ∧ q.Carries A.module u x)
    (hstores : A.Stores b' k' v u) :
    A.Performs loops b k b' (k' + 1) fun _ => Run.store v.name (.ofOption f) := by
  intro n st p hp hmatches
  refine Point.Simulates.ofOption rfl (h hp hmatches) hmatches ?_
  rintro x q - hpath - hq hmatches ⟨hx, hcarries⟩
  obtain ⟨q', hpath', hq', hmatches'⟩ := hstores hq hmatches hx hcarries
  exact .next (hpath.trans hpath') hq' hmatches'

namespace Lowering.Hosts

variable {s s' : Lowering} {B : Body} {vars : List LocalVar} {later : List BlockId}
  {b : BlockId} {k : Nat} {v : LocalVar} {u : ValueId}

/-- A value is stored in a variable. -/
theorem store (h : s.Hosts B vars later) (hat : s.GoesOnAt B b k) (hv : v ∈ vars)
    (hu : s.module.IsScalar u v.ty)
    (hrun : (liftM (Build.store u v.place) : Lower Unit) s = .ok ((), s')) :
    s'.Hosts B vars later ∧ s'.GoesOnAt B b (k + 1) ∧
      s.Emits B vars s' vars fun _ A => A.Stores b k v u := by
  obtain ⟨d, hd, ht⟩ := hu
  obtain ⟨ptr, ty, hvalue, hptr, hty⟩ := h.rooms v hv
  obtain rfl : d.ty = ty := s.module.isUnique _ _ _ ht hty rfl
  -- The request is one instruction.
  have hstart := Module.piece_withType hat.standsAt .void
  let void := (s.module.types.intern .void).1
  have hend : s' = { s with
      module := (s.module.withType .void).withInstr b void (.store u v.place) } := by
    obtain ⟨m, hstore, rfl⟩ := build_eq_ok_iff.1 hrun
    have hpointee : Build.pointeeOf v.place s.module = .ok (some d.ty, s.module) := by
      unfold Build.pointeeOf
      rw [bind_of_ok (Build.typeOf_of_ok hvalue), bind_of_ok (Build.typeAt_of_ok hptr)]
      rfl
    unfold Build.store at hstore
    rw [bind_of_ok hpointee] at hstore
    dsimp only at hstore
    rw [bind_of_ok (Build.typeOf_of_ok hd), if_pos rfl] at hstore
    obtain ⟨_, _, hvoid, hstore⟩ := bind_eq_ok_iff.1 hstore
    cases hvoid
    obtain ⟨_, _, hpush, hstore⟩ := bind_eq_ok_iff.1 hstore
    cases (Module.pushInstr_of_standsAt hstart.stop void _).symm.trans hpush
    cases hstore
    rfl
  have hpiece : s.module.Piece [b] b k s'.module b (k + 1) := by
    rw [hend]
    exact hstart.trans (Module.piece_withInstr hstart.stop void (by simp))
  refine ⟨h.of_same hrun ?_ (h.entry_of_writes hat.ne hpiece.writes), h.goesOnAt_of_piece hat hpiece,
    ?_, hpiece.writes.enlarges, List.Subset.refl _, ?_⟩
  · rw [hend]
    exact s.same_withModule _
  · rw [hend]
  · intro A hA _ st p x hp hmatches hx ⟨w, hw, hdenotes⟩
    rw [hx] at hdenotes
    have hgrows := hA.enlarges.grows
    obtain ⟨a, ty', μ, ha, hplace, hwrite, hmatches'⟩ :=
      hmatches.exists_write hA.names hA.bounded (hA.subset hv) hx hdenotes
    have hroom : s.module.IsPlace v.place d.ty v.ty := ⟨_, hvalue, hptr, hty⟩
    obtain ⟨rfl, -⟩ := (hroom.mono (hpiece.writes.grows.trans hgrows)).unique hplace
    rw [hend] at hgrows
    obtain ⟨_, _, frame, state⟩ := p
    obtain ⟨rfl, rfl⟩ := hp
    obtain ⟨e, he, hid, hstored⟩ := Module.instr_of_grows hstart.stop hgrows
    have htype : A.module.typeOf u = .ok d.ty := Module.typeOf_of_value
      (hA.enlarges.grows.values (hpiece.writes.grows.values hd))
    have hstep := Exec.instruction_store (s := state.tick) A.call
      (s.module.withType .void).nextValue htype ha hw hwrite
    refine ⟨_, Relation.ReflTransGen.single (.instr he hid hstored hstep (Nat.lt_succ_self _)),
      ⟨rfl, rfl⟩, hmatches' _ (Point.sameRooms_bind ?_ _ _ _ _) ⟨_, rfl⟩⟩
    rintro ⟨_, _, hroom⟩
    cases hstored.symm.trans hroom

/-! ### Initial values -/

/-- The code of an initial value. -/
theorem initialValue {s₁ : Lowering} {n : Nat} {t : ScalarType} {ty : TypeId} {e : Option Expr}
    {init : Option Node} {o : Option ValueId} (h : s.Hosts B vars later) (hat : s.GoesOnAt B b k)
    (hspelled : Option.Rel (fun e node => e.Spelled B.scope node) e init)
    (hty : s.module.types.get ty = .ok (.int t.bits))
    (hinit : (Recur.within n).initialValue init ty s = .ok (o, s₁))
    (hrest : (o.elim (liftM (Build.constZero ty)) pure : Lower ValueId) s₁ = .ok (u, s'))
    (hclean : s'.context.errorCount = 0) :
    ∃ b' k', s'.Hosts B vars later ∧ s'.GoesOnAt B b' k' ∧ s'.module.IsScalar u t ∧
      s.Emits B vars s' vars fun _ A => A.Computes s.module.values.size b k b' k'
        (Expr.initial? t e) fun x q => x.ty = t ∧ q.Carries A.module u x := by
  cases hspelled with
  | none =>
      cases hinit
      replace hrest : (liftM (Build.constZero ty) : Lower ValueId) s = .ok (u, s') := hrest
      obtain ⟨m, hzero, rfl⟩ := build_eq_ok_iff.1 hrest
      unfold Build.constZero at hzero
      rw [bind_of_ok (Build.typeAt_of_ok hty)] at hzero
      cases hzero
      have hcode := Build.code_const (i := 0) (x := 0) hat.standsAt hty ⟨rfl, by cases t <;> rfl⟩
      refine ⟨b, k, h.of_operates hat hrest ((Operates.ofCode hcode).imp ?_)⟩
      rintro M p o - ⟨ρ, -, rfl⟩
      rfl
  | @some e node hspelled =>
      have hle : s₁.context.errorCount ≤ s'.context.errorCount := by
        cases o with
        | some v =>
            cases hrest
            exact Nat.le_refl _
        | none =>
            obtain ⟨m, -, rfl⟩ := build_eq_ok_iff.1 hrest
            exact Nat.le_refl _
      obtain ⟨v, b', k', rfl, hoperates⟩ := Recur.operates_coerced hspelled h.ready hat.standsAt
        hty hinit (by omega)
      cases hrest
      exact ⟨b', k', h.of_operates hat hinit hoperates⟩

/-! ### Declarations -/

/-- Room is made for a variable. -/
theorem entryAlloca {ty : TypeId} (h : s.Hosts B vars later) (hat : s.GoesOnAt B b k)
    (hty : s.module.types.get ty = .ok (.int v.ty.bits))
    (hrun : Lower.entryAlloca ty s = .ok (v.place, s')) :
    s'.Hosts B (vars ++ [v]) later ∧ s'.GoesOnAt B b k ∧
      s.Emits B vars s' (vars ++ [v]) fun _ _ => True := by
  have hrun' := hrun
  obtain ⟨d, hd, hopen, hinstrs⟩ := h.entry
  obtain ⟨m, halloca, rfl⟩ := Lower.entryAlloca_eq_ok hrun
  let entry := B.func.allocaBlock
  let m₀ := (s.module.withPosition (some entry)).withType (.pointer ty)
  let ptr := (s.module.types.intern (.pointer ty)).1
  have hstands : m₀.StandsAt entry d.instrs.size := ⟨rfl, d, hd, hopen, rfl⟩
  obtain ⟨hplace, rfl⟩ : v.place = m₀.nextValue ∧ m = m₀.withInstr entry ptr (.alloca ty) := by
    rw [h.func] at halloca
    have hpush := (Module.pushInstr_of_standsAt hstands ptr (.alloca ty)).symm.trans halloca
    obtain ⟨hslot, hm⟩ := Prod.mk.inj (Except.ok.inj hpush)
    exact ⟨hslot.symm, hm.symm⟩
  -- Only the first block has changed.
  have hposition : s.module.position = some b := hat.standsAt.position
  simp only [hposition, Option.some_or] at hrun'
  rw [hposition, Option.some_or]
  let m' := (m₀.withInstr entry ptr (.alloca ty)).withPosition (some b)
  change Hosts { s with module := m' } B (vars ++ [v]) later ∧
    GoesOnAt { s with module := m' } B b k ∧ s.Emits B vars { s with module := m' } (vars ++ [v]) _
  have hwrites : s.module.Writes [entry] m' := by
    have hinstr : m₀.Writes [entry] (m₀.withInstr entry ptr (.alloca ty)) :=
      Module.writes_withInstr (m := m₀) hd hopen ptr (.inl (by simp))
    refine (Module.writes_withPosition [entry] s.module (some entry)).trans
      ((Module.writes_withType [entry] _ _).trans
        (hinstr.trans (Module.writes_withPosition [entry] _ _) ?_) ?_) ?_
    all_goals exact fun c hc => .inl hc
  have hkeeps {c : BlockId} (hc : c ≠ entry) (hlt : c.index < s.module.blocks.size) :
      m'.block c = s.module.block c := hwrites.others c (by simpa using hc) hlt
  have hvalue : m'.value v.place = .ok ⟨ptr, .instr (.alloca ty)⟩ := by
    rw [hplace]
    exact Module.value_withValue_nextValue _ _ _
  have hroom : v.IsRoomIn m' := by
    refine ⟨ptr, ty, hvalue, ?_, hwrites.grows.types hty (by simp)⟩
    exact Module.get_intern _ _
  obtain ⟨e, he, hrest⟩ := hat.standsAt.block
  have hb := Module.block_lt he
  refine ⟨h.evolve hrun' hwrites.grows rfl rfl rfl ?_ ?_ ?_ ?_ ?_ ?_ h.nodup,
    ⟨⟨rfl, e, (hkeeps hat.ne hb).trans he, hrest⟩, hat.ne⟩, rfl, hwrites.enlarges, ?_,
    fun _ _ _ => trivial⟩
  · refine ⟨{ d with instrs := d.instrs.push m₀.nextValue }, ?_, hopen, ?_⟩
    · exact (Module.block_modify hd entry).trans (by rw [if_pos rfl])
    · rw [Array.toList_push, hinstrs, ← hplace, List.map_append]
      rfl
  · intro u hu
    rcases List.mem_append.1 hu with hu | hu
    · exact (h.rooms u hu).mono hwrites.grows
    · cases List.mem_singleton.1 hu
      exact hroom
  · rw [List.map_append, List.nodup_append]
    refine ⟨h.places, List.nodup_singleton _, fun place hplaces place' hv => ?_⟩
    obtain ⟨u, hu, rfl⟩ := List.mem_map.1 hplaces
    rw [List.mem_singleton.1 hv, hplace]
    obtain ⟨_, _, hvalue, -⟩ := h.rooms u hu
    exact fun heq => Nat.lt_irrefl _ (heq ▸ Module.value_lt hvalue)
  · intro x id hx hid
    obtain ⟨u, hu, hname⟩ := h.binds x id hx hid
    exact ⟨u, List.mem_append_left _ hu, hname⟩
  · obtain ⟨f, hf, hlt⟩ := h.placed.func
    exact ⟨⟨f, hf, Nat.lt_of_lt_of_le hlt hwrites.grows.blocks_size⟩, b, rfl,
      Nat.lt_of_lt_of_le hb hwrites.grows.blocks_size⟩
  · intro c hc
    obtain ⟨⟨e', he', hvacant⟩, hne, hroom⟩ := h.reserves c hc
    refine ⟨⟨e', (hkeeps ?_ (Module.block_lt he')).trans he', hvacant⟩, ?_, hroom⟩
    · rintro rfl
      refine hroom ?_
      unfold room
      rw [h.func]
      rfl
    · rwa [hposition] at hne
  · exact List.subset_append_left _ _

theorem bindVariable {ty : TypeId} (h : s.Hosts B vars later) (hv : v ∈ vars)
    (hrun : Lower.bindVariable v.name v.place ty false s = .ok ((), s')) :
    s'.Hosts B vars later ∧ s'.module = s.module ∧ s'.pass = s.pass := by
  have hs' : s' = { s with context := { s.context with
      symbols := s.context.symbols.setVariable v.name ⟨v.place, ty, false⟩ } } := by
    cases hrun
    rfl
  subst hs'
  refine ⟨h.evolve hrun (.refl _) rfl rfl rfl h.entry h.rooms h.places ?_
    ⟨h.placed.func, h.placed.position⟩ ?_ h.nodup, rfl, rfl⟩
  · rintro x id hx ⟨binding, hbinding, rfl⟩
    have hget := Table.get?_insert.symm.trans hbinding
    split at hget
    · rename_i hsame
      cases hget
      exact ⟨v, hv, hsame.symm, rfl⟩
    · exact h.binds x _ hx ⟨binding, hget, rfl⟩
  · exact fun c hc => ⟨(h.reserves c hc).isVacant, (h.reserves c hc).position, (h.reserves c hc).room⟩

theorem renders_declareLocal {n : Nat} {t : ScalarType} {ty : TypeId} {var : Name × Option Expr}
    {init : VarInit Node} (h : s.Hosts B vars later) (hat : s.GoesOnAt B b k)
    (hspelled : Stmt.SpelledVar B.scope var init) (hty : s.module.types.get ty = .ok (.int t.bits))
    (hrun : (Recur.within n).declareLocal init ty s = .ok ((), s'))
    (hclean : s'.context.errorCount = 0) :
    s.Renders B vars later b k (fun _ => Run.store var.1 (Expr.initial t var.2)) [(var.1, t)] s' := by
  obtain ⟨x, e⟩ := var
  obtain ⟨rfl, hx, hinit⟩ := hspelled
  obtain ⟨slot, s₁, halloca, hrun⟩ := bind_eq_ok_iff.1 hrun
  obtain ⟨o, s₂, hvalue, hrun⟩ := bind_eq_ok_iff.1 hrun
  obtain ⟨u, s₃, hvalue', hrun⟩ : ∃ u s₃,
      (o.elim (liftM (Build.constZero ty)) pure : Lower ValueId) s₂ = .ok (u, s₃) ∧
        (do Build.store u slot; Lower.bindVariable init.name slot ty false : Lower Unit) s₃ =
          .ok ((), s') := by
    cases o with
    | some v => exact ⟨v, s₂, rfl, hrun⟩
    | none => exact bind_eq_ok_iff.1 hrun
  obtain ⟨⟨⟩, s₄, hstore, hbind⟩ := bind_eq_ok_iff.1 hrun
  have hclean₃ : s₃.context.errorCount = 0 := by
    obtain ⟨m, -, rfl⟩ := build_eq_ok_iff.1 hstore
    cases hbind
    exact hclean
  let v : LocalVar := ⟨init.name, t, slot⟩
  have hv : v ∈ vars ++ [v] := List.mem_append_right _ List.mem_cons_self
  obtain ⟨h₁, hat₁, hemits₁⟩ := h.entryAlloca (v := v) hat hty halloca
  have hty₁ := hemits₁.enlarges.grows.types hty (by simp)
  obtain ⟨b', k', h₃, hat₃, hu, hemits₃⟩ := h₁.initialValue hat₁ hinit hty₁ hvalue hvalue' hclean₃
  obtain ⟨h₄, hat₄, hemits₄⟩ := h₃.store hat₃ hv hu hstore
  obtain ⟨h', hmodule, hpass⟩ := h₄.bindVariable hv hbind
  refine ⟨vars ++ [v], b', k' + 1, h', ⟨hmodule ▸ hat₄.standsAt, hat₄.ne⟩, List.map_append,
    Emits.withPass ((hemits₁.trans (hemits₃.trans hemits₄)).imp ?_) rfl rfl hmodule
      (by rw [hpass])⟩
  rintro A - - ⟨-, hcomputes, hstores⟩
  exact hcomputes.store hstores

/-- Variables of one type are declared one after the other. -/
theorem renders_declareAll {n : Nat} {t : ScalarType} {ty : TypeId} {span : Span}
    {decls : List (Name × Option Expr)} {inits : List (VarInit Node)} {o : Option PUnit}
    (hspelled : List.Forall₂ (Stmt.SpelledVar B.scope) decls inits) (h : s.Hosts B vars later)
    (hat : s.GoesOnAt B b k) (hty : s.module.types.get ty = .ok (.int t.bits))
    (hrun : (forIn inits PUnit.unit fun var _ => do
      liftM ((Recur.within n).declareVariable false ty span var)
      pure (ForInStep.yield PUnit.unit) : Attempt PUnit) s = .ok (o, s'))
    (hclean : s'.context.errorCount = 0) :
    s.Renders B vars later b k (fun _ => Stmt.declareAll t decls)
      (decls.map fun var => (var.1, t)) s' := by
  induction hspelled generalizing s vars b k with
  | nil =>
      cases hrun
      exact h.renders_skip hat
  | @cons var init decls inits hvar _ ih =>
      rw [List.forIn_cons] at hrun
      rcases Attempt.bind_cases hrun with ⟨step, s₁, hfirst, hrest⟩ | ⟨hfirst, -⟩
      · obtain ⟨⟨⟩, _, hfirst, hstep⟩ := Attempt.bind_lift hfirst
        cases hstep
        have hlocal : (Recur.within n).declareLocal init ty s = .ok ((), s₁) := by
          rw [← hfirst]
          refine Eq.symm ((bind_of_ok (func_apply s)).trans ?_)
          rw [h.func]
        have hreports := (Lower.Composed.later (x := (forIn inits PUnit.unit fun var _ => do
          liftM ((Recur.within n).declareVariable false ty span var)
          pure (ForInStep.yield PUnit.unit) : Attempt PUnit).run) hrest).reports
        have hdeclared := h.renders_declareLocal hat hvar hty hlocal (by omega)
        have hgrows : s.module.Grows s₁.module := grows_of_composed hlocal
        exact hdeclared.andThen fun vars₁ b₁ k₁ h₁ hat₁ =>
          ih h₁ hat₁ (hgrows.types hty (by simp)) hrest
      · obtain ⟨⟨⟩, _, -, hstep⟩ := Attempt.bind_lift hfirst
        cases hstep

theorem intType {m : Module} {bits : Nat} {ty : TypeId} (h : s.Hosts B vars later)
    (hat : s.GoesOnAt B b k) (hrun : Build.intType bits s.module = .ok (ty, m)) :
    Hosts { s with module := m } B vars later ∧ GoesOnAt { s with module := m } B b k ∧
      m.types.get ty = .ok (.int bits) ∧
      s.Emits B vars { s with module := m } vars fun _ _ => True := by
  let typed : Lowering := { s with module := m }
  have hpiece : s.module.Piece [b] b k typed.module b k := Build.Silent.piece hrun hat.standsAt
  refine ⟨h.of_same (build_of_ok hrun) (s.same_withModule m) ?_, h.goesOnAt_of_piece hat hpiece, ?_,
    rfl, hpiece.writes.enlarges, List.Subset.refl _, fun _ _ _ => trivial⟩
  · exact h.entry_of_writes hat.ne hpiece.writes
  · cases hrun
    exact Module.get_intern _ _

end Lowering.Hosts

namespace Stmt

variable {B : Body}

theorem lowers_declare (t : ScalarType) (decls : List (Name × Option Expr)) :
    (Stmt.declare t decls).Lowers B := by
  rintro n s s' child vars later b k ⟨node, inits, rfl, hkind, hspelled⟩ h hat hrun hclean
  refine h.renders_node hat hrun hclean fun m res s₁ h hat hlower hclean => ?_
  generalize s.entered node.span = s at h hat hlower
  unfold Recur.lowerKind at hlower
  rw [hkind] at hlower
  obtain ⟨o, hlower⟩ := Attempt.noValue_eq_ok hlower
  unfold Recur.declareVariables at hlower
  obtain ⟨ty, m₁, htype, hlower⟩ := Attempt.bind_build (b := t.prim.lower) hlower
  rw [Lower.lower_prim] at htype
  obtain ⟨h₁, hat₁, hty, hemits₁⟩ := h.intType hat htype
  obtain ⟨_, _, hint, hlower⟩ := Attempt.bind_build hlower
  cases (Build.typeAt_of_ok hty).symm.trans hint
  obtain ⟨_, hlower, -⟩ := Attempt.bind_pure_eq_ok (g := fun _ => ()) hlower
  obtain ⟨vars', b', k', h', hat', hvars, hemits⟩ :=
    h₁.renders_declareAll hspelled hat₁ hty hlower hclean
  exact ⟨vars', b', k', h', hat', hvars, (hemits₁.trans hemits).imp fun _ _ _ hA => hA.2⟩

/-! ### Assignments -/

theorem lowers_assign (op : Option BinaryOp) (x : Name) (e : Expr) :
    (Stmt.assign op x e).Lowers B := by
  rintro n s s' child vars later b k ⟨hop, hx, node, target, value, rfl, hkind, htarget, hspelled⟩
    h hat hrun hclean
  refine h.renders_node hat hrun hclean fun m res s₁ h hat hlower hclean => ?_
  generalize s.entered node.span = s at h hat hlower
  unfold Recur.lowerKind at hlower
  rw [hkind] at hlower
  replace hlower : (Recur.within m).assign op (some target) (some value) node.span s =
    .ok (res, s₁) := hlower
  unfold Recur.assign at hlower
  rcases Attempt.bind_cases hlower with ⟨place, s₂, hrequired, hlower⟩ | ⟨hrequired, -⟩
  case inr =>
    obtain ⟨id, -, hsome, -⟩ := Recur.required_ident htarget h.ready hx hrequired hclean
    cases hsome
  have hfunc : s₂.pass.func = some B.func :=
    (Lower.Composed.later (x := ((Recur.within m).required (some target)).run) hrequired).func.trans
      h.func
  split at hlower
  · have hpos := errorCount_reject hlower
    omega
  obtain ⟨ty, m₂, hty, hlower⟩ := Attempt.bind_build hlower
  rw [Attempt.bind_of_some (show (get : Attempt Lowering) _ = .ok (some _, _) from rfl)] at hlower
  dsimp only at hlower
  rw [hfunc] at hlower
  dsimp only at hlower
  rw [← bind_assoc] at hlower
  have hreports : s₂.context.errorCount ≤ s₁.context.errorCount :=
    (Lower.Composed.later (x := (((do
      let assigned ← (Recur.within m).assignedValue op place (some value) node.span
      Lower.coerce assigned ty node.span : Attempt ValueId) >>= fun converted => do
        Build.store converted place.value
        return place : Attempt Operand)).run) hlower).reports
  obtain ⟨id, hid, hplace, hsame, hmodule⟩ :=
    Recur.required_ident htarget h.ready hx hrequired (by omega)
  cases hplace
  -- The variable.
  obtain ⟨v, hv, rfl, rfl⟩ := h.binds x id hx hid
  have h₂ : s₂.Hosts B vars later :=
    h.of_same (x := ((Recur.within m).required (some target)).run) hrequired hsame (by rw [hmodule])
  have hat₂ : s₂.GoesOnAt B b k := ⟨hmodule ▸ hat.standsAt, hat.ne⟩
  have hplace : s₂.module.IsOperand (.ofPlace v.place) v.ty := (h₂.rooms v hv).isPlace
  obtain ⟨_, hty', hbits⟩ := hplace.ty_run
  cases hty'.symm.trans hty
  -- The value.
  rcases Attempt.bind_cases hlower with ⟨u, s₃, hvalue, hlower⟩ | ⟨hvalue, -⟩
  · obtain ⟨⟨⟩, m₃, hstore, hlower⟩ := Attempt.bind_build hlower
    cases hlower
    obtain ⟨_, b', k', hsome, hoperates⟩ := Recur.operates_assigned hop hx (hsame.binds.2 hid)
      hspelled h₂.ready hat₂.standsAt hbits hvalue hclean
    cases hsome
    obtain ⟨h₃, hat₃, hu, hemits₃⟩ := h₂.of_operates (x := (do
      let assigned ← (Recur.within m).assignedValue op (.ofPlace v.place) (some value) node.span
      Lower.coerce assigned _ node.span : Attempt ValueId).run) hat₂ hvalue hoperates
    obtain ⟨h', hat', hemits'⟩ := h₃.store hat₃ hv hu (build_of_ok hstore)
    refine ⟨vars, b', k' + 1, h', hat', (List.append_nil _).symm,
      Lowering.Emits.withPass ((hemits₃.trans hemits').imp ?_) hmodule (by rw [hsame.pass]) rfl rfl⟩
    rintro A hA - ⟨hcomputes, hstores⟩
    refine (hcomputes.congr fun st p hp => ?_).store hstores
    rw [hp.ty (hA.subset hv)]
    cases e.eval st.values with
    | none => rfl
    | some y => cases hz : Expr.combined op (st.values v.name) y <;> simp [hz]
  · obtain ⟨u, -, -, hsome, -⟩ := Recur.operates_assigned hop hx (hsame.binds.2 hid) hspelled
      h₂.ready hat₂.standsAt hbits hvalue hclean
    cases hsome

/-! ### Returns -/

theorem lowers_leave (e : Expr) : (Stmt.leave e).Lowers B := by
  rintro n s s' child vars later b k ⟨node, value, rfl, hkind, hspelled⟩ h hat hrun hclean
  refine h.renders_node hat hrun hclean fun m res s₁ h hat hlower hclean => ?_
  generalize s.entered node.span = s at h hat hlower
  unfold Recur.lowerKind at hlower
  rw [hkind] at hlower
  obtain ⟨o, hlower⟩ := Attempt.noValue_eq_ok hlower
  unfold Recur.returnFrom at hlower
  rw [Attempt.bind_of_some (show (get : Attempt Lowering) _ = .ok (some _, _) from rfl), h.func,
    Attempt.bind_of_some (show Attempt.ofOption (some B.func) s = .ok (some _, _) from rfl)] at hlower
  obtain ⟨_, _, hty, hlower⟩ := Attempt.bind_build hlower
  cases (Build.typeAt_of_ok h.result).symm.trans hty
  have hreturned : (Recur.within m).returnedValue B.func value node.span = (do
      let v ← (Recur.within m).value (some value)
      Lower.coerce v B.func.ret node.span) := by
    unfold Recur.returnedValue
    rw [B.retRef]
    rfl
  replace hlower : (do
      let v ← (Recur.within m).returnedValue B.func value node.span
      Build.ret (some v)
      Lower.startDeadBlock : Attempt Unit) s = .ok (o, s₁) := hlower
  rw [hreturned] at hlower
  rcases Attempt.bind_cases hlower with ⟨u, s₂, hvalue, hlower⟩ | ⟨hvalue, -⟩
  · obtain ⟨⟨⟩, m₂, hret, hdead⟩ := Attempt.bind_build hlower
    obtain ⟨⟨⟩, hdead, -⟩ := Attempt.lift_eq_ok hdead
    have hreports := (Lower.Composed.later hdead).reports
    obtain ⟨_, b', k', hsome, hoperates⟩ := Recur.operates_coerced hspelled h.ready
      hat.standsAt h.result hvalue (Nat.le_zero.1 (hclean ▸ hreports))
    cases hsome
    obtain ⟨h₂, hat₂, -, hemits₂⟩ := h.of_operates (x := (do
      let v ← (Recur.within m).value (some value)
      Lower.coerce v B.func.ret node.span : Attempt ValueId).run) hat hvalue hoperates
    obtain ⟨h₃, hemits₃⟩ := h₂.ret hat₂ (build_of_ok hret)
    obtain ⟨d, h', hat', hemits'⟩ := h₃.startDeadBlock hdead
    refine ⟨vars, d, 0, h', hat', (List.append_nil _).symm,
      (hemits₂.trans (hemits₃.trans hemits')).imp ?_⟩
    rintro A hA - ⟨hcomputes, hreturns, -⟩ n st p hp hmatches
    refine Point.Simulates.ofOption rfl (hcomputes.ofMap hp hmatches) hmatches
      fun x q _ hpath _ hq hmatches hx => ?_
    obtain ⟨w, hreturns, hw⟩ := hreturns hq hx.2
    rw [hx.1, ← hA.result] at hw
    exact .leave hpath hreturns hw hmatches.output
  · obtain ⟨u, -, -, hsome, -⟩ := Recur.operates_coerced hspelled h.ready hat.standsAt h.result
      hvalue hclean
    cases hsome

end Stmt

end SsaCompiler
