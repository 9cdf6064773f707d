/-
# Integer operands and operators

The built-in operators bring their operands to one type, carry out an operation and answer with
its result. Each is a sequence of requests, and its code is the code of the requests, one behind
the other; the reference does the same in one step.

A lowered expression is an operand: a value, or the place where the value is kept. A variable
lowers to its place without any code, and the value is loaded where it is needed. Nothing is
stored while an expression is evaluated, so the place still holds what it held when the operand
was made.
-/

import SsaCompiler.Proofs.Lower.Later
import SsaCompiler.Proofs.Scalar.Emission

namespace SsaCompiler

namespace Lower

variable {m m' : Module} {b : BlockId} {k : Nat} {ty dest : TypeId} {t t' : ScalarType}
  {v r : ValueId} {origin : ValueDef}

/-! ### Conversions -/

/-- Between two integer types a conversion asks whether the value is zero, fills up a truth
value, or resizes. -/
theorem convert_of_scalars (hv : m.value v = .ok ⟨ty, origin⟩)
    (ht : m.types.get ty = .ok (.int t.bits)) (hdest : m.types.get dest = .ok (.int t'.bits))
    (hne : ty ≠ dest) :
    convert v dest m = (if t' = .bool then do
        let zero ← Build.constInt ty 0
        return some (← Build.icmp .ne v zero)
      else do
        return some (← Build.cast
          (if t = .bool then .zext else if t.bits < t'.bits then .sext else .trunc) v dest) :
        Build (Option ValueId)) m := by
  unfold convert
  rw [bind_of_ok (Build.typeOf_of_ok hv), if_neg hne, bind_of_ok (Build.typeAt_of_ok ht),
    bind_of_ok (Build.typeAt_of_ok hdest)]
  cases t <;> cases t' <;> rfl

theorem cast_self {x : Scalar} {w : Int64} (h : Denotes x.ty.bits w x.value) :
    Scalar.cast x.ty x = x := by
  obtain ⟨ty, value⟩ := x
  have hrange := h.2
  unfold Scalar.cast
  by_cases hbool : ty = .bool
  · subst hbool
    have hmod : value % 2 = value := hrange
    rw [if_pos rfl]
    unfold Scalar.ofBool Scalar.truth
    by_cases hzero : value = 0
    · simp [hzero]
    · simp only [ne_eq, hzero, not_false_eq_true, decide_true, ↓reduceIte, Scalar.mk.injEq, true_and]
      omega
  · rw [if_neg hbool]
    unfold Scalar.wrap
    rw [hrange]

/-- The code of a conversion between integer types. -/
theorem code_convert (hat : m.StandsAt b k) (hv : m.IsScalar v t)
    (hdest : m.types.get dest = .ok (.int t'.bits)) {res : Option ValueId}
    (hrun : convert v dest m = .ok (res, m')) :
    ∃ r k', res = some r ∧ m.Code b k m' b k' r t' fun M p o =>
      ∃ x : Scalar, x.ty = t ∧ p.Carries M v x ∧ o = some (x.cast t') := by
  obtain ⟨⟨ty, origin⟩, hvalue, ht⟩ := hv
  by_cases hsame : ty = dest
  · subst hsame
    have hself : convert v ty m = .ok (some v, m) := by
      unfold convert
      rw [bind_of_ok (Build.typeOf_of_ok hvalue), if_pos rfl]
      rfl
    cases hself.symm.trans hrun
    have hbits := IrType.int.inj (Except.ok.inj (ht.symm.trans hdest))
    obtain rfl := ScalarType.bits_injective hbits
    refine ⟨v, k, rfl, .refl _ hat, ⟨_, hvalue, ht⟩, ?_⟩
    rintro M hgrows call name p o hb hk ⟨x, rfl, ⟨w, hw, hdenotes⟩, rfl⟩
    rw [cast_self hdenotes]
    exact Point.Yields.pure hb hk ⟨rfl, w, hw, hdenotes⟩
  · rw [convert_of_scalars hvalue ht hdest hsame] at hrun
    split at hrun
    case isTrue hbool =>
      subst hbool
      obtain ⟨zero, m₁, hzero, hrun⟩ := bind_eq_ok_iff.1 hrun
      obtain ⟨r, m₂, hicmp, hrun⟩ := bind_eq_ok_iff.1 hrun
      cases hrun
      have hcode := Build.code_constInt hat ht hzero
      have hgrows := hcode.piece.writes.grows
      have hv₁ : m₁.IsScalar v t := ⟨_, hgrows.values hvalue, hgrows.types ht (by simp)⟩
      obtain ⟨k', hcode'⟩ := Build.code_icmp hcode.piece.stop hv₁ hcode.value hicmp
      refine ⟨r, k', rfl, (hcode.bind hcode').imp ?_⟩
      rintro M p o hM ⟨x, hx, ⟨w, hw, hdenotes⟩, rfl⟩
      refine ⟨_, fun _ => some (x.cast .bool), rfl, rfl, ?_⟩
      rintro z q hz hkeeps ⟨wz, hwz, hzero⟩
      refine ⟨w, wz, hkeeps.holds (.inl (Module.value_lt hvalue)) hw, hwz, ?_⟩
      -- Zero is zero at every width.
      have hz0 : z.value = 0 := by
        rw [← Option.some.inj hz]
        exact wrapTo_zero _
      have hne : IntPredicate.ne.holds w wz = x.truth := by
        rw [hz0] at hzero
        exact holds_eq_compares (show BinaryOp.ne.intPredicate? = some .ne from rfl) hdenotes.1
          hzero.1
      rw [hne]
      rfl
    case isFalse hbool =>
      obtain ⟨r, m₁, hcast, hrun⟩ := bind_eq_ok_iff.1 hrun
      cases hrun
      have hop : Build.Resizes
          (if t = .bool then .zext else if t.bits < t'.bits then .sext else .trunc) t := by
        unfold Build.Resizes
        by_cases hsource : t = .bool
        · simp [hsource]
        · by_cases hwider : t.bits < t'.bits
          · simp [hsource, hwider]
          · simp [hsource, hwider]
      obtain ⟨k', hcode⟩ := Build.code_cast hat hop ⟨_, hvalue, ht⟩ hdest hcast
      refine ⟨r, k', rfl, hcode.imp ?_⟩
      rintro M p o hM ⟨x, hx, hcarries, rfl⟩
      refine ⟨x, hx, hcarries, ?_⟩
      unfold Scalar.cast
      rw [if_neg hbool]

/-! ### Two operands of one type -/

/-- An integer of a type is one of every wider type. -/
theorem cast_of_le {x : Scalar} {w : Int64} (h : Denotes x.ty.bits w x.value)
    (hle : x.ty.bits ≤ t.bits) : x.cast t = ⟨t, x.value⟩ := by
  by_cases hsame : x.ty = t
  · subst hsame
    exact cast_self h
  · have hrange := h.2
    have hwrap : wrapTo t.bits x.value = x.value := by
      unfold wrapTo at hrange ⊢
      cases hx : x.ty <;> cases t <;> simp_all [ScalarType.bits, Int.bmod_def] <;> omega
    have hbool : t ≠ .bool := by
      rintro rfl
      apply hsame
      apply ScalarType.bits_injective
      have hpos := x.ty.bits_pos
      have hone : x.ty.bits ≤ 1 := hle
      change x.ty.bits = 1
      omega
    unfold Scalar.cast Scalar.wrap
    rw [if_neg hbool, hwrap]

/-- Two integers are brought to the wider of their types. -/
theorem unify_run {l r l' r' : ValueId} (hat : m.StandsAt b k) (hl : m.IsScalar l t)
    (hr : m.IsScalar r t') (hrun : unifyNumeric l r m = .ok ((l', r'), m')) :
    ∃ k', m.Piece [b] b k m' b k' ∧ m'.IsScalar l' (t.wider t') ∧ m'.IsScalar r' (t.wider t') ∧
      ∀ {M}, m'.Grows M → ∀ {call name} {p : Point} {x y : Scalar}, p.block = b → p.next = k →
        x.ty = t → y.ty = t' → p.Carries M l x → p.Carries M r y →
        p.Yields M call name m.values.size b k' (some ()) fun _ q =>
          q.Carries M l' ⟨t.wider t', x.value⟩ ∧ q.Carries M r' ⟨t.wider t', y.value⟩ := by
  obtain ⟨⟨ty, lo⟩, hlv, hlt⟩ := hl
  obtain ⟨⟨ty', ro⟩, hrv, hrt⟩ := hr
  unfold unifyNumeric at hrun
  rw [bind_of_ok (Build.typeOf_of_ok hlv), bind_of_ok (Build.typeOf_of_ok hrv)] at hrun
  by_cases hsame : ty = ty'
  · subst hsame
    rw [if_pos rfl] at hrun
    cases hrun
    have hbits := IrType.int.inj (Except.ok.inj (hlt.symm.trans hrt))
    obtain rfl := ScalarType.bits_injective hbits
    have hwider : t.wider t = t := if_pos (Nat.le_refl _)
    rw [hwider]
    refine ⟨k, .refl _ hat, ⟨_, hlv, hlt⟩, ⟨_, hrv, hrt⟩, ?_⟩
    rintro M hgrows call name p x y hb hk rfl hy hx' hy'
    refine Point.Yields.pure hb hk ⟨hx', ?_⟩
    rw [← hy]
    exact hy'
  · rw [if_neg hsame] at hrun
    obtain ⟨target, m₁, htarget, hrun⟩ := bind_eq_ok_iff.1 hrun
    obtain ⟨res, m₂, hconvert, hrun⟩ := bind_eq_ok_iff.1 hrun
    obtain ⟨res', m₃, hconvert', hrun⟩ := bind_eq_ok_iff.1 hrun
    cases hrun
    have hcommon : commonType ty ty' m = .ok (if t.bits ≥ t'.bits then ty else ty', m) := by
      unfold commonType
      rw [bind_of_ok (Build.typeAt_of_ok hlt), bind_of_ok (Build.typeAt_of_ok hrt)]
      rfl
    cases hcommon.symm.trans htarget
    have hdest : m.types.get (if t.bits ≥ t'.bits then ty else ty') =
        .ok (.int (t.wider t').bits) := by
      unfold ScalarType.wider
      by_cases hle : t'.bits ≤ t.bits
      · rw [if_pos hle, if_pos hle, hlt]
      · rw [if_neg hle, if_neg hle, hrt]
    obtain ⟨l₁, k₁, rfl, hcode⟩ := code_convert hat ⟨_, hlv, hlt⟩ hdest hconvert
    have hgrows := hcode.piece.writes.grows
    obtain ⟨r₁, k₂, rfl, hcode'⟩ := code_convert hcode.piece.stop
      ⟨_, hgrows.values hrv, hgrows.types hrt (by simp)⟩ (hgrows.types hdest (by simp)) hconvert'
    have hgrows' := hcode'.piece.writes.grows
    refine ⟨k₂, hcode.piece.trans hcode'.piece, hcode.value.mono hgrows', hcode'.value, ?_⟩
    rintro M hM call name p x y hb hk rfl rfl hx hy
    obtain ⟨w, hw, hxw⟩ := hx
    obtain ⟨w', hw', hyw⟩ := hy
    have hlex : x.ty.bits ≤ (x.ty.wider y.ty).bits := by
      unfold ScalarType.wider
      split <;> omega
    have hley : y.ty.bits ≤ (x.ty.wider y.ty).bits := by
      unfold ScalarType.wider
      split <;> omega
    have hfirst : p.Yields M call name m.values.size b k₁ (some (x.cast (x.ty.wider y.ty))) _ :=
      hcode.runs (hgrows'.trans hM) hb hk ⟨x, rfl, ⟨w, hw, hxw⟩, rfl⟩
    change p.Yields M call name m.values.size b k₂
      ((some (x.cast (x.ty.wider y.ty))).bind fun _ => some ()) _
    refine hfirst.bind hgrows.values_size ?_
    rintro z q hz hkeeps hqb hqk ⟨-, hl⟩
    obtain rfl := Option.some.inj hz
    have hsecond : q.Yields M call name m₂.values.size b k₂ (some (y.cast (x.ty.wider y.ty))) _ :=
      hcode'.runs hM hqb hqk
        ⟨y, rfl, ⟨w', hkeeps.holds (.inl (Module.value_lt hrv)) hw', hyw⟩, rfl⟩
    obtain ⟨s, hpath, hkeeps', hsb, hsk, -, hr⟩ := hsecond
    obtain ⟨d, hd, -⟩ := hcode.value
    rw [cast_of_le hxw hlex] at hl
    rw [cast_of_le hyw hley] at hr
    exact ⟨s, hpath, hkeeps', hsb, hsk, hl.keeps hkeeps' (Module.value_lt hd), hr⟩

end Lower

/-- An operand is an integer of a type, or the place of one. -/
def Module.IsOperand (m : Module) (op : Operand) (t : ScalarType) : Prop :=
  match op with
  | ⟨v, false⟩ => m.IsScalar v t
  | ⟨v, true⟩ => ∃ ty, m.IsPlace v ty t

/-- At a point an operand stands for an integer. -/
def Point.Shows (m : Module) (p : Point) (op : Operand) (x : Scalar) : Prop :=
  match op with
  | ⟨v, false⟩ => p.Carries m v x
  | ⟨v, true⟩ => ∃ ty, m.IsPlace v ty x.ty ∧ p.Stores m v ty x

section Operands

variable {m M : Module} {p q : Point} {op : Operand} {t : ScalarType} {x : Scalar} {low : Nat}

/-- The place of an integer stays one. -/
theorem Module.IsPlace.mono {v : ValueId} {ty : TypeId} (h : m.IsPlace v ty t)
    (hgrows : m.Grows M) : M.IsPlace v ty t := by
  obtain ⟨d, hd, hpointer, ht⟩ := h
  exact ⟨d, hgrows.values hd, hgrows.types hpointer (by simp), hgrows.types ht (by simp)⟩

/-- A place has one type. -/
theorem Module.IsPlace.unique {v : ValueId} {ty ty' : TypeId} {t' : ScalarType}
    (h : m.IsPlace v ty t) (h' : m.IsPlace v ty' t') : ty = ty' ∧ t = t' := by
  obtain ⟨d, hd, hpointer, ht⟩ := h
  obtain ⟨d', hd', hpointer', ht'⟩ := h'
  cases hd.symm.trans hd'
  cases hpointer.symm.trans hpointer'
  have hbits := IrType.int.inj (Except.ok.inj (ht.symm.trans ht'))
  exact ⟨rfl, ScalarType.bits_injective hbits⟩

theorem Module.IsOperand.mono (h : m.IsOperand op t) (hgrows : m.Grows M) : M.IsOperand op t := by
  obtain ⟨v, isPlace⟩ := op
  cases isPlace with
  | false => exact Module.IsScalar.mono h hgrows
  | true =>
      obtain ⟨ty, h⟩ := h
      exact ⟨ty, h.mono hgrows⟩

/-- What an operand stands for is there. -/
theorem Module.IsOperand.value_lt (h : m.IsOperand op t) : op.value.index < m.values.size := by
  obtain ⟨v, isPlace⟩ := op
  cases isPlace with
  | false =>
      obtain ⟨d, hd, -⟩ := h
      exact Module.value_lt hd
  | true =>
      obtain ⟨ty, d, hd, -⟩ := h
      exact Module.value_lt hd

theorem Module.IsOperand.ty_run (h : m.IsOperand op t) :
    ∃ ty, op.ty m = .ok (ty, m) ∧ m.types.get ty = .ok (.int t.bits) := by
  obtain ⟨v, isPlace⟩ := op
  cases isPlace with
  | false =>
      obtain ⟨d, hd, ht⟩ := h
      exact ⟨d.ty, bind_of_ok (Build.typeOf_of_ok hd), ht⟩
  | true =>
      obtain ⟨ty, d, hd, hpointer, ht⟩ := h
      have hpointee : Lower.pointee? d.ty m = .ok (some ty, m) :=
        bind_of_ok (Build.typeAt_of_ok hpointer)
      refine ⟨ty, (bind_of_ok (Build.typeOf_of_ok hd)).trans ?_, ht⟩
      exact bind_of_ok hpointee

/-- What a place holds is the same after code that stores nothing. -/
theorem Point.Stores.keeps {v : ValueId} {ty : TypeId} (h : p.Stores M v ty x)
    (hkeeps : p.Keeps M low q) (hlow : v.index < low ∨ M.IsRoom v) : q.Stores M v ty x := by
  obtain ⟨a, w, ha, hread, hw⟩ := h
  refine ⟨a, w, hkeeps.holds hlow ha, ?_, hw⟩
  rw [hkeeps.memory]
  exact hread

/-- An older operand keeps what it stands for. -/
theorem Point.Shows.keeps (h : p.Shows M op x) (hkeeps : p.Keeps M low q)
    (hlow : op.value.index < low) : q.Shows M op x := by
  obtain ⟨v, isPlace⟩ := op
  cases isPlace with
  | false => exact Point.Carries.keeps h hkeeps hlow
  | true =>
      obtain ⟨ty, hplace, hstores⟩ := h
      exact ⟨ty, hplace, hstores.keeps hkeeps (.inl hlow)⟩

end Operands

namespace Lower

variable {s s' : Lowering} {b : BlockId} {k : Nat} {op : Operand} {t : ScalarType}

/-! ### Loading -/

/-- The code that loads an operand. -/
theorem code_operandLoad {f : FunctionState} (hfunc : s.pass.func = some f)
    (hat : s.module.StandsAt b k) (hop : s.module.IsOperand op t) {v : ValueId}
    (hrun : op.load s = .ok (v, s')) :
    ∃ m' k', s' = { s with module := m' } ∧ s.module.Code b k m' b k' v t fun M p o =>
      ∃ x : Scalar, x.ty = t ∧ p.Shows M op x ∧ o = some x := by
  obtain ⟨u, isPlace⟩ := op
  cases isPlace with
  | false =>
      cases hrun
      refine ⟨s.module, k, rfl, .refl _ hat, hop, ?_⟩
      rintro M hgrows call name p o hb hk ⟨x, rfl, hx, rfl⟩
      exact Point.Yields.pure hb hk ⟨rfl, hx⟩
  | true =>
      obtain ⟨ty, hplace⟩ := hop
      have hload : (liftM (Build.load u) : Lower ValueId) s = .ok (v, s') := by
        refine Eq.trans ?_ hrun
        refine Eq.symm (bind_of_ok (func_apply s) |>.trans ?_)
        rw [hfunc]
      obtain ⟨m', hbuild, rfl⟩ := build_eq_ok_iff.1 hload
      obtain ⟨k', hcode⟩ := Build.code_load hat hplace hbuild
      refine ⟨m', k', rfl, hcode.imp ?_⟩
      rintro M p o hgrows ⟨x, rfl, ⟨ty', hplace', hstores⟩, rfl⟩
      have hplace := hplace.mono (hcode.piece.writes.grows.trans hgrows)
      obtain ⟨rfl, -⟩ := hplace.unique hplace'
      exact ⟨x, rfl, hstores, rfl⟩

/-! ### Operators between integers -/

/-- An operator between integers is an operation or a comparison. -/
theorem isScalar_cases {op : BinaryOp} (hop : op.isScalar = true) :
    (∃ bop, op.intOp? = some bop ∧ bop.isFloat = false ∧ op.isComparison = false) ∨
      ∃ pred, op.intOp? = none ∧ op.intPredicate? = some pred ∧ op.isComparison = true := by
  cases op <;> first | exact .inl ⟨_, rfl, rfl, rfl⟩ | exact .inr ⟨_, rfl, rfl, rfl⟩ | cases hop

variable {l r : ValueId} {t' : ScalarType} {span : Span}

/-- The code of an operator on two integers of one type. -/
theorem code_intBinary {op : BinaryOp} (hop : op.isScalar = true) (hat : s.module.StandsAt b k)
    (hl : s.module.IsScalar l t) (hr : s.module.IsScalar r t) {res : Option ValueId}
    (hrun : intBinary op l r span s = .ok (res, s')) :
    ∃ v m' k', res = some v ∧ s' = { s with module := m' } ∧
      s.module.Code b k m' b k' v (if op.isComparison then .bool else t) fun M p o =>
        ∃ x y, p.Carries M l ⟨t, x⟩ ∧ p.Carries M r ⟨t, y⟩ ∧
          o = Scalar.binary op ⟨t, x⟩ ⟨t, y⟩ := by
  have hwider : t.wider t = t := if_pos (Nat.le_refl _)
  unfold intBinary at hrun
  rcases isScalar_cases hop with ⟨bop, hbop, hfloat, hcompare⟩ | ⟨pred, hnone, hpred, hcompare⟩
  · rw [hbop] at hrun
    obtain ⟨v, m', hbinary, rfl, rfl⟩ := Attempt.build_eq_ok hrun
    obtain ⟨k', hcode⟩ := Build.code_binary hat hfloat hl hr hbinary
    rw [hcompare]
    refine ⟨v, m', k', rfl, rfl, hcode.imp ?_⟩
    rintro M p o - ⟨x, y, ⟨a, ha, hax⟩, ⟨c, hc, hcy⟩, rfl⟩
    refine ⟨a, c, ha, hc, ?_⟩
    rw [evalInt_map_mk hbop hax hcy]
    unfold Scalar.binary
    rw [hcompare, hwider]
    rfl
  · rw [hnone, hpred] at hrun
    obtain ⟨v, m', hicmp, rfl, rfl⟩ := Attempt.build_eq_ok hrun
    obtain ⟨k', hcode⟩ := Build.code_icmp hat hl hr hicmp
    rw [hcompare]
    refine ⟨v, m', k', rfl, rfl, hcode.imp ?_⟩
    rintro M p o - ⟨x, y, ⟨a, ha, hax⟩, ⟨c, hc, hcy⟩, rfl⟩
    refine ⟨a, c, ha, hc, ?_⟩
    rw [holds_eq_compares hpred hax.1 hcy.1]
    unfold Scalar.binary
    rw [hcompare]
    rfl

/-- The code of an operator on two integers, which are first brought to one type. -/
theorem code_builtinBinary {op : BinaryOp} (hop : op.isScalar = true)
    (hat : s.module.StandsAt b k) (hl : s.module.IsScalar l t) (hr : s.module.IsScalar r t')
    {res : Option ValueId} (hrun : builtinBinary op l r span s = .ok (res, s')) :
    ∃ v m' k', res = some v ∧ s' = { s with module := m' } ∧
      s.module.Code b k m' b k' v (if op.isComparison then .bool else t.wider t') fun M p o =>
        ∃ x y : Scalar, x.ty = t ∧ y.ty = t' ∧ p.Carries M l x ∧ p.Carries M r y ∧
          o = Scalar.binary op x y := by
  have hl' := hl
  have hr' := hr
  obtain ⟨dl, hdl, hlt⟩ := hl
  obtain ⟨dr, hdr, hrt⟩ := hr
  unfold builtinBinary at hrun
  obtain ⟨_, _, hty, hrun⟩ := Attempt.bind_build hrun
  cases (Build.typeOf_of_ok hdl).symm.trans hty
  obtain ⟨_, _, hty, hrun⟩ := Attempt.bind_build hrun
  cases (Build.typeOf_of_ok hdr).symm.trans hty
  obtain ⟨_, _, hkind, hrun⟩ := Attempt.bind_build hrun
  cases (Build.typeAt_of_ok hlt).symm.trans hkind
  obtain ⟨_, _, hkind, hrun⟩ := Attempt.bind_build hrun
  cases (Build.typeAt_of_ok hrt).symm.trans hkind
  obtain ⟨⟨l₁, r₁⟩, m₁, hunify, hrun⟩ := Attempt.bind_build hrun
  obtain ⟨k₁, hpiece, hl₁, hr₁, hunified⟩ := unify_run hat hl' hr' hunify
  obtain ⟨v, m', k', rfl, rfl, hcode⟩ := code_intBinary hop hpiece.stop hl₁ hr₁ hrun
  refine ⟨v, m', k', rfl, rfl, hpiece.trans hcode.piece, hcode.value, ?_⟩
  rintro M hM call name p o hb hk ⟨x, y, hx, hy, hcx, hcy, rfl⟩
  have hgrows := hcode.piece.writes.grows
  have hsame : Scalar.binary op x y =
      Scalar.binary op ⟨t.wider t', x.value⟩ ⟨t.wider t', y.value⟩ := by
    have hwider : (t.wider t').wider (t.wider t') = t.wider t' := if_pos (Nat.le_refl _)
    unfold Scalar.binary
    rw [hx, hy, hwider]
  rw [hsame]
  change p.Yields M call name s.module.values.size b k' ((some ()).bind fun _ => _) _
  refine (hunified (hgrows.trans hM) hb hk hx hy hcx hcy).bind
    hpiece.writes.grows.values_size ?_
  rintro - q - hkeeps hqb hqk ⟨hlq, hrq⟩
  exact hcode.runs hM hqb hqk ⟨x.value, y.value, hlq, hrq, rfl⟩

/-- Without operators of the program every operator has its built-in meaning. -/
theorem findOperator_run (hempty : s.context.operators.size = 0) (key : OperatorKey)
    (span : Span) : findOperator key span s = .ok (some none, s) := by
  unfold findOperator
  rw [Attempt.bind_of_some (show (get : Attempt Lowering) s = .ok (some s, s) from rfl)]
  rw [if_pos hempty]
  rfl

/-- The code of an operator on two operands. -/
theorem code_applyBinary {op : BinaryOp} {lop rop : Operand} {f : FunctionState}
    (hop : op.isScalar = true) (hfunc : s.pass.func = some f)
    (hempty : s.context.operators.size = 0) (hat : s.module.StandsAt b k)
    (hl : s.module.IsOperand lop t) (hr : s.module.IsOperand rop t') {res : Option Operand}
    (hrun : applyBinary op lop rop span s = .ok (res, s')) :
    ∃ v m' k', res = some (.ofValue v) ∧ s' = { s with module := m' } ∧
      s.module.Code b k m' b k' v (if op.isComparison then .bool else t.wider t') fun M p o =>
        ∃ x y : Scalar, x.ty = t ∧ y.ty = t' ∧ p.Shows M lop x ∧ p.Shows M rop y ∧
          o = Scalar.binary op x y := by
  unfold applyBinary at hrun
  obtain ⟨lty, hlty, -⟩ := hl.ty_run
  obtain ⟨rty, hrty, -⟩ := hr.ty_run
  obtain ⟨_, _, hty, hrun⟩ := Attempt.bind_build hrun
  cases hlty.symm.trans hty
  obtain ⟨_, _, hty, hrun⟩ := Attempt.bind_build hrun
  cases hrty.symm.trans hty
  rw [Attempt.bind_of_some (findOperator_run hempty _ _)] at hrun
  obtain ⟨lv, s₁, hload, hrun⟩ := Attempt.bind_lift hrun
  obtain ⟨m₁, k₁, rfl, hcode₁⟩ := code_operandLoad hfunc hat hl hload
  obtain ⟨rv, s₂, hload, hrun⟩ := Attempt.bind_lift hrun
  obtain ⟨m₂, k₂, rfl, hcode₂⟩ := code_operandLoad (s := { s with module := m₁ }) hfunc
    hcode₁.piece.stop (hr.mono hcode₁.piece.writes.grows) hload
  have hlv := hcode₁.value.mono hcode₂.piece.writes.grows
  obtain ⟨ov, hbuiltin, rfl⟩ :=
    Attempt.bind_pure_eq_ok (x := builtinBinary op lv rv span) hrun
  obtain ⟨v, m', k', rfl, rfl, hcode⟩ := code_builtinBinary (s := { s with module := m₂ }) hop
    hcode₂.piece.stop hlv hcode₂.value hbuiltin
  refine ⟨v, m', k', rfl, rfl, (hcode₁.bind (hcode₂.bind hcode)).imp ?_⟩
  rintro M p o hM ⟨x, y, hx, hy, hshowx, hshowy, rfl⟩
  refine ⟨some x, fun _ => Scalar.binary op x y, ⟨x, hx, hshowx, rfl⟩, rfl, ?_⟩
  intro x' q hx' hkeeps hcarries
  cases hx'
  refine ⟨some y, fun _ => Scalar.binary op x y,
    ⟨y, hy, hshowy.keeps hkeeps hr.value_lt, rfl⟩, rfl, ?_⟩
  intro y' q' hy' hkeeps' hcarries'
  cases hy'
  obtain ⟨d, hd, -⟩ := hcode₁.value
  exact ⟨x, y, hx, hy, hcarries.keeps hkeeps' (Module.value_lt hd), hcarries', rfl⟩

/-! ### Truth values -/

/-- The code that asks whether an integer is zero. -/
theorem code_toBool {v : ValueId} (hat : s.module.StandsAt b k) (hv : s.module.IsScalar v t)
    {res : Option ValueId} (hrun : toBool v span s = .ok (res, s')) :
    ∃ u m' k', res = some u ∧ s' = { s with module := m' } ∧
      s.module.Code b k m' b k' u .bool fun M p o =>
        ∃ x : Scalar, x.ty = t ∧ p.Carries M v x ∧ o = some (.ofBool x.truth) := by
  have hv' := hv
  obtain ⟨d, hd, ht⟩ := hv
  unfold Lower.toBool at hrun
  obtain ⟨_, _, hty, hrun⟩ := Attempt.bind_build hrun
  cases (Build.typeOf_of_ok hd).symm.trans hty
  obtain ⟨_, m₁, hintern, hrun⟩ := Attempt.bind_build hrun
  cases hintern
  have hpiece := Module.piece_withType hat (.int 1)
  have hv₁ : (s.module.withType (.int 1)).IsScalar v t := hv'.mono hpiece.writes.grows
  obtain ⟨_, _, hkind, hrun⟩ := Attempt.bind_build hrun
  cases (Build.typeAt_of_ok (hpiece.writes.grows.types ht (by simp))).symm.trans hkind
  obtain ⟨_, m₂, hconvert, hrun⟩ := Attempt.bind_build hrun
  have hdest : (s.module.withType (.int 1)).types.get (s.module.types.intern (.int 1)).1 =
      .ok (.int ScalarType.bool.bits) := Module.get_intern _ _
  obtain ⟨u, k', rfl, hcode⟩ := code_convert hpiece.stop hv₁ hdest hconvert
  cases hrun
  refine ⟨u, m₂, k', rfl, rfl, hpiece.trans hcode.piece, hcode.value, ?_⟩
  rintro M hM call name p o hb hk ⟨x, hx, hcarries, rfl⟩
  exact hcode.runs hM hb hk ⟨x, hx, hcarries, rfl⟩

/-! ### Operators in front of integers -/

theorem errorCount_reject {α : Type} {kind : DiagnosticKind} {message : String}
    {res : Option α} (hrun : (Attempt.reject kind message span : Attempt α) s = .ok (res, s')) :
    0 < s'.context.errorCount := by
  obtain ⟨⟨⟩, s₁, hreport, hrun⟩ := Attempt.bind_lift hrun
  cases hreport
  cases hrun
  exact s.context.diagnostics.errorCount_push_pos _

theorem code_negate {f : FunctionState} {inner : Operand} {ty : TypeId}
    (hfunc : s.pass.func = some f) (hat : s.module.StandsAt b k)
    (hop : s.module.IsOperand inner t) (ht : s.module.types.get ty = .ok (.int t.bits))
    {res : Option ValueId} (hrun : negate inner ty span s = .ok (res, s'))
    (hclean : s'.context.errorCount = 0) :
    ∃ v m' k', res = some v ∧ s' = { s with module := m' } ∧
      s.module.Code b k m' b k' v t fun M p o =>
        ∃ x : Scalar, x.ty = t ∧ p.Shows M inner x ∧ o = some (Scalar.unary .neg x) := by
  unfold negate at hrun
  obtain ⟨v, s₁, hload, hrun⟩ := Attempt.bind_lift hrun
  obtain ⟨m₁, k₁, rfl, hcode₁⟩ := code_operandLoad hfunc hat hop hload
  have ht₁ : m₁.types.get ty = .ok (.int t.bits) :=
    hcode₁.piece.writes.grows.types ht (by simp)
  obtain ⟨_, _, hkind, hrun⟩ := Attempt.bind_build hrun
  cases (Build.typeAt_of_ok ht₁).symm.trans hkind
  by_cases hbits : t.bits > 1
  · simp only [hbits, ↓reduceIte] at hrun
    obtain ⟨zero, m₂, hzero, hrun⟩ := Attempt.bind_build hrun
    have hcode₂ := Build.code_constInt hcode₁.piece.stop ht₁ hzero
    obtain ⟨u, m₃, hbinary, rfl, rfl⟩ := Attempt.build_eq_ok hrun
    obtain ⟨k₃, hcode₃⟩ := Build.code_binary hcode₂.piece.stop rfl hcode₂.value
      (hcode₁.value.mono hcode₂.piece.writes.grows) hbinary
    refine ⟨u, m₃, k₃, rfl, rfl, (hcode₁.bind (hcode₂.bind hcode₃)).imp ?_⟩
    rintro M p o hM ⟨x, rfl, hshow, rfl⟩
    refine ⟨some x, fun _ => some (Scalar.unary .neg x), ⟨x, rfl, hshow, rfl⟩, rfl, ?_⟩
    rintro x' q hx' hkeeps ⟨w, hw, hwx⟩
    cases hx'
    refine ⟨_, fun _ => some (Scalar.unary .neg x), rfl, rfl, ?_⟩
    rintro z q' hz hkeeps' ⟨wz, hwz, hzx⟩
    cases hz
    obtain ⟨d, hd, -⟩ := hcode₁.value
    refine ⟨wz, w, hwz, hkeeps'.holds (.inl (Module.value_lt hd)) hw, ?_⟩
    have hzero : Denotes x.ty.bits wz 0 := by
      have hvalue : (Scalar.wrap x.ty (0 : Int64).toInt).value = 0 := wrapTo_zero _
      rw [← hvalue]
      exact hzx
    rw [evalInt_map_mk (show BinaryOp.sub.intOp? = some .sub from rfl) hzero hwx]
    simp [Scalar.arithmetic, Scalar.unary]
  · -- Truth values have no negative.
    simp only [hbits, ↓reduceIte] at hrun
    unfold rejectOperand at hrun
    obtain ⟨found, s₂, hfound, hrun⟩ := Attempt.bind_lift hrun
    have hpos := errorCount_reject hrun
    omega

/-- The code of a logical negation. -/
theorem code_negateTruth {f : FunctionState} {inner : Operand} (hfunc : s.pass.func = some f)
    (hat : s.module.StandsAt b k) (hop : s.module.IsOperand inner t) {res : Option ValueId}
    (hrun : negateTruth inner span s = .ok (res, s')) :
    ∃ v m' k', res = some v ∧ s' = { s with module := m' } ∧
      s.module.Code b k m' b k' v .bool fun M p o =>
        ∃ x : Scalar, x.ty = t ∧ p.Shows M inner x ∧ o = some (Scalar.unary .not x) := by
  unfold negateTruth at hrun
  obtain ⟨v, s₁, hload, hrun⟩ := Attempt.bind_lift hrun
  obtain ⟨m₁, k₁, rfl, hcode₁⟩ := code_operandLoad hfunc hat hop hload
  obtain ⟨truth, s₂, htruth, hrun⟩ | ⟨htruth, -⟩ := Attempt.bind_cases hrun
  · obtain ⟨u, m₂, k₂, hu, rfl, hcode₂⟩ := code_toBool (s := { s with module := m₁ })
      hcode₁.piece.stop hcode₁.value htruth
    cases hu
    obtain ⟨_, m₃, hintern, hrun⟩ := Attempt.bind_build hrun
    cases hintern
    have hpiece := Module.piece_withType hcode₂.piece.stop (.int 1)
    have hbool : (m₂.withType (.int 1)).types.get (m₂.types.intern (.int 1)).1 =
        .ok (.int ScalarType.bool.bits) := Module.get_intern _ _
    obtain ⟨one, m₃, hone, hrun⟩ := Attempt.bind_build hrun
    have hcode₃ := Build.code_constInt hpiece.stop hbool hone
    obtain ⟨u, m₄, hbinary, rfl, rfl⟩ := Attempt.build_eq_ok hrun
    have hgrows := hpiece.writes.grows.trans hcode₃.piece.writes.grows
    obtain ⟨k₄, hcode₄⟩ := Build.code_binary hcode₃.piece.stop rfl (hcode₂.value.mono hgrows)
      hcode₃.value hbinary
    have hcode₃ := hcode₃.ofWithType hcode₂.piece.stop
    refine ⟨_, m₄, k₄, rfl, rfl, (hcode₁.bind (hcode₂.bind (hcode₃.bind hcode₄))).imp ?_⟩
    rintro M p o hM ⟨x, rfl, hshow, rfl⟩
    refine ⟨some x, fun _ => some (Scalar.unary .not x), ⟨x, rfl, hshow, rfl⟩, rfl, ?_⟩
    intro x' q hx' hkeeps hcarries
    cases hx'
    refine ⟨_, fun _ => some (Scalar.unary .not x), ⟨x, rfl, hcarries, rfl⟩, rfl, ?_⟩
    rintro y q' hy hkeeps' ⟨w, hw, hwx⟩
    cases hy
    refine ⟨_, fun _ => some (Scalar.unary .not x), rfl, rfl, ?_⟩
    rintro z q'' hz hkeeps'' ⟨wz, hwz, hzx⟩
    cases hz
    obtain ⟨d, hd, -⟩ := hcode₂.value
    refine ⟨w, wz, hkeeps''.holds (.inl (Module.value_lt hd)) hw, hwz, ?_⟩
    have htruth : Denotes ScalarType.bool.bits w (Scalar.ofBool x.truth).value := hwx
    have hone : Denotes ScalarType.bool.bits wz (Scalar.wrap .bool 1).value := hzx
    rw [evalInt_map_mk (show BinaryOp.bitXor.intOp? = some .xor from rfl) htruth hone]
    simp only [Scalar.unary]
    cases x.truth <;> rfl
  · obtain ⟨u, m₂, k₂, hu, -⟩ := code_toBool (s := { s with module := m₁ })
      hcode₁.piece.stop hcode₁.value htruth
    cases hu

/-- The code of a negation of every bit. -/
theorem code_negateBits {f : FunctionState} {inner : Operand} {ty : TypeId}
    (hfunc : s.pass.func = some f) (hat : s.module.StandsAt b k)
    (hop : s.module.IsOperand inner t) (ht : s.module.types.get ty = .ok (.int t.bits))
    {res : Option ValueId} (hrun : negateBits inner ty span s = .ok (res, s')) :
    ∃ v m' k', res = some v ∧ s' = { s with module := m' } ∧
      s.module.Code b k m' b k' v t fun M p o =>
        ∃ x : Scalar, x.ty = t ∧ p.Shows M inner x ∧ o = some (Scalar.unary .bitNot x) := by
  unfold negateBits at hrun
  obtain ⟨v, s₁, hload, hrun⟩ := Attempt.bind_lift hrun
  obtain ⟨m₁, k₁, rfl, hcode₁⟩ := code_operandLoad hfunc hat hop hload
  have ht₁ : m₁.types.get ty = .ok (.int t.bits) :=
    hcode₁.piece.writes.grows.types ht (by simp)
  obtain ⟨_, _, hkind, hrun⟩ := Attempt.bind_build hrun
  cases (Build.typeAt_of_ok ht₁).symm.trans hkind
  simp only [IrType.isInt, ↓reduceIte] at hrun
  obtain ⟨ones, m₂, hones, hrun⟩ := Attempt.bind_build hrun
  have hcode₂ := Build.code_constInt hcode₁.piece.stop ht₁ hones
  obtain ⟨u, m₃, hbinary, rfl, rfl⟩ := Attempt.build_eq_ok hrun
  obtain ⟨k₃, hcode₃⟩ := Build.code_binary hcode₂.piece.stop rfl
    (hcode₁.value.mono hcode₂.piece.writes.grows) hcode₂.value hbinary
  refine ⟨u, m₃, k₃, rfl, rfl, (hcode₁.bind (hcode₂.bind hcode₃)).imp ?_⟩
  rintro M p o hM ⟨x, rfl, hshow, rfl⟩
  refine ⟨some x, fun _ => some (Scalar.unary .bitNot x), ⟨x, rfl, hshow, rfl⟩, rfl, ?_⟩
  rintro x' q hx' hkeeps ⟨w, hw, hwx⟩
  cases hx'
  refine ⟨_, fun _ => some (Scalar.unary .bitNot x), rfl, rfl, ?_⟩
  rintro z q' hz hkeeps' ⟨wz, hwz, hzx⟩
  cases hz
  obtain ⟨d, hd, -⟩ := hcode₁.value
  refine ⟨w, wz, hkeeps'.holds (.inl (Module.value_lt hd)) hw, hwz, ?_⟩
  have hones : Denotes x.ty.bits wz (wrapTo x.ty.bits (-1)) := hzx
  rw [evalInt_map_mk (show BinaryOp.bitXor.intOp? = some .xor from rfl) hwx hones]
  simp only [Scalar.arithmetic, Scalar.unary, Scalar.wrap, Option.map_some, wrapTo_xor_ones]

/-- The type of an operator in front of an integer. -/
def unaryType (op : UnaryOp) (t : ScalarType) : ScalarType := if op = .not then .bool else t

/-- The code of an operator in front of an operand. -/
theorem code_applyUnary {op : UnaryOp} {inner : Operand} {f : FunctionState}
    (hop : op.isScalar = true) (hfunc : s.pass.func = some f)
    (hempty : s.context.operators.size = 0) (hat : s.module.StandsAt b k)
    (hinner : s.module.IsOperand inner t) {res : Option Operand}
    (hrun : applyUnary op inner span s = .ok (res, s'))
    (hclean : s'.context.errorCount = 0) :
    ∃ v m' k', res = some (.ofValue v) ∧ s' = { s with module := m' } ∧
      s.module.Code b k m' b k' v (unaryType op t) fun M p o =>
        ∃ x : Scalar, x.ty = t ∧ p.Shows M inner x ∧ o = some (Scalar.unary op x) := by
  unfold applyUnary at hrun
  obtain ⟨ty, hty, ht⟩ := hinner.ty_run
  obtain ⟨_, _, hty', hrun⟩ := Attempt.bind_build hrun
  cases hty.symm.trans hty'
  rw [Attempt.bind_of_some (findOperator_run hempty _ _)] at hrun
  cases op with
  | neg =>
      obtain ⟨o, hvalue, rfl⟩ := Attempt.bind_pure_eq_ok (x := negate inner ty span) hrun
      obtain ⟨v, m', k', rfl, rfl, hcode⟩ := code_negate hfunc hat hinner ht hvalue hclean
      exact ⟨v, m', k', rfl, rfl, hcode⟩
  | not =>
      obtain ⟨o, hvalue, rfl⟩ := Attempt.bind_pure_eq_ok (x := negateTruth inner span) hrun
      obtain ⟨v, m', k', rfl, rfl, hcode⟩ := code_negateTruth hfunc hat hinner hvalue
      exact ⟨v, m', k', rfl, rfl, hcode⟩
  | bitNot =>
      obtain ⟨o, hvalue, rfl⟩ := Attempt.bind_pure_eq_ok (x := negateBits inner ty span) hrun
      obtain ⟨v, m', k', rfl, rfl, hcode⟩ := code_negateBits hfunc hat hinner ht hvalue
      exact ⟨v, m', k', rfl, rfl, hcode⟩
  | deref => cases hop
  | addressOf => cases hop

end Lower

end SsaCompiler
