/-
# Requests on integers

What a request for an operation on integers writes, and what the code computes that it writes.
An operation on constants writes nothing and its result is a constant; the cases in which that
happens have to be told apart here once, and not again further up.
-/

import SsaCompiler.Proofs.Ir.Development
import SsaCompiler.Proofs.Ir.Folding
import SsaCompiler.Proofs.Machine.Emission
import SsaCompiler.Proofs.Scalar.Arithmetic

namespace SsaCompiler

/-! ### Integers in a module and at a point -/

/-- A value of a module is an integer of a type. -/
def Module.IsScalar (m : Module) (v : ValueId) (t : ScalarType) : Prop :=
  ∃ d, m.value v = .ok d ∧ m.types.get d.ty = .ok (.int t.bits)

/-- At a point a value is the word of an integer. -/
def Point.Carries (m : Module) (p : Point) (v : ValueId) (x : Scalar) : Prop :=
  ∃ w, p.Holds m v (.int w) ∧ Denotes x.ty.bits w x.value

/-- A value of a module is the address of an integer of a type. -/
def Module.IsPlace (m : Module) (v : ValueId) (ty : TypeId) (t : ScalarType) : Prop :=
  ∃ d, m.value v = .ok d ∧ m.types.get d.ty = .ok (.pointer ty) ∧
    m.types.get ty = .ok (.int t.bits)

/-- At a point a value is the address at which an integer is stored. -/
def Point.Stores (m : Module) (p : Point) (v : ValueId) (ty : TypeId) (x : Scalar) : Prop :=
  ∃ a w, p.Holds m v (.ptr a) ∧ p.state.memory.read m.types a ty = .ok (.int w) ∧
    Denotes x.ty.bits w x.value

/-- A request has written code that computes a value of a type, under conditions on the point
at which the code starts. -/
structure Module.Code (m : Module) (b : BlockId) (k : Nat) (m' : Module) (b' : BlockId)
    (k' : Nat) (v : ValueId) (t : ScalarType)
    (meaning : Module → Point → Option Scalar → Prop) : Prop where
  piece : m.Piece [b] b k m' b' k'
  value : m'.IsScalar v t
  runs : ∀ {M}, m'.Grows M → ∀ {call name p o}, p.block = b → p.next = k → meaning M p o →
    p.Yields M call name m.values.size b' k' o fun x q => x.ty = t ∧ q.Carries M v x

section Values

variable {m M : Module} {p q : Point} {v : ValueId} {ty : TypeId} {i : Int64} {x : Scalar}

/-- A constant is the same at every point. -/
theorem Point.holds_const (hv : M.value v = .ok ⟨ty, .const (.int i)⟩) : p.Holds M v (.int i) :=
  (Frame.operand_of_constant hv rfl _ _).trans (Module.constantVal_int _ hv)

/-- An older value keeps what it carries. -/
theorem Point.Carries.keeps {low : Nat} (h : p.Carries M v x) (hkeeps : p.Keeps M low q)
    (hlow : v.index < low) : q.Carries M v x := by
  obtain ⟨w, hw, hdenotes⟩ := h
  exact ⟨w, hkeeps.holds (.inl hlow) hw, hdenotes⟩

theorem Point.Carries.const (h : p.Carries M v x) (hv : M.value v = .ok ⟨ty, .const (.int i)⟩) :
    Denotes x.ty.bits i x.value := by
  obtain ⟨w, hw, hdenotes⟩ := h
  cases hw.symm.trans (Point.holds_const hv)
  exact hdenotes

theorem Module.IsScalar.mono {m' : Module} {t : ScalarType} (h : m.IsScalar v t)
    (hgrows : m.Grows m') : m'.IsScalar v t := by
  obtain ⟨d, hd, ht⟩ := h
  exact ⟨d, hgrows.values hd, hgrows.types ht (by simp)⟩

/-- What the type of an integer is. -/
theorem Module.IsScalar.valueType {t : ScalarType} (h : m.IsScalar v t) :
    m.valueType v = .ok (.int t.bits) := by
  obtain ⟨d, hd, ht⟩ := h
  exact Module.valueType_of_value hd ht

end Values

namespace Module.Code

variable {m m₁ m₂ : Module} {b b₁ b₂ : BlockId} {k k₁ k₂ : Nat} {v v₁ v₂ : ValueId}
  {t t₁ t₂ : ScalarType} {meaning meaning' meaning₁ meaning₂ : Module → Point → Option Scalar → Prop}

theorem imp (h : m.Code b k m₁ b₁ k₁ v t meaning)
    (himp : ∀ {M p o}, m₁.Grows M → meaning' M p o → meaning M p o) :
    m.Code b k m₁ b₁ k₁ v t meaning' :=
  ⟨h.piece, h.value, fun hgrows _ _ _ _ hb hk hmeaning =>
    h.runs hgrows hb hk (himp hgrows hmeaning)⟩

/-- One piece of code behind another that uses its result. -/
theorem bind (h : m.Code b k m₁ b₁ k₁ v₁ t₁ meaning₁)
    (h' : m₁.Code b₁ k₁ m₂ b₂ k₂ v₂ t₂ meaning₂) :
    m.Code b k m₂ b₂ k₂ v₂ t₂ fun M p o => ∃ o₁ f, meaning₁ M p o₁ ∧ o = o₁.bind f ∧
      ∀ x q, o₁ = some x → p.Keeps M m.values.size q → q.Carries M v₁ x →
        meaning₂ M q (f x) where
  piece := h.piece.trans h'.piece
  value := h'.value
  runs := by
    rintro M hgrows call name p o hb hk ⟨o₁, f, hmeaning, rfl, hrest⟩
    have hyields : p.Yields M call name m.values.size b₁ k₁ o₁ _ :=
      h.runs (h'.piece.writes.grows.trans hgrows) hb hk hmeaning
    refine hyields.bind h.piece.writes.grows.values_size ?_
    rintro x q hx hkeeps hqb hqk ⟨-, hcarries⟩
    exact h'.runs hgrows hqb hqk (hrest x q hx hkeeps hcarries)

/-- Code that begins with the entry of a type. -/
theorem ofWithType {ty : IrType} {hty : ty.description? = some ty} (hat : m.StandsAt b k)
    (h : (m.withType ty hty).Code b k m₁ b₁ k₁ v t meaning) : m.Code b k m₁ b₁ k₁ v t meaning :=
  ⟨(Module.piece_withType hat ty hty).trans h.piece, h.value, h.runs⟩

end Module.Code

/-! ### Constants -/

namespace Build

variable {m m' : Module} {b : BlockId} {k : Nat} {ty : TypeId} {t : ScalarType} {v : ValueId}

/-- A value that is added without code, and that every later module knows as a constant. -/
theorem code_const {i : Int64} {x : Int} (hat : m.StandsAt b k)
    (ht : m.types.get ty = .ok (.int t.bits)) (hx : Denotes t.bits i x) :
    m.Code b k (m.withValue ty (.const (.int i))) b k m.nextValue t
      fun _ _ o => o = some ⟨t, x⟩ where
  piece := Module.piece_withValue hat ty _
  value := ⟨_, Module.value_withValue_nextValue m ty _, ht⟩
  runs := by
    rintro M hgrows call name p o hb hk rfl
    refine Point.Yields.pure hb hk ⟨rfl, i, ?_, hx⟩
    exact Point.holds_const (hgrows.values (Module.value_withValue_nextValue m ty _))

theorem code_constInt (hat : m.StandsAt b k) (ht : m.types.get ty = .ok (.int t.bits))
    {i : Int64} (hrun : constInt ty i m = .ok (v, m')) :
    m.Code b k m' b k v t fun _ _ o => o = some (.wrap t i.toInt) := by
  rw [constInt_run ht] at hrun
  cases hrun
  exact code_const hat ht (Denotes.normalizeInt i t.bits)

/-! ### Operations -/

/-- Whether a value is an integer constant or not. -/
theorem int_or_not (origin : ValueDef) :
    (∃ i, origin = .const (.int i)) ∨ ∀ i, origin ≠ .const (.int i) := by
  by_cases h : ∃ i, origin = .const (.int i)
  · exact .inl h
  · exact .inr fun i hi => h ⟨i, hi⟩

variable {l r : ValueId} {lo ro : ValueDef} {bits : Nat}

/-- An operation is carried out at once, or it is recorded. -/
theorem binary_cases {op : BinOp} (hop : op.isFloat = false)
    (hl : m.value l = .ok ⟨ty, lo⟩) (hr : m.value r = .ok ⟨ty, ro⟩)
    (ht : m.types.get ty = .ok (.int bits)) :
    (∃ a c w, lo = .const (.int a) ∧ ro = .const (.int c) ∧ evalInt op a c bits = some w ∧
      binary op l r m = .ok (m.nextValue, m.withValue ty (.const (.int w)))) ∨
    binary op l r m = pushInstr ty (.binary op l r) m := by
  have hrecorded (hfold : foldBinary op l r m = .ok (none, m)) :
      binary op l r m = pushInstr ty (.binary op l r) m := by
    unfold binary
    rw [bind_of_ok hfold]
    simp only
    rw [bind_of_ok (typeOf_of_ok hl), bind_of_ok (typeOf_of_ok hr)]
    simp only [ne_eq, not_true_eq_false, ↓reduceIte]
  obtain ⟨c, hc⟩ := intConst?_answers hl ht
  obtain ⟨c', hc'⟩ := intConst?_answers hr ht
  rcases int_or_not lo with ⟨a, rfl⟩ | hint
  · rcases int_or_not ro with ⟨a', rfl⟩ | hint'
    · cases heval : evalInt op a a' bits with
      | some w => exact .inl ⟨a, a', w, rfl, rfl, heval, binary_of_evalInt hop hl ht hr ht heval⟩
      | none => exact .inr (binary_of_evalInt_none hop hl ht hr heval)
    · refine .inr (hrecorded ?_)
      unfold foldBinary
      rw [bind_of_ok (typeOf_of_ok hl), hop]
      refine (bind_of_ok (intConst?_of_int hl ht)).trans ?_
      exact bind_of_ok (intConst?_of_address hr ht hint')
  · refine .inr (hrecorded ?_)
    unfold foldBinary
    rw [bind_of_ok (typeOf_of_ok hl), hop]
    refine (bind_of_ok (intConst?_of_address hl ht hint)).trans ?_
    exact bind_of_ok hc'

/-- The code of an operation on two integers of one type. -/
theorem code_binary {op : BinOp} (hat : m.StandsAt b k) (hop : op.isFloat = false)
    (hl : m.IsScalar l t) (hr : m.IsScalar r t) (hrun : binary op l r m = .ok (v, m')) :
    ∃ k', m.Code b k m' b k' v t fun M p o => ∃ a c, p.Holds M l (.int a) ∧
      p.Holds M r (.int c) ∧ o = (evalInt op a c t.bits).map fun w => ⟨t, w.toInt⟩ := by
  have hscalar := hl
  obtain ⟨⟨ty, lo⟩, hl, ht⟩ := hl
  obtain ⟨⟨ty', ro⟩, hr, hrt⟩ := hr
  obtain rfl := m.isUnique _ _ _ ht hrt rfl
  rcases binary_cases hop hl hr ht with ⟨a, c, w, rfl, rfl, heval, hfold⟩ | hpush
  · rw [hfold] at hrun
    cases hrun
    have hw : Denotes t.bits w w.toInt := by
      refine ⟨rfl, ?_⟩
      rw [← toInt_normalizeInt, normalizeInt_of_evalInt heval]
    have hcode := code_const hat ht hw
    refine ⟨k, hcode.piece, hcode.value, ?_⟩
    rintro M hgrows call name p o hb hk ⟨a', c', ha', hc', rfl⟩
    have hold : ∀ {u d}, m.value u = .ok d → M.value u = .ok d := fun hu =>
      hgrows.values ((Module.grows_withValue m ty _).values hu)
    cases ha'.symm.trans (Point.holds_const (hold hl))
    cases hc'.symm.trans (Point.holds_const (hold hr))
    rw [heval]
    exact hcode.runs hgrows hb hk rfl
  · rw [hpush, Module.pushInstr_of_standsAt hat] at hrun
    cases hrun
    refine ⟨k + 1, Module.piece_withInstr hat ty (by simp),
      ⟨_, Module.value_withValue_nextValue m ty _, ht⟩, ?_⟩
    rintro M hgrows call name ⟨pb, pk, frame, s⟩ o rfl rfl ⟨a, c, ha, hc, rfl⟩
    have hgrows' := (Module.piece_withInstr hat ty (i := .binary op l r) (by simp)).writes.grows
    have htype : M.valueType l = .ok (.int t.bits) :=
      (hscalar.mono (hgrows'.trans hgrows)).valueType
    have hbinary := Exec.binary_of_ok (s := s.tick) hop htype
      (Exec.intOperand_of_ok ha rfl) (Exec.intOperand_of_ok hc rfl)
    cases heval : evalInt op a c t.bits with
    | none =>
        rw [heval] at hbinary
        exact Point.yields_none hat hgrows (Exec.instruction_binary_of_error call _ hbinary)
    | some w =>
        rw [heval] at hbinary
        obtain ⟨q, hpath, hkeeps, hqb, hqk, hholds⟩ := Point.yields_instr hat hgrows (by simp)
          (Exec.instruction_binary call m.nextValue hbinary)
        refine ⟨q, hpath, hkeeps, hqb, hqk, rfl, w, hholds, rfl, ?_⟩
        rw [← toInt_normalizeInt, normalizeInt_of_evalInt heval]

/-! ### Comparisons -/

/-- The word of a truth value. -/
theorem denotes_truthWord (c : Bool) : Denotes 1 (truthWord c) (if c then 1 else 0) := by
  cases c <;> exact ⟨rfl, by decide⟩

/-- The code of a comparison of two integers. -/
theorem code_icmp {pred : IntPredicate} {t' : ScalarType} (hat : m.StandsAt b k)
    (hl : m.IsScalar l t) (hr : m.IsScalar r t') (hrun : icmp pred l r m = .ok (v, m')) :
    ∃ k', m.Code b k m' b k' v .bool fun M p o => ∃ a c, p.Holds M l (.int a) ∧
      p.Holds M r (.int c) ∧ o = some (.ofBool (pred.holds a c)) := by
  obtain ⟨⟨ty, lo⟩, hl, hlt⟩ := hl
  obtain ⟨⟨ty', ro⟩, hr, hrt⟩ := hr
  have hat' := hat.withType (.int 1)
  have htruth : (m.withType (.int 1)).types.get (m.types.intern (.int 1)).1 =
      .ok (.int ScalarType.bool.bits) := Module.get_intern _ _
  have hpiece := Module.piece_withType hat (.int 1)
  have hrecorded (hint : (∀ i, lo ≠ .const (.int i)) ∨ ∀ i, ro ≠ .const (.int i)) :
      ∃ k', m.Code b k m' b k' v .bool fun M p o => ∃ a c,
        p.Holds M l (.int a) ∧ p.Holds M r (.int c) ∧
          o = some (.ofBool (pred.holds a c)) := by
    by_cases hnull : lo = .const .null ∧ ro = .const .null
    · -- Null pointers are no integers, so the code is never asked for its result.
      obtain ⟨rfl, rfl⟩ := hnull
      rw [icmp_of_nulls pred hl hlt hr hrt] at hrun
      cases hrun
      have hcode := code_const hat' htruth (denotes_truthWord (pred.holds 0 0))
      refine ⟨k, hpiece.trans hcode.piece, hcode.value, ?_⟩
      rintro M hgrows call name p o hb hk ⟨a, c, ha, -, -⟩
      have hl' : M.value l = .ok ⟨ty, .const .null⟩ :=
        hgrows.values (hcode.piece.writes.grows.values (hpiece.writes.grows.values hl))
      cases ha.symm.trans
        ((Frame.operand_of_constant hl' rfl _ _).trans (Module.constantVal_null _ hl'))
    · rw [icmp_of_address pred hl hlt hr hrt hint (by simpa only [not_and_or] using hnull)] at hrun
      rw [Module.pushInstr_of_standsAt hat'] at hrun
      cases hrun
      have hinstr := Module.piece_withInstr (i := .icmp pred l r) hat' (m.types.intern (.int 1)).1
        (by simp)
      refine ⟨k + 1, hpiece.trans hinstr, ⟨_, Module.value_withValue_nextValue _ _ _, htruth⟩, ?_⟩
      rintro M hgrows call name ⟨pb, pk, frame, s⟩ o rfl rfl ⟨a, c, ha, hc, rfl⟩
      obtain ⟨q, hpath, hkeeps, hqb, hqk, hholds⟩ := Point.yields_instr hat' hgrows (by simp)
        (Exec.instruction_icmp_of_ok call _ (Exec.intOperand_of_ok ha rfl)
          (Exec.intOperand_of_ok hc rfl))
      exact ⟨q, hpath, hkeeps, hqb, hqk, rfl, _, hholds, denotes_truthWord (pred.holds a c)⟩
  rcases int_or_not lo with ⟨a, rfl⟩ | hint
  · rcases int_or_not ro with ⟨c, rfl⟩ | hint'
    · rw [icmp_of_ints pred hl hlt hr hrt] at hrun
      cases hrun
      have hcode := code_const hat' htruth (denotes_truthWord (pred.holds a c))
      refine ⟨k, hpiece.trans hcode.piece, hcode.value, ?_⟩
      rintro M hgrows call name p o hb hk ⟨a', c', ha', hc', rfl⟩
      have hold : ∀ {u d}, m.value u = .ok d → M.value u = .ok d := fun hu =>
        hgrows.values (hcode.piece.writes.grows.values (hpiece.writes.grows.values hu))
      cases ha'.symm.trans (Point.holds_const (hold hl))
      cases hc'.symm.trans (Point.holds_const (hold hr))
      exact hcode.runs hgrows hb hk rfl
    · exact hrecorded (.inr hint')
  · exact hrecorded (.inl hint)

/-! ### Conversions between integers -/

/-- The conversion of integers by cutting off, repeating or filling up high bits. Only truth
values are filled up. -/
def Resizes (op : CastOp) (t : ScalarType) : Prop :=
  op = .trunc ∨ op = .sext ∨ op = .zext ∧ t = .bool

/-- A truth value is its low bit. -/
theorem zeroExtend_of_denotes {w : Int64} {x : Int} (hw : Denotes 1 w x) :
    zeroExtend w 1 = .ok w := by
  have hone : (1 : Int64) <<< Int64.ofNat 1 - 1 = 1 := by decide
  unfold zeroExtend
  rw [if_neg (by decide), if_neg (by decide), hone]
  congr 1
  rw [← Int64.toInt_inj, toInt_and_one, hw.1]
  have hrange := hw.2
  unfold wrapTo at hrange
  exact hrange

/-- A value that is no integer constant is not resized at once. -/
theorem foldCast_of_not_int {op : CastOp} {source target : IrType} {dest : TypeId}
    {origin : ValueDef} (hop : Resizes op t) (hv : m.value v = .ok ⟨ty, origin⟩)
    (ht : m.types.get ty = .ok source) (hdest : m.types.get dest = .ok target)
    (hint : ∀ i, origin ≠ .const (.int i)) : foldCast op v dest m = .ok (none, m) := by
  unfold foldCast
  rw [bind_of_ok (typeAt_of_ok hdest)]
  have hnone := intConst?_of_address hv ht hint
  rcases hop with rfl | rfl | ⟨rfl, -⟩ <;> exact (bind_of_ok hnone).trans rfl

/-- The code of a conversion between integers. -/
theorem code_cast {op : CastOp} {dest : TypeId} {t' : ScalarType} {r : ValueId}
    (hat : m.StandsAt b k) (hop : Resizes op t) (hv : m.IsScalar v t)
    (hdest : m.types.get dest = .ok (.int t'.bits)) (hrun : cast op v dest m = .ok (r, m')) :
    ∃ k', m.Code b k m' b k' r t' fun M p o => ∃ x : Scalar, x.ty = t ∧ p.Carries M v x ∧
      o = some (.wrap t' x.value) := by
  obtain ⟨⟨ty, origin⟩, hv, ht⟩ := hv
  by_cases hsame : ty = dest
  · subst hsame
    rw [cast_of_same op hv rfl] at hrun
    cases hrun
    have hbits := IrType.int.inj (Except.ok.inj (ht.symm.trans hdest))
    obtain rfl := ScalarType.bits_injective hbits
    refine ⟨k, .refl _ hat, ⟨_, hv, ht⟩, ?_⟩
    rintro M hgrows call name p o hb hk ⟨x, rfl, hx, rfl⟩
    refine Point.Yields.pure hb hk ⟨rfl, ?_⟩
    obtain ⟨w, hw, hdenotes⟩ := hx
    refine ⟨w, hw, ?_⟩
    change Denotes x.ty.bits w (wrapTo x.ty.bits x.value)
    rwa [hdenotes.2]
  · rcases int_or_not origin with ⟨i, rfl⟩ | hint
    · -- A constant is converted as the machine would convert it.
      have hfold : ∃ j, foldCast op v dest m = .ok (some m.nextValue,
          m.withValue dest (.const (.int (normalizeInt j t'.bits)))) ∧
          ∀ x, Denotes t.bits i x → j.toInt = x := by
        rcases hop with rfl | rfl | ⟨rfl, rfl⟩
        · exact ⟨i, foldCast_resize (.inl rfl) hv ht hdest, fun x hx => hx.1⟩
        · exact ⟨i, foldCast_resize (.inr rfl) hv ht hdest, fun x hx => hx.1⟩
        · obtain ⟨j, hj⟩ := zeroExtend_answers i (show ScalarType.bool.bits ≠ 63 by decide)
          refine ⟨j, foldCast_zext hv ht hdest hj, fun x hx => ?_⟩
          cases (zeroExtend_of_denotes hx).symm.trans hj
          exact hx.1
      obtain ⟨j, hfold, hj⟩ := hfold
      rw [cast_of_fold hv hsame hfold] at hrun
      cases hrun
      have hcode := code_const hat hdest (Denotes.normalizeInt j t'.bits)
      refine ⟨k, hcode.piece, hcode.value, ?_⟩
      rintro M hgrows call name p o hb hk ⟨x, rfl, hx, rfl⟩
      have hi := hx.const (hgrows.values (hcode.piece.writes.grows.values hv))
      rw [← hj _ hi]
      exact hcode.runs hgrows hb hk rfl
    · rw [cast_of_not_fold hv hsame (foldCast_of_not_int hop hv ht hdest hint),
        Module.pushInstr_of_standsAt hat] at hrun
      cases hrun
      have hpiece := Module.piece_withInstr (i := .cast op v) hat dest (by simp)
      refine ⟨k + 1, hpiece, ⟨_, Module.value_withValue_nextValue _ _ _, hdest⟩, ?_⟩
      rintro M hgrows call name ⟨pb, pk, frame, s⟩ o rfl rfl ⟨x, rfl, ⟨w, hw, hdenotes⟩, rfl⟩
      have hgrows' := hpiece.writes.grows.trans hgrows
      have hid : M.typeOf m.nextValue = .ok dest :=
        Module.typeOf_of_value (hgrows.values (Module.value_withValue_nextValue _ _ _))
      have hsource : M.valueType v = .ok (.int x.ty.bits) :=
        Module.valueType_of_value (hgrows'.values hv) (hgrows'.types ht (by simp))
      have htarget : M.types.get dest = .ok (.int t'.bits) := hgrows'.types hdest (by simp)
      have hcast : Exec.cast M frame op v dest s.tick = .ok (.int (normalizeInt w t'.bits)) s.tick := by
        have hoperand : Exec.intOperand M frame v s.tick = .ok w s.tick :=
          Exec.intOperand_of_ok hw rfl
        rcases hop with rfl | rfl | ⟨rfl, hbool⟩
        · exact Exec.cast_resize (.inl rfl) htarget hsource hoperand
        · exact Exec.cast_resize (.inr rfl) htarget hsource hoperand
        · refine Exec.cast_zext htarget hsource hoperand ?_
          rw [hbool] at hdenotes ⊢
          exact zeroExtend_of_denotes hdenotes
      obtain ⟨q, hpath, hkeeps, hqb, hqk, hholds⟩ := Point.yields_instr hat hgrows (by simp)
        (Exec.instruction_cast call hid hcast)
      refine ⟨q, hpath, hkeeps, hqb, hqk, rfl, _, hholds, ?_⟩
      have hwrap := Denotes.normalizeInt w t'.bits
      rwa [hdenotes.1] at hwrap

/-! ### Loading -/

/-- The code that loads an integer. -/
theorem code_load (hat : m.StandsAt b k) (hplace : m.IsPlace l ty t)
    (hrun : load l m = .ok (v, m')) :
    ∃ k', m.Code b k m' b k' v t fun M p o => ∃ x : Scalar, x.ty = t ∧ p.Stores M l ty x ∧
      o = some x := by
  obtain ⟨d, hd, hpointer, ht⟩ := hplace
  have hpointee : pointeeOf l m = .ok (some ty, m) := by
    unfold pointeeOf
    rw [bind_of_ok (typeOf_of_ok hd), bind_of_ok (typeAt_of_ok hpointer)]
    rfl
  unfold load at hrun
  rw [bind_of_ok hpointee] at hrun
  simp only at hrun
  rw [Module.pushInstr_of_standsAt hat] at hrun
  cases hrun
  have hpiece := Module.piece_withInstr (i := .load l) hat ty (by simp)
  refine ⟨k + 1, hpiece, ⟨_, Module.value_withValue_nextValue _ _ _, ht⟩, ?_⟩
  rintro M hgrows call name ⟨pb, pk, frame, s⟩ o rfl rfl ⟨x, rfl, ⟨a, w, ha, hread, hw⟩, rfl⟩
  have hid : M.typeOf m.nextValue = .ok ty :=
    Module.typeOf_of_value (hgrows.values (Module.value_withValue_nextValue _ _ _))
  obtain ⟨q, hpath, hkeeps, hqb, hqk, hholds⟩ := Point.yields_instr hat hgrows (by simp)
    (Exec.instruction_load call hid (Exec.ptrOperand_of_ok ha rfl) hread)
  exact ⟨q, hpath, hkeeps, hqb, hqk, rfl, w, hholds, hw⟩

end Build

end SsaCompiler
