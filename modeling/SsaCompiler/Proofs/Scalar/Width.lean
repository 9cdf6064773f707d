/-
# Arithmetic at every width

Integers of every width are computed with in words of one size and brought back to the width
afterwards. Nothing is lost by that: the answer is the two's complement answer of the width
itself. The sum, the difference and the product are those of the integers modulo a power of two,
operations on bits change each of the low bits on its own, a quotient is cut off towards zero and
a remainder has the sign of what is divided. Shifts multiply and divide by powers of two where the
width is one of them, so that the amount is a remainder that no part of a word cuts off.

The width of one bit is unsigned, which only division and the range of its integers notice.

Zero extension takes the low bits of a word with a mask, which is one less than a power of two. The
power is a signed word, so that for sixty-three bits it is the least of the words and one less than
it is none: there zero extension crashes, while a module is built as well as when it runs. At every
other width it answers, with the remainder of the word modulo the power of two, and from the word
size on with the word itself. The remainder has the low bits of the word, so it has its normal form.
-/

import SsaCompiler.Proofs.Ir.Folding
import SsaCompiler.Proofs.Scalar.Arithmetic

namespace SsaCompiler

variable {bits : Nat} {a b r v : Int64} {x y : Int}

/-! ### Integers of a width -/

/-- The integers of a width: zero and one at width one, and the signed range of any other. -/
def InRange (bits : Nat) (x : Int) : Prop :=
  if bits = 1 then x = 0 ∨ x = 1 else -2 ^ (bits - 1) ≤ x ∧ x < 2 ^ (bits - 1)

instance : Decidable (InRange bits x) :=
  inferInstanceAs (Decidable (if bits = 1 then x = 0 ∨ x = 1
    else -2 ^ (bits - 1) ≤ x ∧ x < 2 ^ (bits - 1)))

/-- The range of a signed width. -/
theorem inRange_iff (hbits : 2 ≤ bits) :
    InRange bits x ↔ -2 ^ (bits - 1) ≤ x ∧ x < 2 ^ (bits - 1) := by
  rw [InRange, if_neg (by omega)]

/-- The integers of a width are those that wrapping leaves as they are. -/
theorem wrapTo_eq_self_iff (hbits : 1 ≤ bits) : wrapTo bits x = x ↔ InRange bits x := by
  unfold wrapTo InRange
  split
  case isTrue => omega
  case isFalse =>
    have hpow : (2 : Nat) ^ bits = 2 * 2 ^ (bits - 1) := by
      rw [← pow_succ', Nat.sub_add_cancel hbits]
    have hcast : ((2 ^ (bits - 1) : Nat) : Int) = 2 ^ (bits - 1) := by push_cast; rfl
    have hpos : 0 < 2 ^ bits := by positivity
    have hlow := Int.le_bmod (x := x) hpos
    have hhigh := Int.bmod_lt (x := x) hpos
    constructor
    · intro hself
      omega
    · rintro ⟨hge, hlt⟩
      exact Int.bmod_eq_of_le_mul_two (by omega) (by omega)

/-- Wrapping changes an integer by a multiple of the number of integers of the width. -/
theorem wrapTo_modEq (bits : Nat) (x : Int) : wrapTo bits x ≡ x [ZMOD 2 ^ bits] := by
  unfold wrapTo
  split
  case isTrue hone =>
    subst hone
    exact Int.mod_modEq x 2
  case isFalse =>
    have hmod := Int.bmod_emod (x := x) (m := 2 ^ bits)
    push_cast at hmod
    exact hmod

/-- The normal form of a word has the same low bits. -/
theorem getLsbD_normalizeInt (v : Int64) (hbits : bits ≤ 64) {i : Nat} (hi : i < bits) :
    (normalizeInt v bits).toBitVec.getLsbD i = v.toBitVec.getLsbD i := by
  have hlow : (normalizeInt v bits).toBitVec.setWidth bits = v.toBitVec.setWidth bits := by
    rw [← ofInt_toInt _ hbits, ← ofInt_toInt _ hbits, toInt_normalizeInt, ofInt_wrapTo]
  have hbit := congrArg (BitVec.getLsbD · i) hlow
  simpa [BitVec.getLsbD_setWidth, hi] using hbit

/-- A remainder with the sign of what is divided stays in the range of a signed width. -/
theorem InRange.tmod (hbits : 2 ≤ bits) (hx : InRange bits x) (y : Int) :
    InRange bits (x.tmod y) := by
  rw [inRange_iff hbits] at hx ⊢
  have habs : (x.tmod y).natAbs ≤ x.natAbs := by
    rw [Int.natAbs_tmod]
    exact Nat.mod_le _ _
  rcases Int.le_total 0 x with hnonneg | hnonpos
  · have hsign := Int.tmod_nonneg y hnonneg
    omega
  · have hsign := Int.tmod_nonneg y (Int.neg_nonneg_of_nonpos hnonpos)
    rw [Int.neg_tmod] at hsign
    omega

/-- A quotient by a power of two, rounded down, is an integer of the width. -/
theorem InRange.shiftRight (hx : InRange bits x) (hbits : 1 ≤ bits) {k : Nat}
    (hk : k < bits) : InRange bits (x / 2 ^ k) := by
  have hpos : (0 : Int) < 2 ^ k := by positivity
  rcases Nat.eq_or_lt_of_le hbits with rfl | hwide
  · obtain rfl : k = 0 := by omega
    simpa using hx
  · rw [inRange_iff hwide] at hx ⊢
    rcases Int.le_total 0 x with hnonneg | hnonpos
    · have hlow := Int.ediv_nonneg hnonneg hpos.le
      have hhigh := Int.ediv_le_self (2 ^ k) hnonneg
      omega
    · have hlow : x ≤ x / 2 ^ k := by
        rw [Int.le_ediv_iff_mul_le hpos]
        nlinarith
      have hhigh : x / 2 ^ k ≤ 0 := by
        rw [← Int.lt_add_one_iff, Int.ediv_lt_iff_lt_mul hpos]
        omega
      have hpow : (0 : Int) < 2 ^ (bits - 1) := by positivity
      omega

/-! ### Operations -/

/-- What an operation makes of two integers of a width, whose quotient and shifts are only described
where the width has a sign and where it is a power of two. -/
def BinOp.Computes (op : BinOp) (bits : Nat) (a b r : Int64) : Prop :=
  match op with
  | .add => r.toInt ≡ a.toInt + b.toInt [ZMOD 2 ^ bits]
  | .sub => r.toInt ≡ a.toInt - b.toInt [ZMOD 2 ^ bits]
  | .mul => r.toInt ≡ a.toInt * b.toInt [ZMOD 2 ^ bits]
  | .sdiv => 2 ≤ bits → r.toInt = (a.toInt.tdiv b.toInt).bmod (2 ^ bits)
  | .srem => 2 ≤ bits → r.toInt = a.toInt.tmod b.toInt
  | .and => ∀ i < bits, r.toBitVec.getLsbD i = (a.toBitVec.getLsbD i && b.toBitVec.getLsbD i)
  | .or => ∀ i < bits, r.toBitVec.getLsbD i = (a.toBitVec.getLsbD i || b.toBitVec.getLsbD i)
  | .xor => ∀ i < bits, r.toBitVec.getLsbD i = (a.toBitVec.getLsbD i ^^ b.toBitVec.getLsbD i)
  | .shl => bits.isPowerOfTwo →
    r.toInt ≡ a.toInt * 2 ^ (b.toInt % bits).toNat [ZMOD 2 ^ bits]
  | .ashr => bits.isPowerOfTwo → r.toInt = a.toInt / 2 ^ (b.toInt % bits).toNat
  | .fadd | .fsub | .fmul | .fdiv | .frem => False

/-- Bringing a word to a width keeps it modulo the number of integers of the width. -/
theorem toInt_normalizeInt_modEq (v : Int64) (bits : Nat) :
    (normalizeInt v bits).toInt ≡ v.toInt [ZMOD 2 ^ bits] := by
  rw [toInt_normalizeInt]
  exact wrapTo_modEq bits v.toInt

/-- What is known of an integer modulo the word size is known of the word that is brought to a
width. -/
theorem toInt_normalizeInt_modEq_of_bmod (hbits : bits ≤ 64) (hv : v.toInt = x.bmod (2 ^ 64)) :
    (normalizeInt v bits).toInt ≡ x [ZMOD 2 ^ bits] := by
  rw [toInt_normalizeInt, hv, wrapTo_bmod hbits]
  exact wrapTo_modEq bits x

/-- A width that is a power of two divides the word size. -/
theorem dvd_of_isPowerOfTwo (hpow : bits.isPowerOfTwo) (hbits : bits ≤ 64) : bits ∣ 64 := by
  obtain ⟨n, rfl⟩ := hpow
  have hn : n ≤ 6 := (Nat.pow_le_pow_iff_right (by decide)).1 (hbits.trans (by decide : 64 ≤ 2 ^ 6))
  exact pow_dvd_pow 2 hn

/-- The amount of a shift is below the width. -/
theorem toNat_emod_lt (hbits : 1 ≤ bits) (y : Int) : (y % bits).toNat < bits := by
  have hpos : (0 : Int) < bits := by exact_mod_cast hbits
  have hlt := Int.emod_lt_of_pos y hpos
  have hnonneg := Int.emod_nonneg y hpos.ne'
  omega

/-- An operation computes what it is to compute at every width. -/
theorem computes_of_evalInt {op : BinOp} (hlow : 1 ≤ bits) (hhigh : bits ≤ 64)
    (ha : InRange bits a.toInt) (heval : evalInt op a b bits = some r) :
    op.Computes bits a b r := by
  cases op <;> simp only [evalInt, reduceCtorEq, Option.some.injEq] at heval
  case add =>
    rw [← heval]
    exact toInt_normalizeInt_modEq_of_bmod hhigh (Int64.toInt_add a b)
  case sub =>
    rw [← heval]
    exact toInt_normalizeInt_modEq_of_bmod hhigh (Int64.toInt_sub a b)
  case mul =>
    rw [← heval]
    exact toInt_normalizeInt_modEq_of_bmod hhigh (Int64.toInt_mul a b)
  case sdiv =>
    intro hbits
    split at heval
    · cases heval
    · -- The least word divided by minus one wraps twice, to the word size and to the width.
      rw [← Option.some.inj heval, toInt_normalizeInt, Int64.toInt_div, wrapTo_bmod hhigh, wrapTo,
        if_neg (by omega)]
  case srem =>
    intro hbits
    split at heval
    · cases heval
    · rw [← Option.some.inj heval, toInt_normalizeInt, Int64.toInt_mod]
      exact (wrapTo_eq_self_iff hlow).2 (ha.tmod hbits _)
  case and =>
    intro i hi
    rw [← heval, getLsbD_normalizeInt _ hhigh hi, Int64.toBitVec_and, BitVec.getLsbD_and]
  case or =>
    intro i hi
    rw [← heval, getLsbD_normalizeInt _ hhigh hi, Int64.toBitVec_or, BitVec.getLsbD_or]
  case xor =>
    intro i hi
    rw [← heval, getLsbD_normalizeInt _ hhigh hi, Int64.toBitVec_xor, BitVec.getLsbD_xor]
  case shl =>
    intro hpow
    have hamount := toNat_emod_lt hlow b.toInt
    rw [← heval, shiftAmount, toNat_shiftAmount b (dvd_of_isPowerOfTwo hpow hhigh)]
    exact toInt_normalizeInt_modEq_of_bmod hhigh (toInt_shiftLeft a (by omega))
  case ashr =>
    intro hpow
    have hamount := toNat_emod_lt hlow b.toInt
    rw [← heval, shiftAmount, toNat_shiftAmount b (dvd_of_isPowerOfTwo hpow hhigh),
      toInt_normalizeInt, toInt_shiftRight a (by omega)]
    exact (wrapTo_eq_self_iff hlow).2 (ha.shiftRight hlow hamount)

/-- Normal forms are integers of the width. -/
theorem inRange_of_normalizeInt (hbits : 1 ≤ bits) (hv : normalizeInt v bits = v) :
    InRange bits v.toInt :=
  (wrapTo_eq_self_iff hbits).1 (normalizeInt_eq_self_iff.1 hv)

/-- Arithmetic on integers of a width is two's complement arithmetic of that width. It fails for
operations on floating point numbers and for divisions by zero and for nothing else, and its
answers are integers of the width. The normal form of a width is an integer of it, is its own
normal form, and is the same as the word modulo the number of integers of the width. -/
theorem evalInt_is_twos_complement (hlow : 1 ≤ bits) (hhigh : bits ≤ 64)
    (ha : InRange bits a.toInt) (b : Int64) (op : BinOp) :
    (evalInt op a b bits = none ↔
      op.isFloat = true ∨ (op = .sdiv ∨ op = .srem) ∧ b.toInt = 0) ∧
      (∀ r, evalInt op a b bits = some r → InRange bits r.toInt ∧ op.Computes bits a b r) ∧
      ∀ (v : Int64) (width : Nat),
        (1 ≤ width → InRange width (normalizeInt v width).toInt) ∧
        normalizeInt (normalizeInt v width) width = normalizeInt v width ∧
        (normalizeInt v width).toInt ≡ v.toInt [ZMOD 2 ^ width] := by
  refine ⟨?_, fun r heval => ⟨inRange_of_normalizeInt hlow (normalizeInt_of_evalInt heval),
    computes_of_evalInt hlow hhigh ha heval⟩, fun v width =>
    ⟨fun hwidth => inRange_of_normalizeInt hwidth (normalizeInt_normalizeInt v width),
      normalizeInt_normalizeInt v width, toInt_normalizeInt_modEq v width⟩⟩
  have hzero : b.toInt = 0 ↔ b = 0 := by
    rw [← Int64.toInt_inj]
    rfl
  rw [hzero]
  cases hfloat : op.isFloat with
  | false => simpa using evalInt_eq_none_iff hfloat a b bits
  | true => cases op <;> simp_all [evalInt, BinOp.isFloat]

/-- The least integer of eight bits divided by minus one is itself, and a shift by minus three is
one by five. -/
theorem evalInt_is_twos_complement_least :
    InRange 8 (-128 : Int64).toInt ∧
      evalInt .sdiv (-128) (-1) 8 = some (-128) ∧
      (-128 : Int64).toInt = ((-128 : Int64).toInt.tdiv (-1 : Int64).toInt).bmod (2 ^ 8) ∧
      evalInt .ashr (-128) (-3) 8 = some (-4) ∧
      (-4 : Int64).toInt = (-128 : Int64).toInt / 2 ^ ((-3 : Int64).toInt % (8 : Nat)).toNat := by
  have hrange : InRange 8 (-128 : Int64).toInt := by decide
  have hdivide : evalInt .sdiv (-128) (-1) 8 = some (-128) := by decide
  have hshift : evalInt .ashr (-128) (-3) 8 = some (-4) := by decide
  have hquotient :=
    (evalInt_is_twos_complement (by decide) (by decide) hrange (-1) .sdiv).2.1 _ hdivide
  have hshifted :=
    (evalInt_is_twos_complement (by decide) (by decide) hrange (-3) .ashr).2.1 _ hshift
  exact ⟨hrange, hdivide, hquotient.2 (by decide), hshift, hshifted.2 ⟨3, rfl⟩⟩

/-! ### Zero extension -/

section ZeroExtension

variable {w : Int64}

/-- The low bits of an integer as an unsigned number, and all of it from the word size on. -/
def lowBits (bits : Nat) (x : Int) : Int := if bits < 64 then x % 2 ^ bits else x

/-- One less than the power of two of the mask is below all words at one width only. -/
theorem lowMask_overflows_iff (hbits : bits < 64) :
    (1 <<< Int64.ofNat bits : Int64).toInt - 1 < -2 ^ 63 ↔ bits = 63 := by
  rw [toInt_shiftLeft 1 hbits]
  interval_cases bits <;> decide

/-- Zero extension crashes where the mask is no word. -/
theorem zeroExtend_eq_error_iff :
    zeroExtend v bits = .error .overflow ↔
      bits < 64 ∧ (1 <<< Int64.ofNat bits : Int64).toInt - 1 < -2 ^ 63 := by
  unfold zeroExtend
  by_cases hwide : bits < 64
  · rw [if_neg (by omega), lowMask_overflows_iff hwide]
    split <;> simp_all
  · rw [if_pos (by omega)]
    simp [hwide]

/-- What a word is modulo a power of two can be read off the unsigned number as well. -/
theorem toInt_emod_two_pow (v : Int64) (hbits : bits ≤ 64) :
    v.toInt % 2 ^ bits = ((v.toBitVec.toNat % 2 ^ bits : Nat) : Int) := by
  have hlow := congrArg BitVec.toNat (ofInt_toInt v hbits)
  rw [BitVec.toNat_ofInt, BitVec.toNat_setWidth] at hlow
  have hnonneg : 0 ≤ v.toInt % ((2 ^ bits : Nat) : Int) := Int.emod_nonneg _ (by positivity)
  rw [← hlow, Int.toNat_of_nonneg hnonneg]
  push_cast
  rfl

/-- Zero extension answers with the low bits of a word. -/
theorem toInt_zeroExtend (hext : zeroExtend v bits = .ok w) : w.toInt = lowBits bits v.toInt := by
  unfold lowBits
  split
  case isTrue hwide =>
    have hlow := toNat_zeroExtend hext hwide
    -- The highest bit of a remainder is not set, so its sign is that of the unsigned number.
    have hsmall : w.toBitVec.toNat < 2 ^ 63 := by
      have hlt := Nat.mod_lt v.toBitVec.toNat (show 0 < 2 ^ bits by positivity)
      have hpow : 2 ^ bits ≤ 2 ^ 63 := Nat.pow_le_pow_right (by decide) (by omega)
      omega
    have hsign : w.toInt = (w.toBitVec.toNat : Int) := by
      rw [← Int64.toInt_toBitVec, BitVec.toInt_eq_toNat_cond, if_pos (by omega)]
    rw [hsign, hlow, toInt_emod_two_pow v hwide.le]
  case isFalse hwide =>
    rw [zeroExtend, if_pos (by omega)] at hext
    rw [Except.ok.inj hext]

section Conversions

variable {m : Module} {value : ValueId} {ty dest : TypeId} {target : IrType}

/-- Folding the conversion crashes where zero extension does. -/
theorem Build.foldCast_zext_of_crash {c : Crash} (hv : m.value value = .ok ⟨ty, .const (.int v)⟩)
    (ht : m.types.get ty = .ok (.int bits)) (hdest : m.types.get dest = .ok target)
    (hcrash : zeroExtend v bits = .error c) : foldCast .zext value dest m = .error c := by
  unfold foldCast
  rw [bind_of_ok (typeAt_of_ok hdest)]
  refine (bind_of_ok (intConst?_of_int hv ht)).trans ?_
  simp only [hcrash]
  rfl

/-- Executing the conversion crashes where zero extension does. -/
theorem Exec.cast_zext_of_crash {frame : Frame} {s : MachineState} {source : IrType} {c : Crash}
    (hdest : m.types.get dest = .ok target) (hvalue : m.valueType value = .ok source)
    (hi : intOperand m frame value s = .ok v s) (hcrash : zeroExtend v source.width = .error c) :
    cast m frame .zext value dest s = .error (.crashed c) s := by
  rw [cast_of_types .zext hdest hvalue]
  refine (bind_of_ok hi).trans ?_
  rw [hcrash]
  rfl

end Conversions

/-- Zero extension is exact, and it is defined at every width but sixty-three, where the mask that
it needs is no word. Where it is defined its answer is the remainder of the word, or the word, and
has the normal form of the word; the conversion is then defined too, for a constant while a module is
built and for any value when it runs, and both bring the same answer to the width of the target. At
sixty-three both crash. -/
theorem zero_extension_is_exact (v : Int64) (bits : Nat) :
    (zeroExtend v bits = .error .overflow ↔ bits = 63) ∧
      (bits ≠ 63 → ∃ w, zeroExtend v bits = .ok w ∧ w.toInt = lowBits bits v.toInt ∧
        normalizeInt w bits = normalizeInt v bits) ∧
      (∀ (m : Module) (value : ValueId) (ty dest : TypeId) (width : Nat),
        m.value value = .ok ⟨ty, .const (.int v)⟩ → m.types.get ty = .ok (.int bits) →
        m.types.get dest = .ok (.int width) →
        Build.foldCast .zext value dest m = (zeroExtend v bits).map fun w =>
          (some m.nextValue, m.withValue dest (.const (.int (normalizeInt w width))))) ∧
      ∀ (m : Module) (frame : Frame) (s : MachineState) (value : ValueId) (dest : TypeId)
        (target : IrType), m.valueType value = .ok (.int bits) → m.types.get dest = .ok target →
        Exec.intOperand m frame value s = .ok v s →
        Exec.cast m frame .zext value dest s = match zeroExtend v bits with
          | .ok w => .ok (.int (normalizeInt w target.width)) s
          | .error c => .error (.crashed c) s := by
  refine ⟨?_, fun hbits => ?_, fun m value ty dest width hv ht hdest => ?_,
    fun m frame s value dest target hsource hdest hoperand => ?_⟩
  · rw [zeroExtend_eq_error_iff]
    constructor
    · rintro ⟨hwide, hmask⟩
      exact (lowMask_overflows_iff hwide).1 hmask
    · rintro rfl
      exact ⟨by decide, (lowMask_overflows_iff (by decide)).2 rfl⟩
  · obtain ⟨w, hext⟩ := zeroExtend_answers v hbits
    exact ⟨w, hext, toInt_zeroExtend hext, normalizeInt_zeroExtend hext⟩
  · cases hext : zeroExtend v bits with
    | error c => exact Build.foldCast_zext_of_crash hv ht hdest hext
    | ok w => exact Build.foldCast_zext hv ht hdest hext
  · cases hext : zeroExtend v bits with
    | error c => exact Exec.cast_zext_of_crash hdest hsource hoperand hext
    | ok w => exact Exec.cast_zext hdest hsource hoperand hext

/-- A module with minus one at a width of sixty-two bits and five at a width of sixty-three. -/
def Module.twoWidths : Module :=
  { Module.ofTables "widths" [.int 62, .int 63, .int 64] [] with
    values := #[⟨⟨0⟩, .const (.int (-1))⟩, ⟨⟨1⟩, .const (.int 5)⟩] }

/-- The widest mask there is keeps all bits of minus one that it is made for. -/
theorem zero_extension_is_exact_widest :
    zeroExtend (-1) 62 = .ok 0x3fffffffffffffff ∧
      (0x3fffffffffffffff : Int64).toInt = lowBits 62 (-1) ∧
      Build.foldCast .zext ⟨0⟩ ⟨2⟩ Module.twoWidths =
        .ok (some ⟨2⟩, Module.twoWidths.withValue ⟨2⟩ (.const (.int 0x3fffffffffffffff))) ∧
      Exec.cast Module.twoWidths default .zext ⟨0⟩ ⟨2⟩ default =
        .ok (.int 0x3fffffffffffffff) default := by
  obtain ⟨-, hanswers, hfold, hexecute⟩ := zero_extension_is_exact (-1) 62
  obtain ⟨w, hw, hexact, -⟩ := hanswers (by decide)
  obtain rfl : w = 0x3fffffffffffffff := Except.ok.inj (hw.symm.trans (by decide))
  have hfolded := hfold Module.twoWidths ⟨0⟩ ⟨0⟩ ⟨2⟩ 64 rfl rfl rfl
  have hexecuted := hexecute Module.twoWidths default default ⟨0⟩ ⟨2⟩ (.int 64) rfl rfl
    (Exec.intOperand_of_int rfl)
  rw [hw] at hfolded hexecuted
  exact ⟨hw, hexact, hfolded, hexecuted⟩

/-- Five is less than a power of two with sixty-three as its exponent, so it is its own remainder, but
neither zero extension nor the conversion answers. -/
theorem zeroExtend_overflows :
    lowBits 63 (5 : Int64).toInt = 5 ∧ zeroExtend 5 63 = .error .overflow ∧
      Build.foldCast .zext ⟨1⟩ ⟨2⟩ Module.twoWidths = .error .overflow ∧
      Exec.cast Module.twoWidths default .zext ⟨1⟩ ⟨2⟩ default =
        .error (.crashed .overflow) default :=
  ⟨by decide, rfl, rfl, rfl⟩

end ZeroExtension

end SsaCompiler
