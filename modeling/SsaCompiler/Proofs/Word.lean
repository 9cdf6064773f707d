/-
# Words as integers

The operations on words compute modulo a power of two and bring the result back to a normal
form. This module says what they do in terms of the integers that the words stand for: the
normal form of a width is the remainder in the range of that width, and every operation is
the operation on integers, followed by that remainder.
-/

import SsaCompiler.Ir.Opcode
import Mathlib.Tactic

namespace SsaCompiler

/-! ### The range of a width -/

/-- The remainder of an integer in the range of a width. One bit is unsigned, every other
width is signed. -/
def wrapTo (bits : Nat) (x : Int) : Int := if bits = 1 then x % 2 else x.bmod (2 ^ bits)

/-- Wrapping to the word size first changes nothing for a narrower width. -/
theorem wrapTo_bmod {bits : Nat} (hbits : bits ≤ 64) (x : Int) :
    wrapTo bits (x.bmod (2 ^ 64)) = wrapTo bits x := by
  unfold wrapTo
  split
  · have hmod : x.bmod (2 ^ 64) % ((2 ^ 64 : Nat) : Int) = x % ((2 ^ 64 : Nat) : Int) :=
      Int.bmod_emod
    generalize x.bmod (2 ^ 64) = y at *
    norm_num at hmod
    omega
  · exact Int.bmod_bmod_of_dvd (pow_dvd_pow 2 hbits)

/-- Wrapping twice is wrapping once. -/
@[simp]
theorem wrapTo_wrapTo (bits : Nat) (x : Int) : wrapTo bits (wrapTo bits x) = wrapTo bits x := by
  unfold wrapTo
  split
  · omega
  · exact Int.bmod_bmod

/-- Zero is in the range of every width. -/
@[simp]
theorem wrapTo_zero (bits : Nat) : wrapTo bits 0 = 0 := by
  unfold wrapTo
  split <;> simp

/-! ### The normal form -/

/-- Moving a word up and back down keeps the low bits and repeats the highest of them. -/
theorem toInt_shiftLeft_shiftRight (v : Int64) {bits : Nat} (hlow : 2 ≤ bits)
    (hhigh : bits < 64) :
    ((v <<< Int64.ofNat (64 - bits)) >>> Int64.ofNat (64 - bits)).toInt =
      v.toInt.bmod (2 ^ bits) := by
  have hshift : ((BitVec.ofNat 64 (64 - bits)).smod 64#64).toNat = 64 - bits := by
    interval_cases bits <;> decide
  have hsplit : 2 ^ 64 = 2 ^ (64 - bits) * 2 ^ bits := by
    rw [← pow_add, Nat.sub_add_cancel hhigh.le]
  have hmul := Int.mod_bmod_mul_of_pos (v.toBitVec.toNat : Int) (2 ^ bits)
    (show 0 < 2 ^ (64 - bits) by positivity) (dvd_pow_self 2 (by omega))
  have hkept : (v.toBitVec.toNat : Int).bmod (2 ^ bits) = v.toInt.bmod (2 ^ bits) := by
    rw [← Int64.toInt_toBitVec, BitVec.toInt_eq_toNat_bmod]
    exact (Int.bmod_bmod_of_dvd (pow_dvd_pow 2 hhigh.le)).symm
  rw [← Int64.toInt_toBitVec, Int64.toBitVec_shiftRight, Int64.toBitVec_shiftLeft]
  simp only [BitVec.shiftLeft_eq', BitVec.toInt_sshiftRight', BitVec.toInt_shiftLeft,
    Int64.toBitVec_ofNat', BitVec.ofNat_eq_ofNat, hshift]
  rw [Nat.shiftLeft_eq, Nat.mul_comm, hsplit, Nat.cast_mul, hmul, hkept,
    Int.shiftRight_eq_div_pow]
  exact Int.mul_ediv_cancel_left _ (by positivity)

/-- The lowest bit of a word is its parity. -/
theorem toInt_and_one (v : Int64) : (v &&& 1).toInt = v.toInt % 2 := by
  have hand : (v &&& 1).toBitVec.toNat = v.toBitVec.toNat % 2 := by
    simp [Nat.and_one_is_mod]
  have hsmall : (v &&& 1).toInt = ((v &&& 1).toBitVec.toNat : Int) := by
    rw [← Int64.toInt_toBitVec, BitVec.toInt_eq_toNat_cond, if_pos (by omega)]
  have hparity : v.toInt % 2 = (v.toBitVec.toNat : Int) % 2 := by
    rw [← Int64.toInt_toBitVec, BitVec.toInt_eq_toNat_cond]
    split <;> omega
  omega

/-- A word is in the range of every width from its own on. -/
theorem bmod_toInt_of_wide (v : Int64) {bits : Nat} (hbits : 64 ≤ bits) :
    v.toInt.bmod (2 ^ bits) = v.toInt := by
  have hpow : 2 ^ 64 ≤ 2 ^ bits := Nat.pow_le_pow_right (by omega) hbits
  have hlow := v.le_toInt
  have hhigh := v.toInt_lt
  refine Int.bmod_eq_of_le_mul_two ?_ ?_ <;> omega

/-- The normal form of a width is the remainder in the range of that width. -/
theorem toInt_normalizeInt (v : Int64) (bits : Nat) :
    (normalizeInt v bits).toInt = wrapTo bits v.toInt := by
  unfold normalizeInt wrapTo
  split_ifs with hzero hone hone' hwide
  · omega
  · subst hzero
    simp
  · exact toInt_and_one v
  · exact (bmod_toInt_of_wide v hwide).symm
  · exact toInt_shiftLeft_shiftRight v (by omega) (by omega)

/-- Words are told apart by their integers, so normal forms are found on integers. -/
theorem normalizeInt_eq_self_iff {v : Int64} {bits : Nat} :
    normalizeInt v bits = v ↔ wrapTo bits v.toInt = v.toInt := by
  rw [← Int64.toInt_inj, toInt_normalizeInt]

/-- A normal form is its own normal form. -/
@[simp]
theorem normalizeInt_normalizeInt (v : Int64) (bits : Nat) :
    normalizeInt (normalizeInt v bits) bits = normalizeInt v bits := by
  rw [normalizeInt_eq_self_iff, toInt_normalizeInt, wrapTo_wrapTo]

/-- Zero is a normal form of every width. -/
@[simp]
theorem normalizeInt_zero (bits : Nat) : normalizeInt 0 bits = 0 := by
  rw [normalizeInt_eq_self_iff]
  exact wrapTo_zero bits

/-- Every operation answers with a normal form. -/
theorem normalizeInt_of_evalInt {op : BinOp} {a b r : Int64} {bits : Nat}
    (heval : evalInt op a b bits = some r) : normalizeInt r bits = r := by
  cases op <;> simp only [evalInt, reduceCtorEq, Option.some.injEq] at heval
  case sdiv | srem =>
    split at heval
    · exact absurd heval (by simp)
    · rw [← Option.some.inj heval, normalizeInt_normalizeInt]
  all_goals rw [← heval, normalizeInt_normalizeInt]

/-- An operation on integers fails exactly when it divides by zero. -/
theorem evalInt_eq_none_iff {op : BinOp} (hop : op.isFloat = false) (a b : Int64) (bits : Nat) :
    evalInt op a b bits = none ↔ (op = .sdiv ∨ op = .srem) ∧ b = 0 := by
  cases op <;> simp_all [evalInt, BinOp.isFloat]

/-! ### Zero extension -/

/-- The mask of the low bits of a word has exactly these bits. -/
theorem toNat_lowMask {bits : Nat} (hbits : bits < 63) :
    ((1 <<< Int64.ofNat bits) - 1 : Int64).toBitVec.toNat = 2 ^ bits - 1 := by
  interval_cases bits <;> decide

/-- What a width keeps of a word can be read off the unsigned number as well. -/
theorem wrapTo_toInt (v : Int64) {bits : Nat} (hbits : bits ≤ 64) :
    wrapTo bits v.toInt = wrapTo bits v.toBitVec.toNat := by
  rw [← Int64.toInt_toBitVec, BitVec.toInt_eq_toNat_bmod]
  exact wrapTo_bmod hbits _

/-- Only the low bits of a number count for a width. -/
theorem wrapTo_mod (bits n : Nat) : wrapTo bits ((n % 2 ^ bits : Nat) : Int) = wrapTo bits n := by
  unfold wrapTo
  split
  case isTrue hone =>
    subst hone
    omega
  case isFalse => exact_mod_cast Int.emod_bmod (n : Int) (2 ^ bits)

/-- The low bits of a word are an unsigned number, except at the width that overflows. -/
theorem zeroExtend_answers (v : Int64) {bits : Nat} (hbits : bits ≠ 63) :
    ∃ w, zeroExtend v bits = .ok w := by
  unfold zeroExtend
  by_cases hwide : bits ≥ 64
  · exact ⟨v, if_pos hwide⟩
  · exact ⟨_, (if_neg hwide).trans (if_neg hbits)⟩

/-- Zero extension keeps the low bits of a word and clears the others. -/
theorem toNat_zeroExtend {v w : Int64} {bits : Nat} (hext : zeroExtend v bits = .ok w)
    (hbits : bits < 64) : w.toBitVec.toNat = v.toBitVec.toNat % 2 ^ bits := by
  unfold zeroExtend at hext
  split_ifs at hext with hwide htop
  · omega
  · rw [← Except.ok.inj hext, Int64.toBitVec_and, BitVec.toNat_and,
      toNat_lowMask (by omega), Nat.and_two_pow_sub_one_eq_mod]

/-- Taking the low bits as an unsigned number and going back to the normal form of the same
width is going to the normal form. -/
theorem normalizeInt_zeroExtend {v w : Int64} {bits : Nat} (hext : zeroExtend v bits = .ok w) :
    normalizeInt w bits = normalizeInt v bits := by
  by_cases hbits : bits < 64
  · rw [← Int64.toInt_inj, toInt_normalizeInt, toInt_normalizeInt, wrapTo_toInt w hbits.le,
      wrapTo_toInt v hbits.le, toNat_zeroExtend hext hbits, wrapTo_mod]
  · rw [zeroExtend, if_pos (by omega)] at hext
    rw [Except.ok.inj hext]

/-! ### Bit patterns and shifts -/

/-- The low bits of an integer that a word stands for are the low bits of the word. -/
theorem ofInt_toInt (v : Int64) {bits : Nat} (hbits : bits ≤ 64) :
    BitVec.ofInt bits v.toInt = v.toBitVec.setWidth bits := by
  apply BitVec.eq_of_toInt_eq
  rw [BitVec.toInt_ofInt, ← Int64.toInt_toBitVec, BitVec.toInt_setWidth,
    BitVec.toInt_eq_toNat_bmod]
  exact Int.bmod_bmod_of_dvd (pow_dvd_pow 2 hbits)

/-- What a width keeps of a word is decided by the low bits of the word. -/
theorem wrapTo_toInt_setWidth (v : BitVec 64) {bits : Nat} (hbits : bits ≤ 64) :
    wrapTo bits (v.setWidth bits).toInt = wrapTo bits v.toInt := by
  have hlow : wrapTo bits v.toInt = wrapTo bits v.toNat := by
    rw [BitVec.toInt_eq_toNat_bmod]
    exact wrapTo_bmod hbits _
  rw [hlow, BitVec.toInt_setWidth]
  unfold wrapTo
  split
  case isTrue hone =>
    subst hone
    have hmod : (v.toNat : Int).bmod (2 ^ 1) % ((2 ^ 1 : Nat) : Int) = v.toNat % ((2 ^ 1 : Nat) : Int) :=
      Int.bmod_emod
    simpa using hmod
  case isFalse => exact Int.bmod_bmod

/-- A shift moves by the remainder of its amount modulo the width, for the widths that
divide the word size. -/
theorem toNat_shiftAmount (b : Int64) {bits : Nat} (hbits : bits ∣ 64) :
    b.toUInt64.toUInt32.toNat % max bits 1 % 64 = (b.toInt % bits).toNat := by
  have hpos : 0 < bits := Nat.pos_of_dvd_of_pos hbits (by decide)
  have hle : bits ≤ 64 := Nat.le_of_dvd (by decide) hbits
  have hhalf : b.toUInt64.toUInt32.toNat = b.toBitVec.toNat % 2 ^ 32 := by
    simp
    rfl
  have hint : b.toInt % bits = ((b.toBitVec.toNat % bits : Nat) : Int) := by
    rw [← Int64.toInt_toBitVec, BitVec.toInt_eq_toNat_cond]
    split
    · simp
    · have hdvd : (bits : Int) ∣ ((2 ^ 64 : Nat) : Int) := by
        exact_mod_cast hbits.trans (by decide)
      rw [Int.sub_emod, Int.emod_eq_zero_of_dvd hdvd]
      simp
  have hlow : b.toBitVec.toNat % 2 ^ 32 % bits = b.toBitVec.toNat % bits :=
    Nat.mod_mod_of_dvd _ (hbits.trans (by decide))
  have hlt := Nat.mod_lt b.toBitVec.toNat hpos
  rw [hhalf, Nat.max_eq_left hpos, hlow, hint, Int.toNat_natCast, Nat.mod_eq_of_lt (by omega)]

/-- A shift by a small amount moves the bits of the word by that amount. -/
theorem toNat_smod_ofNat {k : Nat} (hk : k < 64) :
    ((Int64.ofNat k).toBitVec.smod 64#64).toNat = k := by
  interval_cases k <;> decide

/-- Shifting to the left is multiplication by a power of two. -/
theorem toInt_shiftLeft (a : Int64) {k : Nat} (hk : k < 64) :
    (a <<< Int64.ofNat k).toInt = (a.toInt * 2 ^ k).bmod (2 ^ 64) := by
  rw [← Int64.toInt_toBitVec, Int64.toBitVec_shiftLeft, BitVec.shiftLeft_eq',
    BitVec.toInt_shiftLeft]
  rw [show (64 : BitVec 64) = 64#64 from rfl, toNat_smod_ofNat hk, Nat.shiftLeft_eq,
    ← Int64.toInt_toBitVec, BitVec.toInt_eq_toNat_bmod]
  rw [Int.bmod_mul_bmod]
  push_cast
  rfl

/-- Shifting to the right is division by a power of two, rounding down. -/
theorem toInt_shiftRight (a : Int64) {k : Nat} (hk : k < 64) :
    (a >>> Int64.ofNat k).toInt = a.toInt / 2 ^ k := by
  rw [← Int64.toInt_toBitVec, Int64.toBitVec_shiftRight, BitVec.toInt_sshiftRight']
  rw [show (64 : BitVec 64) = 64#64 from rfl, toNat_smod_ofNat hk, Int.shiftRight_eq_div_pow]
  push_cast
  rfl

end SsaCompiler
