/-
# Machine arithmetic and the reference

The operations of the machine on words in normal form give what the reference says about the
integers that the words stand for, at the width of every integer type.
-/

import SsaCompiler.Lower.Arithmetic
import SsaCompiler.Proofs.Scalar.Reference

namespace SsaCompiler

/-- A word stands for an integer in the range of a width. -/
def Denotes (bits : Nat) (w : Int64) (x : Int) : Prop := w.toInt = x ∧ wrapTo bits x = x

namespace Denotes

variable {bits : Nat} {w : Int64} {x : Int}

/-- A word that stands for an integer of a width is in normal form. -/
theorem normal (h : Denotes bits w x) : normalizeInt w bits = w := by
  rw [← Int64.toInt_inj, toInt_normalizeInt, h.1, h.2]

/-- Bringing a word to a width. -/
theorem normalizeInt (w : Int64) (bits : Nat) :
    Denotes bits (SsaCompiler.normalizeInt w bits) (wrapTo bits w.toInt) :=
  ⟨toInt_normalizeInt w bits, wrapTo_wrapTo bits _⟩

/-- The word for an integer is unique. -/
theorem unique {w' : Int64} (h : Denotes bits w x) (h' : Denotes bits w' x) : w = w' :=
  Int64.toInt_inj.1 (h.1.trans h'.1.symm)

end Denotes

/-! ### Operations -/

section Operations

variable {t : ScalarType} {a b : Int64} {x y : Int}

/-- Operations on bits may be carried out on the low bits alone. -/
theorem wrapTo_bitwise {bits : Nat} (hbits : bits ≤ 64) (a b : Int64)
    (f : (n : Nat) → BitVec n → BitVec n → BitVec n)
    (hf : ∀ u v : BitVec 64, (f 64 u v).setWidth bits = f bits (u.setWidth bits) (v.setWidth bits)) :
    wrapTo bits (f bits (BitVec.ofInt bits a.toInt) (BitVec.ofInt bits b.toInt)).toInt =
      wrapTo bits (f 64 a.toBitVec b.toBitVec).toInt := by
  rw [ofInt_toInt a hbits, ofInt_toInt b hbits, ← hf, wrapTo_toInt_setWidth _ hbits]

/-- An operation of the machine is the operation of the reference. -/
theorem evalInt_eq_arithmetic {op : BinaryOp} {bop : BinOp} (hop : op.intOp? = some bop)
    (ha : a.toInt = x) (hb : b.toInt = y) :
    (evalInt bop a b t.bits).map Int64.toInt =
      (Scalar.arithmetic op t.bits x y).map (wrapTo t.bits) := by
  subst ha hb
  have hle := t.bits_le
  have hzero : b = 0 ↔ b.toInt = 0 := by
    rw [← Int64.toInt_inj]
    rfl
  have hshift : ∀ {k : Nat}, k = (b.toInt % t.bits).toNat → k < 64 := by
    rintro k rfl
    have hpos : (0 : Int) < t.bits := by exact_mod_cast t.bits_pos
    have hlt := Int.emod_lt_of_pos b.toInt hpos
    omega
  cases op <;> cases hop
  case add =>
    simp only [evalInt, Scalar.arithmetic, Option.map_some, toInt_normalizeInt]
    rw [Int64.toInt_add, wrapTo_bmod hle]
  case sub =>
    simp only [evalInt, Scalar.arithmetic, Option.map_some, toInt_normalizeInt]
    rw [Int64.toInt_sub, wrapTo_bmod hle]
  case mul =>
    simp only [evalInt, Scalar.arithmetic, Option.map_some, toInt_normalizeInt]
    rw [Int64.toInt_mul, wrapTo_bmod hle]
  case div =>
    simp only [evalInt, Scalar.arithmetic]
    by_cases h : b = 0
    · rw [if_pos h, if_pos (hzero.1 h)]
      rfl
    · rw [if_neg h, if_neg (fun h' => h (hzero.2 h'))]
      simp only [Option.map_some, toInt_normalizeInt]
      rw [Int64.toInt_div, wrapTo_bmod hle]
  case rem =>
    simp only [evalInt, Scalar.arithmetic]
    by_cases h : b = 0
    · rw [if_pos h, if_pos (hzero.1 h)]
      rfl
    · rw [if_neg h, if_neg (fun h' => h (hzero.2 h'))]
      simp only [Option.map_some, toInt_normalizeInt]
      rw [Int64.toInt_mod]
  case bitAnd =>
    simp only [evalInt, Scalar.arithmetic, Option.map_some, toInt_normalizeInt]
    rw [wrapTo_bitwise hle a b (fun _ u v => u &&& v) (fun u v => BitVec.setWidth_and),
      ← Int64.toInt_toBitVec, Int64.toBitVec_and]
  case bitOr =>
    simp only [evalInt, Scalar.arithmetic, Option.map_some, toInt_normalizeInt]
    rw [wrapTo_bitwise hle a b (fun _ u v => u ||| v) (fun u v => BitVec.setWidth_or),
      ← Int64.toInt_toBitVec, Int64.toBitVec_or]
  case bitXor =>
    simp only [evalInt, Scalar.arithmetic, Option.map_some, toInt_normalizeInt]
    rw [wrapTo_bitwise hle a b (fun _ u v => u ^^^ v) (fun u v => BitVec.setWidth_xor),
      ← Int64.toInt_toBitVec, Int64.toBitVec_xor]
  case shl =>
    simp only [evalInt, Scalar.arithmetic, Option.map_some, toInt_normalizeInt]
    unfold shiftAmount
    rw [toNat_shiftAmount b t.bits_dvd, toInt_shiftLeft a (hshift rfl), wrapTo_bmod hle]
  case shr =>
    simp only [evalInt, Scalar.arithmetic, Option.map_some, toInt_normalizeInt]
    unfold shiftAmount
    rw [toNat_shiftAmount b t.bits_dvd, toInt_shiftRight a (hshift rfl)]

theorem evalInt_map_mk {op : BinaryOp} {bop : BinOp} (hop : op.intOp? = some bop)
    (ha : Denotes t.bits a x) (hb : Denotes t.bits b y) :
    (evalInt bop a b t.bits).map (fun w => (⟨t, w.toInt⟩ : Scalar)) =
      (Scalar.arithmetic op t.bits x y).map (Scalar.wrap t) := by
  have heval := congrArg (Option.map (Scalar.mk t)) (evalInt_eq_arithmetic (t := t) hop ha.1 hb.1)
  rw [Option.map_map, Option.map_map] at heval
  exact heval

/-- A comparison of the machine is the comparison of the reference. -/
theorem holds_eq_compares {op : BinaryOp} {pred : IntPredicate}
    (hop : op.intPredicate? = some pred) (ha : a.toInt = x) (hb : b.toInt = y) :
    pred.holds a b = Scalar.compares op x y := by
  subst ha hb
  have heq : (a == b) = decide (a.toInt = b.toInt) := by
    rw [Bool.eq_iff_iff]
    simp [Int64.toInt_inj]
  cases op <;> cases hop <;>
    simp [IntPredicate.holds, Scalar.compares, Int64.lt_iff_toInt_lt, Int64.le_iff_toInt_le,
      heq, bne]

/-! ### Negation of every bit -/

/-- The low bits of an integer say what it is wrapped to. -/
theorem wrapTo_toInt_ofInt (bits : Nat) (x : Int) :
    wrapTo bits (BitVec.ofInt bits x).toInt = wrapTo bits x := by
  rw [BitVec.toInt_ofInt]
  unfold wrapTo
  split
  · rename_i h
    subst h
    rw [Int.bmod_def]
    omega
  · exact Int.bmod_bmod

/-- Wrapping an integer keeps its low bits. -/
theorem ofInt_wrapTo (bits : Nat) (x : Int) :
    BitVec.ofInt bits (wrapTo bits x) = BitVec.ofInt bits x := by
  apply BitVec.eq_of_toInt_eq
  rw [BitVec.toInt_ofInt, BitVec.toInt_ofInt]
  unfold wrapTo
  split
  · rename_i h
    subst h
    rw [Int.bmod_def, Int.bmod_def]
    omega
  · exact Int.bmod_bmod

/-- Changing every bit is negation and one less. -/
theorem wrapTo_xor_ones (bits : Nat) (x : Int) :
    wrapTo bits (BitVec.ofInt bits x ^^^ BitVec.ofInt bits (wrapTo bits (-1))).toInt =
      wrapTo bits (-x - 1) := by
  have hones : BitVec.ofInt bits (-1) = BitVec.allOnes bits := by
    rw [BitVec.ofInt_neg, ← BitVec.neg_one_eq_allOnes]
    rfl
  have hnot : ~~~ BitVec.ofInt bits x = BitVec.ofInt bits (-x - 1) := by
    rw [BitVec.not_eq_neg_add, Int.sub_eq_add_neg, BitVec.ofInt_add, BitVec.ofInt_neg,
      BitVec.ofInt_neg, BitVec.sub_eq_add_neg]
    rfl
  rw [ofInt_wrapTo, hones, BitVec.xor_allOnes, hnot, wrapTo_toInt_ofInt]

end Operations

end SsaCompiler
