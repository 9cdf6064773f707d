/-
# What lowering asks of the module

Lowering puts its requests together from those of the builder: types, literals, conversions, the
signatures of support functions and the ends of functions. None of them gives a structure its body,
so types stay what they are while expressions and statements are lowered. None of them declares a
function or goes on in another block either, except that a support function is declared on first use.
-/

import SsaCompiler.Lower.Atom
import SsaCompiler.Lower.Callable
import SsaCompiler.Lower.DynamicArray
import SsaCompiler.Lower.Exception
import SsaCompiler.Proofs.Ir.Preserved
import SsaCompiler.Proofs.Ir.Session

namespace SsaCompiler

open Build Lower SsaCompiler.Module

/-! ### Requests that move the module -/

section

variable {R : Module → Module → Prop} [IsPreorder Module R] [Allows R .plain]

/-! #### Types -/

instance (p : PrimType) : Moves R p.lower := by
  cases p <;> unfold PrimType.lower <;> infer_instance

instance (ty : TypeId) : Moves R (pointee? ty) := by
  unfold pointee?
  infer_instance

instance : Moves R bytePointer := by
  unfold bytePointer
  infer_instance

instance (ty : TypeId) : Moves R (allocationSize ty) := by
  unfold allocationSize
  infer_instance

instance (p : ParamSig) : Moves R (paramType p) := by
  unfold paramType
  infer_instance

instance (params : List ParamSig) : Moves R (paramTypes params) := by
  induction params with
  | nil =>
      unfold paramTypes
      infer_instance
  | cons p rest ih =>
      unfold paramTypes
      infer_instance

instance (thisTy : Option TypeId) (sig : CallableSig) : Moves R (callableType thisTy sig) := by
  unfold callableType
  cases thisTy <;> infer_instance

instance (op : Operand) : Moves R op.ty := by
  unfold Operand.ty
  infer_instance

instance (ops : List Operand) : Moves R (operandTypes ops) := by
  induction ops with
  | nil =>
      unfold operandTypes
      infer_instance
  | cons op rest ih =>
      unfold operandTypes
      infer_instance

/-! #### Values -/

instance (value : Int64) : Moves R (constLong value) := by
  unfold constLong
  infer_instance

instance (value : Int64) : Moves R (constWord value) := by
  unfold constWord
  infer_instance

instance (value : Int64) : Moves R (intLiteral value) := by
  unfold intLiteral
  infer_instance

instance (value : Double) : Moves R (floatLiteral value) := by
  unfold floatLiteral
  infer_instance

instance (value : Bool) : Moves R (boolLiteral value) := by
  unfold boolLiteral
  infer_instance

instance (value : UInt8) : Moves R (charLiteral value) := by
  unfold charLiteral
  infer_instance

instance : Moves R nullLiteral := by
  unfold nullLiteral
  infer_instance

instance (value : ValueId) : Moves R (isNullConstant value) := by
  unfold isNullConstant
  infer_instance

instance [Allows R (.code .flat)] (value : ValueId) (dest : TypeId) :
    Moves R (convert value dest) := by
  unfold convert
  refine .bind fun _ => ?_
  split
  · infer_instance
  · refine .bind fun _ => .bind fun _ => ?_
    split <;> infer_instance

instance (value : ValueId) (source target : IrType) : Moves R (isImplicit value source target) := by
  unfold isImplicit
  infer_instance

instance (lty rty : TypeId) : Moves R (commonType lty rty) := by
  unfold commonType
  refine .bind fun _ => .bind fun _ => ?_
  split <;> infer_instance

instance [Allows R (.code .flat)] (l r : ValueId) : Moves R (unifyNumeric l r) := by
  unfold unifyNumeric
  infer_instance

instance [Allows R (.code .flat)] (pred : IntPredicate) (l r : ValueId) :
    Moves R (pointerCompare pred l r) := by
  unfold pointerCompare
  infer_instance

/-! #### Functions -/

instance [Allows R .ending] (f : FunctionState) : Moves R (defaultReturn f) := by
  unfold defaultReturn
  infer_instance

instance (f : SupportFunction) : Moves R f.signature := by
  unfold SupportFunction.signature
  refine .bind fun _ => .bind fun _ => .bind fun _ => .bind fun _ => .bind fun _ =>
    .bind fun _ => ?_
  split <;> infer_instance

instance [Allows R .declaration] (t : SupportTable) (f : SupportFunction) : Moves R (t.get f) := by
  unfold SupportTable.get
  split <;> infer_instance

instance (t : ThrowableTable) (ty : TypeId) (label : String) : Moves R (t.descriptor ty label) := by
  unfold ThrowableTable.descriptor
  split
  · infer_instance
  · constructor
    intro m d m' h
    obtain ⟨byte, m₁, hbyte, h⟩ := bind_eq_ok_iff.1 h
    obtain ⟨bytes, m₂, hbytes, h⟩ := bind_eq_ok_iff.1 h
    obtain ⟨long, m₃, hlong, h⟩ := bind_eq_ok_iff.1 h
    obtain ⟨record, m₄, hrecord, h⟩ := bind_eq_ok_iff.1 h
    have hparts : ∀ p ∈ [long, bytes], m₃.types.Has p := by
      intro p hp
      rcases List.mem_pair.1 hp with rfl | rfl
      · exact has_of_internType hlong
      · exact (evolves hlong).types.has (has_of_internType hbytes)
    exact trans_of R (Moves.run hbyte) (trans_of R (Moves.run hbytes) (trans_of R (Moves.run hlong)
      (trans_of R (moves_of_internType hrecord hparts) (Moves.run h))))

end

instance (B : Set BlockId) (f : FunctionState) : SendsTo B (defaultReturn f) := by
  unfold defaultReturn
  infer_instance

/-! ### The function that appends to a dynamic array -/

namespace DynamicArray

variable {R : Module → Module → Prop} [IsPreorder Module R] [Allows R .plain] [Allows R (.code .flat)]
  [Allows R .ending] [Allows R .position]

instance [Allows R .block] (f : FunctionId) : Moves R (appendBlocks f) := by
  unfold appendBlocks
  refine .bind fun _ => .bind fun _ => .bind fun _ => .bind fun _ => .bind fun _ =>
    .bind fun _ => ?_
  infer_instance

instance [Allows R (.code .slot)] (f : FunctionId) (long : TypeId) (b : AppendBlocks) :
    Moves R (appendEntry f long b) := by
  unfold appendEntry
  refine .bind fun _ => .bind fun _ => .bind fun _ => .bind fun _ => .bind fun _ =>
    .bind fun _ => ?_
  infer_instance

instance [Allows R (.code .choice)] (long : TypeId) (b : AppendBlocks) (v : AppendValues) :
    Moves R (newCapacity long b v) := by
  unfold newCapacity
  refine .bind fun _ => .bind fun _ => .bind fun _ => .bind fun _ => .bind fun _ =>
    .bind fun _ => ?_
  infer_instance

instance (b : AppendBlocks) (v : AppendValues) (newData oldData : ValueId) :
    Moves R (copyElements b v newData oldData) := by
  unfold copyElements
  refine .bind fun _ => .bind fun _ => .bind fun _ => .bind fun _ => .bind fun _ => .bind fun _ =>
    .bind fun _ => .bind fun _ => ?_
  infer_instance

instance (b : AppendBlocks) (v : AppendValues) : Moves R (storeElement b v) := by
  unfold storeElement
  infer_instance

end DynamicArray

end SsaCompiler
