/-
# Folding agrees with execution

An operation on constants is carried out while a module is built, by code that has nothing
to do with the machine. This module compares the two: a constant that stands in for an
instruction has the value that the machine would have computed for the instruction, and an
integer operation that is left to the machine is one that fails there.

The operands are constants as a module holds them: integers in the normal form of their
width, null pointers, and the addresses of globals and functions.
-/

import SsaCompiler.Proofs.Ir.Request
import SsaCompiler.Proofs.Machine.Instruction
import SsaCompiler.Proofs.Word

namespace SsaCompiler

/-! ### Constants as operands -/

/-- The origins of pointer constants. -/
def ValueDef.IsAddress (origin : ValueDef) : Prop :=
  origin = .const .null ∨ (∃ index, origin = .global index) ∨ ∃ f, origin = .function f

/-- An address is known without running anything. -/
theorem ValueDef.isConstant_of_address {origin : ValueDef} (h : origin.IsAddress) :
    origin.isConstant = true := by
  rcases h with rfl | ⟨index, rfl⟩ | ⟨f, rfl⟩ <;> rfl

namespace Module

/-- A value is a constant of a type: an integer in normal form, or an address. -/
inductive Settled (m : Module) (v : ValueId) : IrType → Prop where
  | word {ty : TypeId} {bits : Nat} {i : Int64}
      (hvalue : m.value v = .ok ⟨ty, .const (.int i)⟩) (htype : m.types.get ty = .ok (.int bits))
      (hnormal : normalizeInt i bits = i) : Settled m v (.int bits)
  | null {ty pointee : TypeId}
      (hvalue : m.value v = .ok ⟨ty, .const .null⟩)
      (htype : m.types.get ty = .ok (.pointer pointee)) : Settled m v (.pointer pointee)
  | global {ty pointee : TypeId} {index : Nat}
      (hvalue : m.value v = .ok ⟨ty, .global index⟩)
      (htype : m.types.get ty = .ok (.pointer pointee)) : Settled m v (.pointer pointee)
  | function {ty pointee : TypeId} {f : FunctionId}
      (hvalue : m.value v = .ok ⟨ty, .function f⟩)
      (htype : m.types.get ty = .ok (.pointer pointee)) : Settled m v (.pointer pointee)

/-- A constant is a value, and its type is in the table. -/
theorem Settled.value {m : Module} {v : ValueId} {t : IrType} (h : m.Settled v t) :
    ∃ d, m.value v = .ok d ∧ m.types.get d.ty = .ok t := by
  cases h with
  | word hvalue htype | null hvalue htype | global hvalue htype | function hvalue htype =>
      exact ⟨_, hvalue, htype⟩

/-- A constant stays what it is when a value is added. -/
theorem Settled.withValue {m : Module} {v : ValueId} {t : IrType} (h : m.Settled v t)
    (ty : TypeId) (origin : ValueDef) : (m.withValue ty origin).Settled v t := by
  cases h with
  | word hvalue htype hnormal => exact .word (value_withValue _ _ hvalue) htype hnormal
  | null hvalue htype => exact .null (value_withValue _ _ hvalue) htype
  | global hvalue htype => exact .global (value_withValue _ _ hvalue) htype
  | function hvalue htype => exact .function (value_withValue _ _ hvalue) htype

/-- A constant keeps its value when a value is added. -/
theorem Settled.constantVal_withValue {m : Module} {v : ValueId} {t : IrType}
    (h : m.Settled v t) (ty : TypeId) (origin : ValueDef) (globals : Array UInt64) :
    (m.withValue ty origin).constantVal globals v = m.constantVal globals v := by
  cases h with
  | word hvalue =>
      rw [constantVal_int _ hvalue, constantVal_int _ (value_withValue _ _ hvalue)]
  | null hvalue =>
      rw [constantVal_null _ hvalue, constantVal_null _ (value_withValue _ _ hvalue)]
  | global hvalue =>
      rw [constantVal_global _ hvalue, constantVal_global _ (value_withValue _ _ hvalue)]
  | function hvalue =>
      rw [constantVal_function _ hvalue, constantVal_function _ (value_withValue _ _ hvalue)]

/-- A pointer constant is a null pointer, or the address of a global or a function. -/
theorem Settled.address {m : Module} {v : ValueId} {pointee : TypeId} {d : ValueData}
    (h : m.Settled v (.pointer pointee)) (hd : m.value v = .ok d) : d.origin.IsAddress := by
  cases h with
  | null hvalue => exact Except.ok.inj (hd.symm.trans hvalue) ▸ .inl rfl
  | @global _ _ index hvalue =>
      exact Except.ok.inj (hd.symm.trans hvalue) ▸ .inr (.inl ⟨index, rfl⟩)
  | @function _ _ f hvalue =>
      exact Except.ok.inj (hd.symm.trans hvalue) ▸ .inr (.inr ⟨f, rfl⟩)

/-- The value of an address does not depend on its type, nor on the module around it. -/
theorem constantVal_of_address {m m' : Module} {v v' : ValueId} {ty ty' : TypeId}
    {origin : ValueDef} (hv : m.value v = .ok ⟨ty, origin⟩) (hv' : m'.value v' = .ok ⟨ty', origin⟩)
    (haddress : origin.IsAddress) (globals : Array UInt64) :
    m.constantVal globals v = m'.constantVal globals v' := by
  rcases haddress with rfl | ⟨index, rfl⟩ | ⟨f, rfl⟩
  · rw [constantVal_null _ hv, constantVal_null _ hv']
  · rw [constantVal_global _ hv, constantVal_global _ hv']
  · rw [constantVal_function _ hv, constantVal_function _ hv']

end Module

/-! ### Requests on constants -/

/-- A request that is carried out at once if its operands allow it. -/
inductive FoldRequest where
  | binary (op : BinOp) (lhs rhs : ValueId)
  | icmp (pred : IntPredicate) (lhs rhs : ValueId)
  | cast (op : CastOp) (value : ValueId) (dest : TypeId)

/-- The conversions between integers and pointers, with the types they convert between.
Taking one more than the low sixty-two bits of a word as an unsigned number crashes. -/
def CastOp.Converts : CastOp → IrType → IrType → Prop
  | trunc, .int _, .int _ | sext, .int _, .int _ => True
  | zext, .int bits, .int _ => bits ≠ 63
  | ptrtoint, .pointer _, .int _ | inttoptr, .int _, .pointer _ => True
  | bitcast, .pointer _, .pointer _ => True
  | _, _, _ => False

namespace FoldRequest

/-- The request to the module. -/
def build : FoldRequest → Build ValueId
  | binary op lhs rhs => Build.binary op lhs rhs
  | icmp pred lhs rhs => Build.icmp pred lhs rhs
  | cast op value dest => Build.cast op value dest

/-- The instruction that is recorded when the request is not carried out. -/
def instr : FoldRequest → Instr
  | binary op lhs rhs => .binary op lhs rhs
  | icmp pred lhs rhs => .icmp pred lhs rhs
  | cast op value _ => .cast op value

/-- The operands are constants, and of types that the request is meant for. -/
def Fits (m : Module) : FoldRequest → Prop
  | binary op lhs rhs => op.isFloat = false ∧ m.typeOf lhs = m.typeOf rhs ∧
      ∃ bits, m.Settled lhs (.int bits) ∧ m.Settled rhs (.int bits)
  | icmp _ lhs rhs => (∃ t, m.Settled lhs t) ∧ ∃ t, m.Settled rhs t
  | cast op value dest => ∃ source target, m.Settled value source ∧
      m.types.get dest = .ok target ∧ op.Converts source target

/-- A type that the recorded instruction may have. Only a conversion looks at it. -/
def HasType (ty : TypeId) : FoldRequest → Prop
  | cast _ _ dest => ty = dest
  | binary .. | icmp .. => True

end FoldRequest

/-- What the machine makes of an instruction that a constant stands in for: the frame in
which the instruction has the value of the constant. -/
def Exec.bound (frame : Frame) (id : ValueId) (c : Fallible Val) (s : MachineState) :
    EStateM.Result Stop MachineState Frame :=
  match c with
  | .ok v => .ok (frame.bind id v) s
  | .error f => .error (.ofFault f) s

/-! ### Looking at constants -/

/-- The module in which a truth value has been made a constant. -/
def Module.withTruth (m : Module) (b : Bool) : Module :=
  (m.withType (.int 1)).withValue (m.types.intern (.int 1)).1
    (.const (.int (Build.truthWord b)))

namespace Exec

variable {m : Module} {v : ValueId} {ty : TypeId} {frame : Frame} {s : MachineState}

/-- The machine finds the integer that a constant is. -/
theorem intOperand_of_int {i : Int64} (hv : m.value v = .ok ⟨ty, .const (.int i)⟩) :
    intOperand m frame v s = .ok i s :=
  intOperand_of_ok ((Frame.operand_of_constant hv rfl _ _).trans (Module.constantVal_int _ hv)) rfl

/-- As an integer, a null pointer is zero. -/
theorem intOperand_of_null (hv : m.value v = .ok ⟨ty, .const .null⟩) :
    intOperand m frame v s = .ok 0 s :=
  intOperand_of_ok ((Frame.operand_of_constant hv rfl _ _).trans (Module.constantVal_null _ hv)) rfl

/-- As an address, a null pointer is zero. -/
theorem ptrOperand_of_null (hv : m.value v = .ok ⟨ty, .const .null⟩) :
    ptrOperand m frame v s = .ok 0 s :=
  ptrOperand_of_ok ((Frame.operand_of_constant hv rfl _ _).trans (Module.constantVal_null _ hv)) rfl

end Exec

namespace Build

variable {m : Module} {v : ValueId} {ty : TypeId} {t : IrType}

/-- A request for an instruction answers with a new value, wherever the instruction went. -/
theorem values_of_pushInstr {i : Instr} {m' : Module} (hrun : pushInstr ty i m = .ok (v, m')) :
    v = m.nextValue ∧ m'.values = (m.withValue ty (.instr i)).values ∧ m'.types = m.types := by
  rw [pushInstr_run] at hrun
  split at hrun
  · cases hrun
    exact ⟨rfl, rfl, rfl⟩
  · cases hrun
    exact ⟨rfl, rfl, rfl⟩
  · cases hrun
    exact ⟨rfl, rfl, rfl⟩
  · cases hrun

/-- What a request for an instruction answers with is the instruction. -/
theorem value_of_pushInstr {i : Instr} {m' : Module} (hrun : pushInstr ty i m = .ok (v, m')) :
    m'.value v = .ok ⟨ty, .instr i⟩ := by
  obtain ⟨rfl, hvalues, -⟩ := values_of_pushInstr hrun
  unfold Module.value
  rw [hvalues]
  exact Module.value_withValue_nextValue m ty (.instr i)

/-- A request for an instruction leaves the older values alone. -/
theorem value_of_pushInstr_of_ok {i : Instr} {m' : Module} {w : ValueId} {d : ValueData}
    (hrun : pushInstr ty i m = .ok (v, m')) (hw : m.value w = .ok d) : m'.value w = .ok d := by
  obtain ⟨-, hvalues, -⟩ := values_of_pushInstr hrun
  unfold Module.value
  rw [hvalues]
  exact Module.value_withValue ty (.instr i) hw

/-- An instruction is not known before it runs. -/
theorem isConstant_of_pushInstr {i : Instr} {m' : Module}
    (hrun : pushInstr ty i m = .ok (v, m')) : m'.isConstant v = .ok false :=
  Module.isConstant_of_value (value_of_pushInstr hrun)

/-- An integer constant is recognised with its width. -/
theorem intConst?_of_int {i : Int64} {bits : Nat} (hv : m.value v = .ok ⟨ty, .const (.int i)⟩)
    (ht : m.types.get ty = .ok (.int bits)) : intConst? v m = .ok (some (i, bits), m) := by
  unfold intConst?
  rw [bind_of_ok (ask_of_ok hv), bind_of_ok (typeAt_of_ok ht)]
  rfl

/-- An address is no integer constant. -/
theorem intConst?_of_address {origin : ValueDef} (hv : m.value v = .ok ⟨ty, origin⟩)
    (ht : m.types.get ty = .ok t) (hint : ∀ i, origin ≠ .const (.int i)) :
    intConst? v m = .ok (none, m) := by
  unfold intConst?
  rw [bind_of_ok (ask_of_ok hv), bind_of_ok (typeAt_of_ok ht)]
  cases origin with
  | const c => cases c <;> first | rfl | exact absurd rfl (hint _)
  | _ => rfl

/-- Whatever a value is, it can be asked whether it is an integer constant. -/
theorem intConst?_answers {d : ValueData} (hv : m.value v = .ok d)
    (ht : m.types.get d.ty = .ok t) : ∃ c, intConst? v m = .ok (c, m) := by
  unfold intConst?
  rw [bind_of_ok (ask_of_ok hv), bind_of_ok (typeAt_of_ok ht)]
  obtain ⟨ty, origin⟩ := d
  cases origin with
  | const c => cases c <;> cases t <;> exact ⟨_, rfl⟩
  | _ => exact ⟨_, rfl⟩

/-- Whether a value is a null pointer follows from where it comes from. -/
theorem isNullConst_run {d : ValueData} (hv : m.value v = .ok d) :
    isNullConst v m = .ok (d.origin == .const .null, m) := bind_of_ok (ask_of_ok hv)

/-- A truth value is a normal form of one bit. -/
@[simp]
theorem normalizeInt_truthWord (b : Bool) : normalizeInt (truthWord b) 1 = truthWord b := by
  cases b <;> decide

/-- A truth value is answered as a constant. -/
theorem constTruth_run (m : Module) (b : Bool) :
    (do return some (← constInt (← intType 1) (truthWord b)) : Build (Option ValueId)) m =
      .ok (some m.nextValue, m.withTruth b) := by
  refine (bind_of_ok (internType_run (.int 1) rfl m)).trans ?_
  rw [bind_of_ok (constInt_run (Module.get_intern _ _) _), normalizeInt_truthWord]
  rfl

end Build

/-! ### Operations -/

section Operations

variable {m m' : Module} {lhs rhs v : ValueId} {ty ty' : TypeId} {a b : Int64} {bits : Nat}
  {op : BinOp}

/-- An operation on integer constants that has a result is that result. -/
theorem Build.binary_of_evalInt {r : Int64} (hop : op.isFloat = false)
    (hl : m.value lhs = .ok ⟨ty, .const (.int a)⟩) (hlt : m.types.get ty = .ok (.int bits))
    (hr : m.value rhs = .ok ⟨ty', .const (.int b)⟩) (hrt : m.types.get ty' = .ok (.int bits))
    (heval : evalInt op a b bits = some r) :
    Build.binary op lhs rhs m = .ok (m.nextValue, m.withValue ty (.const (.int r))) := by
  have hfold : Build.foldBinary op lhs rhs m =
      .ok (some m.nextValue, m.withValue ty (.const (.int r))) := by
    unfold Build.foldBinary
    rw [bind_of_ok (Build.typeOf_of_ok hl), hop]
    simp only [Bool.false_eq_true, ↓reduceIte]
    rw [bind_of_ok (Build.intConst?_of_int hl hlt), bind_of_ok (Build.intConst?_of_int hr hrt)]
    simp only [heval]
    rw [bind_of_ok (Build.constInt_run hlt r), normalizeInt_of_evalInt heval]
    rfl
  unfold Build.binary
  rw [bind_of_ok hfold]
  rfl

/-- An operation on integer constants without a result is left to the machine. -/
theorem Build.binary_of_evalInt_none (hop : op.isFloat = false)
    (hl : m.value lhs = .ok ⟨ty, .const (.int a)⟩) (hlt : m.types.get ty = .ok (.int bits))
    (hr : m.value rhs = .ok ⟨ty, .const (.int b)⟩)
    (heval : evalInt op a b bits = none) :
    Build.binary op lhs rhs m = Build.pushInstr ty (.binary op lhs rhs) m := by
  have hfold : Build.foldBinary op lhs rhs m = .ok (none, m) := by
    unfold Build.foldBinary
    rw [bind_of_ok (Build.typeOf_of_ok hl), hop]
    simp only [Bool.false_eq_true, ↓reduceIte]
    rw [bind_of_ok (Build.intConst?_of_int hl hlt), bind_of_ok (Build.intConst?_of_int hr hlt)]
    simp only [heval]
    rfl
  unfold Build.binary
  rw [bind_of_ok hfold]
  simp only
  rw [bind_of_ok (Build.typeOf_of_ok hl), bind_of_ok (Build.typeOf_of_ok hr)]
  simp only [ne_eq, not_true_eq_false, ↓reduceIte]

/-- What the machine makes of an operation on integer constants, in a module to which only a
value has been added. -/
theorem Exec.binary_of_constants (hop : op.isFloat = false)
    (hl : m.value lhs = .ok ⟨ty, .const (.int a)⟩) (hlt : m.types.get ty = .ok (.int bits))
    (hr : m.value rhs = .ok ⟨ty', .const (.int b)⟩) (frame : Frame) (s : MachineState) :
    Exec.binary m frame op lhs rhs s = match evalInt op a b bits with
      | some r => .ok (.int r) s
      | none => .error (.failed .divisionByZero) s :=
  Exec.binary_of_ok hop (Module.valueType_of_value hl hlt) (Exec.intOperand_of_int hl)
    (Exec.intOperand_of_int hr)

end Operations

/-! ### Comparisons -/

section Comparisons

variable {m : Module} {lhs rhs : ValueId} {ty ty' : TypeId} {a b : Int64} {bits bits' : Nat}

/-- Two integer constants are compared at once. -/
theorem Build.icmp_of_ints (pred : IntPredicate)
    (hl : m.value lhs = .ok ⟨ty, .const (.int a)⟩) (hlt : m.types.get ty = .ok (.int bits))
    (hr : m.value rhs = .ok ⟨ty', .const (.int b)⟩) (hrt : m.types.get ty' = .ok (.int bits')) :
    Build.icmp pred lhs rhs m = .ok (m.nextValue, m.withTruth (pred.holds a b)) := by
  have hfold : Build.foldICmp pred lhs rhs m =
      .ok (some m.nextValue, m.withTruth (pred.holds a b)) := by
    unfold Build.foldICmp
    rw [bind_of_ok (Build.intConst?_of_int hl hlt), bind_of_ok (Build.intConst?_of_int hr hrt)]
    exact Build.constTruth_run m _
  unfold Build.icmp
  rw [bind_of_ok hfold]
  rfl

/-- Two null pointers are compared at once, as zeros. -/
theorem Build.icmp_of_nulls (pred : IntPredicate) {t t' : IrType}
    (hl : m.value lhs = .ok ⟨ty, .const .null⟩) (hlt : m.types.get ty = .ok t)
    (hr : m.value rhs = .ok ⟨ty', .const .null⟩) (hrt : m.types.get ty' = .ok t') :
    Build.icmp pred lhs rhs m = .ok (m.nextValue, m.withTruth (pred.holds 0 0)) := by
  have hfold : Build.foldICmp pred lhs rhs m =
      .ok (some m.nextValue, m.withTruth (pred.holds 0 0)) := by
    unfold Build.foldICmp
    rw [bind_of_ok (Build.intConst?_of_address hl hlt (by simp)),
      bind_of_ok (Build.intConst?_of_address hr hrt (by simp))]
    simp only
    rw [bind_of_ok (Build.isNullConst_run hl), bind_of_ok (Build.isNullConst_run hr)]
    exact Build.constTruth_run m _
  unfold Build.icmp
  rw [bind_of_ok hfold]
  rfl

/-- Every other comparison with an address is left to the machine. -/
theorem Build.icmp_of_address (pred : IntPredicate) {d d' : ValueData} {t t' : IrType}
    (hl : m.value lhs = .ok d) (hlt : m.types.get d.ty = .ok t)
    (hr : m.value rhs = .ok d') (hrt : m.types.get d'.ty = .ok t')
    (hint : (∀ i, d.origin ≠ .const (.int i)) ∨ ∀ i, d'.origin ≠ .const (.int i))
    (hnull : d.origin ≠ .const .null ∨ d'.origin ≠ .const .null) :
    Build.icmp pred lhs rhs m = Build.pushInstr (m.types.intern (.int 1)).1 (.icmp pred lhs rhs)
      (m.withType (.int 1)) := by
  obtain ⟨c, hc⟩ := Build.intConst?_answers hl hlt
  obtain ⟨c', hc'⟩ := Build.intConst?_answers hr hrt
  have hnone : c = none ∨ c' = none := by
    rcases hint with hint | hint
    · rw [Build.intConst?_of_address hl hlt hint] at hc
      cases hc
      exact .inl rfl
    · rw [Build.intConst?_of_address hr hrt hint] at hc'
      cases hc'
      exact .inr rfl
  have hfold : Build.foldICmp pred lhs rhs m = .ok (none, m) := by
    unfold Build.foldICmp
    rw [bind_of_ok hc, bind_of_ok hc']
    have hrest : (do
        if (← Build.isNullConst lhs) && (← Build.isNullConst rhs) then
          return some (← Build.constInt (← Build.intType 1) (Build.truthWord (pred.holds 0 0)))
        else return none : Build (Option ValueId)) m = .ok (none, m) := by
      rw [bind_of_ok (Build.isNullConst_run hl), bind_of_ok (Build.isNullConst_run hr)]
      rcases hnull with hnull | hnull <;> simp [hnull]
    rcases hnone with rfl | rfl
    · exact hrest
    · cases c <;> exact hrest
  unfold Build.icmp
  rw [bind_of_ok hfold]
  rfl

end Comparisons

/-! ### Conversions -/

namespace Build

variable {m m' : Module} {v r : ValueId} {ty dest : TypeId} {source target : IrType} {i : Int64}
  {bits bits' : Nat}

/-- A conversion to the type that a value has already is the value. -/
theorem cast_of_same (op : CastOp) {d : ValueData} (hv : m.value v = .ok d) (hd : d.ty = dest) :
    cast op v dest m = .ok (v, m) := by
  unfold cast
  rw [bind_of_ok (typeOf_of_ok hv), if_pos hd]
  rfl

/-- A conversion to another type is carried out at once when that is settled. -/
theorem cast_of_fold {op : CastOp} {d : ValueData} (hv : m.value v = .ok d) (hd : d.ty ≠ dest)
    (hfold : foldCast op v dest m = .ok (some r, m')) : cast op v dest m = .ok (r, m') := by
  unfold cast
  rw [bind_of_ok (typeOf_of_ok hv), if_neg hd]
  rw [bind_of_ok hfold]
  rfl

/-- A conversion to another type is recorded when it is not settled. -/
theorem cast_of_not_fold {op : CastOp} {d : ValueData} (hv : m.value v = .ok d)
    (hd : d.ty ≠ dest) (hfold : foldCast op v dest m = .ok (none, m)) :
    cast op v dest m = pushInstr dest (.cast op v) m := by
  unfold cast
  rw [bind_of_ok (typeOf_of_ok hv), if_neg hd]
  rw [bind_of_ok hfold]

/-- An integer constant is resized by bringing it to the new width. -/
theorem foldCast_resize {op : CastOp} (hop : op = .trunc ∨ op = .sext)
    (hv : m.value v = .ok ⟨ty, .const (.int i)⟩) (ht : m.types.get ty = .ok (.int bits))
    (hdest : m.types.get dest = .ok (.int bits')) :
    foldCast op v dest m =
      .ok (some m.nextValue, m.withValue dest (.const (.int (normalizeInt i bits')))) := by
  unfold foldCast
  rw [bind_of_ok (typeAt_of_ok hdest)]
  rcases hop with rfl | rfl
  · refine (bind_of_ok (intConst?_of_int hv ht)).trans ?_
    exact (bind_of_ok (constInt_run hdest i)).trans rfl
  · refine (bind_of_ok (intConst?_of_int hv ht)).trans ?_
    exact (bind_of_ok (constInt_run hdest i)).trans rfl

/-- An integer constant is filled up with zeros at once. -/
theorem foldCast_zext {j : Int64} (hv : m.value v = .ok ⟨ty, .const (.int i)⟩)
    (ht : m.types.get ty = .ok (.int bits)) (hdest : m.types.get dest = .ok (.int bits'))
    (hj : zeroExtend i bits = .ok j) :
    foldCast .zext v dest m =
      .ok (some m.nextValue, m.withValue dest (.const (.int (normalizeInt j bits')))) := by
  unfold foldCast
  rw [bind_of_ok (typeAt_of_ok hdest)]
  refine (bind_of_ok (intConst?_of_int hv ht)).trans ?_
  simp only [hj]
  refine (bind_of_ok (liftM_ok_apply j m)).trans ?_
  exact (bind_of_ok (constInt_run hdest j)).trans rfl

/-- Only a null pointer is turned into an integer at once. -/
theorem foldCast_ptrtoint {d : ValueData} (hv : m.value v = .ok d)
    (hdest : m.types.get dest = .ok (.int bits')) :
    foldCast .ptrtoint v dest m = if d.origin = .const .null then
      .ok (some m.nextValue, m.withValue dest (.const (.int 0))) else .ok (none, m) := by
  unfold foldCast
  rw [bind_of_ok (typeAt_of_ok hdest)]
  refine (bind_of_ok (isNullConst_run hv)).trans ?_
  by_cases hnull : d.origin = .const .null
  · simp only [hnull, beq_self_eq_true, ↓reduceIte]
    rw [bind_of_ok (constInt_run hdest 0), normalizeInt_zero]
    rfl
  · simp [hnull]

/-- Only zero is turned into an address at once. -/
theorem foldCast_inttoptr (hv : m.value v = .ok ⟨ty, .const (.int i)⟩)
    (ht : m.types.get ty = .ok (.int bits)) (hdest : m.types.get dest = .ok target) :
    foldCast .inttoptr v dest m = if i = 0 then
      .ok (some m.nextValue, m.withValue dest (.const .null)) else .ok (none, m) := by
  unfold foldCast
  rw [bind_of_ok (typeAt_of_ok hdest)]
  refine (bind_of_ok (intConst?_of_int hv ht)).trans ?_
  by_cases hzero : i = 0
  · simp only [hzero, ↓reduceIte]
    rfl
  · simp [hzero]

/-- An address stays what it is under another type. -/
theorem foldCast_bitcast {origin : ValueDef} (hv : m.value v = .ok ⟨ty, origin⟩)
    (hdest : m.types.get dest = .ok target)
    (haddress : origin.IsAddress) :
    foldCast .bitcast v dest m = .ok (some m.nextValue, m.withValue dest origin) := by
  unfold foldCast
  rw [bind_of_ok (typeAt_of_ok hdest)]
  refine (bind_of_ok (ask_of_ok hv)).trans ?_
  rcases haddress with rfl | ⟨n, rfl⟩ | ⟨f, rfl⟩ <;> rfl

end Build

/-! ### Agreement -/

/-- A constant that a request answers with has the value that the machine computes for the
instruction that would have been recorded. -/
def FoldRequest.Agrees (q : FoldRequest) (m m' : Module) (v : ValueId) : Prop :=
  ∀ (call : Caller) (frame : Frame) (ty : TypeId) (s : MachineState), q.HasType ty →
    Exec.instruction (m.withValue ty (.instr q.instr)) call frame m.nextValue q.instr s =
      Exec.bound frame m.nextValue (m'.constantVal s.globals v) s

section Agreement

variable {m m' : Module} {v : ValueId}

theorem FoldRequest.agrees_binary {op : BinOp} {lhs rhs : ValueId}
    (hfits : (FoldRequest.binary op lhs rhs).Fits m)
    (hrun : (FoldRequest.binary op lhs rhs).build m = .ok (v, m'))
    (hconst : m'.isConstant v = .ok true) : (FoldRequest.binary op lhs rhs).Agrees m m' v := by
  obtain ⟨hop, hsame, bits, hl, hr⟩ := hfits
  cases hl with
  | @word ty _ a hl hlt _ =>
    cases hr with
    | @word ty' _ b hr hrt _ =>
      rw [Module.typeOf_of_value hl, Module.typeOf_of_value hr] at hsame
      obtain rfl : ty = ty' := Except.ok.inj hsame
      cases heval : evalInt op a b bits with
      | none =>
          rw [FoldRequest.build, Build.binary_of_evalInt_none hop hl hlt hr heval] at hrun
          rw [Build.isConstant_of_pushInstr hrun] at hconst
          cases hconst
      | some r =>
          rw [FoldRequest.build, Build.binary_of_evalInt hop hl hlt hr hrt heval] at hrun
          cases hrun
          intro call frame dest s _
          rw [Module.constantVal_int _ (Module.value_withValue_nextValue m ty _)]
          refine Exec.instruction_binary call _ ?_
          rw [Exec.binary_of_constants hop (Module.value_withValue _ _ hl) hlt
            (Module.value_withValue _ _ hr), heval]

/-- An operation that is recorded is one that fails. -/
theorem FoldRequest.fails_of_recorded {op : BinOp} {lhs rhs : ValueId}
    (hfits : (FoldRequest.binary op lhs rhs).Fits m)
    (hrun : (FoldRequest.binary op lhs rhs).build m = .ok (v, m'))
    (hconst : m'.isConstant v = .ok false) :
    (∃ ty, m'.value v = .ok ⟨ty, .instr (.binary op lhs rhs)⟩) ∧
      ∀ (call : Caller) (frame : Frame) (s : MachineState),
        Exec.instruction m' call frame v (.binary op lhs rhs) s =
          .error (.failed .divisionByZero) s := by
  obtain ⟨hop, hsame, bits, hl, hr⟩ := hfits
  cases hl with
  | @word ty _ a hl hlt _ =>
    cases hr with
    | @word ty' _ b hr hrt _ =>
      rw [Module.typeOf_of_value hl, Module.typeOf_of_value hr] at hsame
      obtain rfl : ty = ty' := Except.ok.inj hsame
      cases heval : evalInt op a b bits with
      | some r =>
          rw [FoldRequest.build, Build.binary_of_evalInt hop hl hlt hr hrt heval] at hrun
          cases hrun
          rw [Module.isConstant_of_value (Module.value_withValue_nextValue m ty _)] at hconst
          cases hconst
      | none =>
          rw [FoldRequest.build, Build.binary_of_evalInt_none hop hl hlt hr heval] at hrun
          refine ⟨⟨ty, Build.value_of_pushInstr hrun⟩, fun call frame s => ?_⟩
          refine Exec.instruction_binary_of_error call _ ?_
          obtain ⟨-, -, htypes⟩ := Build.values_of_pushInstr hrun
          rw [Exec.binary_of_constants hop (Build.value_of_pushInstr_of_ok hrun hl)
            (by rw [htypes]; exact hlt) (Build.value_of_pushInstr_of_ok hrun hr), heval]

/-- The value of a truth value that has been made a constant. -/
theorem Module.constantVal_withTruth (m : Module) (b : Bool) (globals : Array UInt64) :
    (m.withTruth b).constantVal globals m.nextValue = .ok (Exec.truth b) :=
  Module.constantVal_int globals (Module.value_withValue_nextValue
    (m.withType (.int 1)) _ _)

theorem FoldRequest.agrees_icmp {pred : IntPredicate} {lhs rhs : ValueId}
    (hfits : (FoldRequest.icmp pred lhs rhs).Fits m)
    (hrun : (FoldRequest.icmp pred lhs rhs).build m = .ok (v, m'))
    (hconst : m'.isConstant v = .ok true) : (FoldRequest.icmp pred lhs rhs).Agrees m m' v := by
  obtain ⟨⟨t, hl⟩, t', hr⟩ := hfits
  obtain ⟨d, hd, hdt⟩ := hl.value
  obtain ⟨d', hd', hdt'⟩ := hr.value
  -- Whatever is neither two integers nor two null pointers has been recorded.
  have hfolded : ¬ (((∀ i, d.origin ≠ .const (.int i)) ∨ ∀ i, d'.origin ≠ .const (.int i)) ∧
      (d.origin ≠ .const .null ∨ d'.origin ≠ .const .null)) := by
    rintro ⟨hint, hnull⟩
    rw [FoldRequest.build, Build.icmp_of_address pred hd hdt hd' hdt' hint hnull] at hrun
    rw [Build.isConstant_of_pushInstr hrun] at hconst
    cases hconst
  intro call frame ty s _
  cases hl with
  | word hl hlt _ =>
      cases hr with
      | word hr hrt _ =>
          rw [FoldRequest.build, Build.icmp_of_ints pred hl hlt hr hrt] at hrun
          cases hrun
          rw [Module.constantVal_withTruth]
          exact Exec.instruction_icmp_of_ok call _
            (Exec.intOperand_of_int (Module.value_withValue _ _ hl))
            (Exec.intOperand_of_int (Module.value_withValue _ _ hr))
      | null hr hrt | global hr hrt | function hr hrt =>
          cases hl.symm.trans hd
          cases hr.symm.trans hd'
          simp at hfolded
  | null hl hlt =>
      cases hr with
      | null hr hrt =>
          rw [FoldRequest.build, Build.icmp_of_nulls pred hl hlt hr hrt] at hrun
          cases hrun
          rw [Module.constantVal_withTruth]
          exact Exec.instruction_icmp_of_ok call _
            (Exec.intOperand_of_null (Module.value_withValue _ _ hl))
            (Exec.intOperand_of_null (Module.value_withValue _ _ hr))
      | word hr hrt _ | global hr hrt | function hr hrt =>
          cases hl.symm.trans hd
          cases hr.symm.trans hd'
          simp at hfolded
  | global hl hlt | function hl hlt =>
      cases hl.symm.trans hd
      simp at hfolded

/-- A conversion to the type that a constant has already agrees with the conversion that does
nothing. -/
theorem Exec.cast_of_same {op : CastOp} {source : IrType} {d : ValueData}
    (hvalue : m.Settled v source) (hd : m.value v = .ok d)
    (hconverts : op.Converts source source) (frame : Frame) (s : MachineState) :
    Exec.cast m frame op v d.ty s = Exec.operand m frame v s := by
  cases hvalue with
  | @word ty bits i hv ht hnormal =>
      cases hv.symm.trans hd
      have htype := Module.valueType_of_value hv ht
      have hoperand : Exec.operand m frame v s = .ok (.int i) s :=
        Exec.operand_of_ok
          ((Frame.operand_of_constant hv rfl _ _).trans (Module.constantVal_int _ hv))
      rw [hoperand]
      cases op with
      | trunc | sext =>
          rw [Exec.cast_resize (by simp) ht htype (Exec.intOperand_of_int hv), IrType.width, hnormal]
      | zext =>
          obtain ⟨j, hj⟩ := zeroExtend_answers i hconverts
          rw [Exec.cast_zext ht htype (Exec.intOperand_of_int hv) hj, IrType.width,
            normalizeInt_zeroExtend hj, hnormal]
      | _ => exact hconverts.elim
  | null hv ht | global hv ht | function hv ht =>
      cases hv.symm.trans hd
      cases op with
      | bitcast => exact Exec.cast_bitcast ht (Module.valueType_of_value hv ht)
      | _ => exact hconverts.elim

/-- An operand of which it is known what the frame says about it. -/
theorem Exec.operand_of_eq {frame : Frame} {s : MachineState} {c : Fallible Val} :
    frame.operand m s.globals v = c → Exec.operand m frame v s = match c with
      | .ok x => .ok x s
      | .error f => .error (.ofFault f) s := by
  rintro rfl
  rfl

/-- Executing a conversion that answers with an operand, or with what is known of it. -/
theorem Exec.instruction_cast_bound {op : CastOp} {value id : ValueId} {dest : TypeId}
    {c : Fallible Val} (call : Caller) {frame : Frame} {s : MachineState}
    (hid : m.typeOf id = .ok dest)
    (hcast : Exec.cast m frame op value dest s = match c with
      | .ok v => .ok v s
      | .error f => .error (.ofFault f) s) :
    Exec.instruction m call frame id (.cast op value) s = Exec.bound frame id c s := by
  rw [Exec.instruction_cast call hid hcast]
  cases c <;> rfl

/-- Conversions agree when they are carried out. -/
theorem FoldRequest.agrees_cast {op : CastOp} {value : ValueId} {dest : TypeId}
    (hfits : (FoldRequest.cast op value dest).Fits m)
    (hrun : (FoldRequest.cast op value dest).build m = .ok (v, m'))
    (hconst : m'.isConstant v = .ok true) : (FoldRequest.cast op value dest).Agrees m m' v := by
  obtain ⟨source, target, hvalue, hdest, hconverts⟩ := hfits
  obtain ⟨d, hd, hdt⟩ := hvalue.value
  rintro call frame ty s rfl
  have hid : (m.withValue ty (.instr (.cast op value))).typeOf m.nextValue = .ok ty :=
    Module.typeOf_of_value (Module.value_withValue_nextValue m ty _)
  refine Exec.instruction_cast_bound call hid ?_
  rw [FoldRequest.instr]
  by_cases hsame : d.ty = ty
  · -- The value itself is the answer.
    rw [FoldRequest.build, Build.cast_of_same op hd hsame] at hrun
    cases hrun
    subst hsame
    cases hdt.symm.trans hdest
    rw [Module.isConstant_of_value hd] at hconst
    rw [Exec.cast_of_same (hvalue.withValue _ _) (Module.value_withValue _ _ hd) hconverts]
    refine Exec.operand_of_eq ?_
    rw [Frame.operand_of_constant (Module.value_withValue _ _ hd) (Except.ok.inj hconst),
      hvalue.constantVal_withValue]
  · -- Addresses have a value under their old type and under the new one.
    have hadded : ∀ origin : ValueDef, (m.withValue ty origin).value m.nextValue =
        .ok ⟨ty, origin⟩ := Module.value_withValue_nextValue m ty
    have hrecorded : Build.foldCast op value ty m ≠ .ok (none, m) := by
      intro hfold
      rw [FoldRequest.build, Build.cast_of_not_fold hd hsame hfold] at hrun
      rw [Build.isConstant_of_pushInstr hrun] at hconst
      cases hconst
    have htarget : (m.withValue ty (.instr (.cast op value))).types.get ty = .ok target := hdest
    have hsource : (m.withValue ty (.instr (.cast op value))).valueType value = .ok source :=
      Module.valueType_of_value (Module.value_withValue _ _ hd) hdt
    have hword : ∀ {t i}, m.value value = .ok ⟨t, .const (.int i)⟩ →
        Exec.intOperand (m.withValue ty (.instr (.cast op value))) frame value s = .ok i s :=
      fun hv => Exec.intOperand_of_int (Module.value_withValue _ _ hv)
    match source, target, op, hconverts, hvalue with
    | .int bits, .int bits', .trunc, _, .word hv ht _
    | .int bits, .int bits', .sext, _, .word hv ht _ =>
        rw [FoldRequest.build,
          Build.cast_of_fold hd hsame (Build.foldCast_resize (by simp) hv ht hdest)] at hrun
        cases hrun
        rw [Module.constantVal_int _ (hadded _)]
        exact Exec.cast_resize (by simp) htarget hsource (hword hv)
    | .int bits, .int bits', .zext, hbits, .word hv ht _ =>
        obtain ⟨j, hj⟩ := zeroExtend_answers _ hbits
        rw [FoldRequest.build,
          Build.cast_of_fold hd hsame (Build.foldCast_zext hv ht hdest hj)] at hrun
        cases hrun
        rw [Module.constantVal_int _ (hadded _), Exec.cast_zext htarget hsource (hword hv) hj,
          IrType.width]
    | .int bits, .pointer _, .inttoptr, _, .word hv ht _ =>
        have hfold := Build.foldCast_inttoptr hv ht hdest
        split at hfold
        · rename_i hzero
          rw [FoldRequest.build, Build.cast_of_fold hd hsame hfold] at hrun
          cases hrun
          rw [Module.constantVal_null _ (hadded _),
            Exec.cast_inttoptr htarget hsource (hword hv), hzero]
          rfl
        · exact absurd hfold hrecorded
    | .pointer _, .int bits', .ptrtoint, _, _ =>
        have hfold := Build.foldCast_ptrtoint hd hdest
        split at hfold
        · rename_i hnull
          rw [FoldRequest.build, Build.cast_of_fold hd hsame hfold] at hrun
          cases hrun
          obtain ⟨source, origin⟩ := d
          subst hnull
          rw [Module.constantVal_int _ (hadded _), Exec.cast_ptrtoint htarget hsource
            (Exec.ptrOperand_of_null (Module.value_withValue _ _ hd))]
          exact congrArg (fun w => EStateM.Result.ok (Val.int w) s) (normalizeInt_zero bits')
        · exact absurd hfold hrecorded
    | .pointer _, .pointer _, .bitcast, _, hvalue =>
        obtain ⟨source, origin⟩ := d
        have haddress := hvalue.address hd
        rw [FoldRequest.build,
          Build.cast_of_fold hd hsame (Build.foldCast_bitcast hd hdest haddress)] at hrun
        cases hrun
        have hold := Module.value_withValue ty (.instr (.cast .bitcast value)) hd
        rw [Exec.cast_bitcast htarget hsource]
        refine Exec.operand_of_eq ?_
        rw [Frame.operand_of_constant hold (ValueDef.isConstant_of_address haddress),
          Module.constantVal_of_address hold (hadded origin) haddress]

end Agreement

/-- Folding agrees with execution. When a request on constants is answered with a constant, the
machine computes the value of that constant for the instruction that would have been recorded,
in every state and every frame. An integer operation on constants that is recorded nevertheless
fails with a division by zero. -/
theorem FoldRequest.folding_agrees_with_execution (m : Module) (q : FoldRequest)
    (hfits : q.Fits m) {v : ValueId} {m' : Module} (hrun : q.build m = .ok (v, m')) :
    (m'.isConstant v = .ok true → q.Agrees m m' v) ∧
      ∀ op lhs rhs, q = .binary op lhs rhs → m'.isConstant v = .ok false →
        (∃ ty, m'.value v = .ok ⟨ty, .instr (.binary op lhs rhs)⟩) ∧
          ∀ (call : Caller) (frame : Frame) (s : MachineState),
            Exec.instruction m' call frame v (.binary op lhs rhs) s =
              .error (.failed .divisionByZero) s := by
  constructor
  · intro hconst
    cases q with
    | binary op lhs rhs => exact agrees_binary hfits hrun hconst
    | icmp pred lhs rhs => exact agrees_icmp hfits hrun hconst
    | cast op value dest => exact agrees_cast hfits hrun hconst
  · rintro op lhs rhs rfl hconst
    exact fails_of_recorded hfits hrun hconst

/-- A module with the constants minus seven, two and zero of thirty-two bits. -/
def Module.threeWords : Module :=
  { Module.ofTables "words" [.int 32] [] with
    values := #[⟨⟨0⟩, .const (.int (-7))⟩, ⟨⟨0⟩, .const (.int 2)⟩, ⟨⟨0⟩, .const (.int 0)⟩] }

/-- The remainder of minus seven by two is minus one at once, and the remainder by zero is left
to fail. -/
theorem FoldRequest.folding_agrees_on_remainders :
    (FoldRequest.binary .srem ⟨0⟩ ⟨1⟩).Agrees Module.threeWords
        (Module.threeWords.withValue ⟨0⟩ (.const (.int (-1)))) ⟨3⟩ ∧
      ∀ (call : Caller) (frame : Frame) (s : MachineState),
        Exec.instruction (Module.threeWords.withDetached ⟨0⟩ (.binary .srem ⟨0⟩ ⟨2⟩)) call frame ⟨3⟩
          (.binary .srem ⟨0⟩ ⟨2⟩) s = .error (.failed .divisionByZero) s := by
  have hfits : (FoldRequest.binary .srem ⟨0⟩ ⟨1⟩).Fits Module.threeWords :=
    ⟨rfl, rfl, 32, .word rfl rfl (by decide), .word rfl rfl (by decide)⟩
  have hfits' : (FoldRequest.binary .srem ⟨0⟩ ⟨2⟩).Fits Module.threeWords :=
    ⟨rfl, rfl, 32, .word rfl rfl (by decide), .word rfl rfl (by decide)⟩
  constructor
  · exact (folding_agrees_with_execution _ _ hfits rfl).1 rfl
  · exact ((folding_agrees_with_execution _ _ hfits' rfl).2 _ _ _ rfl rfl).2

end SsaCompiler
