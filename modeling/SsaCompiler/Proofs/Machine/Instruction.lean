/-
# Operands and instructions

What the machine finds when an instruction asks for an operand, and what an instruction makes
of operands that are there. A constant is looked up in the module, everything else in the
frame of the call, and neither changes the state.
-/

import Mathlib.Data.List.Forall2
import SsaCompiler.Proofs.Computation

namespace SsaCompiler

/-! ### The values of constants -/

namespace Module

variable {m : Module} {v : ValueId} {ty : TypeId} (globals : Array UInt64)

/-- The value of an integer constant. -/
theorem constantVal_int {i : Int64} (hv : m.value v = .ok ⟨ty, .const (.int i)⟩) :
    m.constantVal globals v = .ok (.int i) := by
  change ((liftM (m.value v) : Fallible ValueData) >>= _) = _
  rw [hv]
  rfl

/-- The value of a null pointer. -/
theorem constantVal_null (hv : m.value v = .ok ⟨ty, .const .null⟩) :
    m.constantVal globals v = .ok (.ptr 0) := by
  change ((liftM (m.value v) : Fallible ValueData) >>= _) = _
  rw [hv]
  rfl

/-- The value of the address of a global depends on nothing but the global. -/
theorem constantVal_global {index : Nat} (hv : m.value v = .ok ⟨ty, .global index⟩) :
    m.constantVal globals v =
      (do return .ptr (← (Checked.at globals index : Checked UInt64)) : Fallible Val) := by
  change ((liftM (m.value v) : Fallible ValueData) >>= _) = _
  rw [hv]
  rfl

/-- The value of the address of a function. -/
theorem constantVal_function {f : FunctionId} (hv : m.value v = .ok ⟨ty, .function f⟩) :
    m.constantVal globals v = .ok (.ptr f.address) := by
  change ((liftM (m.value v) : Fallible ValueData) >>= _) = _
  rw [hv]
  rfl

end Module

/-! ### Operands of instructions -/

namespace Frame

variable {m : Module} {v : ValueId} {d : ValueData}

/-- A value that is known without running anything is looked up in the module. -/
theorem operand_of_constant (hv : m.value v = .ok d) (hconst : d.origin.isConstant = true)
    (frame : Frame) (globals : Array UInt64) :
    frame.operand m globals v = m.constantVal globals v := by
  obtain ⟨ty, origin⟩ := d
  unfold operand
  rw [hv]
  cases origin <;> first | rfl | cases hconst

end Frame

namespace Exec

variable {m : Module} {frame : Frame} {v : ValueId} {s : MachineState} {x : Val}

/-- An operand that is there. -/
theorem operand_of_ok (hx : frame.operand m s.globals v = .ok x) :
    operand m frame v s = .ok x s := by
  unfold operand
  rw [hx]

theorem operands_of_ok {args : List ValueId} {xs : List Val}
    (hargs : List.Forall₂ (fun v x => frame.operand m s.globals v = .ok x) args xs) :
    operands m frame args s = .ok xs s := by
  unfold operands
  induction hargs with
  | nil => rfl
  | cons hv _ ih =>
      rw [List.mapM_cons]
      refine (bind_of_ok (operand_of_ok hv)).trans ?_
      exact bind_of_ok ih

/-- An operand that is an integer or an address, as an integer. -/
theorem intOperand_of_ok {i : Int64} (hx : frame.operand m s.globals v = .ok x)
    (hint : x.asInt? = some i) : intOperand m frame v s = .ok i s := by
  refine (bind_of_ok (operand_of_ok hx)).trans ?_
  rw [hint]
  rfl

/-- An operand that is an integer or an address, as an address. -/
theorem ptrOperand_of_ok {a : UInt64} (hx : frame.operand m s.globals v = .ok x)
    (hptr : x.asPtr? = some a) : ptrOperand m frame v s = .ok a s := by
  refine (bind_of_ok (operand_of_ok hx)).trans ?_
  rw [hptr]
  rfl

/-! ### Instructions without effect -/

section Pure

variable {lhs rhs : ValueId} {a b : Int64} {bits : Nat}

/-- An operation on two integers, at the width of the first. -/
theorem binary_of_ok {op : BinOp} (hop : op.isFloat = false)
    (htype : m.valueType lhs = .ok (.int bits)) (hleft : intOperand m frame lhs s = .ok a s)
    (hright : intOperand m frame rhs s = .ok b s) :
    binary m frame op lhs rhs s = match evalInt op a b bits with
      | some r => .ok (.int r) s
      | none => .error (.failed .divisionByZero) s := by
  unfold binary
  rw [htype, bind_of_ok (liftM_checked_ok _ s), hop]
  simp only [Bool.false_eq_true, ↓reduceIte]
  rw [bind_of_ok hleft, bind_of_ok hright]
  simp only [IrType.width]
  cases evalInt op a b bits <;> rfl

theorem instruction_icmp_of_ok {pred : IntPredicate} (call : Caller) (id : ValueId)
    (hleft : intOperand m frame lhs s = .ok a s) (hright : intOperand m frame rhs s = .ok b s) :
    instruction m call frame id (.icmp pred lhs rhs) s =
      .ok (frame.bind id (truth (pred.holds a b))) s :=
  (bind_of_ok hleft).trans (bind_of_ok hright)

/-- The instruction for an operation is the operation. -/
theorem instruction_binary {op : BinOp} (call : Caller) (id : ValueId) {v : Val}
    (hbinary : binary m frame op lhs rhs s = .ok v s) :
    instruction m call frame id (.binary op lhs rhs) s = .ok (frame.bind id v) s :=
  bind_of_ok hbinary

/-- An operation that fails lets its instruction fail. -/
theorem instruction_binary_of_error {op : BinOp} (call : Caller) (id : ValueId) {e : Stop}
    (hbinary : binary m frame op lhs rhs s = .error e s) :
    instruction m call frame id (.binary op lhs rhs) s = .error e s :=
  bind_of_error hbinary

/-- The instruction for a conversion is the conversion to the type of the instruction. -/
theorem instruction_cast {op : CastOp} {value : ValueId} {dest : TypeId} (call : Caller)
    {id : ValueId} (hid : m.typeOf id = .ok dest) {r : EStateM.Result Stop MachineState Val}
    (hcast : cast m frame op value dest s = r) :
    instruction m call frame id (.cast op value) s = match r with
      | .ok v s => .ok (frame.bind id v) s
      | .error e s => .error e s := by
  have hstart : instruction m call frame id (.cast op value) s =
      (do return frame.bind id (← cast m frame op value dest) : Exec Frame) s := by
    have htype : (liftM (m.typeOf id) : Exec TypeId) s = .ok dest s := by
      rw [hid]
      rfl
    exact (bind_of_ok htype).trans rfl
  rw [hstart]
  cases r with
  | ok v s' => exact bind_of_ok hcast
  | error e s' => exact bind_of_error hcast

/-- A call is a call with the operands. -/
theorem instruction_call {call : Caller} (id : ValueId) {f : FunctionId} {args : List ValueId}
    {xs : List Val} {v : Val} {s' : MachineState}
    (hargs : List.Forall₂ (fun v x => frame.operand m s.globals v = .ok x) args xs)
    (hcall : call f xs s = .ok v s') :
    instruction m call frame id (.call f args) s = .ok (frame.bind id v) s' :=
  (bind_of_ok (operands_of_ok hargs)).trans (bind_of_ok hcall)

/-- A call that fails lets its instruction fail. -/
theorem instruction_call_of_error {call : Caller} (id : ValueId) {f : FunctionId}
    {args : List ValueId} {xs : List Val} {e : Stop} {s' : MachineState}
    (hargs : List.Forall₂ (fun v x => frame.operand m s.globals v = .ok x) args xs)
    (hcall : call f xs s = .error e s') :
    instruction m call frame id (.call f args) s = .error e s' :=
  (bind_of_ok (operands_of_ok hargs)).trans (bind_of_error hcall)

/-- Loading is reading from memory at the type of the instruction. -/
theorem instruction_load {ptr : ValueId} {ty : TypeId} {a : UInt64} {v : Val} (call : Caller)
    {id : ValueId} (hid : m.typeOf id = .ok ty) (hptr : ptrOperand m frame ptr s = .ok a s)
    (hread : s.memory.read m.types a ty = .ok v) :
    instruction m call frame id (.load ptr) s = .ok (frame.bind id v) s := by
  have htype : (liftM (m.typeOf id) : Exec TypeId) s = .ok ty s := by
    rw [hid]
    rfl
  have hmemory : askMemory (fun memory => memory.read m.types a ty) s = .ok v s := by
    unfold askMemory
    simp only [hread]
  refine (bind_of_ok hptr).trans ?_
  refine (bind_of_ok htype).trans ?_
  exact bind_of_ok hmemory

end Pure

section Conversions

variable {value : ValueId} {dest : TypeId} {source target : IrType}

/-- A conversion looks up the types it converts between and then does its work. -/
theorem cast_of_types (op : CastOp) (hdest : m.types.get dest = .ok target)
    (hvalue : m.valueType value = .ok source) :
    cast m frame op value dest s = (match op with
      | .trunc | .sext => do
        return .int (normalizeInt (← intOperand m frame value) target.width)
      | .zext => do
        return .int (normalizeInt
          (← zeroExtend (← intOperand m frame value) source.width) target.width)
      | .fptrunc | .fpext => do
        return .float ((← floatOperand m frame value).round target.width)
      | .fptosi => do
        return .int (normalizeInt (← floatOperand m frame value).toInt64 target.width)
      | .sitofp => do
        return .float ((Double.ofInt64 (← intOperand m frame value)).round target.width)
      | .ptrtoint => do
        return .int (normalizeInt (← ptrOperand m frame value).toInt64 target.width)
      | .inttoptr => do return .ptr (← intOperand m frame value).toUInt64
      | .bitcast => operand m frame value : Exec Val) s := by
  unfold cast
  rw [hdest, hvalue]
  cases op <;> rfl

/-- Cutting off or repeating high bits. -/
theorem cast_resize {op : CastOp} (hop : op = .trunc ∨ op = .sext) {i : Int64}
    (hdest : m.types.get dest = .ok target) (hvalue : m.valueType value = .ok source)
    (hi : intOperand m frame value s = .ok i s) :
    cast m frame op value dest s = .ok (.int (normalizeInt i target.width)) s := by
  rw [cast_of_types op hdest hvalue]
  rcases hop with rfl | rfl <;> exact bind_of_ok hi

theorem cast_zext {i j : Int64} (hdest : m.types.get dest = .ok target)
    (hvalue : m.valueType value = .ok source) (hi : intOperand m frame value s = .ok i s)
    (hj : zeroExtend i source.width = .ok j) :
    cast m frame .zext value dest s = .ok (.int (normalizeInt j target.width)) s := by
  rw [cast_of_types .zext hdest hvalue]
  refine (bind_of_ok hi).trans ?_
  rw [hj]
  rfl

theorem cast_ptrtoint {a : UInt64} (hdest : m.types.get dest = .ok target)
    (hvalue : m.valueType value = .ok source) (ha : ptrOperand m frame value s = .ok a s) :
    cast m frame .ptrtoint value dest s = .ok (.int (normalizeInt a.toInt64 target.width)) s := by
  rw [cast_of_types .ptrtoint hdest hvalue]
  exact bind_of_ok ha

theorem cast_inttoptr {i : Int64} (hdest : m.types.get dest = .ok target)
    (hvalue : m.valueType value = .ok source) (hi : intOperand m frame value s = .ok i s) :
    cast m frame .inttoptr value dest s = .ok (.ptr i.toUInt64) s := by
  rw [cast_of_types .inttoptr hdest hvalue]
  exact bind_of_ok hi

theorem cast_bitcast (hdest : m.types.get dest = .ok target)
    (hvalue : m.valueType value = .ok source) :
    cast m frame .bitcast value dest s = operand m frame value s :=
  cast_of_types .bitcast hdest hvalue

end Conversions

end Exec

end SsaCompiler
