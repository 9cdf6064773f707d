/-
# Operators on operands

Every operator first asks whether the program defines it for the types at hand. Otherwise it
has its built-in meaning: numbers are brought to the wider of the two types, a pointer moves
by an integer, two pointers are compared by their addresses.
-/

import SsaCompiler.Lower.Invocation

namespace SsaCompiler

namespace BinaryOp

/-- The integer operation that an operator stands for. -/
def intOp? : BinaryOp → Option BinOp
  | add => some .add
  | sub => some .sub
  | mul => some .mul
  | div => some .sdiv
  | rem => some .srem
  | bitAnd => some .and
  | bitOr => some .or
  | bitXor => some .xor
  | shl => some .shl
  | shr => some .ashr
  | pow | eq | ne | lt | le | gt | ge | range => none

/-- The floating point operation that an operator stands for. -/
def floatOp? : BinaryOp → Option BinOp
  | add => some .fadd
  | sub => some .fsub
  | mul => some .fmul
  | div => some .fdiv
  | rem => some .frem
  | pow | bitAnd | bitOr | bitXor | shl | shr | eq | ne | lt | le | gt | ge | range => none

/-- The comparison of integers that an operator stands for. -/
def intPredicate? : BinaryOp → Option IntPredicate
  | eq => some .eq
  | ne => some .ne
  | lt => some .slt
  | le => some .sle
  | gt => some .sgt
  | ge => some .sge
  | _ => none

/-- The comparison of floating point numbers that an operator stands for. -/
def floatPredicate? : BinaryOp → Option FloatPredicate
  | eq => some .oeq
  | ne => some .one
  | lt => some .olt
  | le => some .ole
  | gt => some .ogt
  | ge => some .oge
  | _ => none

end BinaryOp

namespace Lower

/-! ### Two operands -/

/-- Reports types that an operator is not defined for. -/
def rejectOperands {α : Type} (op : BinaryOp) (lty rty : TypeId) (span : Span) : Attempt α := do
  let symbol := op.symbol
  let left ← describe lty
  let right ← describe rty
  Attempt.reject .typeMismatch
    s!"operator '{symbol}' cannot be applied to '{left}' and '{right}'" span

/-- The type to which two numbers are brought: the wider one, and a floating point type
rather than an integer type. -/
def commonType (lty rty : TypeId) : Build TypeId := do
  match ← Build.typeAt lty, ← Build.typeAt rty with
  | .int a, .int b => return if a ≥ b then lty else rty
  | .float a, .float b => return if a ≥ b then lty else rty
  | .float _, _ => return lty
  | _, _ => return rty

/-- Two numbers brought to one type. -/
def unifyNumeric (l r : ValueId) : Build (ValueId × ValueId) := do
  let lty ← Build.typeOf l
  let rty ← Build.typeOf r
  if lty = rty then return (l, r)
  let target ← commonType lty rty
  let l' := (← convert l target).getD l
  let r' := (← convert r target).getD r
  return (l', r')

/-- A power, computed on `double` and brought back to the type of the base. -/
def power (l r : ValueId) : Attempt ValueId := do
  let ty ← Build.typeOf l
  let double ← Build.floatType 64
  let base ← Attempt.ofOption (← convert l double)
  let exponent ← Attempt.ofOption (← convert r double)
  let result ← OptionT.lift (callSupport .pow [base, exponent])
  Attempt.ofOption (← convert (← Attempt.ofOption result) ty)

/-- An operator on two integers of one type. -/
def intBinary (op : BinaryOp) (l r : ValueId) (span : Span) : Attempt ValueId := do
  match op.intOp?, op.intPredicate? with
  | some arith, _ => Build.binary arith l r
  | none, some pred => Build.icmp pred l r
  | none, none =>
    if op = .pow then power l r
    else
      let ty ← Build.typeOf l
      rejectOperands op ty ty span

/-- An operator on two floating point numbers of one type. -/
def floatBinary (op : BinaryOp) (l r : ValueId) (span : Span) : Attempt ValueId := do
  match op.floatOp?, op.floatPredicate? with
  | some arith, _ => Build.binary arith l r
  | none, some pred => Build.fcmp pred l r
  | none, none =>
    if op = .pow then power l r
    else
      let ty ← Build.typeOf l
      rejectOperands op ty ty span

/-- A pointer moved forward or backward by an integer. -/
def pointerOffset (pointer offset : ValueId) (backward : Bool) : Attempt ValueId := do
  let long ← Build.intType 64
  let distance ← Attempt.ofOption (← convert offset long)
  if backward then
    let zero ← Build.constInt long 0
    Build.gep pointer (← Build.binary .sub zero distance)
  else Build.gep pointer distance

/-- Two pointers compared by their addresses. -/
def pointerCompare (pred : IntPredicate) (l r : ValueId) : Build ValueId := do
  let long ← Build.intType 64
  let left ← Build.cast .ptrtoint l long
  let right ← Build.cast .ptrtoint r long
  Build.icmp pred left right

/-- The built-in meaning of an operator. -/
def builtinBinary (op : BinaryOp) (l r : ValueId) (span : Span) : Attempt ValueId := do
  let lty ← Build.typeOf l
  let rty ← Build.typeOf r
  match ← Build.typeAt lty, ← Build.typeAt rty with
  | .int _, .int _ =>
    let (l, r) ← unifyNumeric l r
    intBinary op l r span
  | .float _, .float _ | .int _, .float _ | .float _, .int _ =>
    let (l, r) ← unifyNumeric l r
    floatBinary op l r span
  | .pointer _, .int _ =>
    if op = .add then pointerOffset l r false
    else if op = .sub then pointerOffset l r true
    else rejectOperands op lty rty span
  | .pointer _, .pointer _ =>
    if op = .eq then pointerCompare .eq l r
    else if op = .ne then pointerCompare .ne l r
    else rejectOperands op lty rty span
  | _, _ => rejectOperands op lty rty span

/-- An operator on two operands: the one that the program defines, otherwise the built-in
one. -/
def applyBinary (op : BinaryOp) (l r : Operand) (span : Span) : Attempt Operand := do
  let lty ← l.ty
  let rty ← r.ty
  match ← findOperator (.binary lty (.binary op) rty) span with
  | some index => callOperator index [l, r] span
  | none =>
    let lv ← l.load
    let rv ← r.load
    return .ofValue (← builtinBinary op lv rv span)

/-! ### One operand -/

/-- Reports a type that an operator is not defined for. -/
def rejectOperand {α : Type} (op : UnaryOp) (ty : TypeId) (span : Span) : Attempt α := do
  let symbol := op.symbol
  let found ← describe ty
  Attempt.reject .typeMismatch s!"operator '{symbol}' cannot be applied to '{found}'" span

/-- Arithmetic negation, as a difference from zero. -/
def negate (inner : Operand) (ty : TypeId) (span : Span) : Attempt ValueId := do
  let v ← inner.load
  match ← Build.typeAt ty with
  | .int bits =>
    if bits > 1 then
      let zero ← Build.constInt ty 0
      Build.binary .sub zero v
    else rejectOperand .neg ty span
  | .float _ =>
    let zero ← Build.constFloat ty .zero
    Build.binary .fsub zero v
  | _ => rejectOperand .neg ty span

/-- Logical negation. -/
def negateTruth (inner : Operand) (span : Span) : Attempt ValueId := do
  let v ← inner.load
  let truth ← toBool v span
  let one ← Build.constInt (← Build.intType 1) 1
  Build.binary .xor truth one

/-- Negation of every bit. -/
def negateBits (inner : Operand) (ty : TypeId) (span : Span) : Attempt ValueId := do
  let v ← inner.load
  if (← Build.typeAt ty).isInt then
    let ones ← Build.constInt ty (-1)
    Build.binary .xor v ones
  else rejectOperand .bitNot ty span

/-- The built-in meaning of an operator in front of its operand. -/
def builtinUnary (op : UnaryOp) (inner : Operand) (ty : TypeId) (span : Span) :
    Attempt Operand := do
  match op with
  | .addressOf =>
    if inner.isPlace then return .ofValue inner.value
    else Attempt.reject .typeMismatch "cannot take the address of a temporary value" span
  | .deref =>
    if (← Build.typeAt ty).isPointer then return .ofPlace (← inner.load)
    else rejectOperand op ty span
  | .neg => return .ofValue (← negate inner ty span)
  | .not => return .ofValue (← negateTruth inner span)
  | .bitNot => return .ofValue (← negateBits inner ty span)

/-- An operator in front of its operand: the one that the program defines, otherwise the
built-in one. -/
def applyUnary (op : UnaryOp) (inner : Operand) (span : Span) : Attempt Operand := do
  let ty ← inner.ty
  match ← findOperator (.before (.unary op) ty) span with
  | some index => callOperator index [inner] span
  | none => builtinUnary op inner ty span

end Lower

end SsaCompiler
