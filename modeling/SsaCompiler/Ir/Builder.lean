/-
# Building modules

Requests to a module under construction. A request that makes no sense, such as a load
from something that is no pointer or an instruction behind a terminator, is counted and
answered with something usable; only a handle of another module crashes.

Operations on constants are carried out at once instead of being recorded. A division by
zero is never carried out, so that it still fails when the program runs.
-/

import SsaCompiler.Ir.Layout
import SsaCompiler.Ir.Module

namespace SsaCompiler

/-- A computation on a module under construction. -/
abbrev Build (α : Type) : Type := StateT Module (Except Crash) α

namespace Build

/-- A question about the module as it is. -/
def ask {α : Type} (q : Module → Checked α) : Build α := do q (← get)

/-- Counts a request that could not be met. -/
def codegenError : Build Unit :=
  modify fun m => { m with codegenErrors := m.codegenErrors + 1 }

/-! ### Types -/

/-- The position of a type described by its components. -/
def internType (ty : IrType) (hty : ty.description? = some ty) : Build TypeId :=
  modifyGet fun m =>
    ((m.types.intern ty).1, m.withTypes (m.types.intern ty).2 (m.typesIndexed.intern hty))

/-- The integer type of a width. -/
def intType (bits : Nat) : Build TypeId := internType (.int bits) (IrType.description?_eq_self _)

/-- The floating point type of a width. -/
def floatType (bits : Nat) : Build TypeId :=
  internType (.float bits) (IrType.description?_eq_self _)

/-- The type without values. -/
def voidType : Build TypeId := internType .void (IrType.description?_eq_self _)

/-- The type of pointers to a type. -/
def pointerType (pointee : TypeId) : Build TypeId :=
  internType (.pointer pointee) (IrType.description?_eq_self _)

/-- The type of arrays of a fixed length. -/
def arrayType (elem : TypeId) (length : Nat) : Build TypeId :=
  internType (.array elem length) (IrType.description?_eq_self _)

/-- A function type. -/
def functionType (params : List TypeId) (ret : TypeId) (variadic : Bool) : Build TypeId :=
  internType (.function params ret variadic) (IrType.description?_eq_self _)

/-- The structure type with given fields and no name. -/
def recordType (fields : List TypeId) : Build TypeId :=
  internType (.record fields) (IrType.description?_eq_self _)

/-- A new named structure without body. -/
def namedStruct (name : String) : Build TypeId := modifyGet fun m =>
  ((m.types.namedStruct name).1,
    m.withTypes (m.types.namedStruct name).2 (m.typesIndexed.namedStruct name))

/-- Fills in the body of a named structure, and says whether it had none. -/
def setStructBody (id : TypeId) (body : List TypeId) : Build Bool := fun m =>
  match hset : m.types.setStructBody id body with
  | .ok (done, types) => .ok (done, m.withTypes types (m.typesIndexed.setStructBody hset))
  | .error c => .error c

/-- What a type is. -/
def typeAt (id : TypeId) : Build IrType := ask fun m => m.types.get id

/-- The type of a value. -/
def typeOf (id : ValueId) : Build TypeId := ask fun m => m.typeOf id

/-- What a pointer value points to, none for other values. -/
def pointeeOf (ptr : ValueId) : Build (Option TypeId) := do
  return (← typeAt (← typeOf ptr)).pointee?

/-! ### Values and instructions -/

/-- A new value. -/
def pushValue (ty : TypeId) (origin : ValueDef) : Build ValueId := modifyGet fun m =>
  (⟨m.values.size⟩, { m with values := m.values.push ⟨ty, origin⟩ })

/-- Changes a block. -/
def modifyBlock (b : BlockId) (f : BlockData → BlockData) : Build Unit :=
  modify fun m => { m with blocks := m.blocks.modify b.index f }

/-- Changes a function, but not its name. -/
def modifyFunction (f : FunctionId) (g : FunctionData → FunctionData)
    (hg : ∀ d, (g d).name = d.name) : Build Unit :=
  modify fun m => m.modifyFunction f g hg

/-- A new instruction at the end of the current block. Without a current block, or
behind its terminator, the instruction is set aside and counted as an error. -/
def pushInstr (ty : TypeId) (instr : Instr) : Build ValueId := do
  let id ← pushValue ty (.instr instr)
  if ← ask Module.currentBlockTerminated then
    codegenError
    modify fun m => { m with detached := m.detached.push id }
  else
    match (← get).position with
    | some b => modifyBlock b fun block => { block with instrs := block.instrs.push id }
    | none => pure ()
  return id

/-- Ends the current block; an error when there is none or it has ended before. -/
def setTerminator (term : Terminator) : Build Unit := do
  if ← ask Module.currentBlockTerminated then codegenError
  else
    match (← get).position with
    | some b => modifyBlock b fun block => { block with terminator := some term }
    | none => pure ()

/-! ### Constants -/

/-- An integer constant, brought to the normal form of its type. -/
def constInt (ty : TypeId) (value : Int64) : Build ValueId := do
  match ← typeAt ty with
  | .int bits => pushValue ty (.const (.int (normalizeInt value bits)))
  | _ =>
    codegenError
    pushValue ty (.const (.int (normalizeInt value 64)))

/-- A floating point constant, rounded to the precision of its type. -/
def constFloat (ty : TypeId) (value : Double) : Build ValueId := do
  match ← typeAt ty with
  | .float bits => pushValue ty (.const (.float (value.round bits)))
  | _ => pushValue ty (.const (.float (value.round 64)))

/-- The null pointer of a type. -/
def constNull (ty : TypeId) : Build ValueId := pushValue ty (.const .null)

/-- The zero of a type. -/
def constZero (ty : TypeId) : Build ValueId := do
  match ← typeAt ty with
  | .int _ => pushValue ty (.const (.int 0))
  | .float _ => pushValue ty (.const (.float .zero))
  | .pointer _ | .function .. => pushValue ty (.const .null)
  | .record _ | .named .. | .array .. | .void => pushValue ty (.const .zero)

/-- A structure constant. -/
def constStruct (ty : TypeId) (fields : List ValueId) : Build ValueId :=
  pushValue ty (.const (.struct fields))

/-! ### Functions and blocks -/

/-- The parameters of a new function, as values. -/
def pushParams (f : FunctionId) : Nat → List TypeId → Build (List ValueId)
  | _, [] => pure []
  | i, ty :: rest => do
    let v ← pushValue ty (.param f i)
    return v :: (← pushParams f (i + 1) rest)

/-- Parameters are values, so functions are found as before. -/
theorem functionByName?_of_pushParams {f : FunctionId} {i : Nat} {tys : List TypeId}
    {params : List ValueId} {m m' : Module} (h : pushParams f i tys m = .ok (params, m'))
    (name : String) : m'.functionByName? name = m.functionByName? name := by
  induction tys generalizing i params m with
  | nil =>
    cases h
    rfl
  | cons ty rest ih =>
    have hstep : pushParams f i (ty :: rest) m =
        (pushParams f (i + 1) rest { m with values := m.values.push ⟨ty, .param f i⟩ } >>=
          fun p : List ValueId × Module => pure (⟨m.values.size⟩ :: p.1, p.2)) := rfl
    rw [hstep] at h
    cases hrest : pushParams f (i + 1) rest { m with values := m.values.push ⟨ty, .param f i⟩ }
      with
    | error c =>
      rw [hrest] at h
      cases h
    | ok p =>
      rw [hrest] at h
      cases h
      exact (ih hrest).trans rfl

/-- The function of a given name, declared with a given type if the name is new. -/
def declareFunction (name : String) (ty : TypeId) : Build FunctionId := fun m =>
  match hname : m.functionByName? name with
  | some f => .ok (f, m)
  | none => do
    let f : FunctionId := ⟨m.functions.size⟩
    let paramTypes := ((← m.types.get ty).signature?.map (·.params)).getD []
    match hparams : pushParams f 0 paramTypes m with
    | .ok (params, m') =>
      return (f, m'.withFunction ⟨name, ty, params, [], none, none⟩
        ((functionByName?_of_pushParams hparams name).trans hname))
    | .error c => .error c

/-- A parameter of a function; zero and an error when there is no such parameter. -/
def param (f : FunctionId) (index : Nat) : Build ValueId := do
  match (← ask fun m => m.function f).params[index]? with
  | some v => return v
  | none =>
    codegenError
    constZero (← intType 64)

/-- The address of a function, the same value every time. -/
def functionPtr (f : FunctionId) : Build ValueId := do
  let data ← ask fun m => m.function f
  match data.address with
  | some v => return v
  | none =>
    let ptrTy ← pointerType data.ty
    let v ← pushValue ptrTy (.function f)
    modifyFunction f (fun data => { data with address := some v }) fun _ => rfl
    return v

/-- Sets the routine that decides about exceptions in a function. -/
def setPersonality (f personality : FunctionId) : Build Unit := do
  let _ ← ask fun m => m.function f
  modifyFunction f (fun data => { data with personality := some personality }) fun _ => rfl

/-- A new block at the end of a function. -/
def appendBlock (f : FunctionId) (name : String) : Build BlockId := do
  let _ ← ask fun m => m.function f
  let b : BlockId := ⟨(← get).blocks.size⟩
  modify fun m => { m with blocks := m.blocks.push ⟨name, f, #[], none⟩ }
  modifyFunction f (fun data => { data with blocks := data.blocks ++ [b] }) fun _ => rfl
  return b

/-- Goes on at the end of a block. -/
def positionAtEnd (b : BlockId) : Build Unit := modify fun m => { m with position := some b }

/-- Goes on outside every block. -/
def clearPosition : Build Unit := modify fun m => { m with position := none }

/-- Goes on where a position kept from before says. -/
def restorePosition (p : Option BlockId) : Build Unit := modify fun m => { m with position := p }

/-! ### Globals -/

/-- A new global; the value is its address. -/
def addGlobal (name : String) (ty : TypeId) : Build ValueId := do
  let index := (← get).globals.size
  modify fun m => { m with globals := m.globals.push ⟨name, ty, none⟩ }
  let ptrTy ← pointerType ty
  pushValue ptrTy (.global index)

/-- Sets what a global starts with, and says whether that was possible: the first value
has to be a global and the second a constant. -/
def setGlobalInitializer (global init : ValueId) : Build Bool := do
  match (← ask fun m => m.value global).origin with
  | .global index =>
    if ← ask fun m => m.isConstant init then
      modify fun m =>
        { m with globals := m.globals.modify index fun g => { g with init := some init } }
      return true
    else return false
  | _ =>
    codegenError
    return false

/-- A string constant with a closing zero byte; the value is the address of its first
byte. -/
def globalString (text : String) : Build ValueId := do
  let bytes := text.toUTF8.toList ++ [0]
  let byteTy ← intType 8
  let arrayTy ← arrayType byteTy bytes.length
  let init ← pushValue arrayTy (.const (.bytes bytes))
  let index := (← get).globals.size
  modify fun m =>
    { m with
      globals := m.globals.push ⟨s!".str.{m.stringCount}", arrayTy, some init⟩
      stringCount := m.stringCount + 1 }
  let ptrTy ← pointerType byteTy
  pushValue ptrTy (.global index)

/-! ### Folding -/

/-- The value and the width of an integer constant. -/
def intConst? (v : ValueId) : Build (Option (Int64 × Nat)) := do
  let data ← ask fun m => m.value v
  match data.origin, ← typeAt data.ty with
  | .const (.int i), .int bits => return some (i, bits)
  | _, _ => return none

/-- The value and the width of a floating point constant. -/
def floatConst? (v : ValueId) : Build (Option (Double × Nat)) := do
  let data ← ask fun m => m.value v
  match data.origin, ← typeAt data.ty with
  | .const (.float x), .float bits => return some (x, bits)
  | _, _ => return none

/-- Whether a value is a null constant. -/
def isNullConst (v : ValueId) : Build Bool := do
  return (← ask fun m => m.value v).origin == .const .null

/-- The result of an operation on two constants, if it is settled. -/
def foldBinary (op : BinOp) (lhs rhs : ValueId) : Build (Option ValueId) := do
  let ty ← typeOf lhs
  if op.isFloat then
    match ← floatConst? lhs, ← floatConst? rhs with
    | some (a, bits), some (b, _) =>
      match evalFloat op a b bits with
      | some x => return some (← constFloat ty x)
      | none => return none
    | _, _ => return none
  else
    match ← intConst? lhs, ← intConst? rhs with
    | some (a, bits), some (b, _) =>
      match evalInt op a b bits with
      | some v => return some (← constInt ty v)
      | none => return none
    | _, _ => return none

/-- A truth value as a word. -/
def truthWord (b : Bool) : Int64 := if b then 1 else 0

/-- The result of comparing two integer constants, or two null pointers. -/
def foldICmp (pred : IntPredicate) (lhs rhs : ValueId) : Build (Option ValueId) := do
  match ← intConst? lhs, ← intConst? rhs with
  | some (a, _), some (b, _) =>
    return some (← constInt (← intType 1) (truthWord (pred.holds a b)))
  | _, _ =>
    if (← isNullConst lhs) && (← isNullConst rhs) then
      return some (← constInt (← intType 1) (truthWord (pred.holds 0 0)))
    else return none

/-- The result of comparing two floating point constants. -/
def foldFCmp (pred : FloatPredicate) (lhs rhs : ValueId) : Build (Option ValueId) := do
  match ← floatConst? lhs with
  | none => return none
  | some (a, _) =>
    match ← floatConst? rhs with
    | none => return none
    | some (b, _) => return some (← constInt (← intType 1) (truthWord (pred.holds a b)))

/-- The result of converting a constant, if it is settled. Addresses keep what they
stand for under their new type. -/
def foldCast (op : CastOp) (value : ValueId) (dest : TypeId) : Build (Option ValueId) := do
  let target ← typeAt dest
  match op with
  | .trunc | .sext =>
    match ← intConst? value with
    | some (v, _) => return some (← constInt dest v)
    | none => return none
  | .zext =>
    match ← intConst? value with
    | some (v, bits) => return some (← constInt dest (← zeroExtend v bits))
    | none => return none
  | .fptrunc | .fpext =>
    match ← floatConst? value, target with
    | some (x, _), .float bits => return some (← constFloat dest (x.round bits))
    | _, _ => return none
  | .fptosi =>
    match ← floatConst? value, target with
    | some (x, _), .int bits => return some (← constInt dest (normalizeInt x.toInt64 bits))
    | _, _ => return none
  | .sitofp =>
    match ← intConst? value with
    | some (v, _) => return some (← constFloat dest (.ofInt64 v))
    | none => return none
  | .ptrtoint =>
    if ← isNullConst value then return some (← constInt dest 0) else return none
  | .inttoptr =>
    match ← intConst? value with
    | some (v, _) => if v = 0 then return some (← constNull dest) else return none
    | none => return none
  | .bitcast =>
    match (← ask fun m => m.value value).origin with
    | .const .null => return some (← pushValue dest (.const .null))
    | .global index => return some (← pushValue dest (.global index))
    | .function f => return some (← pushValue dest (.function f))
    | _ => return none

/-! ### Requests for instructions -/

/-- An operation on two values of one type. -/
def binary (op : BinOp) (lhs rhs : ValueId) : Build ValueId := do
  match ← foldBinary op lhs rhs with
  | some v => return v
  | none =>
    let lty ← typeOf lhs
    let rty ← typeOf rhs
    if lty ≠ rty then codegenError
    pushInstr lty (.binary op lhs rhs)

/-- A comparison of integers. -/
def icmp (pred : IntPredicate) (lhs rhs : ValueId) : Build ValueId := do
  match ← foldICmp pred lhs rhs with
  | some v => return v
  | none => pushInstr (← intType 1) (.icmp pred lhs rhs)

/-- A comparison of floating point numbers. -/
def fcmp (pred : FloatPredicate) (lhs rhs : ValueId) : Build ValueId := do
  match ← foldFCmp pred lhs rhs with
  | some v => return v
  | none => pushInstr (← intType 1) (.fcmp pred lhs rhs)

/-- A conversion; nothing happens when the value has the type already. -/
def cast (op : CastOp) (value : ValueId) (dest : TypeId) : Build ValueId := do
  if (← typeOf value) = dest then return value
  match ← foldCast op value dest with
  | some v => return v
  | none => pushInstr dest (.cast op value)

/-- Room on the stack for a value of a type. -/
def alloca (ty : TypeId) : Build ValueId := do
  pushInstr (← pointerType ty) (.alloca ty)

/-- What is stored at an address. -/
def load (ptr : ValueId) : Build ValueId := do
  match ← pointeeOf ptr with
  | some pointee => pushInstr pointee (.load ptr)
  | none =>
    codegenError
    constZero (← intType 64)

/-- Stores a value of exactly the type the address points to. -/
def store (value ptr : ValueId) : Build Unit := do
  match ← pointeeOf ptr with
  | none => codegenError
  | some pointee =>
    if (← typeOf value) = pointee then
      let _ ← pushInstr (← voidType) (.store value ptr)
    else codegenError

/-- The address of a field of the structure at an address. -/
def structGep (ptr : ValueId) (index : Nat) : Build ValueId := do
  let field ← match ← pointeeOf ptr with
    | some s => do
      match (← typeAt s).fields? with
      | some fields => pure fields[index]?
      | none => pure none
    | none => pure none
  match field with
  | some ty => pushInstr (← pointerType ty) (.structGep ptr index)
  | none =>
    codegenError
    return ptr

/-- The address of the element at a distance from an address. -/
def gep (ptr index : ValueId) : Build ValueId := do
  let ty ← typeOf ptr
  if (← typeAt ty).isPointer then pushInstr ty (.gep ptr index)
  else
    codegenError
    return ptr

/-- A field of a structure value. -/
def extractValue (aggregate : ValueId) (index : Nat) : Build ValueId := do
  match (← typeAt (← typeOf aggregate)).fields? with
  | some fields =>
    match fields[index]? with
    | some ty => pushInstr ty (.extractValue aggregate index)
    | none =>
      codegenError
      return aggregate
  | none =>
    codegenError
    return aggregate

/-- A choice by the block from which control came. -/
def phi (ty : TypeId) (incoming : List (ValueId × BlockId)) : Build ValueId :=
  pushInstr ty (.phi incoming)

/-- The result type of a call; a wrong number of arguments is an error. -/
def callResultType (f : FunctionId) (args : List ValueId) : Build TypeId := do
  match (← typeAt (← ask fun m => m.function f).ty).signature? with
  | none => voidType
  | some sig =>
    let fits := if sig.variadic then args.length ≥ sig.params.length
      else args.length = sig.params.length
    if ¬ fits then codegenError
    return sig.ret

/-- A call; a function without result has no value. -/
def call (f : FunctionId) (args : List ValueId) : Build (Option ValueId) := do
  let ret ← callResultType f args
  let v ← pushInstr ret (.call f args)
  return if (← typeAt ret) = .void then none else some v

/-- Inline assembly. -/
def inlineAsm (text : String) : Build Unit := do
  let _ ← pushInstr (← voidType) (.inlineAsm text)

/-- A call that ends the block: it continues in `normal`, and in `unwind` when an
exception comes out of it. -/
def invoke (f : FunctionId) (args : List ValueId) (normal unwind : BlockId) :
    Build (Option ValueId) := do
  let ret ← callResultType f args
  let result ← if (← typeAt ret) = .void then pure none
    else do pure (some (← pushValue ret .invokeResult))
  setTerminator (.invoke f args normal unwind result)
  return result

/-- Where an exception arrives: its payload and its selector. -/
def landingPad (clauses : List ValueId) (catchAll : Bool) : Build ValueId := do
  let bytePtr ← pointerType (← intType 8)
  let selector ← intType 32
  pushInstr (← recordType [bytePtr, selector]) (.landingPad clauses catchAll)

/-- The selector of an exception type. -/
def typeIdFor (descriptor : ValueId) : Build ValueId := do
  pushInstr (← intType 32) (.typeIdFor descriptor)

/-! ### Requests for terminators -/

/-- Goes on with an exception that was stopped. -/
def resume (pad : ValueId) : Build Unit := setTerminator (.resume pad)

/-- Continues in a block. -/
def br (target : BlockId) : Build Unit := setTerminator (.br target)

/-- Continues in one of two blocks by a truth value; anything else is an error and goes
to the second block. -/
def condBr (cond : ValueId) (thenTo elseTo : BlockId) : Build Unit := do
  if (← typeAt (← typeOf cond)) = .int 1 then setTerminator (.condBr cond thenTo elseTo)
  else
    codegenError
    setTerminator (.br elseTo)

/-- Returns from the function. -/
def ret (value : Option ValueId) : Build Unit := setTerminator (.ret value)

/-- Marks a place that control does not reach. -/
def unreachable : Build Unit := setTerminator .unreachable

end Build

end SsaCompiler
