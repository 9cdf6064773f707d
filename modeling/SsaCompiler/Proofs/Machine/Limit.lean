/-
# Runs under higher limits

A limit of the machine stops a run, and nothing else depends on it: no error of a limit is caught,
dropped or turned into a value anywhere in the machine, and no answer is computed from a limit. So
two runs of the same code that start alike, one under higher limits than the other, stay alike
until the lower limits stop the first one.

The relation between two computations says this for one computation each. It is kept by sequences,
and each function of the machine has one lemma. The only places where the two computations differ
are where a step is counted, where a block is placed in memory, and where a call is entered; there
the lower limit is met first.
-/

import SsaCompiler.Machine.Run
import SsaCompiler.Proofs.Machine.Bytes

namespace SsaCompiler

/-! ### Limits and their errors -/

/-- Whether the error says that a limit has been reached. -/
def ExecError.IsLimit : ExecError → Prop
  | stepLimit _ | callDepth _ | outOfMemory _ _ => True
  | _ => False

/-- One collection of limits allows at most what another one allows. -/
structure Limits.AtMost (low high : Limits) : Prop where
  maxSteps : low.maxSteps ≤ high.maxSteps
  maxCallDepth : low.maxCallDepth ≤ high.maxCallDepth
  memoryLimit : low.memoryLimit ≤ high.memoryLimit

/-- Reasons to stop some of which are limits. -/
class MeetsLimit (ε : Type) where
  /-- Whether the reason is a limit. -/
  IsLimit : ε → Prop

instance : MeetsLimit Fault where
  IsLimit
    | .failed e => e.IsLimit
    | .crashed _ => False

instance : MeetsLimit Stop where
  IsLimit
    | .failed e => e.IsLimit
    | _ => False

/-- States with a limit of their memory. -/
class HasLimit (σ : Type) where
  /-- The limit of the memory. -/
  limit : σ → Nat
  /-- The same state with another limit. -/
  withLimit : σ → Nat → σ

instance : HasLimit Memory := ⟨Memory.limit, fun m limit => { m with limit := limit }⟩

instance : HasLimit MachineState :=
  ⟨fun s => s.memory.limit, fun s limit => { s with memory := HasLimit.withLimit s.memory limit }⟩

open HasLimit MeetsLimit

/-! ### Computations under two limits -/

section Loosens

variable {σ ε α β : Type} [HasLimit σ] [MeetsLimit ε] {low high : Nat}

/-- An outcome under a low limit and one under a high limit: they are alike, unless the first one
is the error of a limit. -/
def SameOutcome (low high : Nat) (r r' : EStateM.Result ε σ α) : Prop :=
  match r with
  | .ok a s => limit s = low ∧ r' = .ok a (withLimit s high)
  | .error e s => IsLimit e ∨ limit s = low ∧ r' = .error e (withLimit s high)

/-- A computation under a low limit and one under a high limit that do the same from states that
are alike, unless the first one stops at a limit. -/
def Loosens (low high : Nat) (x x' : EStateM ε σ α) : Prop :=
  ∀ s, limit s = low → SameOutcome low high (x s) (x' (withLimit s high))

variable {x x' : EStateM ε σ α} {f f' : α → EStateM ε σ β}

namespace Loosens

/-- An answer that is given at once. -/
theorem pure (a : α) : Loosens low high (Pure.pure a : EStateM ε σ α) (Pure.pure a) :=
  fun _ hs => ⟨hs, rfl⟩

theorem error (e : ε) : Loosens low high (fun s => .error e s : EStateM ε σ α)
    (fun s => .error e s) := fun _ hs => .inr ⟨hs, rfl⟩

theorem limit {e : ε} (he : IsLimit e) : Loosens low high (fun s => .error e s : EStateM ε σ α) x' :=
  fun _ _ => .inl he

theorem bind (hx : Loosens low high x x') (hf : ∀ a, Loosens low high (f a) (f' a)) :
    Loosens low high (x >>= f) (x' >>= f') := by
  intro s hs
  have hfirst := hx s hs
  change SameOutcome low high (EStateM.bind x f s) (EStateM.bind x' f' (withLimit s high))
  unfold EStateM.bind
  cases hxs : x s with
  | ok a s₁ =>
      rw [hxs] at hfirst
      obtain ⟨hs₁, hx'⟩ := hfirst
      rw [hx']
      exact hf a s₁ hs₁
  | error e s₁ =>
      rw [hxs] at hfirst
      rcases hfirst with hlimit | ⟨hs₁, hx'⟩
      · exact .inl hlimit
      · rw [hx']
        exact .inr ⟨hs₁, rfl⟩

/-- A sequence that begins with a look at the state. -/
theorem bind_get {g g' : σ → EStateM ε σ α}
    (h : ∀ s, Loosens low high (g s) (g' (withLimit s high))) :
    Loosens low high (get >>= g) (get >>= g') := fun s hs => h s s hs

/-- A change of the state that leaves the limit alone. -/
theorem modify {g : σ → σ} (hlimit : ∀ s, HasLimit.limit (g s) = HasLimit.limit s)
    (hcomm : ∀ s, g (withLimit s high) = withLimit (g s) high) :
    Loosens low high (modify g : EStateM ε σ PUnit) (modify g) := fun s hs =>
  ⟨(hlimit s).trans hs, congrArg (EStateM.Result.ok PUnit.unit) (hcomm s)⟩

/-- Computations for a list of entries, one after the other. -/
theorem mapM {γ : Type} {g : γ → EStateM ε σ β} (xs : List γ)
    (h : ∀ x, Loosens low high (g x) (g x)) : Loosens low high (xs.mapM g) (xs.mapM g) := by
  induction xs with
  | nil => exact pure []
  | cons x rest ih =>
      rw [List.mapM_cons]
      exact bind (h x) fun y => bind ih fun ys => pure (y :: ys)

end Loosens

end Loosens

variable {α : Type} {low high : Nat}

/-! ### Operations on the memory -/

namespace Memory

theorem ofFallible_loosens (x : Fallible α) :
    Loosens low high (MemoryOp.ofFallible x) (MemoryOp.ofFallible x) := by
  cases x with
  | ok a => exact .pure a
  | error e => exact .error e

theorem lift_loosens (x : Checked α) :
    Loosens low high (liftM x : MemoryOp α) (liftM x) := ofFallible_loosens (Fallible.ofChecked x)

/-- A question whose answer may be a failure. -/
theorem liftFallible_loosens (x : Fallible α) :
    Loosens low high (liftM x : MemoryOp α) (liftM x) := ofFallible_loosens x

/-- A request that stays below the low limit stays below the high limit, and only a limit can be
met at one and not at the other. -/
theorem checkLimit_withLimit (hle : low ≤ high) {m : Memory} (hm : m.limit = low)
    (size align : Nat) : (∃ e, m.checkLimit size align = .error e ∧ IsLimit e) ∨
      (withLimit m high).checkLimit size align = m.checkLimit size align := by
  unfold checkLimit
  cases Checked.word (size + align) with
  | error c => exact .inr rfl
  | ok requested =>
      change (∃ e, (liftM (Checked.word (m.used + requested)) >>= _ : Fallible Unit) = .error e ∧ _) ∨
        (liftM (Checked.word (m.used + requested)) >>= _ : Fallible Unit) =
          (liftM (Checked.word (m.used + requested)) >>= _)
      cases Checked.word (m.used + requested) with
      | error c => exact .inr rfl
      | ok total =>
          change (∃ e, (if total > m.limit then _ else _) = Except.error e ∧ _) ∨
            (if total > high then _ else _) = (if total > m.limit then _ else _)
          by_cases htotal : total > m.limit
          · exact .inl ⟨_, if_pos htotal, trivial⟩
          · exact .inr (by rw [if_neg htotal, if_neg (by omega)])

/-- A block is placed alike below both limits. -/
theorem place_withLimit (hle : low ≤ high) {m : Memory} (hm : m.limit = low)
    (region : Array UInt8) (size align : Nat) :
    (∃ e, m.place region size align = .error e ∧ IsLimit e) ∨
      (withLimit m high).place region size align = m.place region size align := by
  unfold place
  rcases checkLimit_withLimit hle hm size align with ⟨e, he, hlimit⟩ | hsame
  · exact .inl ⟨e, by rw [he]; rfl, hlimit⟩
  · exact .inr (by rw [hsame])

theorem allocHeap_loosens (hle : low ≤ high) (size align : Nat) :
    Loosens low high (allocHeap size align) (allocHeap size align) := by
  intro m hm
  unfold allocHeap
  rcases place_withLimit hle hm m.heap size align with ⟨e, he, hlimit⟩ | hsame
  · rw [he]
    exact .inl hlimit
  · have hregion : (withLimit m high).heap = m.heap := rfl
    rw [hregion, hsame]
    cases m.place m.heap size align with
    | error e => exact .inr ⟨hm, rfl⟩
    | ok start => exact ⟨hm, rfl⟩

theorem allocStack_loosens (hle : low ≤ high) (size align : Nat) :
    Loosens low high (allocStack size align) (allocStack size align) := by
  intro m hm
  unfold allocStack
  rcases place_withLimit hle hm m.stack size align with ⟨e, he, hlimit⟩ | hsame
  · rw [he]
    exact .inl hlimit
  · have hregion : (withLimit m high).stack = m.stack := rfl
    rw [hregion, hsame]
    cases m.place m.stack size align with
    | error e => exact .inr ⟨hm, rfl⟩
    | ok start => exact ⟨hm, rfl⟩

theorem writeBytes_loosens (a : UInt64) (bytes : List UInt8) :
    Loosens low high (writeBytes a bytes) (writeBytes a bytes) := by
  rintro ⟨heap, stack, limit, live⟩ hm
  unfold writeBytes
  cases locate? a with
  | none => exact .inr ⟨hm, rfl⟩
  | some place =>
      obtain ⟨isStack, start⟩ := place
      cases isStack
      all_goals
        dsimp only [withLimit]
        split
        · exact ⟨hm, rfl⟩
        · exact .inr ⟨hm, rfl⟩

theorem storesWith_loosens (t : TypeTable) :
    StoresWith t fun {_} x => Loosens low high x x where
  pure a := .pure a
  bind hx hf := .bind hx hf
  bytes a bytes := writeBytes_loosens a bytes
  mismatch _ _ := ofFallible_loosens _
  get _ := lift_loosens _
  size _ := lift_loosens _
  start _ _ := lift_loosens _
  stop _ _ := lift_loosens _
  place _ _ := lift_loosens _

theorem writeWithin_loosens (t : TypeTable) (n : Nat) (a : UInt64) (ty : TypeId) (v : Val) :
    Loosens low high (writeWithin t n a ty v) (writeWithin t n a ty v) :=
  (storesWith_loosens t).writeWithin (.error _) n a ty v

/-- Reading does not depend on the limit. -/
@[simp]
theorem readWithin_withLimit (m : Memory) (t : TypeTable) (limit n : Nat) :
    (withLimit m limit).readWithin t n = m.readWithin t n := by
  induction n with
  | zero => rfl
  | succ n ih =>
      funext a ty
      unfold readWithin
      rw [ih]
      rfl

end Memory

/-- Formatting does not depend on the limit of the memory from which it reads texts. -/
theorem Format.textFrom_withLimit (m : Memory) (limit : Nat) (mode : FormatMode)
    (format : List Char) (args : List Val) :
    Format.textFrom (withLimit m limit) mode format args = Format.textFrom m mode format args := by
  induction format generalizing mode args with
  | nil => cases mode <;> rfl
  | cons c rest ih =>
      unfold Format.textFrom
      simp only [ih]
      rfl

/-! ### Computations of the machine -/

namespace Exec

/-- A question to the types or the code. -/
theorem lift_loosens (x : Checked α) : Loosens low high (liftM x : Exec α) (liftM x) := by
  cases x with
  | ok a => exact .pure a
  | error c => exact .error (Stop.crashed c)

theorem fail_loosens (e : ExecError) : Loosens low high (fail e : Exec α) (fail e) :=
  .error (Stop.failed e)

/-- Code that the machine cannot make sense of. -/
theorem malformed_loosens (reason : Malformation) :
    Loosens low high (malformed reason : Exec α) (malformed reason) := fail_loosens _

/-- A fault is an error of a limit exactly when the stop is. -/
theorem isLimit_ofFault {fault : Fault} (h : IsLimit fault) : IsLimit (Stop.ofFault fault) := by
  cases fault with
  | failed e => exact h
  | crashed c => cases h

/-- An operation on the memory that succeeds. -/
theorem onMemory_of_ok {op : MemoryOp α} {s : MachineState} {a : α} {memory : Memory}
    (h : op s.memory = .ok a memory) : onMemory op s = .ok a { s with memory := memory } := by
  cases s
  unfold onMemory
  dsimp only at h ⊢
  rw [h]

/-- An operation on the memory that stops. -/
theorem onMemory_of_error {op : MemoryOp α} {s : MachineState} {e : Fault} {memory : Memory}
    (h : op s.memory = .error e memory) :
    onMemory op s = .error (.ofFault e) { s with memory := memory } := by
  cases s
  unfold onMemory
  dsimp only at h ⊢
  rw [h]

theorem onMemory_loosens {op op' : MemoryOp α} (h : Loosens low high op op') :
    Loosens low high (onMemory op) (onMemory op') := by
  intro s hs
  have hmemory := h s.memory hs
  cases hop : op s.memory with
  | ok a memory =>
      rw [hop] at hmemory
      rw [onMemory_of_ok hop, onMemory_of_ok (s := withLimit s high) hmemory.2]
      exact ⟨hmemory.1, rfl⟩
  | error e memory =>
      rw [hop] at hmemory
      rw [onMemory_of_error hop]
      rcases hmemory with hlimit | ⟨hkept, hop'⟩
      · exact .inl (isLimit_ofFault hlimit)
      · rw [onMemory_of_error (s := withLimit s high) hop']
        exact .inr ⟨hkept, rfl⟩

/-- A question to the memory whose answer does not depend on the limit. -/
theorem askMemory_loosens {question : Memory → Fallible α}
    (h : ∀ m, question (withLimit m high) = question m) :
    Loosens low high (askMemory question) (askMemory question) := by
  intro s hs
  have hsame : question (withLimit s high).memory = question s.memory := h s.memory
  unfold askMemory
  rw [hsame]
  cases question s.memory with
  | ok a => exact ⟨hs, rfl⟩
  | error e => exact .inr ⟨hs, rfl⟩

theorem print_loosens (text : String) : Loosens low high (print text) (print text) :=
  fun _ hs => ⟨hs, rfl⟩

theorem selectorOf_loosens (descriptor : UInt64) :
    Loosens low high (selectorOf descriptor) (selectorOf descriptor) := by
  refine .bind_get fun s => ?_
  have hsame : (withLimit s high).selectors = s.selectors := rfl
  dsimp only
  rw [hsame]
  cases s.selectors.get? descriptor with
  | some selector => exact .pure selector
  | none => exact .bind (.modify (fun _ => rfl) fun _ => rfl) fun _ => .pure _

theorem inCall_of_ok {x : Exec α} {s s' : MachineState} {a : α}
    (h : x { s with depth := s.depth + 1 } = .ok a s') :
    inCall x s = .ok a { s' with
      memory := s'.memory.resetStack s.memory.stack.size, depth := s'.depth - 1 } := by
  cases s
  unfold inCall
  dsimp only at h ⊢
  rw [h]

theorem inCall_of_error {x : Exec α} {s s' : MachineState} {stop : Stop}
    (h : x { s with depth := s.depth + 1 } = .error stop s') :
    inCall x s = .error stop { s' with
      memory := s'.memory.resetStack s.memory.stack.size, depth := s'.depth - 1 } := by
  cases s
  unfold inCall
  dsimp only at h ⊢
  rw [h]

theorem inCall_loosens {x x' : Exec α} (h : Loosens low high x x') :
    Loosens low high (inCall x) (inCall x') := by
  intro s hs
  have hbody := h { s with depth := s.depth + 1 } hs
  cases hx : x { s with depth := s.depth + 1 } with
  | ok a s₁ =>
      rw [hx] at hbody
      rw [inCall_of_ok hx, inCall_of_ok (s := withLimit s high) hbody.2]
      exact ⟨hbody.1, rfl⟩
  | error e s₁ =>
      rw [hx] at hbody
      rw [inCall_of_error hx]
      rcases hbody with hlimit | ⟨hkept, hx'⟩
      · exact .inl hlimit
      · rw [inCall_of_error (s := withLimit s high) hx']
        exact .inr ⟨hkept, rfl⟩

/-! ### Instructions -/

section Instructions

variable (m : Module) (frame : Frame)

theorem operand_loosens (id : ValueId) :
    Loosens low high (operand m frame id) (operand m frame id) := by
  intro s hs
  have hsame : (withLimit s high).globals = s.globals := rfl
  unfold operand
  rw [hsame]
  cases frame.operand m s.globals id with
  | ok v => exact ⟨hs, rfl⟩
  | error e => exact .inr ⟨hs, rfl⟩

theorem operands_loosens (ids : List ValueId) :
    Loosens low high (operands m frame ids) (operands m frame ids) :=
  .mapM ids (operand_loosens m frame)

/-- An operand that has to be an integer. -/
theorem intOperand_loosens (id : ValueId) :
    Loosens low high (intOperand m frame id) (intOperand m frame id) := by
  refine .bind (operand_loosens m frame id) fun v => ?_
  cases v.asInt? with
  | some i => exact .pure i
  | none => exact malformed_loosens _

/-- An operand that has to be a floating point number. -/
theorem floatOperand_loosens (id : ValueId) :
    Loosens low high (floatOperand m frame id) (floatOperand m frame id) := by
  refine .bind (operand_loosens m frame id) fun v => ?_
  cases v.asFloat? with
  | some x => exact .pure x
  | none => exact malformed_loosens _

/-- An operand that has to be an address. -/
theorem ptrOperand_loosens (id : ValueId) :
    Loosens low high (ptrOperand m frame id) (ptrOperand m frame id) := by
  refine .bind (operand_loosens m frame id) fun v => ?_
  cases v.asPtr? with
  | some a => exact .pure a
  | none => exact malformed_loosens _

theorem binary_loosens (op : BinOp) (lhs rhs : ValueId) :
    Loosens low high (binary m frame op lhs rhs) (binary m frame op lhs rhs) := by
  refine .bind (lift_loosens _) fun ty => ?_
  dsimp only
  split
  · exact .bind (floatOperand_loosens m frame lhs) fun a =>
      .bind (floatOperand_loosens m frame rhs) fun b => .pure _
  · refine .bind (intOperand_loosens m frame lhs) fun a =>
      .bind (intOperand_loosens m frame rhs) fun b => ?_
    cases evalInt op a b ty.width with
    | some r => exact .pure _
    | none => exact fail_loosens _

theorem cast_loosens (op : CastOp) (value : ValueId) (dest : TypeId) :
    Loosens low high (cast m frame op value dest) (cast m frame op value dest) := by
  refine .bind (lift_loosens _) fun destTy => .bind (lift_loosens _) fun ty => ?_
  have hint : Loosens low high (intOperand m frame value) (intOperand m frame value) :=
    intOperand_loosens m frame value
  have hfloat : Loosens low high (floatOperand m frame value) (floatOperand m frame value) :=
    floatOperand_loosens m frame value
  cases op with
  | trunc | sext | sitofp | inttoptr => exact .bind hint fun _ => .pure _
  | zext => exact .bind hint fun _ => .bind (lift_loosens _) fun _ => .pure _
  | fptrunc | fpext | fptosi => exact .bind hfloat fun _ => .pure _
  | ptrtoint => exact .bind (ptrOperand_loosens m frame value) fun _ => .pure _
  | bitcast => exact operand_loosens m frame value

theorem fieldAddress_loosens (id ptr : ValueId) (index : Nat) :
    Loosens low high (fieldAddress m frame id ptr index) (fieldAddress m frame id ptr index) := by
  refine .bind (ptrOperand_loosens m frame ptr) fun a => .bind (lift_loosens _) fun ty => ?_
  dsimp only
  cases ty.pointee? with
  | some ty =>
      refine .bind (lift_loosens _) fun offset? => ?_
      cases offset? with
      | some offset => exact .bind (lift_loosens _) fun _ => .pure _
      | none => exact malformed_loosens _
  | none =>
      refine .bind (.pure none) fun offset? => ?_
      cases offset? with
      | some offset => exact .bind (lift_loosens _) fun _ => .pure _
      | none => exact malformed_loosens _

theorem elementAddress_loosens (ptr index : ValueId) :
    Loosens low high (elementAddress m frame ptr index) (elementAddress m frame ptr index) := by
  refine .bind (ptrOperand_loosens m frame ptr) fun a =>
    .bind (intOperand_loosens m frame index) fun i => .bind (lift_loosens _) fun ty => ?_
  dsimp only
  cases ty.pointee? with
  | some ty => exact .bind (lift_loosens _) fun size => .pure _
  | none => exact .bind (.pure 1) fun size => .pure _

theorem extract_loosens (aggregate : ValueId) (index : Nat) :
    Loosens low high (extract m frame aggregate index) (extract m frame aggregate index) := by
  refine .bind (operand_loosens m frame aggregate) fun v => ?_
  cases v with
  | agg items =>
      dsimp only
      cases items[index]? with
      | some item => exact .pure item
      | none => exact malformed_loosens _
  | _ => exact malformed_loosens _

variable {m} {call call' : Caller}

/-- An instruction, when calls are alike. -/
theorem instruction_loosens (hle : low ≤ high)
    (hcall : ∀ f args, Loosens low high (call f args) (call' f args)) (id : ValueId)
    (instr : Instr) :
    Loosens low high (instruction m call frame id instr) (instruction m call' frame id instr) := by
  cases instr with
  | binary op lhs rhs => exact .bind (binary_loosens m frame op lhs rhs) fun _ => .pure _
  | icmp pred lhs rhs =>
      exact .bind (intOperand_loosens m frame lhs) fun _ =>
        .bind (intOperand_loosens m frame rhs) fun _ => .pure _
  | fcmp pred lhs rhs =>
      exact .bind (floatOperand_loosens m frame lhs) fun _ =>
        .bind (floatOperand_loosens m frame rhs) fun _ => .pure _
  | cast op value =>
      exact .bind (lift_loosens _) fun dest =>
        .bind (cast_loosens m frame op value dest) fun _ => .pure _
  | alloca ty =>
      exact .bind (lift_loosens _) fun size => .bind (lift_loosens _) fun align =>
        .bind (onMemory_loosens (Memory.allocStack_loosens hle size align)) fun _ => .pure _
  | load ptr =>
      refine .bind (ptrOperand_loosens m frame ptr) fun a => .bind (lift_loosens _) fun ty =>
        .bind (askMemory_loosens fun memory => ?_) fun _ => .pure _
      exact congrFun (congrFun (Memory.readWithin_withLimit memory _ _ _) a) ty
  | store value ptr =>
      exact .bind (ptrOperand_loosens m frame ptr) fun a =>
        .bind (operand_loosens m frame value) fun v => .bind (lift_loosens _) fun ty =>
        .bind (onMemory_loosens (Memory.writeWithin_loosens _ _ a ty v)) fun _ => .pure _
  | structGep ptr index => exact .bind (fieldAddress_loosens m frame id ptr index) fun _ => .pure _
  | gep ptr index => exact .bind (elementAddress_loosens m frame ptr index) fun _ => .pure _
  | extractValue aggregate index =>
      exact .bind (extract_loosens m frame aggregate index) fun _ => .pure _
  | phi incoming => exact malformed_loosens _
  | call f args =>
      exact .bind (operands_loosens m frame args) fun args => .bind (hcall f args) fun _ => .pure _
  | landingPad clauses catchAll =>
      unfold instruction
      cases frame.inFlight with
      | some e => exact .bind (selectorOf_loosens e.descriptor) fun _ => .pure _
      | none => exact malformed_loosens _
  | typeIdFor descriptor =>
      exact .bind (ptrOperand_loosens m frame descriptor) fun a =>
        .bind (selectorOf_loosens a) fun _ => .pure _
  | inlineAsm text => exact .pure _

end Instructions

end Exec

end SsaCompiler
