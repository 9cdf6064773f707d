/-
# Work that counts for nothing

A run is bounded by what it counts: steps, nested calls, exceptions that a handler has claimed, and
the room that is taken on the stack. Most of what the machine does leaves all of that alone, however
it ends: reading operands, arithmetic, loading and storing, printing, and all external functions
except those that claim an exception or leave a handler. The heap may only become longer.

Such work does not end in an endless recursion either, unless the module has a type or a constant
that contains itself.
-/

import SsaCompiler.Proofs.Machine.Allocation
import SsaCompiler.Proofs.Machine.Endless

namespace SsaCompiler

open MeetsEndless

/-! ### States with something that is counted -/

/-- States with something that is counted, and when it is the same in two of them. -/
class Counting (σ : Type) where
  /-- Whatever is counted is the same in both states. -/
  SameCounts : σ → σ → Prop
  refl : ∀ s, SameCounts s s
  trans : ∀ {s s' s''}, SameCounts s s' → SameCounts s' s'' → SameCounts s s''

open Counting

/-- A memory with a heap that is not shorter and with as long a stack. -/
structure Memory.SameCounts (memory memory' : Memory) : Prop where
  heap : memory.heap.size ≤ memory'.heap.size
  stack : memory'.stack.size = memory.stack.size
  limit : memory'.limit = memory.limit

instance : Counting Memory where
  SameCounts := Memory.SameCounts
  refl _ := ⟨Nat.le_refl _, rfl, rfl⟩
  trans h h' := ⟨h.heap.trans h'.heap, h'.stack.trans h.stack, h'.limit.trans h.limit⟩

/-- A state after as many steps and inside as many calls and handlers. -/
structure MachineState.SameCounts (s s' : MachineState) : Prop where
  memory : s.memory.SameCounts s'.memory
  depth : s'.depth = s.depth
  steps : s'.steps = s.steps
  caught : s'.caught = s.caught

instance : Counting MachineState where
  SameCounts := MachineState.SameCounts
  refl s := ⟨Counting.refl s.memory, rfl, rfl, rfl⟩
  trans h h' := ⟨(Counting.trans (σ := Memory) h.memory h'.memory :), h'.depth.trans h.depth,
    h'.steps.trans h.steps, h'.caught.trans h.caught⟩

/-! ### Computations that count nothing -/

variable {σ ε α β γ : Type} [Counting σ] [MeetsEndless ε] {m : Module}

/-- A computation that leaves what is counted alone, however it ends. -/
class Steady (m : Module) (x : EStateM ε σ α) : Prop where
  outcome : ∀ s, match x s with
    | .ok _ s' => SameCounts s s'
    | .error e s' => SameCounts s s' ∧ (m.IsWellFounded → ¬ IsEndless e)

namespace Steady

variable {x : EStateM ε σ α} {f : α → EStateM ε σ β}

/-- An answer comes from a state with the same counts. -/
theorem sameCounts_of_ok (hx : Steady m x) {s s' : σ} {a : α} (h : x s = .ok a s') : SameCounts s s' := by
  have houtcome := hx.outcome s
  rw [h] at houtcome
  exact houtcome

theorem sameCounts_of_error (hx : Steady m x) {s s' : σ} {e : ε} (h : x s = .error e s') :
    SameCounts s s' ∧ (m.IsWellFounded → ¬ IsEndless e) := by
  have houtcome := hx.outcome s
  rw [h] at houtcome
  exact houtcome

instance pure (a : α) : Steady m (Pure.pure a : EStateM ε σ α) := ⟨fun s => Counting.refl s⟩

/-- Stopping for a reason that is no endless recursion. -/
theorem error {e : ε} (he : m.IsWellFounded → ¬ IsEndless e) :
    Steady m (fun s => .error e s : EStateM ε σ α) := ⟨fun s => ⟨Counting.refl s, he⟩⟩

theorem bind [hx : Steady m x] (hf : ∀ a, Steady m (f a)) : Steady m (x >>= f) where
  outcome s := by
    change match EStateM.bind x f s with | .ok _ _ => _ | .error _ _ => _
    unfold EStateM.bind
    cases hrun : x s with
    | error e s' => exact hx.sameCounts_of_error hrun
    | ok a s' =>
        have hfirst := hx.sameCounts_of_ok hrun
        dsimp only
        cases hrun' : f a s' with
        | ok b s'' => exact Counting.trans hfirst ((hf a).sameCounts_of_ok hrun')
        | error e s'' =>
            obtain ⟨hsecond, he⟩ := (hf a).sameCounts_of_error hrun'
            exact ⟨Counting.trans hfirst hsecond, he⟩

instance [Steady m x] [hf : ∀ a, Steady m (f a)] : Steady m (x >>= f) := bind hf

/-- A sequence that begins with a look at the state. -/
theorem bind_get {g : σ → EStateM ε σ α} (h : ∀ s, Steady m (g s)) : Steady m (get >>= g) :=
  ⟨fun s => (h s).outcome s⟩

/-- A change of what is not counted. -/
theorem modify {g : σ → σ} (hg : ∀ s, SameCounts s (g s)) :
    Steady m (modify g : EStateM ε σ PUnit) := ⟨hg⟩

instance {p : Prop} [Decidable p] {x y : EStateM ε σ α} [Steady m x] [Steady m y] :
    Steady m (if p then x else y) := by
  split <;> assumption

instance (xs : List γ) (g : γ → EStateM ε σ β) [∀ c, Steady m (g c)] : Steady m (xs.mapM g) := by
  induction xs with
  | nil => exact pure []
  | cons c rest ih =>
      rw [List.mapM_cons]
      infer_instance

end Steady

/-! ### Operations on the memory -/

namespace Memory

variable {t : TypeTable} {memory : Memory}

theorem steady_ofFallible {x : Fallible α} (hx : m.IsWellFounded → Ends x) :
    Steady m (MemoryOp.ofFallible x) := by
  cases x with
  | ok a => exact .pure a
  | error e => exact .error fun h => (hx h).not_endless rfl

theorem steady_lift {x : Checked α} (hx : m.IsWellFounded → Ends x) :
    Steady m (liftM x : MemoryOp α) :=
  steady_ofFallible (x := Fallible.ofChecked x) fun h => have := hx h; inferInstance

instance {x : Checked α} [h : Ends x] : Steady m (liftM x : MemoryOp α) := steady_lift fun _ => h

instance (size align : Nat) : Steady m (allocHeap size align) where
  outcome memory := by
    unfold allocHeap
    cases hplace : memory.place memory.heap size align with
    | error e => exact ⟨Counting.refl memory, fun _ => Ends.not_endless hplace⟩
    | ok start => exact ⟨by simp [grow], rfl, rfl⟩

instance (a : UInt64) (bytes : List UInt8) : Steady m (writeBytes a bytes) where
  outcome := by
    rintro ⟨heap, stack, limit, live⟩
    have hfail : Counting.SameCounts (⟨heap, stack, limit, live⟩ : Memory) ⟨heap, stack, limit, live⟩ ∧
        (m.IsWellFounded → ¬ IsEndless (Fault.failed (.badAccess a bytes.length))) :=
      ⟨Counting.refl _, fun _ => id⟩
    unfold writeBytes
    rcases locate? a with _ | ⟨_ | _, start⟩
    · exact hfail
    · by_cases hroom : start + bytes.length ≤ heap.size
      · simp only [hroom, if_true]
        exact ⟨by simp, rfl, rfl⟩
      · simp only [hroom, if_false]
        exact hfail
    · by_cases hroom : start + bytes.length ≤ stack.size
      · simp only [hroom, if_true]
        exact ⟨Nat.le_refl _, by simp, rfl⟩
      · simp only [hroom, if_false]
        exact hfail

instance (a : UInt64) (n v : Nat) : Steady m (writeWord a n v) :=
  inferInstanceAs (Steady m (writeBytes a _))

theorem storesWith_steady : StoresWith m.types fun {_} x => Steady m x where
  pure a := .pure a
  bind _ hf := .bind hf
  bytes _ _ := inferInstance
  mismatch _ _ := steady_ofFallible fun _ => .malformed _
  get _ := inferInstance
  size ty := steady_lift fun hm => hm.types.ends_sizeOf ty
  start offset field := steady_lift fun hm => hm.types.ends_fieldStart offset field
  stop start field := steady_lift fun hm => hm.types.ends_fieldEnd start field
  place _ _ := inferInstance

/-- Storing a value. Where a type contains itself there may be no end of its parts, and then
nothing is said about how this ends. -/
instance steady_write (a : UInt64) (ty : TypeId) (v : Val) : Steady m (write m.types a ty v) := by
  by_cases hm : m.IsWellFounded
  · exact hm.types.of_parts (P := fun n ty => ∀ a v, Steady m (writeWithin m.types n a ty v))
      (fun n ty hparts => storesWith_steady.writeWithin_succ hparts) ty a v
  · exact storesWith_steady.writeWithin (.error fun h => absurd h hm) _ a ty v

end Memory

/-- Whether an instruction runs a function or takes room on the stack. -/
def Instr.usesFrames : Instr → Bool
  | .call .. | .alloca _ => true
  | _ => false

/-! ### Computations of the machine -/

namespace Exec

variable {frame : Frame}

/-- A question to the types or the code. -/
theorem steady_lift {x : Checked α} (hx : m.IsWellFounded → Ends x) :
    Steady m (liftM x : Exec α) := by
  cases x with
  | ok a => exact .pure a
  | error c => exact .error fun h => (hx h).not_endless rfl

instance {x : Checked α} [h : Ends x] : Steady m (liftM x : Exec α) := steady_lift fun _ => h

instance (e : ExecError) : Steady m (fail e : Exec α) := .error fun _ => id

instance (reason : Malformation) : Steady m (malformed reason : Exec α) := .error fun _ => id

/-- A fault is an endless recursion exactly when the stop is. -/
theorem isEndless_ofFault {fault : Fault} : IsEndless (Stop.ofFault fault) ↔ IsEndless fault := by
  cases fault <;> rfl

instance {op : MemoryOp α} [hop : Steady m op] : Steady m (onMemory op) where
  outcome s := by
    cases hrun : op s.memory with
    | ok a memory =>
        rw [onMemory_of_ok hrun]
        exact ⟨hop.sameCounts_of_ok hrun, rfl, rfl, rfl⟩
    | error e memory =>
        obtain ⟨hmemory, he⟩ := hop.sameCounts_of_error hrun
        rw [onMemory_of_error hrun]
        exact ⟨⟨hmemory, rfl, rfl, rfl⟩, fun h => mt isEndless_ofFault.1 (he h)⟩

theorem steady_askMemory {question : Memory → Fallible α}
    (hquestion : m.IsWellFounded → ∀ memory, Ends (question memory)) :
    Steady m (askMemory question) where
  outcome s := by
    unfold askMemory
    cases hasked : question s.memory with
    | ok a => exact Counting.refl s
    | error e => exact ⟨Counting.refl s, fun h =>
        mt isEndless_ofFault.1 ((hquestion h s.memory).not_endless hasked)⟩

instance (text : String) : Steady m (print text) := ⟨fun s => ⟨Counting.refl s.memory, rfl, rfl, rfl⟩⟩

instance (descriptor : UInt64) : Steady m (selectorOf descriptor) := by
  refine .bind_get fun s => ?_
  dsimp only
  split
  · infer_instance
  · have hinsert (selector : Int64) : Steady m (modify fun s : MachineState =>
        { s with selectors := s.selectors.insert descriptor selector } : Exec PUnit) :=
      .modify fun s => ⟨Counting.refl s.memory, rfl, rfl, rfl⟩
    infer_instance

instance (id : ValueId) : Steady m (operand m frame id) where
  outcome s := by
    unfold operand
    cases hvalue : frame.operand m s.globals id with
    | ok v => exact Counting.refl s
    | error e => exact ⟨Counting.refl s, fun h =>
        mt isEndless_ofFault.1 ((h.ends_operand frame s.globals id).not_endless hvalue)⟩

instance (ids : List ValueId) : Steady m (operands m frame ids) :=
  inferInstanceAs (Steady m (ids.mapM _))

instance (id : ValueId) : Steady m (intOperand m frame id) := by
  unfold intOperand
  refine .bind (fun v => ?_)
  split <;> infer_instance

instance (id : ValueId) : Steady m (floatOperand m frame id) := by
  unfold floatOperand
  refine .bind (fun v => ?_)
  split <;> infer_instance

instance (id : ValueId) : Steady m (ptrOperand m frame id) := by
  unfold ptrOperand
  refine .bind (fun v => ?_)
  split <;> infer_instance

/-! ### Instructions -/

instance (op : BinOp) (lhs rhs : ValueId) : Steady m (binary m frame op lhs rhs) := by
  unfold binary
  refine .bind (fun ty => ?_)
  dsimp only
  split
  · infer_instance
  · refine .bind (fun a => .bind (fun b => ?_))
    split <;> infer_instance

instance (op : CastOp) (value : ValueId) (dest : TypeId) : Steady m (cast m frame op value dest) := by
  unfold cast
  cases op <;> infer_instance

instance (id ptr : ValueId) (index : Nat) : Steady m (fieldAddress m frame id ptr index) := by
  have hoffset := fun ty => steady_lift fun h : m.IsWellFounded => h.types.ends_fieldOffset ty index
  unfold fieldAddress
  refine .bind (fun a => .bind (fun ty => ?_))
  dsimp only
  split <;> refine .bind (fun offset? => ?_) <;> split <;> infer_instance

instance (ptr index : ValueId) : Steady m (elementAddress m frame ptr index) := by
  have hsize := fun ty => steady_lift fun h : m.IsWellFounded => h.types.ends_sizeOf ty
  unfold elementAddress
  refine .bind (fun a => .bind (fun i => .bind (fun ty => ?_)))
  dsimp only
  split <;> infer_instance

instance (aggregate : ValueId) (index : Nat) : Steady m (extract m frame aggregate index) := by
  unfold extract
  refine .bind (fun v => ?_)
  cases v with
  | agg items =>
      dsimp only
      split <;> infer_instance
  | _ => infer_instance

/-- Every other instruction counts for nothing, apart from its step. -/
theorem steady_instruction {instr : Instr} (hinstr : instr.usesFrames = false) (call : Caller)
    (id : ValueId) : Steady m (instruction m call frame id instr) := by
  cases instr with
  | call f args => cases hinstr
  | alloca ty => cases hinstr
  | load ptr =>
      have hload (a : UInt64) (ty : TypeId) :
          Steady m (askMemory fun memory => memory.read m.types a ty) :=
        steady_askMemory fun h memory => memory.ends_read h.types a ty
      unfold instruction
      infer_instance
  | landingPad clauses catchAll =>
      unfold instruction
      dsimp only
      split <;> infer_instance
  | _ =>
      unfold instruction
      infer_instance

theorem instruction_congr {instr : Instr} (hinstr : instr.usesFrames = false) (call call' : Caller)
    (id : ValueId) : instruction m call frame id instr = instruction m call' frame id instr := by
  cases instr with
  | call f args => cases hinstr
  | _ => rfl

/-! ### Blocks -/

instance (block : BlockData) (source : Option BlockId) (ids : List ValueId) :
    Steady m (choices m block source frame ids) := by
  induction ids with
  | nil => exact .pure _
  | cons id rest ih =>
      unfold choices
      refine .bind (fun d => ?_)
      split
      · split
        · infer_instance
        · split <;> infer_instance
      · infer_instance

instance (block : BlockData) (source : Option BlockId) : Steady m (enterBlock m block source frame) := by
  unfold enterBlock
  infer_instance

instance (e : Exception) : Steady m (throw (.thrown e) : Exec α) := .error fun _ => id

instance (pad : ValueId) : Steady m (resume m frame pad) := by
  unfold resume
  refine .bind (fun v => .bind_get fun s => ?_)
  split <;> infer_instance

/-! ### External functions -/

section External

variable {name : String} {args : List Val}

instance (i : Nat) : Steady m (argument name args i) := by
  unfold argument
  split <;> infer_instance

instance (i : Nat) : Steady m (intArgument name args i) := by
  unfold intArgument
  refine .bind (fun v => ?_)
  split <;> infer_instance

instance (i : Nat) : Steady m (sizeArgument name args i) := by
  unfold sizeArgument
  infer_instance

instance (i : Nat) : Steady m (ptrArgument name args i) := by
  unfold ptrArgument
  refine .bind (fun v => ?_)
  split <;> infer_instance

instance (i : Nat) : Steady m (floatArgument name args i) := by
  unfold floatArgument
  refine .bind (fun v => ?_)
  cases v <;> infer_instance

instance (size : Nat) : Steady m (newBlock size) := by
  unfold newBlock
  infer_instance

instance (a : UInt64) : Steady m (release a) where
  outcome s := by
    refine ⟨?_, rfl, rfl, rfl⟩
    change s.memory.SameCounts (s.memory.free a)
    unfold Memory.free
    split <;> exact ⟨Nat.le_refl _, rfl, rfl⟩

instance (a : UInt64) : Steady m (printFormat a args) := by
  have htext : Steady m (askMemory fun memory => do
      Format.text memory (← memory.readText a) args) :=
    steady_askMemory fun _ memory => inferInstance
  unfold printFormat
  infer_instance

instance (e : Exception) : Steady m (raise e : Exec α) :=
  ⟨fun s => ⟨⟨Counting.refl s.memory, rfl, rfl, rfl⟩, fun _ => id⟩⟩

end External

end Exec

end SsaCompiler
