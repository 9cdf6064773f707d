/-
# Runs under higher limits

A run under some limits that does not end at one of them is the same run under higher limits: it
ends in the same way, having printed the same, after as many steps, with the same memory. Rounds
and levels follow the limits, so the inductions compare a number of rounds, or of levels, with a
number that is at least as great.
-/

import SsaCompiler.Proofs.Ir.Request
import SsaCompiler.Proofs.Machine.Limit

namespace SsaCompiler

open HasLimit MeetsLimit

variable {α : Type} {low high : Nat} {limits limits' : Limits} {m : Module} {frame : Frame}
  {call call' : Caller}

namespace Exec

theorem step_loosens (hle : limits.AtMost limits') :
    Loosens low high (step limits) (step limits') := by
  rintro ⟨memory, globals, selectors, output, steps, depth, thrown, caught⟩ hs
  have hsteps := hle.maxSteps
  change SameOutcome low high (if steps + 1 > limits.maxSteps then _ else _)
    (if steps + 1 > limits'.maxSteps then _ else _)
  by_cases hlimit : steps + 1 > limits.maxSteps
  · rw [if_pos hlimit]
    exact .inl trivial
  · rw [if_neg hlimit, if_neg (by omega)]
    exact ⟨hs, rfl⟩

/-! ### Blocks -/

/-- The choices at the head of a block. -/
theorem choices_loosens (block : BlockData) (source : Option BlockId) (ids : List ValueId) :
    Loosens low high (choices m block source frame ids) (choices m block source frame ids) := by
  induction ids with
  | nil => exact .pure _
  | cons id rest ih =>
      refine .bind (lift_loosens _) fun data => ?_
      dsimp only
      split
      · cases source with
        | none => exact malformed_loosens _
        | some source =>
            dsimp only
            split
            · exact malformed_loosens _
            · exact .bind (operand_loosens m frame _) fun v => .bind ih fun _ => .pure _
      · exact .pure _

theorem instructions_loosens (hle : limits.AtMost limits') (hmem : low ≤ high)
    (hcall : ∀ f args, Loosens low high (call f args) (call' f args)) (ids : List ValueId) :
    Loosens low high (instructions m limits call frame ids)
      (instructions m limits' call' frame ids) := by
  induction ids generalizing frame with
  | nil => exact .pure frame
  | cons id rest ih =>
      refine .bind (step_loosens hle) fun _ => .bind (lift_loosens _) fun data => ?_
      split
      · exact .bind (instruction_loosens frame hmem hcall id _) fun frame => ih
      · exact ih

/-- A call that goes on in one of two blocks. No error of a limit arrives in a landing pad. -/
theorem invoke_loosens (hcall : ∀ f args, Loosens low high (call f args) (call' f args))
    (f : FunctionId) (args : List ValueId) (normal unwind : BlockId) (result : Option ValueId) :
    Loosens low high (invoke m call frame f args normal unwind result)
      (invoke m call' frame f args normal unwind result) := by
  refine .bind (operands_loosens m frame args) fun args s hs => ?_
  have hstate := hcall f args s hs
  cases hcalled : call f args s with
  | ok v s₁ =>
      rw [hcalled] at hstate
      rw [hstate.2]
      cases result <;> exact ⟨hstate.1, rfl⟩
  | error stop s₁ =>
      rw [hcalled] at hstate
      rcases hstate with hlimit | ⟨hkept, hcalled'⟩
      · cases stop with
        | thrown e => exact hlimit.elim
        | failed e => exact .inl hlimit
        | crashed c => exact hlimit.elim
      · rw [hcalled']
        cases stop with
        | thrown e =>
            have hsame : (withLimit s₁ high).globals = s₁.globals := rfl
            dsimp only
            rw [hsame]
            cases padCatches m s₁.globals unwind e.descriptor with
            | error c => exact .inr ⟨hkept, rfl⟩
            | ok stops =>
                cases stops with
                | true => exact ⟨hkept, rfl⟩
                | false => exact .inr ⟨hkept, rfl⟩
        | failed e => exact .inr ⟨hkept, rfl⟩
        | crashed c => exact .inr ⟨hkept, rfl⟩

theorem resume_loosens (pad : ValueId) :
    Loosens low high (resume m frame pad) (resume m frame pad) := by
  refine .bind (operand_loosens m frame pad) fun v => .bind_get fun s => ?_
  have hsame : (withLimit s high).thrown = s.thrown := rfl
  rw [hsame]
  cases s.thrown.get? (payloadOf v) with
  | some e => exact .error (Stop.thrown e)
  | none => exact malformed_loosens _

theorem terminator_loosens (hcall : ∀ f args, Loosens low high (call f args) (call' f args))
    (name : String) (block : BlockData) :
    Loosens low high (terminator m call name block frame)
      (terminator m call' name block frame) := by
  unfold terminator
  cases block.terminator with
  | none => exact malformed_loosens _
  | some t =>
      cases t with
      | br target => exact .pure _
      | condBr cond thenTo elseTo => exact .bind (operand_loosens m frame cond) fun _ => .pure _
      | ret value =>
          cases value with
          | none => exact .pure _
          | some value => exact .bind (operand_loosens m frame value) fun _ => .pure _
      | invoke f args normal unwind result => exact invoke_loosens hcall f args normal unwind result
      | resume pad => exact resume_loosens pad
      | unreachable => exact fail_loosens _

theorem block_loosens (hle : limits.AtMost limits') (hmem : low ≤ high)
    (hcall : ∀ f args, Loosens low high (call f args) (call' f args)) (name : String)
    (b : BlockId) (source : Option BlockId) :
    Loosens low high (block m limits call name b source frame)
      (block m limits' call' name b source frame) := by
  refine .bind (lift_loosens _) fun data => ?_
  have henter : Loosens low high (enterBlock m data source frame) (enterBlock m data source frame) :=
    .bind (choices_loosens data source _) fun _ => .pure _
  exact .bind henter fun _ => .bind (instructions_loosens hle hmem hcall _) fun _ =>
    .bind (step_loosens hle) fun _ => terminator_loosens hcall name data

/-! ### External functions -/

section External

variable (name : String) (args : List Val) (i : Nat)

theorem argument_loosens : Loosens low high (argument name args i) (argument name args i) := by
  unfold argument
  cases args[i]? with
  | some v => exact .pure v
  | none => exact malformed_loosens _

/-- An argument that is a size. -/
theorem sizeArgument_loosens :
    Loosens low high (sizeArgument name args i) (sizeArgument name args i) := by
  refine .bind (.bind (argument_loosens name args i) fun v => ?_) fun _ => .pure _
  cases v.asInt? with
  | some v => exact .pure v
  | none => exact malformed_loosens _

/-- An argument that has to be an address. -/
theorem ptrArgument_loosens :
    Loosens low high (ptrArgument name args i) (ptrArgument name args i) := by
  refine .bind (argument_loosens name args i) fun v => ?_
  cases v.asPtr? with
  | some a => exact .pure a
  | none => exact malformed_loosens _

/-- An argument that has to be a number. -/
theorem floatArgument_loosens :
    Loosens low high (floatArgument name args i) (floatArgument name args i) := by
  refine .bind (argument_loosens name args i) fun v => ?_
  cases v with
  | float x => exact .pure x
  | int v => exact .pure _
  | _ => exact malformed_loosens _

theorem newBlock_loosens (hmem : low ≤ high) (size : Nat) :
    Loosens low high (newBlock size) (newBlock size) :=
  .bind (onMemory_loosens (Memory.allocHeap_loosens hmem size blockAlign)) fun _ => .pure _

theorem release_loosens (a : UInt64) : Loosens low high (release a) (release a) := by
  rintro ⟨⟨heap, stack, limit, live⟩, globals, selectors, output, steps, depth, thrown, caught⟩ hs
  unfold release Memory.free
  by_cases ha : a = 0
  · subst ha
    exact ⟨hs, rfl⟩
  · simp only [ha, if_false]
    exact ⟨hs, by simp [withLimit]⟩

theorem printFormat_loosens (a : UInt64) :
    Loosens low high (printFormat a args) (printFormat a args) := by
  refine .bind (askMemory_loosens fun memory => ?_) fun text =>
    .bind (print_loosens text) fun _ => .pure _
  change (memory.readText a >>= fun text => Format.text (withLimit memory high) text args) = _
  simp only [Format.text, Format.textFrom_withLimit]

theorem leaveHandler_loosens (hcall : ∀ f args, Loosens low high (call f args) (call' f args)) :
    Loosens low high (leaveHandler call) (leaveHandler call') := by
  refine .bind_get fun s => ?_
  have hsame : (withLimit s high).caught = s.caught := rfl
  rw [hsame]
  cases s.caught with
  | nil => exact malformed_loosens _
  | cons e outer =>
      refine .bind (.modify (fun _ => rfl) fun _ => rfl) fun _ => ?_
      dsimp only
      cases FunctionId.ofAddress? e.destructor with
      | some f =>
          exact .bind (hcall f _) fun _ => .bind (release_loosens e.payload) fun _ => .pure _
      | none => exact .bind (release_loosens e.payload) fun _ => .pure _

theorem external_loosens (hmem : low ≤ high)
    (hcall : ∀ f args, Loosens low high (call f args) (call' f args)) :
    Loosens low high (external call name args) (external call' name args) := by
  unfold external
  cases External.ofSymbol? name with
  | none => exact fail_loosens _
  | some f =>
      cases f with
      | calloc =>
          exact .bind (sizeArgument_loosens name args 0) fun _ =>
            .bind (sizeArgument_loosens name args 1) fun _ => newBlock_loosens hmem _
      | malloc | allocateException =>
          exact .bind (sizeArgument_loosens name args 0) fun size => newBlock_loosens hmem size
      | free =>
          exact .bind (ptrArgument_loosens name args 0) fun a =>
            .bind (release_loosens a) fun _ => .pure _
      | printf =>
          exact .bind (ptrArgument_loosens name args 0) fun a => printFormat_loosens args.tail a
      | pow =>
          exact .bind (floatArgument_loosens name args 0) fun _ =>
            .bind (floatArgument_loosens name args 1) fun _ => .pure _
      | abort => exact fail_loosens _
      | throwException =>
          exact .bind (ptrArgument_loosens name args 0) fun _ =>
            .bind (ptrArgument_loosens name args 1) fun _ =>
            .bind (ptrArgument_loosens name args 2) fun _ _ hs => .inr ⟨hs, rfl⟩
      | beginCatch =>
          refine .bind (ptrArgument_loosens name args 0) fun payload => .bind_get fun s => ?_
          have hsame : (withLimit s high).thrown = s.thrown := rfl
          rw [hsame]
          cases s.thrown.get? payload with
          | some e => exact .bind (.modify (fun _ => rfl) fun _ => rfl) fun _ => .pure _
          | none => exact malformed_loosens _
      | endCatch => exact leaveHandler_loosens hcall

end External

/-! ### Calls -/

/-- The blocks of a function, with at least as many rounds under the high limits. -/
theorem walk_loosens (hle : limits.AtMost limits') (hmem : low ≤ high)
    (hcall : ∀ f args, Loosens low high (call f args) (call' f args)) (name : String) {n n' : Nat}
    (hn : n ≤ n') (b : BlockId) (source : Option BlockId) (frame : Frame) :
    Loosens low high (walk m limits call name n b source frame)
      (walk m limits' call' name n' b source frame) := by
  induction n generalizing n' b source frame with
  | zero => exact .limit (e := Stop.failed (.stepLimit limits.maxSteps)) trivial
  | succ n ih =>
      obtain ⟨n', rfl⟩ := Nat.exists_eq_add_of_lt hn
      refine .bind (block_loosens hle hmem hcall name b source) fun next => ?_
      cases next with
      | goto target frame => exact ih (by omega) target (some b) frame
      | leave result => exact .pure result

theorem body_loosens (hle : limits.AtMost limits') (hmem : low ≤ high)
    (hcall : ∀ f args, Loosens low high (call f args) (call' f args)) (f : FunctionData)
    (args : List Val) :
    Loosens low high (body m limits call f args) (body m limits' call' f args) := by
  have hsteps := hle.maxSteps
  unfold body
  cases f.entry? with
  | none => exact fail_loosens _
  | some entry => exact walk_loosens hle hmem hcall f.name (by omega) entry none _

/-- Calls, with at least as many levels under the high limits. -/
theorem callWithin_loosens (hle : limits.AtMost limits') (hmem : low ≤ high) {n n' : Nat}
    (hn : n ≤ n') (f : FunctionId) (args : List Val) :
    Loosens low high (callWithin m limits n f args) (callWithin m limits' n' f args) := by
  induction n generalizing n' f args with
  | zero => exact .limit (e := Stop.failed (.callDepth limits.maxCallDepth)) trivial
  | succ n ih =>
      obtain ⟨n', rfl⟩ := Nat.exists_eq_add_of_lt hn
      have hdepth := hle.maxCallDepth
      have hcall : ∀ f args, Loosens low high (callWithin m limits n f args)
          (callWithin m limits' (n + n') f args) := ih (by omega)
      refine .bind_get fun s => ?_
      change Loosens low high (if s.depth ≥ limits.maxCallDepth then _ else _)
        (if s.depth ≥ limits'.maxCallDepth then _ else _)
      by_cases hlimit : s.depth ≥ limits.maxCallDepth
      · rw [if_pos hlimit]
        exact .limit (e := Stop.failed (.callDepth limits.maxCallDepth)) trivial
      · rw [if_neg hlimit, if_neg (by omega)]
        refine .bind (lift_loosens _) fun function => ?_
        dsimp only
        split
        · exact external_loosens function.name args hmem hcall
        · exact inCall_loosens (body_loosens hle hmem hcall function args)

theorem call_loosens (hle : limits.AtMost limits') (hmem : low ≤ high) (f : FunctionId)
    (args : List Val) : Loosens low high (Exec.call m limits f args) (Exec.call m limits' f args) := by
  intro s hs
  have hdepth := hle.maxCallDepth
  have hsteps := hle.maxSteps
  have hlevels : nesting limits s ≤ nesting limits' (withLimit s high) := by
    change 2 * limits.maxCallDepth + limits.maxSteps + s.caught.length + 2 ≤
      2 * limits'.maxCallDepth + limits'.maxSteps + s.caught.length + 2
    omega
  exact callWithin_loosens hle hmem hlevels f args s hs

end Exec

namespace Machine

/-! ### Fresh machines -/

theorem placeGlobals_loosens (hmem : low ≤ high) (types : TypeTable) (globals : List Global) :
    Loosens low high (placeGlobals types globals) (placeGlobals types globals) := by
  induction globals with
  | nil => exact .pure []
  | cons g rest ih =>
      exact .bind (Memory.lift_loosens _) fun size => .bind (Memory.lift_loosens _) fun align =>
        .bind (Memory.allocHeap_loosens hmem size align) fun _ => .bind ih fun _ => .pure _

/-- Globals start with the same contents. -/
theorem fillGlobals_loosens (addresses : Array UInt64) (globals : List (Global × UInt64)) :
    Loosens low high (fillGlobals m addresses globals) (fillGlobals m addresses globals) := by
  induction globals with
  | nil => exact .pure ()
  | cons entry rest ih =>
      obtain ⟨g, a⟩ := entry
      unfold fillGlobals
      cases g.init with
      | none => exact ih
      | some init =>
          refine .bind (.bind (Memory.lift_loosens _) fun data => ?_) fun _ => ih
          split
          · exact Memory.writeBytes_loosens a _
          · exact .bind (Memory.liftFallible_loosens _) fun v =>
              Memory.writeWithin_loosens _ _ a g.valueTy v

theorem loadGlobals_loosens (hmem : low ≤ high) (m : Module) :
    Loosens low high (loadGlobals m) (loadGlobals m) :=
  .bind (placeGlobals_loosens hmem m.types _) fun addresses =>
    .bind (fillGlobals_loosens addresses.toArray _) fun _ => .pure _

/-- A module that is ready under some limits is ready under higher ones, and in the same state. -/
theorem new_of_atMost {machine : Machine} (hle : limits.AtMost limits')
    (hnew : Machine.new m limits = .ok machine) :
    machine.module = m ∧ machine.limits = limits ∧
      machine.state.memory.limit = limits.memoryLimit ∧
      Machine.new m limits' =
        .ok ⟨m, limits', withLimit machine.state limits'.memoryLimit⟩ := by
  unfold Machine.new at hnew ⊢
  split at hnew
  · cases hnew
  · rename_i herrors
    have hload := loadGlobals_loosens hle.memoryLimit m (Memory.new limits.memoryLimit) rfl
    rw [if_neg herrors]
    cases hloaded : loadGlobals m (Memory.new limits.memoryLimit) with
    | error fault memory =>
        rw [hloaded] at hnew
        cases hnew
    | ok globals memory =>
        rw [hloaded] at hnew hload
        cases hnew
        have hstart : Memory.new limits'.memoryLimit =
            withLimit (Memory.new limits.memoryLimit) limits'.memoryLimit := rfl
        refine ⟨rfl, rfl, hload.1, ?_⟩
        rw [hstart, hload.2]
        rfl

/-! ### Whole calls -/

/-- A call that does not end at a limit ends in the same way under higher limits, in a state that
is the same apart from the limit of the memory. -/
theorem call_withLimit (hle : limits.AtMost limits') {state : MachineState} {name : String}
    {args : List Val} (hmemory : state.memory.limit = limits.memoryLimit)
    (hended : ∀ e, (Machine.call ⟨m, limits, state⟩ name args).1 = .error (.failed e) → ¬ e.IsLimit) :
    Machine.call ⟨m, limits', withLimit state limits'.memoryLimit⟩ name args =
      ((Machine.call ⟨m, limits, state⟩ name args).1,
        ⟨m, limits', withLimit (Machine.call ⟨m, limits, state⟩ name args).2.state limits'.memoryLimit⟩) := by
  unfold Machine.call at hended ⊢
  dsimp only at hended ⊢
  cases hname : m.functionByName? name with
  | none => rfl
  | some f =>
      rw [hname] at hended
      dsimp only at hended ⊢
      have hcall := Exec.call_loosens (m := m) hle hle.memoryLimit f args state hmemory
      cases hstop : Exec.call m limits f args state with
      | ok v s =>
          rw [hstop] at hcall
          rw [hcall.2]
      | error stop s =>
          rw [hstop] at hcall hended
          rcases hcall with hlimit | ⟨-, hcall'⟩
          · cases stop with
            | failed e => exact absurd hlimit (hended e rfl)
            | thrown e => cases hlimit
            | crashed c => cases hlimit
          · rw [hcall']
            cases stop with
            | failed e => rfl
            | crashed c => rfl
            | thrown e =>
                have hsame : descriptorName (withLimit s limits'.memoryLimit).memory e.descriptor =
                    descriptorName s.memory e.descriptor := rfl
                dsimp only
                rw [hsame]
                cases descriptorName s.memory e.descriptor <;> rfl

/-- A call of a fresh machine that does not end at a limit ends in the same way under higher
limits, be it with a value, an uncaught exception or another error. What was printed, the number
of steps, the heap with its live blocks, the globals and all the rest of the state are the same,
apart from the limit of the memory itself. -/
theorem call_of_atMost {machine : Machine} {name : String} {args : List Val}
    (hle : limits.AtMost limits') (hnew : Machine.new m limits = .ok machine)
    (hended : ∀ e, (machine.call name args).1 = .error (.failed e) → ¬ e.IsLimit) :
    ∃ machine', Machine.new m limits' = .ok machine' ∧
      (machine'.call name args).1 = (machine.call name args).1 ∧
      (machine'.call name args).2.state =
        { (machine.call name args).2.state with
          memory := { (machine.call name args).2.state.memory with
            limit := limits'.memoryLimit } } := by
  obtain ⟨rfl, rfl, hmemory, hnew'⟩ := new_of_atMost hle hnew
  have hcall := call_withLimit hle hmemory hended
  refine ⟨_, hnew', ?_, ?_⟩
  · rw [hcall]
  · rw [hcall]
    rfl

/-- A program that prints a text, keeps a number in a global and answers with that number. -/
def greeting : Module :=
  { Module.ofTables "greeting"
      [.int 64, .int 8, .array ⟨1⟩ 3, .pointer ⟨2⟩, .pointer ⟨0⟩, .function [⟨3⟩] ⟨0⟩ true,
        .function [⟨0⟩] ⟨0⟩ false, .function [] ⟨0⟩ false]
      [⟨"main", ⟨7⟩, [], [⟨0⟩], none, none⟩, ⟨"keep", ⟨6⟩, [⟨4⟩], [⟨1⟩], none, none⟩,
        ⟨"printf", ⟨5⟩, [], [], none, none⟩] with
    values := #[⟨⟨2⟩, .const (.bytes [104, 105, 0])⟩, ⟨⟨3⟩, .global 0⟩, ⟨⟨4⟩, .global 1⟩,
      ⟨⟨0⟩, .const (.int 42)⟩, ⟨⟨0⟩, .param ⟨1⟩ 0⟩, ⟨⟨0⟩, .instr (.call ⟨2⟩ [⟨1⟩])⟩,
      ⟨⟨0⟩, .instr (.call ⟨1⟩ [⟨3⟩])⟩, ⟨⟨0⟩, .instr (.store ⟨3⟩ ⟨2⟩)⟩]
    globals := #[⟨"text", ⟨2⟩, some ⟨0⟩⟩, ⟨"answer", ⟨0⟩, none⟩]
    blocks := #[⟨"entry", ⟨0⟩, #[⟨5⟩, ⟨6⟩], some (.ret (some ⟨3⟩))⟩,
      ⟨"entry", ⟨1⟩, #[⟨7⟩], some (.ret none)⟩] }

/-- Five steps, two levels and nineteen bytes are just enough, and more change nothing. -/
theorem call_of_atMost_greeting : ∃ machine machine',
    Machine.new greeting ⟨5, 2, 19⟩ = .ok machine ∧
    Machine.new greeting .standard = .ok machine' ∧
    (machine.call "main" []).1.isOk = true ∧ (machine.call "main" []).2.state.output = "hi" ∧
    (machine'.call "main" []).1 = (machine.call "main" []).1 ∧
    (machine'.call "main" []).2.state =
      { (machine.call "main" []).2.state with
        memory := { (machine.call "main" []).2.state.memory with
          limit := Limits.standard.memoryLimit } } := by
  have hrun : (match Machine.new greeting ⟨5, 2, 19⟩ with
      | .ok machine => (machine.call "main" []).1.isOk &&
          decide ((machine.call "main" []).2.state.output = "hi")
      | .error _ => false) = true := by decide +kernel
  cases hnew : Machine.new greeting ⟨5, 2, 19⟩ with
  | error e =>
      rw [hnew] at hrun
      cases hrun
  | ok machine =>
      rw [hnew] at hrun
      obtain ⟨hok, houtput⟩ := Bool.and_eq_true_iff.1 hrun
      have hended : ∀ e, (machine.call "main" []).1 = .error (.failed e) → ¬ e.IsLimit := by
        intro e he
        rw [he] at hok
        cases hok
      have hle : Limits.AtMost ⟨5, 2, 19⟩ .standard := ⟨by decide, by decide, by decide⟩
      obtain ⟨machine', hnew', hsame, hstate⟩ := call_of_atMost hle hnew hended
      exact ⟨machine, machine', rfl, hnew', hok, of_decide_eq_true houtput, hsame, hstate⟩

end Machine

end SsaCompiler
