/-
# The recursion behind a run

A call runs blocks, a block runs calls, and a call that leaves a handler runs the function that
disposes of the exception. Nothing in this recursion counts rounds or levels, and what is in it that
could bring it to an end is only the limit of steps, the limit of nested calls, and the exceptions
that were claimed. That is enough: a number that follows from the state gets smaller from every call
and from every block to the next. So the rounds and levels that the machine counts never run out
before the run is over, and a run always is.

Whatever happens in a call, the stack and the depth are what they were when it is over.
-/

import SsaCompiler.Proofs.Machine.Budget
import SsaCompiler.Proofs.Machine.Path

namespace SsaCompiler

open MeetsEndless MachineState

variable {α : Type} {m : Module} {limits : Limits} {k : Int} {s : MachineState}

/-! ### Calls -/

/-- The body of a call on its level: when it is over, the stack is cut back and the level is
left. -/
theorem inCall_outcome {x : Exec α} {deeper : MachineState}
    (hdeeper : deeper = { s with depth := s.depth + 1 }) (h : Outcome m limits (· ≤ ·) k deeper (x deeper)) :
    Outcome m limits (· = ·) k s (Exec.inCall x s) := by
  subst hdeeper
  have hleave {excess : Nat} {s' : MachineState}
      (h : Advances limits (· ≤ ·) excess k { s with depth := s.depth + 1 } s') :
      s.Advances limits (· = ·) excess k { s' with
        memory := s'.memory.resetStack s.memory.stack.size, depth := s'.depth - 1 } := by
    refine ⟨?_, ?_, h.heap, h.limit, h.steps, h.budget, h.claimed⟩
    · show s'.depth - 1 = s.depth
      rw [h.depth]
      rfl
    · show s.memory.stack.size = (s'.memory.stack.shrink s.memory.stack.size).size
      rw [Array.size_shrink]
      exact (Nat.min_eq_left h.stack).symm
  cases hrun : x { s with depth := s.depth + 1 } with
  | ok a s' =>
      rw [hrun] at h
      rw [Exec.inCall_of_ok hrun]
      exact hleave h
  | error e s' =>
      rw [hrun] at h
      rw [Exec.inCall_of_error hrun]
      exact ⟨hleave h.1, h.2⟩

/-- Two bodies that do the same one level deeper. -/
theorem inCall_congr {x x' : Exec α}
    (h : x { s with depth := s.depth + 1 } = x' { s with depth := s.depth + 1 }) :
    Exec.inCall x s = Exec.inCall x' s := by
  cases hrun : x { s with depth := s.depth + 1 } with
  | ok a s' => rw [Exec.inCall_of_ok hrun, Exec.inCall_of_ok (h.symm.trans hrun)]
  | error e s' => rw [Exec.inCall_of_error hrun, Exec.inCall_of_error (h.symm.trans hrun)]

/-! ### The recursion without bounds -/

/-- How calls are made and how blocks are run from one on. -/
structure Interpreter where
  /-- Calls a function with arguments. -/
  call : Caller
  /-- Runs the blocks of the function with a name, from a block on. -/
  run : String → BlockId → Option BlockId → Frame → Exec Val

namespace Interpreter

/-- The interpreter that never comes to an end. -/
def stuck : Interpreter where
  call _ _ := fun s => .error (.crashed .endless) s
  run _ _ _ _ := fun s => .error (.crashed .endless) s

/-- One call and one block, where everything further is left to an interpreter. -/
def next (m : Module) (limits : Limits) (i : Interpreter) : Interpreter where
  call f args := do
    if (← get).depth ≥ limits.maxCallDepth then Exec.fail (.callDepth limits.maxCallDepth)
    else
      let function ← m.function f
      if function.isDeclaration then Exec.external i.call function.name args
      else Exec.inCall <| match function.entry? with
        | none => Exec.fail (.noSuchFunction function.name)
        | some entry => i.run function.name entry none (Frame.ofArguments function.params args)
  run name b source frame := do
    match ← Exec.block m limits i.call name b source frame with
    | .goto target frame => i.run name target (some b) frame
    | .leave result => return result

/-- The recursion, cut off after `n` levels of calls and blocks. What would go beyond them does not
come to an end. -/
def within (m : Module) (limits : Limits) : Nat → Interpreter
  | 0 => stuck
  | n + 1 => next m limits (within m limits n)

end Interpreter

/-- The machine makes its calls as the recursion does, if there are levels enough. -/
def CallsWithin (m : Module) (limits : Limits) (n : Nat) : Prop :=
  ∀ l s f args, level limits s < l → rank limits s < n →
    Exec.callWithin m limits l f args s = (Interpreter.within m limits n).call f args s ∧
      Outcome m limits (· = ·) 1 s (Exec.callWithin m limits l f args s)

/-- So it does with blocks, if there are rounds enough besides. -/
def RunsWithin (m : Module) (limits : Limits) (n : Nat) : Prop :=
  ∀ l r s name b source frame, level limits s ≤ l → limits.maxSteps - s.steps < r →
    rank limits s < n →
    Exec.walk m limits (Exec.callWithin m limits l) name r b source frame s =
        (Interpreter.within m limits n).run name b source frame s ∧
      Outcome m limits (· ≤ ·) 0 s
        (Exec.walk m limits (Exec.callWithin m limits l) name r b source frame s)

/-- Calls that are made after something has been used up have levels enough. -/
theorem CallsWithin.callsAgree {n l : Nat} (h : CallsWithin m limits n) (hl : level limits s ≤ l)
    (hn : rank limits s ≤ n) :
    Exec.CallsAgree m limits s (Exec.callWithin m limits l)
      (Interpreter.within m limits n).call := by
  intro f args s' hs'
  obtain ⟨hlevel, hrank⟩ := hs'.lt
  exact h l s' f args (by omega) (by omega)

theorem RunsWithin.succ {n : Nat} (hcalls : CallsWithin m limits n) (hruns : RunsWithin m limits n) :
    RunsWithin m limits (n + 1) := by
  intro l r s name b source frame hl hr hn
  obtain ⟨r, rfl⟩ : ∃ r', r = r' + 1 := ⟨r - 1, by omega⟩
  have hagree := hcalls.callsAgree hl (Nat.lt_succ_iff.1 hn)
  obtain ⟨hsame, houtcome⟩ := Exec.block_agrees hagree name b source s (.refl s)
  change (Exec.block m limits (Exec.callWithin m limits l) name b source frame >>= _) s =
    (Exec.block m limits (Interpreter.within m limits n).call name b source frame >>= _) s ∧
      Outcome m limits (· ≤ ·) 0 s
        ((Exec.block m limits (Exec.callWithin m limits l) name b source frame >>= _) s)
  cases hrun : Exec.block m limits (Exec.callWithin m limits l) name b source frame s with
  | error e s' =>
      rw [hrun] at hsame houtcome
      rw [Exec.bind_of_error hrun, Exec.bind_of_error hsame.symm]
      exact ⟨rfl, houtcome⟩
  | ok next s' =>
      rw [hrun] at hsame houtcome
      rw [Exec.bind_of_ok hrun, Exec.bind_of_ok hsame.symm]
      cases next with
      | leave result => exact ⟨rfl, houtcome⟩
      | goto target frame' =>
          have hs' : s.Advances limits (· ≤ ·) 0 0 s' := houtcome
          obtain ⟨hlevel, hrank, hsteps⟩ := hs'.lt_of_steps (Exec.steps_lt_of_block hagree hrun)
          obtain ⟨hsame', houtcome'⟩ := hruns l r s' name target (some b) frame' (by omega)
            (by omega) (by omega)
          exact ⟨hsame', houtcome'.after hs'⟩

/-- The body of a function has rounds enough: every block takes a step. -/
theorem RunsWithin.body {n : Nat} (h : RunsWithin m limits n) (l : Nat) (s : MachineState)
    (function : FunctionData) (args : List Val) (hl : level limits s ≤ l) (hn : rank limits s < n) :
    Exec.body m limits (Exec.callWithin m limits l) function args s =
        (match function.entry? with
          | none => Exec.fail (.noSuchFunction function.name)
          | some entry => (Interpreter.within m limits n).run function.name entry none
              (Frame.ofArguments function.params args)) s ∧
      Outcome m limits (· ≤ ·) 1 s
        (Exec.body m limits (Exec.callWithin m limits l) function args s) := by
  unfold Exec.body
  cases function.entry? with
  | none => exact ⟨rfl, (Outcome.of_steady s (x := Exec.fail _)).mono (fun h => h) Int.one_nonneg⟩
  | some entry =>
      obtain ⟨hsame, houtcome⟩ := h l (limits.maxSteps + 1) s function.name entry none
        (Frame.ofArguments function.params args) hl (by omega) hn
      exact ⟨hsame, houtcome.mono (fun h => h) Int.one_nonneg⟩

theorem CallsWithin.succ {n : Nat} (hcalls : CallsWithin m limits n) (hruns : RunsWithin m limits n) :
    CallsWithin m limits (n + 1) := by
  intro l s f args hl hn
  obtain ⟨l, rfl⟩ : ∃ l', l = l' + 1 := ⟨l - 1, by omega⟩
  have hagree := hcalls.callsAgree (s := s) (l := l) (by omega) (by omega)
  change (if s.depth ≥ limits.maxCallDepth then _ else _ : Exec Val) s =
    (if s.depth ≥ limits.maxCallDepth then _ else _ : Exec Val) s ∧
      Outcome m limits (· = ·) 1 s ((if s.depth ≥ limits.maxCallDepth then _ else _ : Exec Val) s)
  by_cases hdepth : s.depth ≥ limits.maxCallDepth
  · rw [if_pos hdepth, if_pos hdepth]
    exact ⟨rfl, (Outcome.of_steady s (x := Exec.fail _)).mono (fun h => h) Int.one_nonneg⟩
  rw [if_neg hdepth, if_neg hdepth]
  cases hf : m.function f with
  | error c =>
      have he : ¬ IsEndless c := (inferInstance : Ends (m.function f)).not_endless hf
      exact ⟨rfl, (Advances.refl s).mono (fun h => h) (Nat.zero_le _) Int.one_nonneg, fun _ => he⟩
  | ok function =>
      change (if function.isDeclaration then _ else _ : Exec Val) s =
        (if function.isDeclaration then _ else _ : Exec Val) s ∧
          Outcome m limits (· = ·) 1 s ((if function.isDeclaration then _ else _ : Exec Val) s)
      by_cases hdeclared : function.isDeclaration
      · rw [if_pos hdeclared, if_pos hdeclared]
        exact Exec.external_agrees hagree function.name args s (.refl s)
      · rw [if_neg hdeclared, if_neg hdeclared]
        obtain ⟨hlevel, hrank⟩ := lt_of_depth (Nat.lt_of_not_le hdepth) rfl
        obtain ⟨hsame, houtcome⟩ := hruns.body l { s with depth := s.depth + 1 } function args
          (by omega) (by omega)
        exact ⟨inCall_congr hsame, inCall_outcome rfl houtcome⟩

/-- Any number of levels will do that is greater than what is left in a state. -/
theorem calls_and_runs_within (m : Module) (limits : Limits) (n : Nat) :
    CallsWithin m limits n ∧ RunsWithin m limits n := by
  induction n with
  | zero => exact ⟨fun _ _ _ _ _ hn => absurd hn (Nat.not_lt_zero _),
      fun _ _ _ _ _ _ _ _ _ hn => absurd hn (Nat.not_lt_zero _)⟩
  | succ n ih => exact ⟨CallsWithin.succ ih.1 ih.2, RunsWithin.succ ih.1 ih.2⟩

namespace Exec

/-- The levels that the machine counts suffice, so a call does what the recursion does, and has an
outcome. -/
theorem call_eq_within (m : Module) (limits : Limits) (f : FunctionId) (args : List Val)
    (s : MachineState) {n : Nat} (hn : rank limits s < n) :
    Exec.call m limits f args s = (Interpreter.within m limits n).call f args s ∧
      Outcome m limits (· = ·) 1 s (Exec.call m limits f args s) := by
  refine (calls_and_runs_within m limits n).1 (nesting limits s) s f args ?_ hn
  unfold level nesting
  omega

/-- However a call ends, it has used up what it may. -/
theorem call_outcome (m : Module) (limits : Limits) (f : FunctionId) (args : List Val)
    (s : MachineState) : Outcome m limits (· = ·) 1 s (Exec.call m limits f args s) :=
  (call_eq_within m limits f args s (Nat.lt_succ_self _)).2

end Exec

/-! ### When no steps are left -/

/-- A block that begins with a choice. -/
def Module.BeginsWithChoice (m : Module) (block : BlockData) : Prop :=
  ∃ v d incoming, block.instrs[0]? = some v ∧ m.value v = .ok d ∧ d.origin = .instr (.phi incoming)

namespace Exec

/-- A block that control does not come to from another is entered, unless it begins with a
choice. -/
theorem enterBlock_of_none (frame : Frame) {block : BlockData}
    (hvalues : ∀ v ∈ block.instrs, ∃ d, m.value v = .ok d) (s : MachineState) :
    enterBlock m block none frame s = .ok (frame, block.instrs.toList) s ∨
      m.BeginsWithChoice block ∧
        enterBlock m block none frame s = .error (.failed (.malformedCode (.phiInEntry block.name))) s := by
  have hchoices : choices m block none frame block.instrs.toList s = .ok ([], block.instrs.toList) s ∨
      m.BeginsWithChoice block ∧ choices m block none frame block.instrs.toList s =
        .error (.failed (.malformedCode (.phiInEntry block.name))) s := by
    cases hinstrs : block.instrs.toList with
    | nil => exact .inl rfl
    | cons v rest =>
        obtain ⟨d, hd⟩ := hvalues v (by simp [← Array.mem_toList_iff, hinstrs])
        have hfirst : block.instrs[0]? = some v := by
          rw [← Array.getElem?_toList, hinstrs]
          rfl
        have hlift : (liftM (m.value v) : Exec ValueData) s = .ok d s := by
          rw [hd]
          rfl
        unfold choices
        rw [bind_of_ok hlift]
        cases horigin : d.origin with
        | instr i =>
            cases i with
            | phi incoming => exact .inr ⟨⟨v, d, incoming, hfirst, hd, horigin⟩, rfl⟩
            | _ => exact .inl rfl
        | _ => exact .inl rfl
  unfold enterBlock
  rcases hchoices with hchoices | ⟨hphi, hchoices⟩
  · exact .inl (bind_of_ok hchoices)
  · exact .inr ⟨hphi, bind_of_error hchoices⟩

/-- Instructions and the end of a block take at least one step. -/
theorem block_of_le (call : Caller) (name : String) (frame : Frame) {b : BlockId} {block : BlockData}
    (h : limits.maxSteps ≤ s.steps) (hb : m.block b = .ok block)
    (hvalues : ∀ v ∈ block.instrs, ∃ d, m.value v = .ok d) :
    ∃ e s', Exec.block m limits call name b none frame s = .error (.failed e) s' ∧
      (e = .stepLimit limits.maxSteps ∨
        m.BeginsWithChoice block ∧ e = .malformedCode (.phiInEntry block.name)) := by
  have hlift : (liftM (m.block b) : Exec BlockData) s = .ok block s := by
    rw [hb]
    rfl
  unfold Exec.block
  rw [bind_of_ok hlift]
  rcases enterBlock_of_none frame hvalues s with hentered | ⟨hphi, hentered⟩
  · rw [bind_of_ok hentered]
    refine ⟨_, s.tick, ?_, .inl rfl⟩
    cases block.instrs.toList with
    | nil => exact (bind_of_ok (pure_run frame s)).trans (bind_of_error (step_of_le h))
    | cons v rest => exact bind_of_error (bind_of_error (step_of_le h))
  · exact ⟨_, s, bind_of_error hentered, .inr ⟨hphi, rfl⟩⟩

/-- Once no steps are left, a call of a function with a body fails, at the latest with its first
step. -/
theorem call_of_le (hm : m.IsCoherent) (h : limits.maxSteps ≤ s.steps) {f : FunctionId}
    {function : FunctionData} (hf : m.function f = .ok function)
    (hbody : function.isDeclaration = false) (args : List Val) :
    ∃ e s', Exec.call m limits f args s = .error (.failed e) s' ∧
      (e = .stepLimit limits.maxSteps ∨ e = .callDepth limits.maxCallDepth ∨
        ∃ b block, function.entry? = some b ∧ m.block b = .ok block ∧ m.BeginsWithChoice block ∧
          e = .malformedCode (.phiInEntry block.name)) := by
  obtain ⟨l, hl⟩ : ∃ l, nesting limits s = l + 1 := ⟨_, rfl⟩
  unfold Exec.call
  rw [hl]
  by_cases hdepth : s.depth ≥ limits.maxCallDepth
  · refine ⟨_, s, ?_, .inr (.inl rfl)⟩
    change (if s.depth ≥ limits.maxCallDepth then _ else _ : Exec Val) s = _
    rw [if_pos hdepth]
    rfl
  have hlift : (liftM (m.function f) : Exec FunctionData) s = .ok function s := by
    rw [hf]
    rfl
  have hrun : callWithin m limits (l + 1) f args s =
      inCall (body m limits (callWithin m limits l) function args) s := by
    change (if s.depth ≥ limits.maxCallDepth then _ else _ : Exec Val) s = _
    rw [if_neg hdepth, bind_of_ok hlift]
    simp only [hbody]
    rfl
  obtain ⟨entry, hentry⟩ : ∃ entry, function.blocks.head? = some entry := by
    cases hblocks : function.blocks with
    | nil => simp [FunctionData.isDeclaration, hblocks] at hbody
    | cons entry rest => exact ⟨entry, rfl⟩
  obtain ⟨block, hblock⟩ := hm.exists_block hf (List.mem_of_mem_head? hentry)
  have hvalues : ∀ v ∈ block.instrs, ∃ d, m.value v = .ok d := fun v hv => hm.exists_value hblock hv
  obtain ⟨e, s', hfailed, he⟩ := block_of_le (s := { s with depth := s.depth + 1 })
    (callWithin m limits l) function.name (Frame.ofArguments function.params args) h hblock hvalues
  have hbody' : body m limits (callWithin m limits l) function args { s with depth := s.depth + 1 } =
      .error (.failed e) s' := by
    unfold body FunctionData.entry?
    rw [hentry]
    exact bind_of_error hfailed
  refine ⟨e, _, hrun.trans (inCall_of_error hbody'), ?_⟩
  rcases he with he | ⟨hphi, he⟩
  · exact .inl he
  · exact .inr (.inr ⟨entry, block, hentry, hblock, hphi, he⟩)

end Exec

/-! ### Whole calls -/

/-- A state that is as deep in calls as another one, with as long a stack below the same limit. The
heap may have grown, as nothing is ever taken out of it. -/
structure MachineState.Restores (s s' : MachineState) : Prop where
  depth : s'.depth = s.depth
  stack : s'.memory.stack.size = s.memory.stack.size
  heap : s.memory.heap.size ≤ s'.memory.heap.size
  limit : s'.memory.limit = s.memory.limit

/-- Progress without growth of the stack. -/
theorem MachineState.Advances.restores {excess : Nat} {s' : MachineState}
    (h : s.Advances limits (· = ·) excess k s') : s.Restores s' :=
  ⟨h.depth, h.stack.symm, h.heap, h.limit⟩

namespace Machine

variable {name : String} {args : List Val}

/-- A call by name ends in the state in which the call of the function ends. If it is not endless
there, then neither is finding out what to say about an exception. -/
theorem call_outcome (machine : Machine) (name : String) (args : List Val) :
    machine.state.Advances machine.limits (· = ·) 1 1 (machine.call name args).2.state ∧
      (machine.module.IsWellFounded → Ends (machine.call name args).1) := by
  obtain ⟨m, limits, s⟩ := machine
  unfold Machine.call
  dsimp only
  cases m.functionByName? name with
  | none => exact ⟨(Advances.refl s).mono (fun h => h) (Nat.zero_le 1) Int.one_nonneg,
      fun _ => inferInstance⟩
  | some f =>
      have houtcome := Exec.call_outcome m limits f args s
      dsimp only
      cases hrun : Exec.call m limits f args s with
      | ok v s' =>
          rw [hrun] at houtcome
          exact ⟨Advances.mono houtcome (fun h => h) (Nat.zero_le 1) (le_refl 1), fun _ => .ok v⟩
      | error e s' =>
          rw [hrun] at houtcome
          have hadvances : s.Advances limits (· = ·) 1 1 s' :=
            houtcome.1.mono (fun h => h) (by cases e <;> simp [Stop.overrun]) (le_refl 1)
          cases e with
          | failed e => exact ⟨hadvances, fun _ => inferInstance⟩
          | crashed c =>
              have hc : m.IsWellFounded → ¬ IsEndless c := houtcome.2
              exact ⟨hadvances, fun h => ⟨fun he => by cases he; exact hc h⟩⟩
          | thrown e =>
              dsimp only
              cases hname : descriptorName s'.memory e.descriptor with
              | ok typeName => exact ⟨hadvances, fun _ => inferInstance⟩
              | error c =>
                  have hc : ¬ IsEndless c :=
                    (inferInstance : Ends (descriptorName s'.memory e.descriptor)).not_endless hname
                  exact ⟨hadvances, fun _ => ⟨fun he => by cases he; exact hc⟩⟩

theorem call_of_failed {machine : Machine} {f : FunctionId} {e : ExecError} {s' : MachineState}
    (hname : machine.module.functionByName? name = some f)
    (h : Exec.call machine.module machine.limits f args machine.state = .error (.failed e) s') :
    (machine.call name args).1 = .error (.failed e) := by
  obtain ⟨m, limits, s⟩ := machine
  unfold Machine.call
  dsimp only at hname h ⊢
  rw [hname]
  dsimp only
  rw [h]
  rfl

/-- However a call ends, with a value, with an exception that nobody handled, with an error at any
depth or with a crash, afterwards the machine is as deep in calls as before and has as long a stack.
So no failed call takes away levels or stack from the calls that follow. What it has taken of the
heap counts against the limit that both regions share, as what any other call has taken. The same
holds of the calls inside, in every state in which a function is called. -/
theorem call_restores (machine : Machine) (name : String) (args : List Val) :
    machine.state.Restores (machine.call name args).2.state ∧
    ∀ f s, match Exec.call machine.module machine.limits f args s with
      | .ok _ s' | .error _ s' => s.Restores s' := by
  refine ⟨(call_outcome machine name args).1.restores, fun f s => ?_⟩
  have houtcome := Exec.call_outcome machine.module machine.limits f args s
  cases hrun : Exec.call machine.module machine.limits f args s with
  | ok v s' =>
      rw [hrun] at houtcome
      exact Advances.restores houtcome
  | error e s' =>
      rw [hrun] at houtcome
      exact houtcome.1.restores

/-- No call runs forever, and none takes more steps than there are. In a module without types that
contain themselves by value, whatever its code is otherwise:

The machine makes the call as the recursion does that counts neither rounds nor levels, and that
recursion comes to an end within as many levels as the state has rank. Nothing that is computed on
the way is endless. The steps that are counted do not exceed the limit by more than one, unless they
did before. Once they exceed it, each call of a function with a body fails because of that, or
because of its depth, or because its first block begins with a choice. -/
theorem call_keeps_to_budget (htypes : m.types.IsAcyclic) (hm : m.IsCoherent) (limits : Limits)
    (s : MachineState) (name : String) (args : List Val) :
    let (result, after) := Machine.call ⟨m, limits, s⟩ name args
    (∀ f n, rank limits s < n →
      (Interpreter.within m limits n).call f args s = Exec.call m limits f args s) ∧
    result ≠ .error (.crashed .endless) ∧
    s.steps ≤ after.state.steps ∧ after.state.steps ≤ max s.steps limits.maxSteps + 1 ∧
    (limits.maxSteps < s.steps → ∀ f function, m.functionByName? name = some f →
      m.function f = .ok function → function.isDeclaration = false →
      result = .error (.failed (.stepLimit limits.maxSteps)) ∨
      result = .error (.failed (.callDepth limits.maxCallDepth)) ∨
      ∃ b block, function.entry? = some b ∧ m.block b = .ok block ∧ m.BeginsWithChoice block ∧
        result = .error (.failed (.malformedCode (.phiInEntry block.name)))) := by
  obtain ⟨hadvances, hends⟩ := call_outcome ⟨m, limits, s⟩ name args
  refine ⟨fun f n hn => (Exec.call_eq_within m limits f args s hn).1.symm, fun hcrash =>
    (hends ⟨htypes, hm.constants⟩).not_endless hcrash rfl, hadvances.steps, hadvances.budget, ?_⟩
  intro hsteps f function hname hf hbody
  obtain ⟨e, s', hfailed, he⟩ := Exec.call_of_le hm hsteps.le hf hbody args
  have hresult : (Machine.call ⟨m, limits, s⟩ name args).1 = .error (.failed e) :=
    call_of_failed hname hfailed
  rcases he with rfl | rfl | ⟨b, block, hentry, hblock, hphi, rfl⟩
  · exact .inl hresult
  · exact .inr (.inl hresult)
  · exact .inr (.inr ⟨b, block, hentry, hblock, hphi, hresult⟩)

/-- A function whose only block goes back to itself, besides a structure and a constant of it. -/
def spinning : Module :=
  { Module.ofTables "spinning" [.int 64, .record [⟨0⟩, ⟨0⟩], .function [] ⟨0⟩ false]
      [⟨"spin", ⟨2⟩, [], [⟨0⟩], none, none⟩] with
    values := #[⟨⟨0⟩, .const (.int 1)⟩, ⟨⟨1⟩, .const (.struct [⟨0⟩, ⟨0⟩])⟩]
    blocks := #[⟨"entry", ⟨0⟩, #[], some (.br ⟨0⟩)⟩] }

/-- Its types only contain older ones. -/
theorem isAcyclic_spinning : spinning.types.IsAcyclic := TypeTable.isAcyclic_of_older (by decide)

theorem isCoherent_spinning : spinning.IsCoherent where
  blocks := by simp [spinning, Module.ofTables]
  instrs := by simp [spinning, Module.ofTables]
  constants := by
    intro v d fields hv hd f hf
    have hv' := Checked.at_eq_ok_iff.1 hv
    obtain ⟨i⟩ := v
    match i with
    | 0 =>
        obtain rfl : d = ⟨⟨0⟩, .const (.int 1)⟩ := (Option.some.inj hv').symm
        cases hd
    | 1 =>
        obtain rfl : d = ⟨⟨1⟩, .const (.struct [⟨0⟩, ⟨0⟩])⟩ := (Option.some.inj hv').symm
        cases hd
        obtain rfl : f = ⟨0⟩ := by simpa using hf
        exact Nat.zero_lt_one
    | i + 2 => simp [spinning] at hv'

/-- It does not spin forever, and it does not start again once there are no steps left. -/
theorem call_keeps_to_budget_spinning : ∃ s : MachineState, s.steps = 6 ∧
    spinning.types.IsAcyclic ∧ spinning.IsCoherent ∧
    (∀ n, rank ⟨5, 1, 64⟩ s < n → (Interpreter.within spinning ⟨5, 1, 64⟩ n).call ⟨0⟩ [] s =
      Exec.call spinning ⟨5, 1, 64⟩ ⟨0⟩ [] s) ∧
    (Machine.call ⟨spinning, ⟨5, 1, 64⟩, s⟩ "spin" []).2.state.steps ≤ 7 ∧
    ((Machine.call ⟨spinning, ⟨5, 1, 64⟩, s⟩ "spin" []).1 = .error (.failed (.stepLimit 5)) ∨
      (Machine.call ⟨spinning, ⟨5, 1, 64⟩, s⟩ "spin" []).1 = .error (.failed (.callDepth 1))) := by
  let s : MachineState := ⟨Memory.new 64, #[], .empty, "", 6, 0, .empty, []⟩
  obtain ⟨hcall, -, -, hsteps, hfails⟩ := call_keeps_to_budget isAcyclic_spinning
    isCoherent_spinning ⟨5, 1, 64⟩ s "spin" []
  have hname : spinning.functionByName? "spin" = some ⟨0⟩ := by decide +kernel
  refine ⟨s, rfl, isAcyclic_spinning, isCoherent_spinning, hcall ⟨0⟩, hsteps, ?_⟩
  rcases hfails (by decide) ⟨0⟩ _ hname rfl rfl with h | h | ⟨b, block, hb, hblock, hphi, -⟩
  · exact .inl h
  · exact .inr h
  · -- The block has no instructions at all.
    cases hb
    cases hblock
    obtain ⟨v, d, incoming, hfirst, -⟩ := hphi
    simp [spinning] at hfirst

end Machine

end SsaCompiler
