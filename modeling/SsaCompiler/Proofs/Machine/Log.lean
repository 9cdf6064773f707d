/-
# Every slot is allocated once a call

A call of a function runs through its blocks, and in a loop it runs through some of them many times.
Here the run is told along with the instructions that it executes. This is no second semantics:
without the log it is the run of the machine.

In the code of a compilation no block is entered again that makes room on the stack, for control is
sent only to blocks that make none. So whatever the limits are, however the calls inside of it end and
however often its loops go round, a call executes every instruction that makes room at most once.
-/

import SsaCompiler.Proofs.Lower.Room
import SsaCompiler.Proofs.Machine.Budget

namespace SsaCompiler

/-! ### Runs with a log -/

/-- A computation of the machine along with the instructions that it executes, to where it stops. -/
def Logged (α : Type) : Type := MachineState → List ValueId × EStateM.Result Stop MachineState α

namespace Logged

variable {α β : Type}

/-- One computation behind another, with one log behind the other. -/
def andThen (x : Logged α) (f : α → Logged β) : Logged β := fun s =>
  match x s with
  | (log, .ok a s') => (log ++ (f a s').1, (f a s').2)
  | (log, .error stop s') => (log, .error stop s')

instance : Monad Logged where
  pure a := fun s => ([], .ok a s)
  bind := andThen

/-- A computation that executes no instruction of the code around it. -/
def silent (x : Exec α) : Logged α := fun s => ([], x s)

/-- An instruction is executed. -/
def record (id : ValueId) : Logged Unit := fun s => ([id], .ok () s)

/-- The computation without its log. -/
def run (x : Logged α) : Exec α := fun s => (x s).2

@[simp]
theorem run_pure (a : α) : (pure a : Logged α).run = pure a := rfl

@[simp]
theorem run_silent (x : Exec α) : (silent x).run = x := rfl

@[simp]
theorem run_record (id : ValueId) : (record id).run = pure () := rfl

@[simp]
theorem run_bind (x : Logged α) (f : α → Logged β) :
    (x >>= f).run = x.run >>= fun a => (f a).run := by
  funext s
  change (andThen x f s).2 = EStateM.bind x.run (fun a => (f a).run) s
  unfold andThen EStateM.bind run
  rcases x s with ⟨log, a | e⟩ <;> rfl

/-- What follows a computation that logs nothing goes on where it ends, or there is nothing more. -/
theorem silent_bind_cases (x : Exec α) (f : α → Logged β) (s : MachineState) :
    (∃ a s', x s = .ok a s' ∧ (silent x >>= f) s = f a s') ∨
      ∃ stop s', (silent x >>= f) s = ([], .error stop s') := by
  change (∃ a s', x s = .ok a s' ∧ andThen (silent x) f s = f a s') ∨
    ∃ stop s', andThen (silent x) f s = ([], .error stop s')
  unfold andThen silent
  cases hx : x s with
  | ok a s' => exact .inl ⟨a, s', rfl, rfl⟩
  | error stop s' => exact .inr ⟨stop, s', rfl⟩

/-- What follows any computation adds its log, or there is nothing more. -/
theorem bind_cases (x : Logged α) (f : α → Logged β) (s : MachineState) :
    (∃ a s', x.run s = .ok a s' ∧ ((x >>= f) s).1 = (x s).1 ++ (f a s').1) ∨
      ((x >>= f) s).1 = (x s).1 := by
  change (∃ a s', (x s).2 = .ok a s' ∧ (andThen x f s).1 = (x s).1 ++ (f a s').1) ∨
    (andThen x f s).1 = (x s).1
  unfold andThen
  rcases x s with ⟨log, a | e⟩
  · exact .inl ⟨_, _, rfl, rfl⟩
  · exact .inr rfl

/-- What executes nothing adds nothing. -/
theorem log_bind_silent (x : Logged α) (f : α → Exec β) (s : MachineState) :
    ((x >>= fun a => silent (f a)) s).1 = (x s).1 := by
  rcases bind_cases x (fun a => silent (f a)) s with ⟨a, s', -, h⟩ | h
  · exact h.trans (List.append_nil _)
  · exact h

end Logged

namespace Exec

open Logged

variable (m : Module) (limits : Limits) (call : Caller) (name : String)

/-- Executes instructions one after the other, and logs them. -/
def loggedInstructions : Frame → List ValueId → Logged Frame
  | frame, [] => pure frame
  | frame, id :: rest => do
    silent (step limits)
    match (← silent (liftM (m.value id))).origin with
    | .instr instr =>
      record id
      let frame ← silent (instruction m call frame id instr)
      loggedInstructions frame rest
    | _ => loggedInstructions frame rest

/-- Executes a whole block, and logs its instructions. -/
def loggedBlock (b : BlockId) (source : Option BlockId) (frame : Frame) : Logged Next := do
  let block ← silent (liftM (m.block b))
  let (frame, rest) ← silent (enterBlock m block source frame)
  let frame ← loggedInstructions m limits call frame rest
  silent do
    step limits
    terminator m call name block frame

/-- Runs the blocks of a function from one on, and logs their instructions. -/
def loggedWalk : Nat → BlockId → Option BlockId → Frame → Logged Val
  | 0, _, _, _ => silent (fail (.stepLimit limits.maxSteps))
  | n + 1, b, source, frame => do
    match ← loggedBlock m limits call name b source frame with
    | .goto target frame => loggedWalk n target (some b) frame
    | .leave result => pure result

variable {m limits call name}

/-- Without the log instructions are executed as by the machine. -/
@[simp]
theorem run_loggedInstructions (frame : Frame) (ids : List ValueId) :
    (loggedInstructions m limits call frame ids).run = instructions m limits call frame ids := by
  induction ids generalizing frame with
  | nil => rfl
  | cons id rest ih =>
      simp only [loggedInstructions, instructions, run_bind, run_silent]
      refine bind_congr fun _ => bind_congr fun d => ?_
      obtain ⟨ty, origin⟩ := d
      cases origin with
      | instr i =>
          simp only [run_bind, run_record, run_silent, pure_bind]
          exact bind_congr fun frame => ih frame
      | _ => exact ih frame

@[simp]
theorem run_loggedBlock (b : BlockId) (source : Option BlockId) (frame : Frame) :
    (loggedBlock m limits call name b source frame).run =
      block m limits call name b source frame := by
  simp [loggedBlock, block]

@[simp]
theorem run_loggedWalk (n : Nat) (b : BlockId) (source : Option BlockId) (frame : Frame) :
    (loggedWalk m limits call name n b source frame).run =
      walk m limits call name n b source frame := by
  induction n generalizing b source frame with
  | zero => rfl
  | succ n ih =>
      simp only [loggedWalk, walk, run_bind, run_loggedBlock]
      refine bind_congr fun next => ?_
      cases next with
      | goto target frame => exact ih target (some b) frame
      | leave result => rfl

/-! ### What is logged -/

/-- Instructions are logged in their order, and each of them at most as often as it is there. -/
theorem log_loggedInstructions (frame : Frame) (ids : List ValueId) (s : MachineState) :
    (loggedInstructions m limits call frame ids s).1.Sublist ids := by
  induction ids generalizing frame s with
  | nil => exact List.Sublist.refl []
  | cons id rest ih =>
      unfold loggedInstructions
      rcases silent_bind_cases (step limits) _ s with ⟨_, s₁, -, h⟩ | ⟨_, _, h⟩
      · rw [h]
        rcases silent_bind_cases (liftM (m.value id)) _ s₁ with ⟨⟨ty, origin⟩, s₂, -, h⟩ | ⟨_, _, h⟩
        · rw [h]
          cases origin with
          | instr i =>
              refine List.Sublist.cons_cons id ?_
              change ((silent (instruction m call frame id i) >>= fun frame =>
                loggedInstructions m limits call frame rest) s₂).1.Sublist rest
              rcases silent_bind_cases (instruction m call frame id i) _ s₂ with
                ⟨frame, s₃, -, h⟩ | ⟨_, _, h⟩
              · rw [h]
                exact ih frame s₃
              · rw [h]
                exact List.nil_sublist rest
          | _ => exact (ih frame s₂).cons id
        · rw [h]
          exact List.nil_sublist _
      · rw [h]
        exact List.nil_sublist _

/-- Behind the choices at the head of a block come the rest of its instructions. -/
theorem suffix_of_choices {d : BlockData} {source : Option BlockId} {frame : Frame}
    {ids rest : List ValueId} {chosen : List (ValueId × Val)} {s s' : MachineState}
    (h : choices m d source frame ids s = .ok (chosen, rest) s') : rest <:+ ids := by
  induction ids generalizing chosen rest s s' with
  | nil =>
      cases h
      exact List.suffix_rfl
  | cons id ids ih =>
      unfold choices at h
      obtain ⟨⟨ty, origin⟩, s₁, -, h⟩ := bind_eq_ok_iff.1 h
      cases origin with
      | instr i =>
          cases i with
          | phi incoming =>
              cases source with
              | none => cases h
              | some source =>
                  cases hfind : incoming.find? (·.2 = source) with
                  | none =>
                      simp only [hfind] at h
                      cases h
                  | some taken =>
                      simp only [hfind] at h
                      obtain ⟨v, s₂, -, h⟩ := bind_eq_ok_iff.1 h
                      obtain ⟨⟨chosen', rest'⟩, s₃, hrest, h⟩ := bind_eq_ok_iff.1 h
                      cases h
                      exact (ih hrest).trans (List.suffix_cons id ids)
          | _ =>
              cases h
              exact List.suffix_rfl
      | _ =>
          cases h
          exact List.suffix_rfl

/-- A block logs instructions of its code. -/
theorem log_loggedBlock (b : BlockId) (source : Option BlockId) (frame : Frame) (s : MachineState) :
    (loggedBlock m limits call name b source frame s).1.Sublist (m.code b).1.toList := by
  unfold loggedBlock
  rcases silent_bind_cases (liftM (m.block b)) _ s with ⟨d, s₁, hd, h⟩ | ⟨_, _, h⟩
  · rw [h]
    have hcode : (m.code b).1 = d.instrs := by rw [Module.code_of_block (lift_eq_ok_iff.1 hd).1]
    rcases silent_bind_cases (enterBlock m d source frame) _ s₁ with
      ⟨⟨frame, rest⟩, s₂, henter, h⟩ | ⟨_, _, h⟩
    · rw [h, hcode]
      obtain ⟨⟨chosen, rest'⟩, s₃, hchoices, hend⟩ := bind_eq_ok_iff.1 henter
      cases hend
      have hinstrs : (loggedInstructions m limits call (frame.bindAll chosen) rest s₂).1.Sublist
          d.instrs.toList :=
        (log_loggedInstructions _ rest s₂).trans (suffix_of_choices hchoices).sublist
      exact (log_bind_silent _ _ s₂).symm ▸ hinstrs
    · rw [h]
      exact List.nil_sublist _
  · rw [h]
    exact List.nil_sublist _

/-- The end of a block leads to one of its successors. -/
theorem mem_successors_of_terminator {d : BlockData} {frame frame' : Frame} {target : BlockId}
    {s s' : MachineState} (h : terminator m call name d frame s = .ok (.goto target frame') s') :
    ∃ t, d.terminator = some t ∧ target ∈ t.successors := by
  unfold terminator at h
  cases hend : d.terminator with
  | none =>
      rw [hend] at h
      cases h
  | some t =>
      rw [hend] at h
      refine ⟨t, rfl, ?_⟩
      cases t with
      | br next =>
          cases h
          exact List.mem_singleton_self _
      | condBr cond thenTo elseTo =>
          obtain ⟨v, s₁, -, h⟩ := bind_eq_ok_iff.1 h
          cases h
          simp only [Terminator.successors]
          split <;> simp
      | ret value =>
          cases value with
          | none => cases h
          | some value =>
              obtain ⟨v, s₁, -, h⟩ := bind_eq_ok_iff.1 h
              cases h
      | invoke f args normal unwind result =>
          obtain ⟨vs, s₁, -, h⟩ := bind_eq_ok_iff.1 h
          have hends : target = normal ∨ target = unwind := by
            cases hcall : call f vs s₁ with
            | ok v s₂ =>
                rw [hcall] at h
                cases result <;> cases h <;> exact .inl rfl
            | error stop s₂ =>
                rw [hcall] at h
                cases stop with
                | thrown e =>
                    cases hpad : padCatches m s₂.globals unwind e.descriptor with
                    | error c =>
                        simp only [hpad] at h
                        cases h
                    | ok caught =>
                        simp only [hpad] at h
                        cases caught with
                        | true =>
                            cases h
                            exact .inr rfl
                        | false => cases h
                | _ => cases h
          simpa [Terminator.successors] using hends
      | resume pad =>
          obtain ⟨v, s₁, -, h⟩ := bind_eq_ok_iff.1 h
          obtain ⟨s₂, s₃, -, h⟩ := bind_eq_ok_iff.1 h
          cases hthrown : s₂.thrown.get? (payloadOf v) <;> simp only [hthrown] at h <;> cases h
      | unreachable => cases h

theorem mem_successors_of_block {b target : BlockId} {source : Option BlockId}
    {frame frame' : Frame} {s s' : MachineState}
    (h : block m limits call name b source frame s = .ok (.goto target frame') s') :
    ∃ t, (m.code b).2 = some t ∧ target ∈ t.successors := by
  obtain ⟨d, s₁, hd, h⟩ := bind_eq_ok_iff.1 h
  obtain ⟨⟨entered, rest⟩, s₂, -, h⟩ := bind_eq_ok_iff.1 h
  obtain ⟨frame₃, s₃, -, h⟩ := bind_eq_ok_iff.1 h
  obtain ⟨⟨⟩, s₄, -, h⟩ := bind_eq_ok_iff.1 h
  obtain ⟨t, ht, htarget⟩ := mem_successors_of_terminator h
  refine ⟨t, ?_, htarget⟩
  rw [Module.code_of_block (lift_eq_ok_iff.1 hd).1, ht]

/-- From a block to which control may be sent nothing is logged that makes room. -/
theorem not_mem_log_of_isGoal (hm : m.GuardsEntries) {v : ValueId} (hv : m.IsSlot v) (n : Nat)
    {b : BlockId} (hb : m.IsGoal b) (source : Option BlockId) (frame : Frame) (s : MachineState) :
    v ∉ (loggedWalk m limits call name n b source frame s).1 := by
  have hblock {b : BlockId} (hb : m.IsGoal b) (source : Option BlockId) (frame : Frame)
      (s : MachineState) : v ∉ (loggedBlock m limits call name b source frame s).1 := by
    intro hmem
    have hcode := (log_loggedBlock b source frame s).subset hmem
    exact hm.not_isSlot hb (Array.mem_toList_iff.1 hcode) hv
  induction n generalizing b source frame s with
  | zero => exact List.not_mem_nil
  | succ n ih =>
      unfold loggedWalk
      rcases bind_cases (loggedBlock m limits call name b source frame) _ s with
        ⟨next, s₁, hrun, h⟩ | h
      · rw [h, List.mem_append, not_or]
        refine ⟨hblock hb source frame s, ?_⟩
        cases next with
        | goto target frame =>
            rw [run_loggedBlock] at hrun
            obtain ⟨t, ht, htarget⟩ := mem_successors_of_block hrun
            exact ih (hm.ends ht target htarget) (some b) frame s₁
        | leave result => exact List.not_mem_nil
      · rw [h]
        exact hblock hb source frame s

/-- Wherever a run begins, every instruction that makes room is logged at most once. -/
theorem count_log_le_one (hm : m.GuardsEntries) {v : ValueId} (hv : m.IsSlot v) (n : Nat)
    (b : BlockId) (source : Option BlockId) (frame : Frame) (s : MachineState) :
    (loggedWalk m limits call name n b source frame s).1.count v ≤ 1 := by
  cases n with
  | zero => exact Nat.zero_le 1
  | succ n =>
      have hblock : (loggedBlock m limits call name b source frame s).1.count v ≤ 1 :=
        Nat.le_trans ((log_loggedBlock b source frame s).count_le v)
          (List.nodup_iff_count_le_one.1 (hm.listed.nodup_code b) v)
      unfold loggedWalk
      rcases bind_cases (loggedBlock m limits call name b source frame) _ s with
        ⟨next, s₁, hrun, h⟩ | h
      · rw [h, List.count_append]
        cases next with
        | goto target frame =>
            rw [run_loggedBlock] at hrun
            obtain ⟨t, ht, htarget⟩ := mem_successors_of_block hrun
            have hrest : v ∉ (loggedWalk m limits call name n target (some b) frame s₁).1 :=
              not_mem_log_of_isGoal hm hv n (hm.ends ht target htarget) (some b) frame s₁
            rw [List.count_eq_zero_of_not_mem hrest]
            exact hblock
        | leave result => exact hblock
      · rw [h]
        exact hblock

end Exec

/-! ### Code of a compilation -/

namespace Compilation

/-- However many trees have been lowered, and whatever has been reported, control goes on only in
blocks that are there and make no room on the stack. So a run of the code, such as a call of a
function makes from its first block on, executes every instruction that makes room at most once, under
all limits, however calls inside of it end and however often it goes round in loops. -/
theorem loops_do_not_grow_the_stack {c : Compilation} (hc : c.IsBuilt) :
    (∀ b d t, c.module.block b = .ok d → d.terminator = some t → ∀ next ∈ t.successors,
      ∃ e, c.module.block next = .ok e ∧ ∀ v ∈ e.instrs, ¬ c.module.IsSlot v) ∧
    ∀ limits call name n b source frame,
      (Exec.loggedWalk c.module limits call name n b source frame).run =
        Exec.walk c.module limits call name n b source frame ∧
      ∀ s v, c.module.IsSlot v →
        (Exec.loggedWalk c.module limits call name n b source frame s).1.count v ≤ 1 := by
  have hm := hc.isGuarded.entries
  refine ⟨fun b d t hd ht next hnext => ?_, fun limits call name n b source frame => ?_⟩
  · have hgoal : c.module.IsGoal next := by
      refine hm.ends (b := b) ?_ next hnext
      rw [Module.code_of_block hd, ht]
    obtain ⟨e, he, -⟩ := id hgoal
    refine ⟨e, he, fun v hv => hm.not_isSlot hgoal ?_⟩
    rwa [Module.code_of_block he]
  · exact ⟨Exec.run_loggedWalk n b source frame, fun s v hv =>
      Exec.count_log_le_one hm hv n b source frame s⟩

/-- A function that counts down in a loop, with a variable inside of the loop. -/
def countdownProgram : Node :=
  let node (id : Nat) (kind : NodeKind Node) : Node := ⟨id, .unknown, kind⟩
  let start := node 1 (.varDecl (.prim .int) [⟨⟨4⟩, some (node 0 (.intLit 3))⟩])
  let test := node 4 (.comparison (node 2 (.ident ⟨4⟩)) [(.gt, node 3 (.intLit 0))])
  let inner := node 6 (.varDecl (.prim .int) [⟨⟨5⟩, some (node 5 (.intLit 1))⟩])
  let less := node 9 (.binary .sub (node 7 (.ident ⟨4⟩)) (node 8 (.intLit 1)))
  let step := node 11 (.assign none (node 10 (.ident ⟨4⟩)) less)
  let loop := node 13 (.whileLoop test (node 12 (.block [inner, step])))
  let answer := node 15 (.returnStmt (node 14 (.intLit 0)))
  let body := node 16 (.block [start, loop, answer])
  node 17 (.module [node 18 (.function ⟨⟨3⟩, [], .prim .int, body⟩)])

/-- The instructions that a call of the function executes in its first blocks. -/
def countdownLog (m : Module) (n : Nat) : List ValueId :=
  let s : MachineState := { (default : MachineState) with memory := .new 64 }
  (Exec.loggedWalk m .standard (Exec.call m .standard) "main" n ⟨0⟩ none (Frame.ofArguments [] []) s).1

/-- The loop stores to the variable inside of it in a block that goes back to the condition. Room for
both variables is made before, and it is not made again. -/
theorem loops_do_not_grow_the_stack_countdown : ∃ outcome c',
    (reading "countdown" #["main", "n", "k"]).lower (some countdownProgram) = .ok (.ok outcome, c') ∧
      outcome.errorCount = 0 ∧
      c'.module.block ⟨3⟩ = .ok ⟨"while.body", ⟨0⟩, #[⟨8⟩, ⟨10⟩, ⟨11⟩, ⟨12⟩], some (.br ⟨2⟩)⟩ ∧
      (c'.module.value ⟨8⟩).map (·.origin) = .ok (.instr (.store ⟨7⟩ ⟨6⟩)) ∧
      countdownLog c'.module 1 = [⟨0⟩, ⟨6⟩] ∧ c'.module.IsSlot ⟨0⟩ ∧ c'.module.IsSlot ⟨6⟩ ∧
      ∀ n, (countdownLog c'.module n).count ⟨0⟩ ≤ 1 ∧ (countdownLog c'.module n).count ⟨6⟩ ≤ 1 := by
  obtain ⟨outcome, c', hlower, herrors, hblock, hstore, hlog, hn, hk⟩ : ∃ outcome c',
      (reading "countdown" #["main", "n", "k"]).lower (some countdownProgram) =
        .ok (.ok outcome, c') ∧
      outcome.errorCount = 0 ∧
      c'.module.block ⟨3⟩ = .ok ⟨"while.body", ⟨0⟩, #[⟨8⟩, ⟨10⟩, ⟨11⟩, ⟨12⟩], some (.br ⟨2⟩)⟩ ∧
      (c'.module.value ⟨8⟩).map (·.origin) = .ok (.instr (.store ⟨7⟩ ⟨6⟩)) ∧
      countdownLog c'.module 1 = [⟨0⟩, ⟨6⟩] ∧
      c'.module.value ⟨0⟩ = .ok ⟨⟨2⟩, .instr (.alloca ⟨0⟩)⟩ ∧
      c'.module.value ⟨6⟩ = .ok ⟨⟨2⟩, .instr (.alloca ⟨0⟩)⟩ :=
    exists_of_leaves (by decide +kernel)
  have hbuilt : c'.IsBuilt := .lower (isBuilt_reading "countdown" _) hlower
  have honce (n : Nat) := ((loops_do_not_grow_the_stack hbuilt).2 .standard
    (Exec.call c'.module .standard) "main" n ⟨0⟩ none (Frame.ofArguments [] [])).2
      { (default : MachineState) with memory := .new 64 }
  exact ⟨outcome, c', hlower, herrors, hblock, hstore, hlog, ⟨_, _, hn⟩, ⟨_, _, hk⟩,
    fun n => ⟨honce n ⟨0⟩ ⟨_, _, hn⟩, honce n ⟨6⟩ ⟨_, _, hk⟩⟩⟩

end Compilation

end SsaCompiler
