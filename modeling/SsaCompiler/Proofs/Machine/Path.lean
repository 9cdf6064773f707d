/-
# Paths through the code of a call

The machine runs a function block by block. Code is made piece by piece, though, and a piece
may begin and end in the middle of a block. A point of a call says how far a block has been
executed, and a path leads from point to point by instructions and jumps, whatever the limits
of the run are.

The limits come in only at the end: a run that starts at one end of a path goes on at the other
end, unless it has used up its steps before.
-/

import Mathlib.Logic.Relation
import SsaCompiler.Machine.Run
import SsaCompiler.Proofs.Computation

namespace SsaCompiler

/-- The state in which one more step has been counted. -/
def MachineState.tick (s : MachineState) : MachineState := { s with steps := s.steps + 1 }

/-- A point of a call. -/
structure Point where
  /-- The block. -/
  block : BlockId
  /-- How many instructions of the block have been executed. -/
  next : Nat
  /-- What the call has computed. -/
  frame : Frame
  /-- The state of the machine. -/
  state : MachineState

namespace Point

variable (m : Module) (call : Caller) (name : String)

/-- One step of a call: an instruction, or a jump together with the choices at the head of the
block that it leads to. -/
inductive Step : Point → Point → Prop where
  | instr {b : BlockId} {d : BlockData} {k : Nat} {id : ValueId} {ty : TypeId} {i : Instr}
      {frame frame' : Frame} {s s' : MachineState} (hblock : m.block b = .ok d)
      (hid : d.instrs[k]? = some id) (hvalue : m.value id = .ok ⟨ty, .instr i⟩)
      (hrun : Exec.instruction m call frame id i s.tick = .ok frame' s')
      (hsteps : s.steps < s'.steps) : Step ⟨b, k, frame, s⟩ ⟨b, k + 1, frame', s'⟩
  | jump {b target : BlockId} {d d' : BlockData} {k k' : Nat} {frame frame' frame'' : Frame}
      {rest : List ValueId} {s s' s'' : MachineState} (hblock : m.block b = .ok d)
      (hend : d.instrs.size = k)
      (hrun : Exec.terminator m call name d frame s.tick = .ok (.goto target frame') s')
      (htarget : m.block target = .ok d')
      (henter : Exec.enterBlock m d' (some b) frame' s' = .ok (frame'', rest) s'')
      (hrest : rest = d'.instrs.toList.drop k') (hsteps : s.steps < s''.steps) :
      Step ⟨b, k, frame, s⟩ ⟨target, k', frame'', s''⟩

/-- A path of any length. -/
def Reaches : Point → Point → Prop := Relation.ReflTransGen (Step m call name)

/-- A point at which the next step fails. -/
inductive Stops : Point → Stop → Prop where
  | instr {b : BlockId} {d : BlockData} {k : Nat} {id : ValueId} {ty : TypeId} {i : Instr}
      {frame : Frame} {s s' : MachineState} {stop : Stop} (hblock : m.block b = .ok d)
      (hid : d.instrs[k]? = some id) (hvalue : m.value id = .ok ⟨ty, .instr i⟩)
      (hrun : Exec.instruction m call frame id i s.tick = .error stop s')
      (houtput : s'.output = s.output) : Stops ⟨b, k, frame, s⟩ stop

/-- A point at which the call ends with a result. -/
inductive Returns : Point → Val → Prop where
  | intro {b : BlockId} {d : BlockData} {k : Nat} {frame : Frame} {s : MachineState} {v : Val}
      (hblock : m.block b = .ok d) (hend : d.instrs.size = k)
      (hrun : Exec.terminator m call name d frame s.tick = .ok (.leave v) s.tick) :
      Returns ⟨b, k, frame, s⟩ v

end Point

namespace Exec

variable {m : Module} {limits : Limits} {call : Caller} {name : String}

/-- The rest of a call from a point on, with at most `n` blocks to come. -/
def rest (m : Module) (limits : Limits) (call : Caller) (name : String) (n : Nat) (p : Point) :
    EStateM.Result Stop MachineState Val :=
  (do
    let block ← m.block p.block
    let frame ← instructions m limits call p.frame (block.instrs.toList.drop p.next)
    step limits
    match ← terminator m call name block frame with
    | .goto target frame => walk m limits call name n target (some p.block) frame
    | .leave result => return result : Exec Val) p.state

/-! ### Counting steps -/

/-- A step within the limit is counted. -/
theorem step_of_lt {s : MachineState} (hs : s.steps < limits.maxSteps) :
    step limits s = .ok () s.tick := by
  unfold step
  exact if_neg (Nat.not_lt.2 hs)

/-- A step beyond the limit fails. -/
theorem step_of_le {s : MachineState} (hs : limits.maxSteps ≤ s.steps) :
    step limits s = .error (.failed (.stepLimit limits.maxSteps)) s.tick := by
  unfold step
  exact if_pos (Nat.lt_succ_of_le hs)

/-! ### The rest of a call -/

section Rest

variable {n k : Nat} {b : BlockId} {d : BlockData} {frame : Frame} {s : MachineState}

/-- The rest of a call from inside a block. -/
theorem rest_eq (hblock : m.block b = .ok d) :
    rest m limits call name n ⟨b, k, frame, s⟩ =
      (do
        let frame ← instructions m limits call frame (d.instrs.toList.drop k)
        step limits
        match ← terminator m call name d frame with
        | .goto target frame => walk m limits call name n target (some b) frame
        | .leave result => return result : Exec Val) s := by
  unfold rest
  simp only [hblock]
  exact bind_of_ok (liftM_checked_ok d s)

theorem instructions_cons {id : ValueId} {ids : List ValueId} {ty : TypeId} {i : Instr}
    (hvalue : m.value id = .ok ⟨ty, .instr i⟩) :
    instructions m limits call frame (id :: ids) = (do
      step limits
      let frame ← instruction m call frame id i
      instructions m limits call frame ids : Exec Frame) := by
  rw [instructions]
  refine bind_congr fun _ => ?_
  rw [hvalue]
  rfl

/-- What comes behind other instructions is executed behind them. -/
theorem instructions_append (before ids : List ValueId) (frame : Frame) :
    instructions m limits call frame (before ++ ids) =
      instructions m limits call frame before >>= fun frame' =>
        instructions m limits call frame' ids := by
  induction before generalizing frame with
  | nil => rfl
  | cons first before ih =>
      rw [List.cons_append, instructions, instructions, bind_assoc]
      refine bind_congr fun _ => ?_
      rw [bind_assoc]
      refine bind_congr fun data => ?_
      split
      · rw [bind_assoc]
        exact bind_congr fun frame' => ih frame'
      · exact ih frame

/-- What is still to be executed begins with the next instruction. -/
theorem drop_instrs {id : ValueId} (hid : d.instrs[k]? = some id) :
    d.instrs.toList.drop k = id :: d.instrs.toList.drop (k + 1) := by
  obtain ⟨hlt, heq⟩ := Array.getElem?_eq_some_iff.1 hid
  have hlt' : k < d.instrs.toList.length := by simpa using hlt
  rw [List.drop_eq_getElem_cons hlt']
  simp [heq]

/-- Behind the last instruction nothing is left. -/
theorem drop_instrs_size (hend : d.instrs.size = k) : d.instrs.toList.drop k = [] := by
  apply List.drop_eq_nil_of_le
  simp [hend]

/-- A call that has used up its steps stops, wherever it is. -/
theorem rest_of_limit (hblock : m.block b = .ok d) (hs : limits.maxSteps ≤ s.steps) :
    rest m limits call name n ⟨b, k, frame, s⟩ =
      .error (.failed (.stepLimit limits.maxSteps)) s.tick := by
  rw [rest_eq hblock]
  cases d.instrs.toList.drop k with
  | nil =>
      rw [instructions]
      refine (bind_of_ok (pure_run frame s)).trans ?_
      exact bind_of_error (step_of_le hs)
  | cons id ids =>
      rw [instructions]
      refine bind_of_error ?_
      exact bind_of_error (step_of_le hs)

/-- Entering a block is a point of the call. -/
theorem walk_succ {source : Option BlockId} {frame' : Frame} {s' : MachineState}
    {ids : List ValueId} (hblock : m.block b = .ok d)
    (henter : enterBlock m d source frame s = .ok (frame', ids) s')
    (hids : ids = d.instrs.toList.drop k) :
    walk m limits call name (n + 1) b source frame s =
      rest m limits call name n ⟨b, k, frame', s'⟩ := by
  subst hids
  rw [rest_eq hblock, walk]
  unfold block
  rw [hblock]
  simp only [bind_assoc]
  refine (bind_of_ok (liftM_checked_ok d s)).trans ?_
  exact bind_of_ok henter

/-- A run that may still take steps goes on along a step of the path. -/
theorem rest_of_step {p q : Point} (hstep : Point.Step m call name p q)
    (hlimit : p.state.steps < limits.maxSteps) (hfuel : limits.maxSteps ≤ n + p.state.steps) :
    ∃ n', limits.maxSteps ≤ n' + q.state.steps ∧
      rest m limits call name n p = rest m limits call name n' q := by
  cases hstep with
  | @instr b d k id ty i frame frame' s s' hblock hid hvalue hrun hsteps =>
      refine ⟨n, by simp only at hlimit hfuel ⊢; omega, ?_⟩
      rw [rest_eq hblock, rest_eq hblock, drop_instrs hid, instructions_cons hvalue]
      simp only [bind_assoc]
      refine (bind_of_ok (step_of_lt hlimit)).trans ?_
      exact bind_of_ok hrun
  | @jump b target d d' k k' frame frame' frame'' ids s s' s'' hblock hend hrun htarget henter
      hrest hsteps =>
      simp only at hlimit hfuel hsteps
      obtain ⟨n, rfl⟩ : ∃ n', n = n' + 1 := ⟨n - 1, by omega⟩
      refine ⟨n, by simp only; omega, ?_⟩
      rw [rest_eq hblock, drop_instrs_size hend, instructions]
      refine (bind_of_ok (pure_run frame s)).trans ?_
      refine (bind_of_ok (step_of_lt hlimit)).trans ?_
      refine (bind_of_ok hrun).trans ?_
      exact walk_succ htarget henter hrest

/-- A run goes on at the other end of a path, unless it has used up its steps before. -/
theorem rest_of_reaches {p q : Point} (hpath : Point.Reaches m call name p q)
    (hfuel : limits.maxSteps ≤ n + p.state.steps) :
    (∃ n', limits.maxSteps ≤ n' + q.state.steps ∧
      rest m limits call name n p = rest m limits call name n' q) ∨
    ∃ s, rest m limits call name n p = .error (.failed (.stepLimit limits.maxSteps)) s := by
  induction hpath using Relation.ReflTransGen.head_induction_on generalizing n with
  | refl => exact .inl ⟨n, hfuel, rfl⟩
  | @head p r hstep _ ih =>
      rcases Nat.lt_or_ge p.state.steps limits.maxSteps with hlimit | hlimit
      · obtain ⟨n', hfuel', heq⟩ := rest_of_step hstep hlimit hfuel
        rw [heq]
        exact ih hfuel'
      · right
        cases hstep with
        | instr hblock => exact ⟨_, rest_of_limit hblock hlimit⟩
        | jump hblock => exact ⟨_, rest_of_limit hblock hlimit⟩

/-- A run does what the next instructions do, and goes on behind them. -/
theorem rest_of_instructions {ids later : List ValueId} (hblock : m.block b = .ok d)
    (hdrop : d.instrs.toList.drop k = ids ++ later) :
    rest m limits call name n ⟨b, k, frame, s⟩ =
      match instructions m limits call frame ids s with
      | .ok frame' s' => rest m limits call name n ⟨b, k + ids.length, frame', s'⟩
      | .error stop s' => .error stop s' := by
  rw [rest_eq hblock, hdrop, instructions_append, bind_assoc]
  cases hrun : instructions m limits call frame ids s with
  | error stop s' => exact bind_of_error hrun
  | ok frame' s' =>
      have hlater : d.instrs.toList.drop (k + ids.length) = later := by
        rw [← List.drop_drop, hdrop, List.drop_left]
      refine (bind_of_ok hrun).trans ?_
      dsimp only
      rw [rest_eq hblock, hlater]

/-- A run that fails in its next step. -/
theorem rest_of_stops {p : Point} {stop : Stop} (hstops : Point.Stops m call p stop)
    (hlimit : p.state.steps < limits.maxSteps) :
    ∃ s, rest m limits call name n p = .error stop s ∧ s.output = p.state.output := by
  cases hstops with
  | @instr b d k id ty i frame s s' stop hblock hid hvalue hrun houtput =>
      refine ⟨s', ?_, houtput⟩
      rw [rest_eq hblock, drop_instrs hid, instructions_cons hvalue]
      simp only [bind_assoc]
      refine (bind_of_ok (step_of_lt hlimit)).trans ?_
      exact bind_of_error hrun

/-- A run that ends in its next step. -/
theorem rest_of_returns {p : Point} {v : Val} (hreturns : Point.Returns m call name p v)
    (hlimit : p.state.steps < limits.maxSteps) :
    rest m limits call name n p = .ok v p.state.tick := by
  obtain ⟨hblock, hend, hrun⟩ := hreturns
  rw [rest_eq hblock, drop_instrs_size hend, instructions]
  refine (bind_of_ok (pure_run _ _)).trans ?_
  refine (bind_of_ok (step_of_lt hlimit)).trans ?_
  exact bind_of_ok hrun

end Rest

end Exec

end SsaCompiler
