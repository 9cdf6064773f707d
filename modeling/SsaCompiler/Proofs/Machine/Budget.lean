/-
# What a run uses up

Instructions and terminators count as steps, calls of functions with a body as levels, and every
exception that a handler has claimed waits for the call that disposes of it. A call may claim one
exception without a step of its own, but whoever calls has taken a step for it. So between two calls
that follow each other a run always uses up something: a step, a level, or a claimed exception.

Two computations of the same code may differ in how they run calls. They do the same as long as
their calls do the same where a run can come to, and that is after something has been used up.
-/

import SsaCompiler.Proofs.Machine.Steady

namespace SsaCompiler

open MeetsEndless

/-! ### Progress from state to state -/

/-- How the stack may have changed: not at all, or by growing. -/
class IsGrowth (R : Nat → Nat → Prop) : Prop extends IsPreorder Nat R where
  le : ∀ {a b}, R a b → a ≤ b

instance : IsGrowth (· = ·) where
  refl _ := rfl
  trans _ _ _ := Eq.trans
  le h := Nat.le_of_eq h

instance : IsGrowth (· ≤ ·) where
  le h := h

/-- A state that comes after another one inside the same calls. The steps do not exceed the limit
by more than `excess`, unless they did so before. There are at most as many more claimed exceptions
as steps, and `claims` more than that. -/
structure MachineState.Advances (limits : Limits) (R : Nat → Nat → Prop) (excess : Nat) (claims : Int)
    (s s' : MachineState) : Prop where
  depth : s'.depth = s.depth
  stack : R s.memory.stack.size s'.memory.stack.size
  heap : s.memory.heap.size ≤ s'.memory.heap.size
  limit : s'.memory.limit = s.memory.limit
  steps : s.steps ≤ s'.steps
  budget : s'.steps ≤ max s.steps limits.maxSteps + excess
  claimed : (s'.caught.length : Int) - s'.steps ≤ s.caught.length - s.steps + claims

namespace MachineState

variable {limits : Limits} {R R' : Nat → Nat → Prop} {excess excess' : Nat} {k k' : Int}
  {s s' s'' : MachineState}

theorem Advances.refl [IsGrowth R] (s : MachineState) : s.Advances limits R 0 0 s :=
  ⟨rfl, Std.Refl.refl _, Nat.le_refl _, rfl, Nat.le_refl _, by omega, by omega⟩

/-- One state after the other. Only the last part may exceed the limit. -/
theorem Advances.trans [IsGrowth R] (h : s.Advances limits R 0 k s')
    (h' : s'.Advances limits R excess k' s'') : s.Advances limits R excess (k + k') s'' where
  depth := h'.depth.trans h.depth
  stack := IsTrans.trans _ _ _ h.stack h'.stack
  heap := h.heap.trans h'.heap
  limit := h'.limit.trans h.limit
  steps := h.steps.trans h'.steps
  budget := by
    have hfirst := h.budget
    have hsecond := h'.budget
    omega
  claimed := by
    have hfirst := h.claimed
    have hsecond := h'.claimed
    omega

theorem Advances.mono (h : s.Advances limits R excess k s') (hR : ∀ {a b}, R a b → R' a b)
    (hexcess : excess ≤ excess') (hk : k ≤ k') : s.Advances limits R' excess' k' s' :=
  ⟨h.depth, hR h.stack, h.heap, h.limit, h.steps, h.budget.trans (by omega), h.claimed.trans (by omega)⟩

/-- What leaves all counts alone is progress of every kind. -/
theorem SameCounts.advances [IsGrowth R] (h : s.SameCounts s') : s.Advances limits R excess 0 s' where
  depth := h.depth
  stack := h.memory.stack ▸ Std.Refl.refl _
  heap := h.memory.heap
  limit := h.memory.limit
  steps := h.steps.ge
  budget := by rw [h.steps]; omega
  claimed := by rw [h.steps, h.caught]; omega

/-! ### What is left -/

/-- How many more levels a run may still take: calls of functions with a body, and calls that
dispose of an exception. -/
def level (limits : Limits) (s : MachineState) : Nat :=
  (limits.maxCallDepth - s.depth) + (limits.maxSteps - s.steps) + s.caught.length

/-- A number that gets smaller with every call and with every block. -/
def rank (limits : Limits) (s : MachineState) : Nat :=
  (limits.maxCallDepth - s.depth) + 2 * (limits.maxSteps - s.steps) + s.caught.length

/-- Where more has been used than was claimed, less is left. -/
theorem Advances.lt (h : s.Advances limits R 0 (-1) s') :
    level limits s' < level limits s ∧ rank limits s' < rank limits s := by
  have hdepth := h.depth
  have hsteps := h.steps
  have hbudget := h.budget
  have hclaimed := h.claimed
  unfold level rank
  omega

/-- Where steps have been taken, less is left. -/
theorem Advances.lt_of_steps (h : s.Advances limits R 0 0 s') (hlt : s.steps < s'.steps) :
    level limits s' ≤ level limits s ∧ rank limits s' < rank limits s ∧
      limits.maxSteps - s'.steps < limits.maxSteps - s.steps := by
  have hdepth := h.depth
  have hbudget := h.budget
  have hclaimed := h.claimed
  unfold level rank
  omega

/-- One level deeper, less is left. -/
theorem lt_of_depth {depth : Nat} (hdepth : s.depth < limits.maxCallDepth) (hs : depth = s.depth + 1) :
    level limits { s with depth := depth } < level limits s ∧
      rank limits { s with depth := depth } < rank limits s := by
  simp only [level, rank]
  omega

end MachineState

/-! ### Outcomes -/

/-- By how much the steps may exceed the limit when a run stops: a run that fails may have failed
because of that, and an exception on its way has not. -/
def Stop.overrun : Stop → Nat
  | .thrown _ => 0
  | .failed _ | .crashed _ => 1

variable {α β : Type} {m : Module} {limits : Limits} {R : Nat → Nat → Prop} {k k' i j : Int}
  {base s : MachineState} {call call' : Caller} {frame : Frame}

/-- However a run ends, it has used up what it may. -/
def Outcome (m : Module) (limits : Limits) (R : Nat → Nat → Prop) (k : Int) (s : MachineState)
    (r : EStateM.Result Stop MachineState α) : Prop :=
  match r with
  | .ok _ s' => s.Advances limits R 0 k s'
  | .error e s' => s.Advances limits R e.overrun k s' ∧ (m.IsWellFounded → ¬ IsEndless e)

theorem Outcome.mono {R' : Nat → Nat → Prop} {r : EStateM.Result Stop MachineState α}
    (h : Outcome m limits R k s r) (hR : ∀ {a b}, R a b → R' a b) (hk : k ≤ i) :
    Outcome m limits R' i s r := by
  cases r with
  | ok a s' => exact MachineState.Advances.mono h hR (Nat.le_refl _) hk
  | error e s' => exact ⟨h.1.mono hR (Nat.le_refl _) hk, h.2⟩

theorem Outcome.after [IsGrowth R] {s' : MachineState} {r : EStateM.Result Stop MachineState α}
    (hs : s.Advances limits R 0 i s') (h : Outcome m limits R j s' r) :
    Outcome m limits R (i + j) s r := by
  cases r with
  | ok a s'' => exact hs.trans h
  | error e s'' => exact ⟨hs.trans h.1, h.2⟩

theorem Outcome.of_steady [IsGrowth R] {x : Exec α} [hx : Steady m x] (s : MachineState) :
    Outcome m limits R 0 s (x s) := by
  cases hrun : x s with
  | ok a s' => exact (show s.SameCounts s' from hx.sameCounts_of_ok hrun).advances
  | error e s' =>
      obtain ⟨hcounts, he⟩ := hx.sameCounts_of_error hrun
      exact ⟨(show s.SameCounts s' from hcounts).advances, he⟩

/-- Two computations do the same in every state that comes after `base` with at most `k` more claims
than steps, and use up what they may. -/
def Agrees (m : Module) (limits : Limits) (base : MachineState) (R : Nat → Nat → Prop) (k k' : Int)
    (x x' : Exec α) : Prop :=
  ∀ s, base.Advances limits (· ≤ ·) 0 k s → x s = x' s ∧ Outcome m limits R k' s (x s)

namespace Agrees

variable {x x' : Exec α} {f f' : α → Exec β}

theorem of_steady [IsGrowth R] [Steady m x] : Agrees m limits base R k 0 x x :=
  fun s _ => ⟨rfl, .of_steady s⟩

theorem mono {R' : Nat → Nat → Prop} (h : Agrees m limits base R k i x x')
    (hR : ∀ {a b}, R a b → R' a b) (hk : i ≤ j) : Agrees m limits base R' k j x x' :=
  fun s hs => ⟨(h s hs).1, (h s hs).2.mono hR hk⟩

theorem anti (h : Agrees m limits base R k k' x x') (hk : i ≤ k) :
    Agrees m limits base R i k' x x' :=
  fun s hs => h s (hs.mono (fun h => h) (Nat.le_refl _) hk)

theorem bind [IsGrowth R] (hx : Agrees m limits base R k i x x')
    (hf : ∀ a, Agrees m limits base R (k + i) j (f a) (f' a)) (hk : 0 ≤ j) :
    Agrees m limits base R k (i + j) (x >>= f) (x' >>= f') := by
  intro s hs
  obtain ⟨hsame, hfirst⟩ := hx s hs
  cases hrun : x s with
  | error e s₁ =>
      rw [hrun] at hsame hfirst
      rw [Exec.bind_of_error hrun, Exec.bind_of_error hsame.symm]
      exact ⟨rfl, hfirst.mono id (by omega)⟩
  | ok a s₁ =>
      rw [hrun] at hsame hfirst
      rw [Exec.bind_of_ok hrun, Exec.bind_of_ok hsame.symm]
      have hs₁ : s.Advances limits (· ≤ ·) 0 i s₁ :=
        MachineState.Advances.mono hfirst IsGrowth.le (Nat.le_refl _) (le_refl _)
      obtain ⟨hsame', hsecond⟩ := hf a s₁ (hs.trans hs₁)
      exact ⟨hsame', hsecond.after hfirst⟩

/-- A sequence that begins with work that counts for nothing. -/
theorem steady_bind [IsGrowth R] [Steady m x]
    (hf : ∀ a, Agrees m limits base R k i (f a) (f' a)) (hk : 0 ≤ i) :
    Agrees m limits base R k i (x >>= f) (x >>= f') := by
  have hx : Agrees m limits base R k 0 x x := of_steady
  have h : Agrees m limits base R k (0 + i) (x >>= f) (x >>= f') := hx.bind (by rwa [add_zero]) hk
  rwa [zero_add] at h

/-- A sequence that ends with work that counts for nothing. -/
theorem bind_steady [IsGrowth R] (hx : Agrees m limits base R k i x x')
    (hf : ∀ a, Steady m (f a)) : Agrees m limits base R k i (x >>= f) (x' >>= f) := by
  have h : Agrees m limits base R k (i + 0) (x >>= f) (x' >>= f) :=
    hx.bind (fun a => have := hf a; of_steady) (le_refl 0)
  rwa [add_zero] at h

/-- A sequence that begins with a look at the state. -/
theorem bind_get {f f' : MachineState → Exec β}
    (hf : ∀ s, base.Advances limits (· ≤ ·) 0 k s →
      f s s = f' s s ∧ Outcome m limits R i s (f s s)) :
    Agrees m limits base R k i (get >>= f) (get >>= f') := hf

/-- A sequence that begins with a change of the state it starts in. -/
theorem modify_bind [IsGrowth R] {f f' : PUnit → Exec β} {g : MachineState → MachineState}
    (hf : Agrees m limits base R (k + i) j (f ⟨⟩) (f' ⟨⟩))
    (hs : base.Advances limits (· ≤ ·) 0 k s) (hg : s.Advances limits R 0 i (g s)) :
    (modify g >>= f : Exec β) s = (modify g >>= f' : Exec β) s ∧
      Outcome m limits R (i + j) s ((modify g >>= f : Exec β) s) := by
  obtain ⟨hsame, houtcome⟩ := hf (g s) (hs.trans (hg.mono IsGrowth.le (Nat.le_refl _) (le_refl _)))
  exact ⟨hsame, houtcome.after hg⟩

end Agrees

namespace Exec

/-- A sequence answers exactly when its parts do, one in the state that the other leaves behind. -/
theorem bind_eq_ok_iff {x : Exec α} {f : α → Exec β} {b : β} {s s' : MachineState} :
    (x >>= f) s = .ok b s' ↔ ∃ a s₁, x s = .ok a s₁ ∧ f a s₁ = .ok b s' := by
  change EStateM.bind x f s = _ ↔ _
  unfold EStateM.bind
  cases x s <;> simp

/-- A question that does not concern the state leaves it as it is. -/
theorem lift_eq_ok_iff {x : Checked α} {a : α} {s s' : MachineState} :
    (liftM x : Exec α) s = .ok a s' ↔ x = .ok a ∧ s = s' := by
  cases x with
  | ok b =>
      change EStateM.Result.ok b s = .ok a s' ↔ _
      simp
  | error c =>
      change EStateM.Result.error (Stop.crashed c) s = .ok a s' ↔ _
      simp

/-! ### Blocks -/

/-- A step uses up one of the steps that are left. -/
theorem step_agrees [IsGrowth R] : Agrees m limits base R k (-1) (step limits) (step limits) := by
  rintro ⟨memory, globals, selectors, output, steps, depth, thrown, caught⟩ -
  refine ⟨rfl, ?_⟩
  unfold step
  dsimp only
  split
  · exact ⟨⟨rfl, Std.Refl.refl _, Nat.le_refl _, rfl, by simp, by simp [Stop.overrun], by simp⟩,
      fun _ => id⟩
  · exact ⟨rfl, Std.Refl.refl _, Nat.le_refl _, rfl, by simp, by simp; omega, by simp⟩

theorem allocStack_agrees (size align : Nat) :
    Agrees m limits base (· ≤ ·) k 0 (onMemory (Memory.allocStack size align))
      (onMemory (Memory.allocStack size align)) := by
  intro s _
  refine ⟨rfl, ?_⟩
  cases hplace : s.memory.place s.memory.stack size align with
  | error e =>
      have hop : Memory.allocStack size align s.memory = .error e s.memory := by
        rw [Memory.allocStack, hplace]
      have he : ¬ IsEndless e := Ends.not_endless hplace
      rw [onMemory_of_error hop]
      exact ⟨(MachineState.Advances.refl s).mono (fun h => h) (Nat.zero_le _) (le_refl _),
        fun _ => mt isEndless_ofFault.1 he⟩
  | ok start =>
      have hop : Memory.allocStack size align s.memory = .ok (UInt64.ofNat (stackBase + start))
          { s.memory with stack := Memory.grow s.memory.stack start size } := by
        rw [Memory.allocStack, hplace]
      rw [onMemory_of_ok hop]
      exact ⟨rfl, by simp [Memory.grow], Nat.le_refl _, rfl, Nat.le_refl _, by simp, by simp⟩

/-- Calls that agree wherever something has been used up. A call leaves the stack as it was and
claims at most one exception without a step. -/
def CallsAgree (m : Module) (limits : Limits) (base : MachineState) (call call' : Caller) : Prop :=
  ∀ f args, Agrees m limits base (· = ·) (-1) 1 (call f args) (call' f args)

/-- An instruction whose step has been counted. -/
theorem instruction_agrees (hcall : CallsAgree m limits base call call') (id : ValueId)
    (instr : Instr) : Agrees m limits base (· ≤ ·) (-1) 1 (instruction m call frame id instr)
      (instruction m call' frame id instr) := by
  by_cases hinstr : instr.usesFrames = false
  · have hsteady : Steady m (instruction m call frame id instr) :=
      steady_instruction hinstr call id
    rw [instruction_congr hinstr call' call]
    exact Agrees.of_steady.mono (fun h => h) Int.one_nonneg
  · cases instr with
    | call f args =>
        exact .steady_bind (fun args => ((hcall f args).mono Nat.le_of_eq (le_refl 1)).bind_steady
          fun v => inferInstance) Int.one_nonneg
    | alloca ty =>
        have hsize := steady_lift fun h : m.IsWellFounded => h.types.ends_sizeOf ty
        have halign := steady_lift fun h : m.IsWellFounded => h.types.ends_alignOf ty
        exact .steady_bind (fun size => .steady_bind (fun align =>
          ((allocStack_agrees size align).mono (fun h => h) Int.one_nonneg).bind_steady
            fun a => inferInstance) Int.one_nonneg) Int.one_nonneg
    | _ => exact absurd rfl hinstr

theorem instructions_agrees (hcall : CallsAgree m limits base call call') (ids : List ValueId) :
    Agrees m limits base (· ≤ ·) 0 0 (instructions m limits call frame ids)
      (instructions m limits call' frame ids) := by
  induction ids generalizing frame with
  | nil => exact .of_steady (x := pure frame)
  | cons id rest ih =>
      refine Agrees.bind (i := -1) (j := 1) step_agrees
        (fun _ => .steady_bind (fun d => ?_) Int.one_nonneg) Int.one_nonneg
      split
      · exact Agrees.bind (instruction_agrees hcall id _) (fun frame => ih) (le_refl 0)
      · exact (ih.anti (by omega)).mono (fun h => h) Int.one_nonneg

/-- A call that goes on in one of two blocks. -/
theorem invoke_agrees (hcall : CallsAgree m limits base call call') (f : FunctionId)
    (args : List ValueId) (normal unwind : BlockId) (result : Option ValueId) :
    Agrees m limits base (· = ·) (-1) 1 (invoke m call frame f args normal unwind result)
      (invoke m call' frame f args normal unwind result) := by
  refine .steady_bind (fun args s hs => ?_) Int.one_nonneg
  obtain ⟨hsame, houtcome⟩ := hcall f args s hs
  rw [← hsame]
  refine ⟨rfl, ?_⟩
  cases hrun : call f args s with
  | ok v s' =>
      rw [hrun] at houtcome
      cases result <;> exact houtcome
  | error stop s' =>
      rw [hrun] at houtcome
      cases stop with
      | thrown e =>
          obtain ⟨hadvances, -⟩ := houtcome
          dsimp only
          cases hpad : padCatches m s'.globals unwind e.descriptor with
          | error c =>
              have he : m.IsWellFounded → ¬ IsEndless c := fun h =>
                (h.ends_padCatches s'.globals unwind e.descriptor).not_endless hpad
              exact ⟨hadvances.mono (fun h => h) (Nat.zero_le _) (le_refl _), he⟩
          | ok stops =>
              cases stops with
              | true => exact hadvances
              | false => exact ⟨hadvances, fun _ => id⟩
      | failed e => exact houtcome
      | crashed c => exact houtcome

/-- The end of a block whose step has been counted. -/
theorem terminator_agrees (hcall : CallsAgree m limits base call call') (name : String)
    (block : BlockData) : Agrees m limits base (· ≤ ·) (-1) 1 (terminator m call name block frame)
      (terminator m call' name block frame) := by
  have hsteady {x : Exec Next} (hx : Steady m x) : Agrees m limits base (· ≤ ·) (-1) 1 x x :=
    Agrees.of_steady.mono (fun h => h) Int.one_nonneg
  unfold terminator
  cases block.terminator with
  | none => exact hsteady inferInstance
  | some t =>
      cases t with
      | ret value => cases value <;> exact hsteady inferInstance
      | invoke f args normal unwind result =>
          exact (invoke_agrees hcall f args normal unwind result).mono Nat.le_of_eq (le_refl 1)
      | _ => exact hsteady inferInstance

theorem block_agrees (hcall : CallsAgree m limits base call call') (name : String) (b : BlockId)
    (source : Option BlockId) : Agrees m limits base (· ≤ ·) 0 0
      (block m limits call name b source frame) (block m limits call' name b source frame) := by
  refine .steady_bind (fun data => .steady_bind (fun entered => ?_) (le_refl 0)) (le_refl 0)
  refine Agrees.bind (i := 0) (instructions_agrees hcall entered.2) (fun frame => ?_) (le_refl 0)
  exact Agrees.bind (i := -1) (j := 1) step_agrees
    (fun _ => terminator_agrees hcall name data) Int.one_nonneg

/-- A step that does not fail. -/
theorem steps_of_step {s s' : MachineState} (h : step limits s = .ok () s') :
    s'.steps = s.steps + 1 := by
  unfold step at h
  dsimp only at h
  split at h
  · cases h
  · cases h
    rfl

/-- After a block at least one step more has been taken. -/
theorem steps_lt_of_block (hcall : CallsAgree m limits s call call') {name : String} {b : BlockId}
    {source : Option BlockId} {next : Next} {s' : MachineState}
    (h : block m limits call name b source frame s = .ok next s') : s.steps < s'.steps := by
  obtain ⟨data, s₁, hdata, h⟩ := bind_eq_ok_iff.1 h
  obtain ⟨⟨entered, rest⟩, s₂, hentered, h⟩ := bind_eq_ok_iff.1 h
  obtain ⟨frame', s₃, hinstrs, h⟩ := bind_eq_ok_iff.1 h
  obtain ⟨⟨⟩, s₄, hstep, hend⟩ := bind_eq_ok_iff.1 h
  -- Up to the step the counts do not go back, and neither do they behind it.
  have hs₂ : s.Advances limits (· ≤ ·) 0 (0 + 0) s₂ := by
    have h₁ := Steady.sameCounts_of_ok (m := m) inferInstance hdata
    have h₂ := Steady.sameCounts_of_ok (m := m) inferInstance hentered
    exact (show s.SameCounts s₁ from h₁).advances.trans (show s₁.SameCounts s₂ from h₂).advances
  have hs₃ : s₂.Advances limits (· ≤ ·) 0 0 s₃ := by
    have houtcome : Outcome m limits (· ≤ ·) 0 s₂ (instructions m limits call entered rest s₂) :=
      (instructions_agrees hcall rest s₂ hs₂).2
    rwa [hinstrs] at houtcome
  have hs₄ : s₃.Advances limits (· ≤ ·) 0 (-1) s₄ := by
    have houtcome : Outcome m limits (· ≤ ·) (-1) s₃ (step limits s₃) :=
      (step_agrees s₃ (hs₂.trans hs₃)).2
    rwa [hstep] at houtcome
  have hs' : s₄.Advances limits (· ≤ ·) 0 1 s' := by
    have houtcome : Outcome m limits (· ≤ ·) 1 s₄ (terminator m call name data frame' s₄) :=
      (terminator_agrees hcall name data s₄ ((hs₂.trans hs₃).trans hs₄)).2
    rwa [hend] at houtcome
  calc s.steps ≤ s₃.steps := (hs₂.trans hs₃).steps
    _ < s₄.steps := (steps_of_step hstep).ge
    _ ≤ s'.steps := hs'.steps

/-! ### External functions -/

theorem claim_agrees (payload : UInt64) :
    Agrees m limits base (· = ·) 0 1 (claim payload) (claim payload) := by
  refine .bind_get fun s _ => ⟨rfl, ?_⟩
  cases s.thrown.get? payload with
  | none => exact (Outcome.of_steady s (x := malformed _)).mono (fun h => h) Int.one_nonneg
  | some e =>
      refine ⟨rfl, rfl, Nat.le_refl _, rfl, Nat.le_refl _, by simp, ?_⟩
      show ((e :: s.caught).length : Int) - s.steps ≤ _
      rw [List.length_cons]
      omega

/-- Leaving the innermost handler. The exception is given up before the function that disposes of
it is called. -/
theorem leaveHandler_agrees (hcall : CallsAgree m limits base call call') :
    Agrees m limits base (· = ·) 0 0 (leaveHandler call) (leaveHandler call') := by
  refine .bind_get fun s hs => ?_
  cases hcaught : s.caught with
  | nil => exact ⟨rfl, .of_steady s (x := malformed _)⟩
  | cons e outer =>
      have hgiven : s.Advances limits (· = ·) 0 (-1) { s with caught := outer } := by
        refine ⟨rfl, rfl, Nat.le_refl _, rfl, Nat.le_refl _, by simp, ?_⟩
        show (outer.length : Int) - s.steps ≤ _
        rw [hcaught, List.length_cons]
        omega
      refine Agrees.modify_bind (k := 0) (i := -1) (j := 1) (g := fun s => { s with caught := outer })
        ?_ hs hgiven
      dsimp only
      cases FunctionId.ofAddress? e.destructor with
      | none => exact .mono (i := 0) (Agrees.of_steady) (fun h => h) Int.one_nonneg
      | some f => exact (hcall f _).bind_steady fun _ => inferInstance

theorem external_agrees (hcall : CallsAgree m limits base call call') (name : String)
    (args : List Val) : Agrees m limits base (· = ·) 0 1 (external call name args)
      (external call' name args) := by
  have hsteady {x : Exec Val} (hx : Steady m x) : Agrees m limits base (· = ·) 0 1 x x :=
    Agrees.of_steady.mono (fun h => h) Int.one_nonneg
  unfold external
  cases External.ofSymbol? name with
  | none => exact hsteady inferInstance
  | some f =>
      cases f with
      | beginCatch => exact .steady_bind (fun payload => claim_agrees payload) Int.one_nonneg
      | endCatch => exact (leaveHandler_agrees hcall).mono (fun h => h) Int.one_nonneg
      | _ =>
          apply hsteady
          unfold provided
          infer_instance

end Exec

end SsaCompiler
