/-
# Runs of the machine along runs of statements

Every variable of a function has room on the stack, which is made before the body begins. While a
body is lowered, the list of rooms gets longer, and so do the instructions of the first block. While
it runs, the rooms do not move, they are apart from each other and from everything that was there
before the call, and each of them holds the value of its variable.

A run of statements is followed by one of the machine. Where the statements go on behind a part, the
machine comes to the place behind the code of the part, and where they leave it by a jump, it comes
to the block to which the jump leads; the variables and the output are the same in both. A run that
is given up has taken at least as many steps as it was given rounds, and the machine may stop at any
time because it has met one of its limits.

Code performs statements if every run of theirs is followed from the place where the code begins.
Pieces of code are put together as statements are: by going on behind a piece, by jumps, and by
tests that lead to one of two blocks.
-/

import SsaCompiler.Proofs.Machine.Allocation
import SsaCompiler.Proofs.Machine.Jump
import SsaCompiler.Proofs.Scalar.Output
import SsaCompiler.Proofs.Structured.Reference

namespace SsaCompiler

/-! ### Variables on the stack -/

/-- A variable with the value that is its room. -/
structure LocalVar where
  name : Name
  ty : ScalarType
  place : ValueId
  deriving DecidableEq, Repr

namespace LocalVar

/-- How many bytes a variable takes. -/
def size (v : LocalVar) : Nat := bytesForBits v.ty.bits

/-- What is declared. -/
def declaration (v : LocalVar) : Name × ScalarType := (v.name, v.ty)

end LocalVar

/-- Bytes that were there can still be read. -/
theorem Memory.Retains.readBytes {m m' : Memory} (h : m.Retains m') {a : UInt64} {n : Nat}
    {bytes : List UInt8} (hread : m.readBytes a n = .ok bytes) : m'.readBytes a n = .ok bytes := by
  obtain ⟨isStack, start, hplace, hfits, rfl⟩ := Memory.readBytes_eq_ok_iff.1 hread
  refine Memory.readBytes_eq_ok_iff.2
    ⟨isStack, start, hplace, Nat.le_trans hfits (h.size_le isStack), ?_⟩
  exact (bytesFrom_congr fun i _ hi => h.bytes isStack i (by omega)).symm

/-- The result of an instruction is known from the frame. -/
theorem Frame.operand_of_instr {m : Module} {frame : Frame} {globals : Array UInt64} {v : ValueId}
    {ty : TypeId} {i : Instr} (hv : m.value v = .ok ⟨ty, .instr i⟩) :
    frame.operand m globals v =
      (frame.values[v]?).elim (.malformed (.usedBeforeDefinition v)) pure := by
  unfold Frame.operand
  rw [hv]
  cases frame.values[v]? <;> rfl

/-! ### Rooms at run time -/

/-- At a point a variable has a value: it is kept at an address that was not in use before the
call. -/
structure Point.Stocks (M : Module) (μ : Memory) (p : Point) (v : LocalVar) (a : UInt64) (x : Scalar) :
    Prop where
  ty : x.ty = v.ty
  isRoom : M.IsRoom v.place
  address : p.Holds M v.place (.ptr a)
  fresh : μ.IsFresh a.toNat (a.toNat + v.size)
  contains : ∃ ty w, M.IsPlace v.place ty v.ty ∧
    p.state.memory.Contains M.types a ty v.size (.int w) ∧ Denotes v.ty.bits w x.value

/-- At a point of a call that began in a state the variables and the output are those of a store. What
was in memory before is still there. -/
structure Point.Matches (M : Module) (start : MachineState) (vars : List LocalVar) (st : Store)
    (p : Point) : Prop where
  retains : start.memory.Retains p.state.memory
  bounded : p.state.memory.IsBounded
  globals : p.state.globals = start.globals
  output : p.state.output = st.output
  places : ∃ a : Name → UInt64,
    (∀ v ∈ vars, p.Stocks M start.memory v (a v.name) (st.values v.name)) ∧
    ∀ v ∈ vars, ∀ u ∈ vars, v.name ≠ u.name →
      (a v.name).toNat + v.size ≤ (a u.name).toNat ∨ (a u.name).toNat + u.size ≤ (a v.name).toNat

section

variable {M : Module} {start : MachineState} {vars : List LocalVar} {st : Store} {p q : Point}
  {v : LocalVar} {x : Scalar} {a : UInt64} {μ : Memory}

namespace Point

/-- Rooms stay where they are while code runs that makes no room. -/
def SameRooms (M : Module) (p q : Point) : Prop :=
  ∀ id, M.IsRoom id → q.frame.values[id]? = p.frame.values[id]?

theorem SameRooms.holds (h : p.SameRooms M q) {id : ValueId} {y : Val} (hid : M.IsRoom id)
    (hp : p.Holds M id y) : q.Holds M id y := by
  have hsame := h id hid
  obtain ⟨ty, t, hvalue⟩ := hid
  unfold Holds at hp ⊢
  rwa [Frame.operand_of_instr hvalue, hsame, ← Frame.operand_of_instr hvalue]

/-- What is bound to a value that is no room leaves the rooms where they are. -/
theorem sameRooms_bind {id : ValueId} (hid : ¬ M.IsRoom id) (b : BlockId) (k : Nat) (y : Val)
    (s : MachineState) : p.SameRooms M ⟨b, k, p.frame.bind id y, s⟩ := by
  intro other hother
  have hne : id ≠ other := by
    rintro rfl
    exact hid hother
  change (p.frame.values.insert id y)[other]? = p.frame.values[other]?
  rw [Std.HashMap.getElem?_insert]
  simp [hne]

/-- A variable keeps its value when the memory where it is kept stays the same. -/
theorem Stocks.of_contains (h : p.Stocks M μ v a x) (hrooms : p.SameRooms M q)
    (hmemory : ∀ ty y, p.state.memory.Contains M.types a ty v.size y →
      q.state.memory.Contains M.types a ty v.size y) : q.Stocks M μ v a x := by
  obtain ⟨ty, w, hplace, hcontains, hw⟩ := h.contains
  exact ⟨h.ty, h.isRoom, hrooms.holds h.isRoom h.address, h.fresh, ty, w, hplace,
    hmemory ty _ hcontains, hw⟩

namespace Matches

theorem of_sameMemory (h : p.Matches M start vars st) (hrooms : p.SameRooms M q)
    (hmemory : q.state.memory = p.state.memory) (hglobals : q.state.globals = p.state.globals)
    {output : String} (houtput : q.state.output = output) :
    q.Matches M start vars { st with output := output } := by
  obtain ⟨a, hplaces, hapart⟩ := h.places
  refine ⟨hmemory ▸ h.retains, hmemory ▸ h.bounded, hglobals.trans h.globals, houtput, a,
    fun v hv => ?_, hapart⟩
  exact (hplaces v hv).of_contains hrooms fun ty y hy => hmemory ▸ hy

theorem tick (h : p.Matches M start vars st) (c : BlockId) (k : Nat) :
    Matches M start vars st ⟨c, k, p.frame, p.state.tick⟩ :=
  h.of_sameMemory (q := ⟨c, k, p.frame, p.state.tick⟩) (fun _ _ => rfl) rfl rfl h.output

theorem keeps (h : p.Matches M start vars st) {low : Nat} (hkeeps : p.Keeps M low q) :
    q.Matches M start vars st :=
  h.of_sameMemory (fun id hid => hkeeps.values id (.inr hid)) hkeeps.memory hkeeps.globals
    (hkeeps.output.trans h.output)

/-- The variables of a scope have the values of the store. -/
theorem agrees (h : p.Matches M start vars st) {s : Lowering} {scope : Name → Prop}
    (hbinds : ∀ x id, scope x → s.Binds x id → ∃ v ∈ vars, v.name = x ∧ v.place = id) :
    p.Agrees M s scope st.values := by
  obtain ⟨a, hplaces, -⟩ := h.places
  intro x id hx hid
  obtain ⟨v, hv, rfl, rfl⟩ := hbinds x id hx hid
  have hstocks := hplaces v hv
  obtain ⟨ty, w, hplace, hcontains, hw⟩ := hstocks.contains
  refine ⟨ty, hstocks.ty ▸ hplace, a v.name, w, hstocks.address, hcontains.read, ?_⟩
  rw [hstocks.ty]
  exact hw

/-- The value of a variable is of its type. -/
theorem ty (h : p.Matches M start vars st) (hv : v ∈ vars) : (st.values v.name).ty = v.ty :=
  let ⟨_, hplaces, _⟩ := h.places
  (hplaces v hv).ty

/-- The texts of the module are still in memory. -/
theorem holdsTexts (h : p.Matches M start vars st) {m : Module} (htexts : start.HoldsTexts m) :
    p.state.HoldsTexts m := by
  intro i bytes hstarts
  obtain ⟨a, ha, hread⟩ := htexts hstarts
  exact ⟨a, h.globals ▸ ha, h.retains.readBytes hread⟩

theorem exists_write (h : p.Matches M start vars st) (hnames : (vars.map LocalVar.name).Nodup)
    (hstart : start.memory.IsBounded) (hv : v ∈ vars) {w : Int64} (hx : x.ty = v.ty)
    (hw : Denotes v.ty.bits w x.value) :
    ∃ a ty μ, p.Holds M v.place (.ptr a) ∧ M.IsPlace v.place ty v.ty ∧
      Memory.write M.types a ty (.int w) p.state.memory = .ok () μ ∧
      ∀ q : Point, p.SameRooms M q → (∃ n, q.state = { p.state with memory := μ, steps := n }) →
        q.Matches M start vars { st with values := Function.update st.values v.name x } := by
  obtain ⟨a, hplaces, hapart⟩ := h.places
  have hstocks := hplaces v hv
  obtain ⟨ty, w₀, hplace, hcontains, -⟩ := hstocks.contains
  obtain ⟨-, -, -, hty⟩ := id hplace
  have hconforms : M.types.Conforms ty (.int w) := by
    refine .int hty (normalizeInt_eq_self_iff.2 ?_)
    rw [hw.1, hw.2]
  obtain ⟨μ, hwrite, hnew, hchange⟩ :=
    Memory.exists_contains hconforms hcontains.sizeOf hcontains.room
  refine ⟨a v.name, ty, μ, hstocks.address, hplace, hwrite, fun q hrooms hstate => ?_⟩
  obtain ⟨n, hq⟩ := hstate
  have hmemory : q.state.memory = μ := by rw [hq]
  have hglobals : q.state.globals = p.state.globals := by rw [hq]
  refine ⟨?_, ?_, hglobals.trans h.globals, ?_, a, fun u hu => ?_, hapart⟩
  · rw [hmemory]
    exact h.retains.of_changesOnly hstart hstocks.fresh hchange
  · rw [hmemory]
    exact h.bounded.of_changesOnly hchange
  · rw [hq]
    exact h.output
  · by_cases hname : u.name = v.name
    · obtain rfl : u = v := List.inj_on_of_nodup_map hnames hu hv hname
      change q.Stocks M start.memory u (a u.name) (Function.update st.values u.name x u.name)
      rw [Function.update_self]
      refine ⟨hx, hstocks.isRoom, hrooms.holds hstocks.isRoom hstocks.address,
        hstocks.fresh, ty, w, hplace, ?_, hw⟩
      rw [hmemory]
      exact hnew
    · change q.Stocks M start.memory u (a u.name) (Function.update st.values v.name x u.name)
      rw [Function.update_of_ne hname]
      refine (hplaces u hu).of_contains hrooms fun ty' y hy => ?_
      rw [hmemory]
      exact hy.of_changesOnly hchange (hapart u hu v hv hname)

end Matches

end Point

end


open MeetsLimit

/-! ### Steps -/

namespace Point

variable {m : Module} {call : Caller} {name : String} {p q : Point}

theorem Step.steps_lt (h : Step m call name p q) : p.state.steps < q.state.steps := by
  cases h with
  | instr _ _ _ _ hsteps => exact hsteps
  | jump _ _ _ _ _ _ hsteps => exact hsteps

/-- On a path the count does not go down. -/
theorem Reaches.steps_le (h : Reaches m call name p q) : p.state.steps ≤ q.state.steps := by
  induction h with
  | refl => exact Nat.le_refl _
  | tail _ hstep ih => exact Nat.le_trans ih (Nat.le_of_lt hstep.steps_lt)

/-- A path to another block takes a step. -/
theorem Reaches.steps_lt (h : Reaches m call name p q) (hne : p.block ≠ q.block) :
    p.state.steps < q.state.steps := by
  cases h with
  | refl => exact absurd rfl hne
  | tail hpath hstep => exact Nat.lt_of_le_of_lt (steps_le hpath) hstep.steps_lt

/-- A call is at a place. -/
structure At (p : Point) (b : BlockId) (k : Nat) : Prop where
  block : p.block = b
  next : p.next = k

end Point

/-- Control enters a block at its first instruction, from wherever it comes. -/
def Module.Opens (M : Module) (c : BlockId) : Prop :=
  ∃ d, M.block c = .ok d ∧ ∀ source frame s,
    Exec.enterBlock M d source frame s = .ok (frame, d.instrs.toList) s

/-- A jump to such a block. -/
theorem Point.LeadsTo.step_opens {M : Module} {call : Caller} {name : String} {p : Point}
    {c : BlockId} (h : p.LeadsTo M call name c) (hc : M.Opens c) :
    Step M call name p ⟨c, 0, p.frame, p.state.tick⟩ := by
  obtain ⟨d, hblock, hend, hrun⟩ := h
  obtain ⟨d', hblock', henter⟩ := hc
  exact .jump hblock hend hrun hblock' (henter _ _ _) rfl (Nat.lt_succ_self _)

/-! ### Calls -/

/-- A call of a function: the module, the limits of the run, how many calls may be nested in it, the
name of the function, the state at its beginning, the variables, and the type of the result. -/
structure Activation where
  module : Module
  limits : Limits
  levels : Nat
  name : String
  start : MachineState
  vars : List LocalVar
  result : ScalarType

namespace Activation

variable (A : Activation)

/-- How functions are called from there. -/
def call : Caller := Exec.callWithin A.module A.limits (A.levels + 1)

/-- Printing is left to the machine, the texts of the module are in memory, and the variables are
told apart by their names. -/
structure IsSound : Prop where
  external : A.module.IsExternal "printf"
  bounded : A.start.memory.IsBounded
  texts : A.start.HoldsTexts A.module
  names : (A.vars.map LocalVar.name).Nodup

/-- A path of the call. -/
abbrev Reaches (p q : Point) : Prop := Point.Reaches A.module A.call A.name p q

/-- A point of the call at which variables and output are those of a store. -/
abbrev Matches (st : Store) (p : Point) : Prop := p.Matches A.module A.start A.vars st

/-- Control can go where jumps out of loops and switches lead. -/
def Opens (loops : List JumpTargets) : Prop :=
  ∀ t ∈ loops, A.module.Opens t.breakTo ∧ ∀ c ∈ t.continueTo, A.module.Opens c

/-- From a place the call goes on to a block without doing anything else. -/
def Jumps (b : BlockId) (k : Nat) (c : BlockId) : Prop :=
  ∀ ⦃p : Point⦄, p.At b k → p.LeadsTo A.module A.call A.name c

/-- From a place the call goes back to its caller with an integer. -/
def Returns (b : BlockId) (k : Nat) (u : ValueId) : Prop :=
  ∀ ⦃p : Point⦄ ⦃x⦄, p.At b k → p.Carries A.module u x →
    ∃ w, p.Returns A.module A.call A.name (.int w) ∧ Denotes x.ty.bits w x.value

end Activation

/-- What becomes of a call from a point on, when statements run: it comes to a place, or to the block
to which a jump leads, it returns or fails, it has taken a number of steps, or it has met a limit. -/
inductive Point.Simulates (A : Activation) (loops : List JumpTargets) (b : BlockId) (k n : Nat)
    (p : Point) : EStateM.Result Halt Store Flow → Prop
  | next {q : Point} {st : Store} (hpath : A.Reaches p q) (hat : q.At b k) (hq : A.Matches st q) :
      Simulates A loops b k n p (.ok .next st)
  | breakOut {q : Point} {st : Store} {t : JumpTargets} (hloops : loops.head? = some t)
      (hpath : A.Reaches p q) (hat : q.At t.breakTo 0) (hq : A.Matches st q) :
      Simulates A loops b k n p (.ok .breakOut st)
  | nextRound {q : Point} {st : Store} {c : BlockId}
      (hloops : loops.findSome? (·.continueTo) = some c) (hpath : A.Reaches p q) (hat : q.At c 0)
      (hq : A.Matches st q) : Simulates A loops b k n p (.ok .nextRound st)
  | leave {q : Point} {st : Store} {x : Scalar} {w : Int64} (hpath : A.Reaches p q)
      (hreturns : Returns A.module A.call A.name q (.int w))
      (hw : Denotes A.result.bits w (x.cast A.result).value) (houtput : q.state.output = st.output) :
      Simulates A loops b k n p (.ok (.leave x) st)
  | division {q : Point} {st : Store} (hpath : A.Reaches p q)
      (hstops : Stops A.module A.call q (.failed .divisionByZero))
      (houtput : q.state.output = st.output) : Simulates A loops b k n p (.error .division st)
  | rounds {q : Point} {st : Store} (hpath : A.Reaches p q)
      (hsteps : p.state.steps + n ≤ q.state.steps) : Simulates A loops b k n p (.error .rounds st)
  | limit {q : Point} {stop : Stop} {r : EStateM.Result Halt Store Flow} (hpath : A.Reaches p q)
      (hstops : Stops A.module A.call q stop) (hlimit : IsLimit stop) : Simulates A loops b k n p r

namespace Activation

variable {α : Type} (A : Activation)

/-- Between two places code performs what statements do when no loop has more than a number of
rounds. -/
def Performs (loops : List JumpTargets) (b : BlockId) (k : Nat) (b' : BlockId) (k' : Nat)
    (x : Nat → Run Flow) : Prop :=
  ∀ ⦃n st p⦄, p.At b k → A.Matches st p → p.Simulates A loops b' k' n (x n st)

/-- Between two places code computes something, and binds only values from a position on. -/
def Computes (low : Nat) (b : BlockId) (k : Nat) (b' : BlockId) (k' : Nat)
    (f : Valuation → Option α) (R : α → Point → Prop) : Prop :=
  ∀ ⦃st p⦄, p.At b k → A.Matches st p →
    p.Yields A.module A.call A.name low b' k' (f st.values) R

/-- From a place code leads to one of two blocks, and binds only values from a position on. -/
def Tests (low : Nat) (b : BlockId) (k : Nat) (thenTo elseTo : BlockId)
    (f : Valuation → Option Bool) : Prop :=
  ∀ ⦃st p⦄, p.At b k → A.Matches st p → p.Yields A.module A.call A.name low
    (if (f st.values).getD true then thenTo else elseTo) 0 (f st.values) fun _ _ => True

end Activation

section

variable {α : Type} {A : Activation} {loops : List JumpTargets} {b b₁ b' c thenTo elseTo : BlockId}
  {k k₁ k' n n' low : Nat} {p q : Point} {r : EStateM.Result Halt Store Flow} {st : Store}
  {x y : Run Flow} {f : Valuation → Option α} {test : Valuation → Option Bool}

namespace Point

/-! ### Following a run -/

/-- What follows from the end of a path on follows from its beginning on. The steps of the path may
be counted. -/
theorem Simulates.of_steps (hpath : A.Reaches p q) (hsteps : p.state.steps + n ≤ q.state.steps + n')
    (h : q.Simulates A loops b k n' r) : p.Simulates A loops b k n r := by
  cases h with
  | next h hat hq => exact .next (hpath.trans h) hat hq
  | breakOut hloops h hat hq => exact .breakOut hloops (hpath.trans h) hat hq
  | nextRound hloops h hat hq => exact .nextRound hloops (hpath.trans h) hat hq
  | leave h hreturns hw houtput => exact .leave (hpath.trans h) hreturns hw houtput
  | division h hstops houtput => exact .division (hpath.trans h) hstops houtput
  | rounds h hn => exact .rounds (hpath.trans h) (by omega)
  | limit h hstops hlimit => exact .limit (hpath.trans h) hstops hlimit

/-- The steps of the path need not be counted. -/
theorem Simulates.of_reaches (hpath : A.Reaches p q) (h : q.Simulates A loops b k n r) :
    p.Simulates A loops b k n r :=
  h.of_steps hpath (Nat.add_le_add_right (Reaches.steps_le hpath) n)

theorem Simulates.mono (h : p.Simulates A loops b k n' r) (hn : n ≤ n') : p.Simulates A loops b k n r :=
  h.of_steps .refl (Nat.add_le_add_left hn _)

/-- A jump behind the last statement. -/
theorem Simulates.jump (h : p.Simulates A loops b k n r) (hjumps : A.Jumps b k c)
    (hopens : A.module.Opens c) : p.Simulates A loops c 0 n r := by
  cases h with
  | next h hat hq =>
      exact .next (h.tail ((hjumps hat).step_opens hopens)) ⟨rfl, rfl⟩ (hq.tick c 0)
  | breakOut hloops h hat hq => exact .breakOut hloops h hat hq
  | nextRound hloops h hat hq => exact .nextRound hloops h hat hq
  | leave h hreturns hw houtput => exact .leave h hreturns hw houtput
  | division h hstops houtput => exact .division h hstops houtput
  | rounds h hn => exact .rounds h hn
  | limit h hstops hlimit => exact .limit h hstops hlimit

theorem Simulates.andThen (hx : p.Simulates A loops b₁ k₁ n (x st))
    (hy : ∀ st₁ q, A.Reaches p q → q.At b₁ k₁ → A.Matches st₁ q →
      q.Simulates A loops b k n (y st₁)) : p.Simulates A loops b k n (x.andThen y st) := by
  change p.Simulates A loops b k n (EStateM.bind x _ st)
  unfold EStateM.bind
  generalize x st = r at hx
  cases hx with
  | next hpath hat hq => exact (hy _ _ hpath hat hq).of_reaches hpath
  | breakOut hloops hpath hat hq => exact .breakOut hloops hpath hat hq
  | nextRound hloops hpath hat hq => exact .nextRound hloops hpath hat hq
  | leave hpath hreturns hw houtput => exact .leave hpath hreturns hw houtput
  | division hpath hstops houtput => exact .division hpath hstops houtput
  | rounds hpath hsteps => exact .rounds hpath hsteps
  | limit hpath hstops hlimit => exact .limit hpath hstops hlimit

/-- Something is computed, and then statements run. What follows may count the steps before. -/
theorem Simulates.ofOption {R : α → Point → Prop} {g : α → Run Flow} {o : Option α}
    (ho : f st.values = o) (h : p.Yields A.module A.call A.name low b₁ k₁ o R)
    (hp : A.Matches st p)
    (hg : ∀ a q, o = some a → A.Reaches p q → p.Keeps A.module low q → q.At b₁ k₁ →
      A.Matches st q → R a q → p.Simulates A loops b k n (g a st)) :
    p.Simulates A loops b k n ((Run.ofOption f >>= g) st) := by
  change p.Simulates A loops b k n (EStateM.bind (Run.ofOption f) g st)
  unfold EStateM.bind Run.ofOption
  rw [ho]
  cases o with
  | none =>
      obtain ⟨q, hpath, houtput, hstops⟩ := h
      exact .division hpath hstops (houtput.trans hp.output)
  | some a =>
      obtain ⟨q, hpath, hkeeps, hblock, hnext, hR⟩ := h
      exact hg a q rfl hpath hkeeps ⟨hblock, hnext⟩ (hp.keeps hkeeps) hR

/-- A test, and then statements run in one of two blocks. -/
theorem Simulates.ofTest {g : Bool → Run Flow} (h : A.Tests low b₁ k₁ thenTo elseTo test)
    (hat : p.At b₁ k₁) (hp : A.Matches st p)
    (hg : ∀ holds q, A.Reaches p q → p.Keeps A.module low q →
      q.At (if holds then thenTo else elseTo) 0 → A.Matches st q →
      p.Simulates A loops b k n (g holds st)) :
    p.Simulates A loops b k n ((Run.ofOption test >>= g) st) := by
  refine Simulates.ofOption rfl (h hat hp) hp fun holds q htest hpath hkeeps hq hmatches _ => ?_
  rw [htest] at hq
  exact hg holds q hpath hkeeps hq hmatches

/-- A jump out of a switch leads behind it. -/
theorem Simulates.endSwitch {c : BlockId}
    (h : p.Simulates A (⟨c, none⟩ :: loops) c 0 n (x st)) :
    p.Simulates A loops c 0 n (Run.endSwitch x st) := by
  change p.Simulates A loops c 0 n (EStateM.bind x _ st)
  unfold EStateM.bind
  generalize x st = r at h
  cases h with
  | next hpath hat hq => exact .next hpath hat hq
  | breakOut hloops hpath hat hq =>
      cases hloops
      exact .next hpath hat hq
  | nextRound hloops hpath hat hq => exact .nextRound hloops hpath hat hq
  | leave hpath hreturns hw houtput => exact .leave hpath hreturns hw houtput
  | division hpath hstops houtput => exact .division hpath hstops houtput
  | rounds hpath hsteps => exact .rounds hpath hsteps
  | limit hpath hstops hlimit => exact .limit hpath hstops hlimit

end Point

namespace Activation

open Point

/-! ### Putting code together -/

/-- Something else is computed, which is the same wherever the code is run. -/
theorem Computes.congr {g : Valuation → Option α} {R : α → Point → Prop}
    (h : A.Computes low b k b' k' f R)
    (hg : ∀ st p, A.Matches st p → f st.values = g st.values) : A.Computes low b k b' k' g R := by
  intro st p hat hp
  rw [← hg st p hp]
  exact h hat hp

/-- What is made of something says what is computed. -/
theorem Computes.ofMap {β : Type} {g : α → β} {R : β → Point → Prop}
    (h : A.Computes low b k b' k' (fun ρ => (f ρ).map g) R) :
    A.Computes low b k b' k' f fun a q => R (g a) q := by
  intro st p hat hp
  have hyields := h hat hp
  dsimp only at hyields
  generalize f st.values = o at hyields ⊢
  cases o with
  | none => exact hyields
  | some a => exact hyields

theorem performs_skip : A.Performs loops b k b k fun _ => return .next :=
  fun _ _ _ hat hp => .next .refl hat hp

theorem Performs.andThen {x y : Nat → Run Flow} (hx : A.Performs loops b k b₁ k₁ x)
    (hy : A.Performs loops b₁ k₁ b' k' y) :
    A.Performs loops b k b' k' fun n => (x n).andThen (y n) :=
  fun _ _ _ hat hp => (hx hat hp).andThen fun _ _ _ hq hmatches => hy hq hmatches

theorem Performs.jump {x : Nat → Run Flow} (h : A.Performs loops b k b' k' x)
    (hjumps : A.Jumps b' k' c) (hopens : A.module.Opens c) : A.Performs loops b k c 0 x :=
  fun _ _ _ hat hp => (h hat hp).jump hjumps hopens

theorem Jumps.performs {x : Nat → Run Flow} (hjumps : A.Jumps b k c) (hopens : A.module.Opens c)
    (h : A.Performs loops c 0 b' k' x) : A.Performs loops b k b' k' x :=
  fun _ _ _ hat hp => (h ⟨rfl, rfl⟩ (hp.tick c 0)).of_reaches
    (Relation.ReflTransGen.single ((hjumps hat).step_opens hopens))

/-- Code for a choice between two statements. -/
theorem Tests.ifElse {x y : Nat → Run Flow} (h : A.Tests low b k thenTo elseTo test)
    (hx : A.Performs loops thenTo 0 b' k' x) (hy : A.Performs loops elseTo 0 b' k' y) :
    A.Performs loops b k b' k' fun n =>
      (do if ← Run.ofOption test then x n else y n : Run Flow) := by
  intro n st p hat hp
  refine Simulates.ofTest h hat hp fun holds q hpath _ hq hmatches => ?_
  cases holds with
  | true => exact (hx hq hmatches).of_reaches hpath
  | false => exact (hy hq hmatches).of_reaches hpath

/-- A jump is a test that always has the same outcome. -/
theorem Jumps.tests (h : A.Jumps b k thenTo) (hopens : A.module.Opens thenTo) :
    A.Tests low b k thenTo elseTo fun _ => some true := by
  intro st p hat hp
  exact ⟨_, Relation.ReflTransGen.single ((h hat).step_opens hopens),
    ⟨fun _ _ => rfl, _, rfl⟩, rfl, rfl, trivial⟩

/-! ### Loops -/

/-- Code for a loop, from its test on. A round goes through another block than the one in which the
test begins, so that it takes a step. -/
theorem Tests.loop {bodyBlock endBlock stepBlock : BlockId} {body step : Nat → Run Flow}
    (h : A.Tests low c 0 bodyBlock endBlock test) (hne : c ≠ bodyBlock)
    (hbody : A.Performs (⟨endBlock, some stepBlock⟩ :: loops) bodyBlock 0 stepBlock 0 body)
    (hstep : A.Performs loops stepBlock 0 c 0 step) {m : Nat} (hm : m ≤ n) (hat : p.At c 0)
    (hp : A.Matches st p) :
    p.Simulates A loops endBlock 0 m (Run.loop (.ofOption test) (body n) (step n) m st) := by
  induction m generalizing st p with
  | zero => exact .rounds .refl (Nat.le_refl _)
  | succ m ih =>
      refine Simulates.ofTest h hat hp fun holds q hpath _ hq hmatches => ?_
      cases holds with
      | false => exact .next hpath hq hmatches
      | true =>
          have hround : p.state.steps < q.state.steps :=
            Reaches.steps_lt hpath (by rw [hat.block, hq.block]; exact hne)
          refine Simulates.of_steps hpath (show _ ≤ _ + m by omega) ?_
          -- What comes behind the body, in the same round and in the next ones.
          have hrest {st₁ : Store} {q₁ : Point} (hpath₁ : A.Reaches q q₁) (hq₁ : q₁.At stepBlock 0)
              (hmatches₁ : A.Matches st₁ q₁) : q.Simulates A loops endBlock 0 m
                ((step n).andThen (Run.loop (.ofOption test) (body n) (step n) m) st₁) := by
            have hfirst := (hstep (n := n) hq₁ hmatches₁).mono (Nat.le_of_succ_le hm)
            refine (hfirst.andThen fun st₂ q₂ _ hq₂ hmatches₂ => ?_).of_reaches hpath₁
            exact ih (Nat.le_of_succ_le hm) hq₂ hmatches₂
          have hround := hbody (n := n) hq hmatches
          change q.Simulates A loops endBlock 0 m (EStateM.bind (body n) _ st)
          unfold EStateM.bind
          generalize body n st = r at hround
          cases hround with
          | next hpath₁ hq₁ hmatches₁ => exact hrest hpath₁ hq₁ hmatches₁
          | nextRound hloops hpath₁ hq₁ hmatches₁ =>
              cases hloops
              exact hrest hpath₁ hq₁ hmatches₁
          | breakOut hloops hpath₁ hq₁ hmatches₁ =>
              cases hloops
              exact .next hpath₁ hq₁ hmatches₁
          | leave hpath₁ hreturns hw houtput => exact .leave hpath₁ hreturns hw houtput
          | division hpath₁ hstops houtput => exact .division hpath₁ hstops houtput
          | rounds hpath₁ hsteps => exact .rounds hpath₁ (by omega)
          | limit hpath₁ hstops hlimit => exact .limit hpath₁ hstops hlimit

/-- Code for a loop, from the jump to its test on. -/
theorem Jumps.loop {bodyBlock endBlock stepBlock : BlockId} {body step : Nat → Run Flow}
    (hjumps : A.Jumps b k c) (hopens : A.module.Opens c)
    (h : A.Tests low c 0 bodyBlock endBlock test) (hne : c ≠ bodyBlock)
    (hbody : A.Performs (⟨endBlock, some stepBlock⟩ :: loops) bodyBlock 0 stepBlock 0 body)
    (hstep : A.Performs loops stepBlock 0 c 0 step) :
    A.Performs loops b k endBlock 0 fun n => Run.loop (.ofOption test) (body n) (step n) n :=
  hjumps.performs hopens fun n _ _ hat hp => h.loop hne hbody hstep (Nat.le_refl n) hat hp

end Activation

end

end SsaCompiler
