/-
# Running integer expressions

What an integer expression is lowered to, run by the machine from any point at which the
variables have values: the run goes on behind the code of the expression with the value that
the reference gives it, or it ends with a division by zero because the expression has no value.
Only the number of steps can end it before.
-/

import SsaCompiler.Proofs.Scalar.Chain

namespace SsaCompiler

namespace Exec

/-- What becomes of a run from a point on in which an expression is evaluated. The place is the
one behind the code of the expression, and `v` is what the code leaves there. -/
inductive Evaluates (m : Module) (limits : Limits) (call : Caller) (name : String) (n : Nat)
    (p : Point) (b : BlockId) (k : Nat) (v : ValueId) : Option Scalar → Prop where
  /-- The run goes on with the value; nothing has been stored or printed. -/
  | value {x : Scalar} {q : Point} {n' : Nat} {w : Int64}
      (hrest : rest m limits call name n p = rest m limits call name n' q)
      (hblock : q.block = b) (hnext : q.next = k)
      (hstate : q.state = { p.state with steps := q.state.steps })
      (htype : m.IsScalar v x.ty) (hvalue : q.frame.operand m q.state.globals v = .ok (.int w))
      (hword : w.toInt = x.value) : Evaluates m limits call name n p b k v (some x)
  /-- The run ends with a division by zero. -/
  | division {s : MachineState}
      (hrest : rest m limits call name n p = .error (.failed .divisionByZero) s)
      (houtput : s.output = p.state.output) : Evaluates m limits call name n p b k v none
  /-- The run has used up its steps. -/
  | limit {o : Option Scalar} {s : MachineState}
      (hrest : rest m limits call name n p =
        .error (.failed (.stepLimit limits.maxSteps)) s) :
      Evaluates m limits call name n p b k v o

/-- A run along code that divides by zero ends there, unless it has used up its steps before. -/
theorem rest_of_yields_none {α : Type} {m : Module} {limits : Limits} {call : Caller}
    {name : String} {low n : Nat} {p : Point} {b : BlockId} {k : Nat} {R : α → Point → Prop}
    (h : p.Yields m call name low b k none R) (hfuel : limits.maxSteps < n + p.state.steps) :
    (∃ s, rest m limits call name n p = .error (.failed .divisionByZero) s ∧
      s.output = p.state.output) ∨
    ∃ s, rest m limits call name n p = .error (.failed (.stepLimit limits.maxSteps)) s := by
  obtain ⟨q, hpath, houtput, hstops⟩ := h
  rcases rest_of_reaches hpath (Nat.le_of_lt hfuel) with ⟨n', -, hrest⟩ | hlimit
  · rcases Nat.lt_or_ge q.state.steps limits.maxSteps with hlimit | hlimit
    · obtain ⟨s, hstop, houtput'⟩ := rest_of_stops hstops hlimit
      exact .inl ⟨s, hrest.trans hstop, houtput'.trans houtput⟩
    · cases hstops with
      | instr hblock => exact .inr ⟨_, hrest.trans (rest_of_limit hblock hlimit)⟩
  · exact .inr hlimit

/-- A run along code that computes a value. -/
theorem evaluates_of_yields {m : Module} {limits : Limits} {call : Caller} {name : String}
    {low n : Nat} {p : Point} {b : BlockId} {k : Nat} {v : ValueId} {t : ScalarType}
    {o : Option Scalar} (hv : m.IsScalar v t)
    (h : p.Yields m call name low b k o fun x q => x.ty = t ∧ q.Carries m v x)
    (hfuel : limits.maxSteps < n + p.state.steps) :
    Evaluates m limits call name n p b k v o := by
  cases o with
  | some x =>
      obtain ⟨q, hpath, hkeeps, hb, hk, rfl, w, hw, hdenotes⟩ := h
      rcases rest_of_reaches hpath (Nat.le_of_lt hfuel) with ⟨n', -, hrest⟩ | ⟨s, hrest⟩
      · obtain ⟨steps, hsteps⟩ := hkeeps.state
        exact .value hrest hb hk (by rw [hsteps]) hv hw hdenotes.1
      · exact .limit hrest
  | none =>
      rcases rest_of_yields_none h hfuel with ⟨s, hrest, houtput⟩ | ⟨s, hrest⟩
      · exact .division hrest houtput
      · exact .limit hrest

end Exec

/-! ### Values -/

/-- A child that is asked for its value is lowered to code that computes the value. -/
theorem Recur.Handles.value {r : Recur} (h : r.Handles) {e : Expr} {scope : Name → Prop}
    {node : Node} {s s' : Lowering} {res : Option ValueId} {b : BlockId} {k : Nat}
    (hspelled : e.Spelled scope node) (hready : s.Ready scope) (hat : s.module.StandsAt b k)
    (hrun : r.value (some node) s = .ok (res, s')) (hclean : s'.context.errorCount = 0) :
    ∃ v b' k' t, res = some v ∧
      s.Operates b k s' b' k' (.ofValue v) t (s.ExprMeaning scope e) := by
  unfold Recur.value at hrun
  obtain ⟨op, s₁, b₁, k₁, t, hcode, hready₁, hrest⟩ :=
    Recur.required_bind (h.computes e) hspelled hready hat hrun hclean
  obtain ⟨f, hfunc, -⟩ := hready₁.func
  obtain ⟨v, hload, rfl⟩ := Attempt.lift_eq_ok hrest
  obtain ⟨m₂, k₂, rfl, hcode₂⟩ := Lower.code_operandLoad hfunc hcode.piece.stop hcode.operand hload
  refine ⟨v, b₁, k₂, t, rfl, (hcode.bind (.ofCode hcode₂)).imp ?_⟩
  rintro M p o hM ⟨ρ, hagrees, rfl⟩
  refine ⟨e.eval ρ, some, ⟨ρ, hagrees, rfl⟩, ?_, ?_⟩
  · cases e.eval ρ <;> rfl
  · intro x q hx hkeeps ht hshows
    exact ⟨x, ht, hshows, rfl⟩

/-- Running what an expression is lowered to gives its value, or ends with a division by zero
when it has none. This holds in every module that the code ends up in, at every point at which
the variables have values, and for every limit. -/
theorem Recur.evaluates_value {depth : Nat} {e : Expr} {scope : Name → Prop} {node : Node}
    {s s' : Lowering} {res : Option ValueId} {b : BlockId} {k : Nat}
    (hspelled : e.Spelled scope node) (hready : s.Ready scope) (hat : s.module.StandsAt b k)
    (hlower : (within depth).value (some node) s = .ok (res, s'))
    (hclean : s'.context.errorCount = 0) :
    ∃ v b' k', res = some v ∧ s.module.Grows s'.module ∧ s'.module.StandsAt b' k' ∧
      ∀ {M limits call name n p ρ}, s'.module.Grows M → p.block = b → p.next = k →
        p.Agrees M s scope ρ → limits.maxSteps < n + p.state.steps →
        Exec.Evaluates M limits call name n p b' k' v (e.eval ρ) := by
  obtain ⟨v, b', k', t, rfl, hcode⟩ := (handles_within depth).value hspelled hready hat hlower hclean
  refine ⟨v, b', k', rfl, hcode.piece.writes.grows, hcode.piece.stop, ?_⟩
  intro M limits call name n p ρ hgrows hb hk hagrees hfuel
  have hyields : p.Yields M call name s.module.values.size b' k' (e.eval ρ) _ :=
    hcode.runs hgrows hb hk ⟨ρ, hagrees, rfl⟩
  exact Exec.evaluates_of_yields (hcode.operand.mono hgrows) hyields hfuel

theorem Memory.read_int {memory : Memory} {types : TypeTable} {a : UInt64} {ty : TypeId}
    {bits raw : Nat} (hty : types.get ty = .ok (.int bits))
    (hraw : memory.readWord a (bytesForBits bits) = .ok raw) :
    memory.read types a ty = .ok (.int (normalizeInt (UInt64.ofNat raw).toInt64 bits)) := by
  unfold Memory.read Memory.readWithin
  rw [hty]
  change (memory.readWord a (bytesForBits bits) >>= _) = _
  rw [hraw]
  rfl

/-! ### A quotient -/

namespace QuotientExample

/-- The walk inside a function with room for a character `c`. -/
def walk : Lowering where
  context := { (Context.new .standard .initial).1 with
    symbols := { SymbolTable.empty with bindings := ⟨[(⟨3⟩, ⟨⟨0⟩, ⟨0⟩, false⟩)]⟩ } }
  names := ⟨#["", "Array", "T", "c", "5% of"]⟩
  module := {
    Module.ofTables "quotient" [.int 8, .pointer ⟨0⟩, .int 32, .function [] ⟨2⟩ false]
      [⟨"main", ⟨3⟩, [], [⟨0⟩], none, none⟩] with
    values := #[⟨⟨1⟩, .instr (.alloca ⟨0⟩)⟩]
    blocks := #[⟨"entry", ⟨0⟩, #[⟨0⟩], none⟩]
    position := some ⟨0⟩ }
  pass := { Pass.new ⟨0⟩ with func := some ⟨⟨0⟩, "main", ⟨2⟩, false, none, ⟨0⟩⟩ }

/-- The expression `100 / (c - 7)`. -/
def expr : Expr := .binary .div (.int 100) (.binary .sub (.var ⟨3⟩) (.int 7))

/-- The expression as a tree. -/
def tree : Node :=
  let node (id : Nat) (kind : NodeKind Node) : Node := ⟨id, .unknown, kind⟩
  let difference := node 0 (.binary .sub (node 1 (.ident ⟨3⟩)) (node 2 (.intLit 7)))
  node 3 (.binary .div (node 4 (.intLit 100)) difference)

/-- The point behind the room for the variable, which holds a character. The constants of the module
are in memory, too, each where its address says. -/
def start (constants : List UInt8) (addresses : Array UInt64) (c : UInt8) : Point where
  block := ⟨0⟩
  next := 1
  frame := Frame.bind ⟨∅, none⟩ ⟨0⟩ (.ptr 1099511627776)
  state := { (default : MachineState) with
    memory := ⟨constants.toArray, #[c], 64, 0⟩
    globals := addresses }

theorem isPlace : walk.module.IsPlace ⟨0⟩ ⟨0⟩ .char := ⟨_, rfl, rfl, rfl⟩

theorem ready : walk.Ready (· = ⟨3⟩) where
  func := ⟨_, rfl, fun _ _ _ => rfl⟩
  operators := rfl
  fatal := rfl
  places := by
    rintro x v rfl ⟨binding, hbinding, rfl⟩
    cases hbinding
    exact ⟨.char, _, isPlace⟩

theorem writesAt : walk.module.StandsAt ⟨0⟩ 1 where
  position := rfl
  block := ⟨_, rfl, rfl, rfl⟩

theorem agrees {M : Module} (hM : walk.module.Grows M) {constants : List UInt8}
    {addresses : Array UInt64} {c : UInt8} (hc : c = 12 ∨ c = 7) :
    (start constants addresses c).Agrees M walk (· = ⟨3⟩) fun _ => ⟨.char, c.toNat⟩ := by
  rintro x v rfl ⟨binding, hbinding, rfl⟩
  cases hbinding
  have hty : M.types.get ⟨0⟩ = .ok (.int 8) := hM.types (t := .int 8) rfl (by simp)
  refine ⟨_, isPlace.mono hM, 1099511627776, Int64.ofNat c.toNat,
    Point.holds_bind (hM.values rfl), ?_, ?_⟩
  · have hword : (start constants addresses c).state.memory.readWord 1099511627776 1 = .ok c.toNat :=
      rfl
    rw [Memory.read_int hty hword]
    rcases hc with rfl | rfl
    · rfl
    · rfl
  · rcases hc with rfl | rfl
    · exact ⟨by decide, by decide⟩
    · exact ⟨by decide, by decide⟩

/-- With twelve in the variable the quotient is twenty, with seven there is none. -/
theorem evaluates_value_quotient : ∃ v s' b' k',
    (Recur.within 4).value (some tree) walk = .ok (some v, s') ∧
      s'.context.errorCount = 0 ∧ ∀ call name,
        Exec.Evaluates s'.module .standard call name 10000001 (start [] #[] 12) b' k' v
          (some ⟨.int, 20⟩) ∧
        Exec.Evaluates s'.module .standard call name 10000001 (start [] #[] 7) b' k' v none := by
  have hcount : (((Recur.within 4).value (some tree) walk).toOption.map fun result =>
      result.2.context.errorCount) = some 0 := by decide +kernel
  obtain ⟨⟨res, s'⟩, hrun, hclean⟩ := Option.map_eq_some_iff.1 hcount
  have hlower : (Recur.within 4).value (some tree) walk = .ok (res, s') := by
    cases h : (Recur.within 4).value (some tree) walk with
    | ok result =>
        rw [h] at hrun
        cases hrun
        rfl
    | error crash =>
        rw [h] at hrun
        cases hrun
  have hspelled : expr.Spelled (· = ⟨3⟩) tree :=
    ⟨rfl, _, _, rfl, rfl, rfl, _, _, rfl, ⟨rfl, rfl⟩, rfl⟩
  obtain ⟨v, b', k', rfl, hgrows, -, hruns⟩ :=
    Recur.evaluates_value hspelled ready writesAt hlower hclean
  have htwenty : expr.eval (fun _ => ⟨.char, (12 : UInt8).toNat⟩) = some ⟨.int, 20⟩ := by
    decide +kernel
  have hnone : expr.eval (fun _ => ⟨.char, (7 : UInt8).toNat⟩) = none := by decide +kernel
  refine ⟨v, s', b', k', hlower, hclean, fun call name => ⟨?_, ?_⟩⟩
  · rw [← htwenty]
    exact hruns (.refl _) rfl rfl (agrees hgrows (.inl rfl)) (by decide)
  · rw [← hnone]
    exact hruns (.refl _) rfl rfl (agrees hgrows (.inr rfl)) (by decide)

end QuotientExample

end SsaCompiler
