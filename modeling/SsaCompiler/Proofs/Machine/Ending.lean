/-
# How a call ends

A run may always meet a limit, and then nothing is said about it. Apart from that it ends in one of
the ways that are expected: with an answer, or stopped by something, each in some memory. Code that
is known line by line is followed with one rule for each kind of line and one for each end of a
block. The rules speak of what is known about values and memory, but neither of frames nor of
steps, because steps only count against the limit.
-/

import SsaCompiler.Proofs.Ir.Drafting
import SsaCompiler.Proofs.Machine.Instruction
import SsaCompiler.Proofs.Machine.Limit

namespace SsaCompiler

open MeetsLimit

/-- A function of a name that the program does not define. -/
def Module.IsExternal (M : Module) (name : String) : Prop :=
  ∀ f d, M.functionByName? name = some f → M.function f = .ok d → d.isDeclaration = true

instance (M : Module) (name : String) : Decidable (M.IsExternal name) :=
  decidable_of_iff (∀ f ∈ M.functionByName? name, ∀ d ∈ (M.function f).toOption, d.isDeclaration)
    ⟨fun h f d hf hd => h f hf d (mem_toOption_iff.2 hd),
      fun h f hf d hd => h f d hf (mem_toOption_iff.1 hd)⟩

/-- What is found under the name is a declaration. -/
theorem Module.IsExternal.exists_function {M : Module} {name : String} {f : FunctionId}
    (h : M.IsExternal name) (hf : M.functionByName? name = some f) :
    ∃ d, M.function f = .ok d ∧ d.name = name ∧ d.isDeclaration = true := by
  obtain ⟨d, hd, hname⟩ := Module.functionByName?_eq_some_iff.1 hf
  exact ⟨d, hd, hname, h f d hf hd⟩

/-! ### Outcomes -/

/-- An outcome is as expected: it meets a limit, or it stops or answers as `E` and `Q` say. -/
def Delivers {α : Type} (r : EStateM.Result Stop MachineState α) (E : Stop → Memory → Prop)
    (Q : α → MachineState → Prop) : Prop :=
  match r with
  | .ok a s => Q a s
  | .error e s => IsLimit e ∨ E e s.memory

namespace Delivers

variable {α β : Type} {x : Exec α} {f : α → Exec β} {s s' : MachineState} {a : α}
  {r : EStateM.Result Stop MachineState α} {E E' : Stop → Memory → Prop}
  {Q Q' : α → MachineState → Prop} {R : β → MachineState → Prop}

theorem of_ok (hx : r = .ok a s) (hQ : Q a s) : Delivers r E Q := by
  rw [hx]
  exact hQ

/-- An outcome that meets a limit is expected. -/
theorem of_limit {e : Stop} (hx : r = .error e s) (he : IsLimit e) : Delivers r E Q := by
  rw [hx]
  exact .inl he

theorem bind (hx : Delivers (x s) E fun a s' => Delivers (f a s') E R) :
    Delivers ((x >>= f) s) E R := by
  change Delivers (EStateM.bind x f s) E R
  unfold EStateM.bind
  cases h : x s with
  | ok a s' =>
      rw [h] at hx
      exact hx
  | error e s' =>
      rw [h] at hx
      exact hx

/-- A sequence that begins with an answer. -/
theorem bind_ok (hx : x s = .ok a s') (hf : Delivers (f a s') E R) :
    Delivers ((x >>= f) s) E R := by
  rw [Exec.bind_of_ok hx]
  exact hf

theorem imp (h : Delivers r E Q) (hE : ∀ e m, E e m → E' e m) (hQ : ∀ a s, Q a s → Q' a s) :
    Delivers r E' Q' := by
  cases r with
  | ok a s => exact hQ a s h
  | error e s => exact h.imp_right (hE e s.memory)

end Delivers

/-! ### What a frame knows -/

namespace Frame

variable {M : Module} {frame : Frame} {low : Nat} {env env' : List (ValueId × Val)} {v id : ValueId}
  {x y : Val}

/-- The frame has values for the operands of a list. -/
def Has (M : Module) (frame : Frame) (env : List (ValueId × Val)) : Prop :=
  ∀ p ∈ env, ∀ globals, frame.operand M globals p.1 = .ok p.2

/-- An operand with a value, from a list or in every frame. -/
class Settled (M : Module) (env : List (ValueId × Val)) (v : ValueId) (x : outParam Val) : Prop where
  settled : (v, x) ∈ env ∨ ∀ (frame : Frame) (globals : Array UInt64),
    frame.operand M globals v = .ok x

/-- An operand that is settled is there in a frame that has the list. -/
theorem Has.operand (h : frame.Has M env) (hv : Settled M env v x) (globals : Array UInt64) :
    frame.operand M globals v = .ok x := by
  rcases hv.settled with hv | hv
  · exact h _ hv globals
  · exact hv frame globals

theorem Has.mono (h : frame.Has M env) (hsub : env' ⊆ env) : frame.Has M env' :=
  fun p hp => h p (hsub hp)

instance (priority := high) : Settled M ((v, x) :: env) v x := ⟨.inl List.mem_cons_self⟩

instance {p : ValueId × Val} [hv : Settled M env v x] : Settled M (p :: env) v x :=
  ⟨hv.settled.imp_left (List.mem_cons_of_mem p)⟩

instance {more : List (ValueId × Val)} [hv : Settled M env v x] : Settled M (more ++ env) v x :=
  ⟨hv.settled.imp_left (List.mem_append_right more)⟩

instance (priority := low) {ty : TypeId} {i : Int64} [hv : M.Literal v ty (.int i)] :
    Settled M env v (.int i) :=
  ⟨.inr fun frame globals =>
    (operand_of_constant hv.value rfl frame globals).trans
      (Module.constantVal_int globals hv.value)⟩

instance (priority := low) {ty : TypeId} [hv : M.Literal v ty .null] : Settled M env v (.ptr 0) :=
  ⟨.inr fun frame globals =>
    (operand_of_constant hv.value rfl frame globals).trans
      (Module.constantVal_null globals hv.value)⟩

/-- The value of an instruction that has just been executed. -/
theorem operand_bind_self {ty : TypeId} {i : Instr} (hid : M.value id = .ok ⟨ty, .instr i⟩)
    (globals : Array UInt64) : (frame.bind id x).operand M globals id = .ok x := by
  have hself : (frame.bind id x).values[id]? = some x := Std.HashMap.getElem?_insert_self
  unfold Frame.operand
  rw [hself, hid]
  rfl

/-- Other operands are what they were. -/
theorem operand_bind_ne (hne : id ≠ v) (globals : Array UInt64) :
    (frame.bind id x).operand M globals v = frame.operand M globals v := by
  have hother : (frame.bind id x).values[v]? = frame.values[v]? := by
    simp only [Frame.bind]
    rw [Std.HashMap.getElem?_insert, if_neg (by simpa using hne)]
  unfold Frame.operand
  rw [hother]

/-- A new value behind those of a list. -/
theorem Has.bind {ty : TypeId} {i : Instr} (h : frame.Has M env)
    (hid : M.value id = .ok ⟨ty, .instr i⟩) (hlow : ∀ p ∈ env, p.1.index < id.index) :
    (frame.bind id x).Has M ((id, x) :: env) := by
  intro p hp globals
  rcases List.mem_cons.1 hp with rfl | hp
  · exact operand_bind_self hid globals
  · have hne : id ≠ p.1 := fun heq => Nat.lt_irrefl _ (heq ▸ hlow p hp)
    exact (operand_bind_ne hne globals).trans (h p hp globals)

end Frame

/-! ### Operations on the memory -/

namespace Exec

variable {α : Type} {op : MemoryOp α} {s : MachineState}

/-- An operation on the memory that at most meets a limit. -/
theorem delivers_onMemory {E : Stop → Memory → Prop} {Q : α → MachineState → Prop}
    (hfault : ∀ e μ', op s.memory = .error e μ' → IsLimit e)
    (hQ : ∀ a μ', op s.memory = .ok a μ' → Q a { s with memory := μ' }) :
    Delivers (onMemory op s) E Q := by
  cases h : op s.memory with
  | ok a μ' => exact .of_ok (onMemory_of_ok h) (hQ a μ' h)
  | error e μ' => exact .of_limit (onMemory_of_error h) (isLimit_ofFault (hfault e μ' h))

end Exec

/-! ### Following a call -/

namespace Exec

section Following

variable (M : Module) (limits : Limits) (call : Caller) (name : String) (E : Stop → Memory → Prop)
  (Q : Val → Memory → Prop)

/-- Inside a block: which lines are still to be executed, and how the block ends. -/
structure Stands (b : BlockId) (k : Nat) (env : List (ValueId × Val)) (todo : List Line)
    (t : Terminator) (frame : Frame) : Prop where
  block : ∃ d, M.block b = .ok d ∧ d.instrs.toList.drop k = todo.map Line.id ∧
    d.terminator = some t
  lines : ∀ l ∈ todo, M.Computes l.id l.operation
  order : ∃ low high, (∀ p ∈ env, p.1.index < low) ∧ Line.Ascends low todo high
  has : frame.Has M env

/-- From some lines of a block on, with values that are known, the call ends as expected. -/
def Runs (b : BlockId) (env : List (ValueId × Val)) (todo : List Line) (t : Terminator)
    (μ : Memory) : Prop :=
  ∀ (n k : Nat) (frame : Frame) (s : MachineState), Stands M b k env todo t frame →
    s.memory = μ → Delivers (rest M limits call name n ⟨b, k, frame, s⟩) E fun v s' => Q v s'.memory

/-- From the start of a block on, the call ends as expected. -/
def Enters (source : Option BlockId) (b : BlockId) (env : List (ValueId × Val)) (μ : Memory) :
    Prop :=
  ∀ (n : Nat) (frame : Frame) (s : MachineState), frame.Has M env → s.memory = μ →
    Delivers (walk M limits call name n b source frame s) E fun v s' => Q v s'.memory

end Following

variable {M : Module} {limits : Limits} {call : Caller} {name : String} {E : Stop → Memory → Prop}
  {Q : Val → Memory → Prop} {b : BlockId} {k : Nat} {env env' : List (ValueId × Val)}
  {todo code : List Line} {t : Terminator} {μ μ' : Memory} {frame : Frame} {id v ptr : ValueId}
  {o : Operation} {x y : Val} {s : MachineState}

/-- What an operation makes of the memory and of the operands that are known: it answers as `P`
says. -/
def Does (M : Module) (call : Caller) (E : Stop → Memory → Prop) (env : List (ValueId × Val))
    (μ : Memory) (id : ValueId) (o : Operation) (P : Val → Memory → Prop) : Prop :=
  M.Computes id o → ∃ ty i, M.value id = .ok ⟨ty, .instr i⟩ ∧
    ∀ (frame : Frame) (s : MachineState), frame.Has M env → s.memory = μ →
      Delivers (instruction M call frame id i s) E fun frame' s' =>
        ∃ x, frame' = frame.bind id x ∧ P x s'.memory

/-! #### Inside a block -/

/-- The call goes on behind a line. -/
theorem Runs.line {P : Val → Memory → Prop} (hdoes : Does M call E env μ id o P)
    (hrest : ∀ x μ', P x μ' → Runs M limits call name E Q b ((id, x) :: env) todo t μ') :
    Runs M limits call name E Q b env (⟨id, o⟩ :: todo) t μ := by
  intro n k frame s hstands hμ
  obtain ⟨d, hd, hdrop, hterm⟩ := hstands.block
  obtain ⟨low, high, hlow, hfirst, hascends⟩ := hstands.order
  obtain ⟨ty, i, hvalue, hinstr⟩ := hdoes (hstands.lines _ List.mem_cons_self)
  have hdrop' : d.instrs.toList.drop (k + 1) = todo.map Line.id := by
    rw [← List.drop_drop, hdrop]
    rfl
  rcases Nat.lt_or_ge s.steps limits.maxSteps with hlimit | hlimit
  swap
  · exact .of_limit (rest_of_limit hd hlimit) trivial
  rw [rest_eq hd, hdrop, List.map_cons, instructions_cons hvalue]
  simp only [bind_assoc]
  refine .bind_ok (step_of_lt hlimit) (.bind ?_)
  refine (hinstr frame s.tick hstands.has hμ).imp (fun _ _ h => h) ?_
  rintro frame' s' ⟨x, rfl, hP⟩
  have hstands' : Stands M b (k + 1) ((id, x) :: env) todo t (frame.bind id x) := by
    have hlow' : ∀ p ∈ env, p.1.index < id.index := fun p hp =>
      Nat.lt_of_lt_of_le (hlow p hp) hfirst
    refine ⟨⟨d, hd, hdrop', hterm⟩, fun l hl => hstands.lines l (List.mem_cons_of_mem _ hl),
      ⟨_, high, fun p hp => ?_, hascends⟩, hstands.has.bind hvalue hlow'⟩
    rcases List.mem_cons.1 hp with rfl | hp
    · exact Nat.lt_succ_self _
    · exact Nat.lt_succ_of_lt (hlow' p hp)
  have hnext := hrest x s'.memory hP n (k + 1) (frame.bind id x) s' hstands' rfl
  rw [rest_eq hd, hdrop'] at hnext
  exact hnext

/-- The call goes on behind a line whose value and effect are known. -/
theorem Runs.next (hdoes : Does M call E env μ id o fun y m => y = x ∧ m = μ')
    (hrest : Runs M limits call name E Q b ((id, x) :: env) todo t μ') :
    Runs M limits call name E Q b env (⟨id, o⟩ :: todo) t μ :=
  .line hdoes fun _ _ ⟨hy, hm⟩ => hy ▸ hm ▸ hrest

section Lines

variable {a a' : UInt64} {i j r : Int64} {ty struct elem : TypeId} {lhs rhs index : ValueId}

theorem Runs.load [hptr : Frame.Settled M env ptr (.ptr a)] (hread : μ.read M.types a ty = .ok x)
    (hrest : Runs M limits call name E Q b ((id, x) :: env) todo t μ) :
    Runs M limits call name E Q b env (⟨id, .load ptr ty⟩ :: todo) t μ := by
  refine .next ?_ hrest
  intro hcomputes
  cases hcomputes with
  | load hvalue =>
      refine ⟨ty, _, hvalue, fun frame s hhas hμ => ?_⟩
      have hptr' := ptrOperand_of_ok (hhas.operand hptr s.globals) rfl
      exact .of_ok (instruction_load call (Module.typeOf_of_value hvalue) hptr' (hμ ▸ hread))
        ⟨x, rfl, rfl, hμ⟩

theorem Runs.store [hptr : Frame.Settled M env ptr (.ptr a)] [hv : Frame.Settled M env v x]
    (hwrite : Memory.write M.types a ty x μ = .ok () μ')
    (hrest : Runs M limits call name E Q b ((id, .void) :: env) todo t μ') :
    Runs M limits call name E Q b env (⟨id, .store v ptr ty⟩ :: todo) t μ := by
  refine .next ?_ hrest
  intro hcomputes
  cases hcomputes with
  | store hvalue htype =>
      refine ⟨_, _, hvalue, fun frame s hhas hμ => ?_⟩
      have hptr' := ptrOperand_of_ok (hhas.operand hptr s.globals) rfl
      have hv' := operand_of_ok (hhas.operand hv s.globals)
      have hstored := onMemory_of_ok (hμ ▸ hwrite : Memory.write M.types a ty x s.memory = _)
      refine .bind_ok hptr' (.bind_ok hv' ?_)
      rw [htype]
      exact .bind_ok (liftM_checked_ok ty s) (.bind_ok hstored ⟨.void, rfl, rfl, rfl⟩)

theorem Runs.field {n offset : Nat} [hptr : Frame.Settled M env ptr (.ptr a)]
    (hoffset : M.types.fieldOffset struct n = .ok (some offset))
    (haddress : addressPlus a offset = .ok a')
    (hrest : Runs M limits call name E Q b ((id, .ptr a') :: env) todo t μ) :
    Runs M limits call name E Q b env (⟨id, .field ptr struct n⟩ :: todo) t μ := by
  refine .next ?_ hrest
  intro hcomputes
  cases hcomputes with
  | field hvalue htype =>
      refine ⟨_, _, hvalue, fun frame s hhas hμ => ?_⟩
      have hptr' := ptrOperand_of_ok (hhas.operand hptr s.globals) rfl
      have hfield : fieldAddress M frame id ptr n s = .ok (.ptr a') s := by
        refine (bind_of_ok hptr').trans ?_
        rw [htype]
        refine (bind_of_ok (liftM_checked_ok _ s)).trans ?_
        dsimp only [IrType.pointee?]
        rw [hoffset]
        refine (bind_of_ok (liftM_checked_ok _ s)).trans ?_
        dsimp only
        rw [haddress]
        rfl
      exact .bind_ok hfield ⟨_, rfl, rfl, hμ⟩

theorem Runs.element {size : Nat} [hptr : Frame.Settled M env ptr (.ptr a)]
    [hindex : Frame.Settled M env index (.int i)] (hsize : M.types.sizeOf elem = .ok size)
    (hrest : Runs M limits call name E Q b
      ((id, .ptr (a + i.toUInt64 * UInt64.ofNat size)) :: env) todo t μ) :
    Runs M limits call name E Q b env (⟨id, .element ptr index elem⟩ :: todo) t μ := by
  refine .next ?_ hrest
  intro hcomputes
  cases hcomputes with
  | element hvalue htype =>
      refine ⟨_, _, hvalue, fun frame s hhas hμ => ?_⟩
      have hptr' := ptrOperand_of_ok (hhas.operand hptr s.globals) rfl
      have hindex' := intOperand_of_ok (hhas.operand hindex s.globals) rfl
      have helement : elementAddress M frame ptr index s =
          .ok (.ptr (a + i.toUInt64 * UInt64.ofNat size)) s := by
        refine (bind_of_ok hptr').trans ((bind_of_ok hindex').trans ?_)
        rw [htype]
        refine (bind_of_ok (liftM_checked_ok _ s)).trans ?_
        dsimp only [IrType.pointee?]
        rw [hsize]
        rfl
      exact .bind_ok helement ⟨_, rfl, rfl, hμ⟩

theorem Runs.binary {op : BinOp} {bits : Nat} (hop : op.isFloat = false)
    [hleft : Frame.Settled M env lhs (.int i)] [hright : Frame.Settled M env rhs (.int j)]
    (heval : evalInt op i j bits = some r)
    (hrest : Runs M limits call name E Q b ((id, .int r) :: env) todo t μ) :
    Runs M limits call name E Q b env (⟨id, .binary op lhs rhs bits⟩ :: todo) t μ := by
  refine .next ?_ hrest
  intro hcomputes
  cases hcomputes with
  | binary hvalue htype =>
      refine ⟨_, _, hvalue, fun frame s hhas hμ => ?_⟩
      have hresult := binary_of_ok hop htype (intOperand_of_ok (hhas.operand hleft s.globals) rfl)
        (intOperand_of_ok (hhas.operand hright s.globals) rfl)
      rw [heval] at hresult
      exact .of_ok (instruction_binary call id hresult) ⟨_, rfl, rfl, hμ⟩

theorem Runs.icmp {pred : IntPredicate} [hleft : Frame.Settled M env lhs (.int i)]
    [hright : Frame.Settled M env rhs (.int j)]
    (hrest : Runs M limits call name E Q b ((id, truth (pred.holds i j)) :: env) todo t μ) :
    Runs M limits call name E Q b env (⟨id, .icmp pred lhs rhs⟩ :: todo) t μ := by
  refine .next ?_ hrest
  intro hcomputes
  cases hcomputes with
  | icmp hvalue =>
      refine ⟨_, _, hvalue, fun frame s hhas hμ => ?_⟩
      exact .of_ok (instruction_icmp_of_ok call id
        (intOperand_of_ok (hhas.operand hleft s.globals) rfl)
        (intOperand_of_ok (hhas.operand hright s.globals) rfl)) ⟨_, rfl, rfl, hμ⟩

theorem Runs.recast [hv : Frame.Settled M env v x]
    (hrest : Runs M limits call name E Q b ((id, x) :: env) todo t μ) :
    Runs M limits call name E Q b env (⟨id, .recast v⟩ :: todo) t μ := by
  refine .next ?_ hrest
  intro hcomputes
  cases hcomputes with
  | recast hvalue hdest htype =>
      refine ⟨_, _, hvalue, fun frame s hhas hμ => ?_⟩
      have hcast := (cast_bitcast (s := s) hdest htype).trans
        (operand_of_ok (hhas.operand hv s.globals))
      exact .of_ok (instruction_cast call (Module.typeOf_of_value hvalue) hcast) ⟨_, rfl, rfl, hμ⟩

/-- An address under another type, if that takes a line. -/
theorem Runs.converts {extra : List Line} {w : ValueId} (hextra : Module.Draft.Converts extra v w)
    (hv : (v, x) ∈ env)
    (hrest : ∀ more, (w, x) ∈ more ++ env →
      Runs M limits call name E Q b (more ++ env) todo t μ) :
    Runs M limits call name E Q b env (extra ++ todo) t μ := by
  rcases hextra with ⟨rfl, rfl⟩ | rfl
  · exact hrest [] hv
  · have : Frame.Settled M env v x := ⟨.inl hv⟩
    exact .recast (hrest [(w, x)] List.mem_cons_self)

/-- Room on the stack, if there is enough of it. -/
theorem Runs.alloca {size align : Nat} (hsize : M.types.sizeOf ty = .ok size)
    (halign : M.types.alignOf ty = .ok align)
    (hfault : ∀ e μ', Memory.allocStack size align μ = .error e μ' → IsLimit e)
    (hrest : ∀ a μ', Memory.allocStack size align μ = .ok a μ' →
      Runs M limits call name E Q b ((id, .ptr a) :: env) todo t μ') :
    Runs M limits call name E Q b env (⟨id, .alloca ty⟩ :: todo) t μ := by
  refine .line (P := fun x μ' => ∃ a, x = .ptr a ∧ Memory.allocStack size align μ = .ok a μ') ?_ ?_
  · intro hcomputes
    cases hcomputes with
    | alloca hvalue =>
        refine ⟨_, _, hvalue, fun frame s hhas hμ => ?_⟩
        have hsize' : (liftM (M.types.sizeOf ty) : Exec Nat) s = .ok size s := by rw [hsize]; rfl
        have halign' : (liftM (M.types.alignOf ty) : Exec Nat) s = .ok align s := by rw [halign]; rfl
        refine .bind_ok hsize' (.bind_ok halign' (.bind ?_))
        exact delivers_onMemory (hμ ▸ hfault) fun a μ' halloc => ⟨_, rfl, a, rfl, hμ ▸ halloc⟩
  · rintro x μ' ⟨a, rfl, halloc⟩
    exact hrest a μ' halloc

/-- Operands that are settled are all there. -/
theorem operands_of_settled {args : List ValueId} {xs : List Val}
    (hargs : List.Forall₂ (Frame.Settled M env) args xs) (hhas : frame.Has M env) :
    operands M frame args s = .ok xs s :=
  operands_of_ok (hargs.imp fun _ _ hv => hhas.operand hv s.globals)

theorem Runs.invoke {f : FunctionId} {args : List ValueId} {xs : List Val} {P : Val → Memory → Prop}
    (hargs : List.Forall₂ (Frame.Settled M env) args xs)
    (hcall : ∀ s : MachineState, s.memory = μ →
      Delivers (call f xs s) E fun y s' => P y s'.memory)
    (hrest : ∀ y μ', P y μ' → Runs M limits call name E Q b ((id, y) :: env) todo t μ') :
    Runs M limits call name E Q b env (⟨id, .call f args⟩ :: todo) t μ := by
  refine .line (P := P) ?_ hrest
  intro hcomputes
  cases hcomputes with
  | call hvalue =>
      refine ⟨_, _, hvalue, fun frame s hhas hμ => ?_⟩
      refine .bind_ok (operands_of_settled hargs hhas) (.bind ?_)
      exact (hcall s hμ).imp (fun _ _ h => h) fun y s' hP => ⟨y, rfl, hP⟩

end Lines

/-! #### The ends of blocks -/

/-- Wherever control goes behind a block, the call ends as expected. -/
def Continues (M : Module) (limits : Limits) (call : Caller) (name : String)
    (E : Stop → Memory → Prop) (Q : Val → Memory → Prop) (b : BlockId) (next : Next)
    (s : MachineState) : Prop :=
  match next with
  | .goto target frame => ∀ n, Delivers (walk M limits call name n target (some b) frame s) E
      fun v s' => Q v s'.memory
  | .leave result => Q result s.memory

/-- The end of a block is one more step. -/
theorem Runs.finish
    (hend : ∀ (d : BlockData) (frame : Frame) (s : MachineState), d.terminator = some t →
      frame.Has M env → s.memory = μ → Delivers (terminator M call name d frame s) E
        (Continues M limits call name E Q b)) :
    Runs M limits call name E Q b env [] t μ := by
  intro n k frame s hstands hμ
  obtain ⟨d, hd, hdrop, hterm⟩ := hstands.block
  rcases Nat.lt_or_ge s.steps limits.maxSteps with hlimit | hlimit
  swap
  · exact .of_limit (rest_of_limit hd hlimit) trivial
  rw [rest_eq hd, hdrop, List.map_nil, instructions]
  refine .bind_ok (pure_run frame s) (.bind_ok (step_of_lt hlimit) (.bind ?_))
  refine (hend d frame s.tick hterm hstands.has hμ).imp (fun _ _ h => h) fun next s' h => ?_
  cases next with
  | goto target frame => exact h n
  | leave result => exact h

theorem Runs.br {target : BlockId} (h : Enters M limits call name E Q (some b) target env' μ)
    (hsub : env' ⊆ env) : Runs M limits call name E Q b env [] (.br target) μ := by
  refine .finish fun d frame s hterm hhas hμ => ?_
  have hgo : Continues M limits call name E Q b (.goto target frame) s := fun n =>
    h n frame s (hhas.mono hsub) hμ
  refine .of_ok ?_ hgo
  unfold terminator
  rw [hterm]
  rfl

theorem Runs.condBr {p : Bool} {thenTo elseTo : BlockId} [hv : Frame.Settled M env v (truth p)]
    (h : Enters M limits call name E Q (some b) (if p then thenTo else elseTo) env' μ)
    (hsub : env' ⊆ env) : Runs M limits call name E Q b env [] (.condBr v thenTo elseTo) μ := by
  refine .finish fun d frame s hterm hhas hμ => ?_
  have hgo : Continues M limits call name E Q b (.goto (if p then thenTo else elseTo) frame) s :=
    fun n => h n frame s (hhas.mono hsub) hμ
  refine .of_ok ?_ hgo
  unfold terminator
  rw [hterm]
  refine (bind_of_ok (operand_of_ok (hhas.operand hv _))).trans ?_
  cases p <;> rfl

/-- The end of the call with a value. -/
theorem Runs.ret [hv : Frame.Settled M env v x] (hQ : Q x μ) :
    Runs M limits call name E Q b env [] (.ret (some v)) μ := by
  refine .finish fun d frame s hterm hhas hμ => ?_
  refine .of_ok (a := .leave x) (s := s) ?_ (hμ ▸ hQ : Q x s.memory)
  unfold terminator
  rw [hterm]
  exact bind_of_ok (operand_of_ok (hhas.operand hv _))

/-- The end of the call without a value. -/
theorem Runs.retVoid (hQ : Q .void μ) : Runs M limits call name E Q b env [] (.ret none) μ := by
  refine .finish fun d frame s hterm hhas hμ => ?_
  refine .of_ok (a := .leave .void) (s := s) ?_ (hμ ▸ hQ : Q .void s.memory)
  unfold terminator
  rw [hterm]
  rfl

/-! #### The starts of blocks -/

/-- A line that is no choice. -/
def Plain (l : Line) : Prop := ∀ incoming, l.operation ≠ .phi incoming

/-- A conversion is no choice. -/
theorem plain_of_converts {extra : List Line} {w : ValueId} {l : Line}
    (hextra : Module.Draft.Converts extra v w) (hl : Plain l) :
    ∀ l' ∈ (extra ++ l :: code).head?, Plain l' := by
  rcases hextra with ⟨rfl, -⟩ | rfl
  · simpa using hl
  · simp [Plain]

/-- What an instruction is that computes a value. -/
theorem exists_instr_of_computes (h : M.Computes id o) : ∃ ty i, M.value id = .ok ⟨ty, .instr i⟩ ∧
    ((∀ incoming, o ≠ .phi incoming) → ∀ incoming, i ≠ .phi incoming) := by
  cases h with
  | phi hvalue => exact ⟨_, _, hvalue, fun h incoming => (h _ rfl).elim⟩
  | _ => exact ⟨_, _, ‹_›, fun _ incoming heq => by cases heq⟩

/-- There is nothing to choose in front of a line that is no choice. -/
theorem choices_of_plain {d : BlockData} {source : Option BlockId}
    (hlines : ∀ l ∈ code, M.Computes l.id l.operation) (hplain : ∀ l ∈ code.head?, Plain l) :
    choices M d source frame (code.map Line.id) s = .ok ([], code.map Line.id) s := by
  cases code with
  | nil => rfl
  | cons l rest =>
      obtain ⟨ty, i, hvalue, hinstr⟩ := exists_instr_of_computes (hlines l List.mem_cons_self)
      have hchoice := hinstr (hplain l rfl)
      rw [List.map_cons, choices, hvalue]
      cases i with
      | phi incoming => exact (hchoice incoming rfl).elim
      | _ => rfl

/-- Control comes to a block whose lines are known. -/
theorem Enters.of_listing {prior : List ValueId} {source : Option BlockId}
    (hb : M.Listing b prior code t) (hplain : ∀ l ∈ code.head?, Plain l)
    (henv : ∀ p ∈ env, p.1 ∈ prior) (h : Runs M limits call name E Q b env code t μ) :
    Enters M limits call name E Q source b env μ := by
  intro n frame s hhas hμ
  obtain ⟨d, hd, hids, hterm⟩ := hb.hasCode.block
  cases n with
  | zero => exact .of_limit rfl trivial
  | succ n =>
      have henter : enterBlock M d source frame s = .ok (frame, code.map Line.id) s := by
        unfold enterBlock
        rw [hids]
        exact bind_of_ok (choices_of_plain hb.hasCode.lines hplain)
      rw [walk_succ (k := 0) hd henter (by rw [List.drop_zero, hids])]
      obtain ⟨low, high, hlow, hascends⟩ := hb.order
      exact h n 0 frame s ⟨⟨d, hd, by rw [List.drop_zero, hids], hterm⟩, hb.hasCode.lines,
        ⟨low, high, fun p hp => hlow _ (henv p hp), hascends⟩, hhas⟩ hμ

/-- Control comes to a block that begins with a choice. -/
theorem Enters.of_phi {prior : List ValueId} {source : BlockId} {incoming : List (ValueId × BlockId)}
    (hb : M.Listing b prior (⟨id, .phi incoming⟩ :: code) t) (hplain : ∀ l ∈ code.head?, Plain l)
    (hfind : incoming.find? (·.2 = source) = some (v, source)) [hv : Frame.Settled M env v x]
    (henv : ∀ p ∈ env, p.1 ∈ prior)
    (h : Runs M limits call name E Q b ((id, x) :: env) code t μ) :
    Enters M limits call name E Q (some source) b env μ := by
  intro n frame s hhas hμ
  obtain ⟨d, hd, hids, hterm⟩ := hb.hasCode.block
  obtain ⟨low, high, hlow, hfirst, hascends⟩ := hb.order
  have hcomputes := hb.hasCode.lines _ List.mem_cons_self
  have hlines : ∀ l ∈ code, M.Computes l.id l.operation := fun l hl =>
    hb.hasCode.lines l (List.mem_cons_of_mem _ hl)
  cases hcomputes with
  | @phi _ ty hvalue =>
      cases n with
      | zero => exact .of_limit rfl trivial
      | succ n =>
          have hchoices : choices M d (some source) frame (id :: code.map Line.id) s =
              .ok ([(id, x)], code.map Line.id) s := by
            rw [choices, hvalue]
            refine (bind_of_ok (liftM_checked_ok _ s)).trans ?_
            dsimp only
            rw [hfind]
            refine (bind_of_ok (operand_of_ok (hhas.operand hv _))).trans ?_
            exact bind_of_ok (choices_of_plain hlines hplain)
          have henter : enterBlock M d (some source) frame s =
              .ok (frame.bind id x, code.map Line.id) s := by
            unfold enterBlock
            rw [hids]
            exact bind_of_ok hchoices
          have hdrop : d.instrs.toList.drop 1 = code.map Line.id := by
            rw [hids]
            rfl
          rw [walk_succ (k := 1) hd henter hdrop.symm]
          have hlow' : ∀ p ∈ env, p.1.index < id.index := fun p hp =>
            Nat.lt_of_lt_of_le (hlow _ (henv p hp)) hfirst
          refine h n 1 (frame.bind id x) s ⟨⟨d, hd, hdrop, hterm⟩, hlines,
            ⟨_, high, fun p hp => ?_, hascends⟩, hhas.bind hvalue hlow'⟩ hμ
          rcases List.mem_cons.1 hp with rfl | hp
          · exact Nat.lt_succ_self _
          · exact Nat.lt_succ_of_lt (hlow' p hp)

/-! #### Calls -/

section Calls

variable {d : FunctionData} {f : FunctionId} {args : List Val} {R : Val → MachineState → Prop}

/-- A call at some level: it is below the levels that are allowed, or it meets a limit. -/
theorem delivers_callWithin {n : Nat} (hf : M.function f = .ok d)
    (h : ∀ n, Delivers ((if d.isDeclaration then external (callWithin M limits n) d.name args
      else inCall (body M limits (callWithin M limits n) d args) : Exec Val) s) E R) :
    Delivers (callWithin M limits n f args s) E R := by
  cases n with
  | zero => exact .of_limit rfl trivial
  | succ n =>
      rw [callWithin]
      refine .bind_ok (rfl : _ = EStateM.Result.ok _ s) ?_
      split
      · exact .of_limit rfl trivial
      · rw [hf]
        exact .bind_ok (liftM_checked_ok d s) (h n)

/-- A call of a function that the machine provides. -/
theorem delivers_external {n : Nat} {g : External} (hexternal : M.IsExternal g.symbol)
    (hf : M.functionByName? g.symbol = some f)
    (h : ∀ call, Delivers (provided call g g.symbol args s) E R) :
    Delivers (callWithin M limits n f args s) E R := by
  obtain ⟨d, hd, hname, hdeclared⟩ := hexternal.exists_function hf
  have hg : External.ofSymbol? g.symbol = some g := by cases g <;> rfl
  refine delivers_callWithin hd fun n => ?_
  rw [if_pos hdeclared, external, hname, hg]
  exact h _

/-- A zeroed block of the heap is asked for. -/
theorem delivers_calloc {n : Nat} {count size : Int64} {bytes : Nat}
    (hexternal : M.IsExternal "calloc") (hf : M.functionByName? "calloc" = some f)
    (hbytes : min (count.toInt.toNat * size.toInt.toNat) (wordRange - 1) = bytes)
    (hfault : ∀ e μ', Memory.allocHeap bytes blockAlign s.memory = .error e μ' → IsLimit e) :
    Delivers (callWithin M limits n f [.int count, .int size] s) E fun y s' =>
      ∃ a, y = .ptr a ∧ Memory.allocHeap bytes blockAlign s.memory = .ok a s'.memory := by
  refine delivers_external (g := .calloc) hexternal hf fun call => ?_
  have hrun : provided call .calloc External.calloc.symbol [.int count, .int size] s =
      newBlock bytes s := by
    subst hbytes
    rfl
  rw [hrun]
  exact .bind (delivers_onMemory hfault fun a μ' halloc => ⟨a, rfl, halloc⟩)

/-- A block of the heap is given back. -/
theorem delivers_free {n : Nat} {a : UInt64} (hexternal : M.IsExternal "free")
    (hf : M.functionByName? "free" = some f) :
    Delivers (callWithin M limits n f [.ptr a] s) E fun _ s' => s'.memory = s.memory.free a :=
  delivers_external (g := .free) hexternal hf fun _ => .of_ok (a := .void) rfl rfl

theorem delivers_abort {n : Nat} (hexternal : M.IsExternal "abort")
    (hf : M.functionByName? "abort" = some f) (hE : E (.failed .aborted) s.memory) :
    Delivers (callWithin M limits n f [] s) E R :=
  delivers_external (g := .abort) hexternal hf fun _ => .inr hE

/-- The values of other operands are not touched by binding some. -/
theorem getElem?_bindAll_of_notMem {l : List (ValueId × Val)} (hv : v ∉ l.map Prod.fst)
    (frame : Frame) : (frame.bindAll l).values[v]? = frame.values[v]? := by
  induction l generalizing frame with
  | nil => rfl
  | cons p rest ih =>
      rw [List.map_cons, List.mem_cons, not_or] at hv
      refine (ih hv.2 (frame.bind p.1 p.2)).trans ?_
      simp only [Frame.bind]
      rw [Std.HashMap.getElem?_insert, if_neg (by simpa using Ne.symm hv.1)]

/-- Values that are bound under different names are all there. -/
theorem getElem?_bindAll {l : List (ValueId × Val)} (hnodup : (l.map Prod.fst).Nodup)
    (hv : (v, x) ∈ l) (frame : Frame) : (frame.bindAll l).values[v]? = some x := by
  induction l generalizing frame with
  | nil => cases hv
  | cons p rest ih =>
      rw [List.map_cons, List.nodup_cons] at hnodup
      rcases List.mem_cons.1 hv with rfl | hv
      · refine (getElem?_bindAll_of_notMem hnodup.1 (frame.bind v x)).trans ?_
        exact Std.HashMap.getElem?_insert_self
      · exact ih hnodup.2 hv (frame.bind p.1 p.2)

/-- The parameters of a call have the values of the arguments. -/
theorem has_ofArguments {params : List ValueId} (hlength : params.length ≤ args.length)
    (hparams : ∀ i p, params[i]? = some p → ∃ ty, M.value p = .ok ⟨ty, .param f i⟩) :
    (Frame.ofArguments params args).Has M (params.zip args) := by
  have hnodup : params.Nodup := by
    refine List.nodup_iff_injective_get.2 fun i j hij => Fin.ext ?_
    obtain ⟨ty, hi⟩ := hparams i _ (List.getElem?_eq_getElem i.2)
    obtain ⟨ty', hj⟩ := hparams j _ (List.getElem?_eq_getElem j.2)
    rw [List.get_eq_getElem, List.get_eq_getElem] at hij
    rw [hij] at hi
    have horigin := hi.symm.trans hj
    simp only [Except.ok.injEq, ValueData.mk.injEq, ValueDef.param.injEq, true_and] at horigin
    exact horigin.2
  intro p hp globals
  obtain ⟨hmem, -⟩ := List.of_mem_zip hp
  obtain ⟨i, hi⟩ := List.mem_iff_getElem?.1 hmem
  obtain ⟨ty, hvalue⟩ := hparams i _ hi
  have hzip : ((params.zip args).map Prod.fst).Nodup := by
    rwa [List.map_fst_zip hlength]
  have hbound : (Frame.ofArguments params args).values[p.1]? = some p.2 :=
    getElem?_bindAll hzip hp _
  unfold Frame.operand
  rw [hbound, hvalue]
  rfl

/-- A call of a function whose blocks are followed from the first one. Whatever was on the stack
for the call is gone afterwards. -/
theorem delivers_call (hf : M.function f = .ok d) (hentry : d.entry? = some b)
    (hlength : d.params.length ≤ args.length)
    (hparams : ∀ i p, d.params[i]? = some p → ∃ ty, M.value p = .ok ⟨ty, .param f i⟩)
    (h : ∀ n, Enters M limits (callWithin M limits n) d.name
      (fun e μ => E e (μ.resetStack s.memory.stack.size))
      (fun v μ => Q v (μ.resetStack s.memory.stack.size)) none b (d.params.zip args) s.memory) :
    Delivers (Exec.call M limits f args s) E fun v s' => Q v s'.memory := by
  have hbody : d.isDeclaration = false := by
    unfold FunctionData.isDeclaration
    unfold FunctionData.entry? at hentry
    cases hblocks : d.blocks with
    | nil => simp [hblocks] at hentry
    | cons _ _ => rfl
  refine delivers_callWithin hf fun n => ?_
  rw [if_neg (by simp [hbody])]
  have hrun := h n (limits.maxSteps + 1) (Frame.ofArguments d.params args)
    { s with depth := s.depth + 1 } (has_ofArguments hlength hparams) rfl
  have hwalk : body M limits (callWithin M limits n) d args { s with depth := s.depth + 1 } =
      walk M limits (callWithin M limits n) d.name (limits.maxSteps + 1) b none
        (Frame.ofArguments d.params args) { s with depth := s.depth + 1 } := by
    rw [body, hentry]
  rw [← hwalk] at hrun
  cases hresult : body M limits (callWithin M limits n) d args { s with depth := s.depth + 1 } with
  | ok v s' =>
      rw [hresult] at hrun
      exact .of_ok (inCall_of_ok hresult) hrun
  | error e s' =>
      rw [hresult] at hrun
      rw [inCall_of_error hresult]
      exact hrun

end Calls

end Exec

end SsaCompiler
