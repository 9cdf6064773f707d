/-
# Functions

The body of a function without parameters begins with a block that makes room for the variables, and
a second block starts the statements. The rooms are on the stack, apart from each other and from all
that was there before, and every variable is zero in the beginning. Behind the last statement the
function returns zero. A call of the function has the outcome of the statements, unless the machine
meets one of its limits.
-/

import SsaCompiler.Proofs.Ir.Drafting
import SsaCompiler.Proofs.Lower.Around
import SsaCompiler.Proofs.Machine.Allocator
import SsaCompiler.Proofs.Structured.Switch

namespace SsaCompiler

open Lower MeetsLimit

/-! ### Room for an integer -/

namespace TypeTable

variable {types : TypeTable} {ty : TypeId} {bits : Nat}

theorem sizeOf_int (h : types.get ty = .ok (.int bits)) :
    types.sizeOf ty = .ok (bytesForBits bits) := by
  unfold sizeOf sizeWithin
  rw [h]
  rfl

/-- An integer is aligned to its size. -/
theorem alignOf_int (h : types.get ty = .ok (.int bits)) :
    types.alignOf ty = .ok (bytesForBits bits) := by
  unfold alignOf alignWithin
  rw [h]
  rfl

end TypeTable

/-- Zeros are the word zero. -/
theorem ofLittleEndian_replicate (n : Nat) : ofLittleEndian (List.replicate n 0) = 0 := by
  induction n with
  | zero => rfl
  | succ n ih =>
      rw [List.replicate_succ, ofLittleEndian, ih]
      rfl

/-- The stack hands out room for an integer, which is zero, or the limit is met. -/
theorem Memory.allocStack_int {m : Memory} {types : TypeTable} {ty : TypeId} {t : ScalarType}
    (hm : m.IsBounded) (hty : types.get ty = .ok (.int t.bits)) :
    (∃ e, allocStack (bytesForBits t.bits) (bytesForBits t.bits) m = .error e m ∧ IsLimit e) ∨
      ∃ a m', allocStack (bytesForBits t.bits) (bytesForBits t.bits) m = .ok a m' ∧
        m.IsBlock a (bytesForBits t.bits) m' ∧
        m'.Contains types a ty (bytesForBits t.bits) (.int 0) := by
  obtain ⟨hpos, hle⟩ := bytesForBits_bounds t.bits
  have hbound : stackBase + bytesForBits t.bits + bytesForBits t.bits < wordRange := by
    have hbase : stackBase + 16 < wordRange := by decide
    omega
  have hmax : max (bytesForBits t.bits) 1 = bytesForBits t.bits := Nat.max_eq_left hpos
  rcases allocStack_of_isBounded hm hpos hbound with herror | ⟨a, m', hrun, hblock, -⟩
  · exact .inl herror
  rw [hmax] at hblock
  refine .inr ⟨a, m', hrun, hblock, ⟨.int hty (by cases t <;> decide), TypeTable.sizeOf_int hty,
    hblock.room, ?_⟩⟩
  rcases allocate_cases hm hpos hbound true with herror | ⟨a', m'', hrun', ha, hgrows, hm'⟩
  · cases hrun.symm.trans herror
  cases hrun.symm.trans hrun'
  have hbytes := hgrows.readBytes_eq hm' (blockStart_bounds _ hpos).1 ha (Nat.le_max_left _ 1)
  have hword : m'.readWord a (bytesForBits t.bits) = .ok 0 := by
    unfold readWord
    rw [hbytes]
    exact congrArg Except.ok (ofLittleEndian_replicate _)
  have hzero : normalizeInt (UInt64.ofNat 0).toInt64 t.bits = 0 := by cases t <;> decide
  rw [Memory.read_int hty hword, hzero]

theorem Exec.instruction_alloca {m : Module} {frame : Frame} {s : MachineState} {ty : TypeId}
    {size align : Nat} (call : Caller) (id : ValueId) (hsize : m.types.sizeOf ty = .ok size)
    (halign : m.types.alignOf ty = .ok align) :
    instruction m call frame id (.alloca ty) s = (do
      let a ← onMemory (Memory.allocStack size align)
      return frame.bind id (.ptr a) : Exec Frame) s := by
  change (liftM (m.types.sizeOf ty) >>= fun size => liftM (m.types.alignOf ty) >>= fun align =>
    onMemory (Memory.allocStack size align) >>= fun a => pure (frame.bind id (.ptr a)) :
      Exec Frame) s = _
  rw [hsize, halign]
  rfl

/-! ### Rooms for the variables -/

section

variable {M : Module} {start : MachineState} {vars : List LocalVar} {st : Store} {p : Point}
  {v : LocalVar}

/-- Room is made for one more variable, or the limit is met. -/
theorem Point.Matches.alloca (h : p.Matches M start vars st) (hv : v.IsRoomIn M)
    (hname : ∀ u ∈ vars, u.name ≠ v.name) (hne : ∀ u ∈ vars, u.place ≠ v.place)
    (hzero : st.values v.name = ⟨v.ty, 0⟩) (call : Caller) :
    ∃ ptr ty, M.value v.place = .ok ⟨ptr, .instr (.alloca ty)⟩ ∧
      ((∃ stop s, Exec.instruction M call p.frame v.place (.alloca ty) p.state.tick =
          .error stop s ∧ IsLimit stop ∧ s.output = p.state.output) ∨
        ∃ frame s, Exec.instruction M call p.frame v.place (.alloca ty) p.state.tick =
          .ok frame s ∧ p.state.steps < s.steps ∧
            ∀ b k, Matches M start (vars ++ [v]) st ⟨b, k, frame, s⟩) := by
  obtain ⟨ptr, ty, hvalue, hptr, hty⟩ := hv
  refine ⟨ptr, ty, hvalue, ?_⟩
  rw [Exec.instruction_alloca call v.place (TypeTable.sizeOf_int hty) (TypeTable.alignOf_int hty)]
  rcases Memory.allocStack_int (t := v.ty) h.bounded hty with ⟨e, herror, hlimit⟩ |
    ⟨a, μ, halloc, hblock, hcontains⟩
  · exact .inl ⟨.ofFault e, _, Exec.bind_of_error (Exec.onMemory_of_error herror),
      Exec.isLimit_ofFault hlimit, rfl⟩
  refine .inr ⟨_, _, Exec.bind_of_ok (Exec.onMemory_of_ok halloc), Nat.lt_succ_self _, fun b k => ?_⟩
  let q : Point := ⟨b, k, p.frame.bind v.place (.ptr a), { p.state.tick with memory := μ }⟩
  change q.Matches M start (vars ++ [v]) st
  obtain ⟨addr, hplaces, hapart⟩ := h.places
  have hold : ∀ u ∈ vars, q.Stocks M start.memory u (addr u.name) (st.values u.name) := by
    intro u hu
    obtain ⟨hu_ty, hroom, haddress, hfresh, ty, w, hplace, hcontains, hw⟩ := hplaces u hu
    refine ⟨hu_ty, hroom, ?_, hfresh, ty, w, hplace,
      hcontains.of_retains hblock.retains hblock.bounded, hw⟩
    exact (Frame.operand_bind_ne (fun heq => hne u hu heq.symm) _).trans haddress
  have hnew : q.Stocks M start.memory v a (st.values v.name) := by
    refine ⟨by rw [hzero], ⟨ptr, ty, hvalue⟩, Point.holds_bind hvalue,
      hblock.fresh.of_retains h.retains, ty, 0, ⟨_, hvalue, hptr, hty⟩, hcontains, ?_⟩
    rw [hzero]
    exact ⟨rfl, by cases v.ty <;> decide⟩
  have haway : ∀ u ∈ vars, (addr u.name).toNat + u.size ≤ a.toNat ∨
      a.toNat + v.size ≤ (addr u.name).toNat := by
    intro u hu
    obtain ⟨_, _, -, hcontains, -⟩ := (hplaces u hu).contains
    exact hblock.fresh.apart h.bounded hcontains.room
  refine ⟨h.retains.trans hblock.retains, hblock.bounded, h.globals, h.output,
    Function.update addr v.name a, fun u hu => ?_, fun u hu u' hu' hnames => ?_⟩
  · rcases List.mem_append.1 hu with hu | hu
    · rw [Function.update_of_ne (hname u hu)]
      exact hold u hu
    · cases List.mem_singleton.1 hu
      rw [Function.update_self]
      exact hnew
  · rcases List.mem_append.1 hu with hu | hu <;> rcases List.mem_append.1 hu' with hu' | hu'
    · rw [Function.update_of_ne (hname u hu), Function.update_of_ne (hname u' hu')]
      exact hapart u hu u' hu' hnames
    · cases List.mem_singleton.1 hu'
      rw [Function.update_of_ne (hname u hu), Function.update_self]
      exact haway u hu
    · cases List.mem_singleton.1 hu
      rw [Function.update_of_ne (hname u' hu'), Function.update_self]
      exact (haway u' hu').symm
    · cases List.mem_singleton.1 hu
      cases List.mem_singleton.1 hu'
      exact absurd rfl hnames

/-- The rooms are made one after the other, unless the limit is met. -/
theorem Point.Matches.makeRooms {b : BlockId} {d : BlockData} (call : Caller) (name : String)
    (done : List LocalVar) {todo : List LocalVar} (hblock : M.block b = .ok d)
    (hinstrs : d.instrs.toList = (done ++ todo).map LocalVar.place)
    (hrooms : ∀ v ∈ todo, v.IsRoomIn M) (hnames : ((done ++ todo).map LocalVar.name).Nodup)
    (hplaces : ((done ++ todo).map LocalVar.place).Nodup)
    (hzero : ∀ v ∈ todo, st.values v.name = ⟨v.ty, 0⟩) (hp : p.At b done.length)
    (h : p.Matches M start done st) :
    ∃ q, Point.Reaches M call name p q ∧
      (q.At b (done ++ todo).length ∧ q.Matches M start (done ++ todo) st ∨
        ∃ stop, q.Stops M call stop ∧ IsLimit stop) := by
  induction todo generalizing done p with
  | nil =>
      rw [List.append_nil]
      exact ⟨p, .refl, .inl ⟨hp, h⟩⟩
  | cons v todo ih =>
      have hv := List.mem_cons_self (a := v) (l := todo)
      have hapart : ∀ u ∈ done, u.name ≠ v.name ∧ u.place ≠ v.place := by
        simp only [List.map_append, List.map_cons, List.nodup_middle, List.nodup_cons] at hnames hplaces
        intro u hu
        refine ⟨fun heq => hnames.1 ?_, fun heq => hplaces.1 ?_⟩
        · exact heq ▸ List.mem_append_left _ (List.mem_map_of_mem hu)
        · exact heq ▸ List.mem_append_left _ (List.mem_map_of_mem hu)
      obtain ⟨ptr, ty, hvalue, hrun⟩ := h.alloca (hrooms v hv) (fun u hu => (hapart u hu).1)
        (fun u hu => (hapart u hu).2) (hzero v hv) call
      have hid : d.instrs[done.length]? = some v.place := by
        rw [← Array.getElem?_toList, hinstrs]
        simp
      obtain ⟨_, _, frame, s⟩ := p
      obtain ⟨rfl, rfl⟩ := hp
      rcases hrun with ⟨stop, s', hrun, hlimit, houtput⟩ | ⟨frame', s', hrun, hsteps, hmatches⟩
      · exact ⟨_, .refl, .inr ⟨stop, .instr hblock hid hvalue hrun houtput, hlimit⟩⟩
      · rw [List.append_cons] at hinstrs hnames hplaces ⊢
        obtain ⟨q, hpath, hq⟩ := ih _ hinstrs (fun u hu => hrooms u (List.mem_cons_of_mem v hu))
          hnames hplaces (fun u hu => hzero u (List.mem_cons_of_mem v hu))
          (p := ⟨_, done.length + 1, frame', s'⟩) ⟨rfl, by rw [List.length_append]; rfl⟩
          (hmatches _ (done.length + 1))
        exact ⟨q, .head (.instr hblock hid hvalue hrun hsteps) hpath, hq⟩

end

/-! ### The beginning of a body -/

/-- The function whose body is lowered, with the block for the rooms. -/
def PendingCallable.state (pending : PendingCallable) (entry : BlockId) : FunctionState :=
  ⟨pending.function, pending.symbol, pending.sig.ret, pending.sig.retRef, pending.thisTy, entry⟩

/-- A function without parameters that has an integer as its result. -/
structure PendingCallable.IsPlain (pending : PendingCallable) : Prop where
  thisTy : pending.thisTy = none
  params : pending.sig.params = []
  retRef : pending.sig.retRef = false

/-- The module with the first two blocks of a function. -/
def Module.withEntry (m : Module) (f : FunctionId) : Module :=
  (m.withBlock f "entry").withBlock f "body"

namespace Lowering

/-- The walk where the statements of a body begin. -/
def opened (s : Lowering) (pending : PendingCallable) : Lowering where
  context := { s.context with
    symbols := (s.context.symbols.enterFunction
      (isGlobalBinding (s.module.withEntry pending.function))).2 }
  names := s.names
  module := (s.module.withEntry pending.function).withPosition
    (some (s.module.withBlock pending.function "entry").nextBlock)
  pass := { s.pass with
    func := some (pending.state s.module.nextBlock)
    loops := []
    tries := []
    throwStack := [] :: s.pass.throwStack }

/-- The body of a function over the variables of a scope may be lowered: the function has no blocks
yet, operators have their built-in meaning, the result is an integer, and no global has a name of the
scope. -/
structure Admits (s : Lowering) (pending : PendingCallable) (scope : Name → Prop) (t : ScalarType) :
    Prop where
  plain : pending.IsPlain
  function : ∃ d, s.module.function pending.function = .ok d ∧ d.params = [] ∧ d.blocks = []
  fatal : s.pass.fatal = none
  operators : s.context.operators.size = 0
  known : s.Known
  result : s.module.types.get pending.sig.ret = .ok (.int t.bits)
  globals : ∀ entry ∈ s.context.symbols.bindings.entries, scope entry.1 →
    isGlobalBinding s.module entry.2 = false

end Lowering

/-- The body that is lowered. -/
def PendingCallable.IsPlain.body {pending : PendingCallable} (h : pending.IsPlain)
    (entry : BlockId) (scope : Name → Prop) (t : ScalarType) : Body where
  func := pending.state entry
  result := t
  scope := scope
  thisTy := h.thisTy
  retRef := h.retRef

section

variable {s s' : Lowering} {pending : PendingCallable} {scope : Name → Prop} {t : ScalarType}

theorem Module.evolves_withEntry (m : Module) (f : FunctionId) : m.Evolves (m.withEntry f) :=
  (Change.block m f "entry").evolves.trans (Change.block _ f "body").evolves

theorem Module.isTarget_withEntry (m : Module) (f : FunctionId) :
    (m.withEntry f).IsTarget m.nextBlock ∧
      (m.withEntry f).IsTarget (m.withBlock f "entry").nextBlock :=
  ⟨(isVacant_withBlock f (by decide)).mono (writes_withBlock [] _ f "body") List.not_mem_nil,
    isVacant_withBlock f (by decide)⟩

theorem Module.nextBlock_withBlock_ne (m : Module) (f : FunctionId) (name : String) :
    (m.withBlock f name).nextBlock ≠ m.nextBlock := by
  intro heq
  have hsize : (m.withBlock f name).blocks.size = m.blocks.size := congrArg BlockId.index heq
  simp [withBlock] at hsize

/-- The statements begin in a block of their own, and no variable is there yet. -/
theorem Lowering.Admits.hosts (h : s.Admits pending scope t) :
    (s.opened pending).Hosts (h.plain.body s.module.nextBlock scope t) [] [] ∧
      (s.opened pending).GoesOnAt (h.plain.body s.module.nextBlock scope t)
        (s.module.withBlock pending.function "entry").nextBlock 0 := by
  have hevolves : s.module.Evolves (s.opened pending).module :=
    (s.module.evolves_withEntry pending.function).trans (Module.Change.position _ _).evolves
  obtain ⟨hentry, hbody⟩ := s.module.isTarget_withEntry pending.function
  have hsame : s.context.SameEntries (s.opened pending).context :=
    ⟨rfl, rfl, rfl, rfl, rfl, rfl, rfl⟩
  refine ⟨{
    func := rfl
    fatal := h.fatal
    operators := h.operators
    known := (hsame.known h.known).mono (fun _ _ ht => ht) hevolves
    result := h.result
    entry := ?_
    rooms := fun v hv => absurd hv List.not_mem_nil
    places := .nil
    binds := ?_
    placed := ⟨⟨_, rfl, hentry.lt⟩, _, rfl, hbody.lt⟩
    reserves := fun c hc => absurd hc List.not_mem_nil
    nodup := .nil }, hbody.standsAt, Module.nextBlock_withBlock_ne _ _ _⟩
  · obtain ⟨d, hd, hopen, hempty, -⟩ := hentry
    exact ⟨d, hd, hopen, by simpa using hempty⟩
  · rintro x id hx ⟨binding, hbinding, -⟩
    obtain ⟨hmem, hglobal⟩ := List.mem_filter.1 (Table.mem_of_findIn hbinding)
    exact absurd (hglobal.symm.trans (h.globals _ hmem hx)) (by simp)

/-! ### The parts of a body -/

/-- Behind the two blocks the statements are lowered, a return is put behind them if the block is
still open, and the first block leads to the second. -/
theorem Recur.body_eq_ok {n : Nat} {node : Node} {throws : ThrowSet} (hplain : pending.IsPlain)
    (hrun : (within n).body pending node s = .ok (throws, s')) :
    ∃ s₁ s₂ s₃ terminated, (within n).statement (some node) (s.opened pending) = .ok ((), s₁) ∧
      s₁.module.currentBlockTerminated = .ok terminated ∧
      (if terminated then pure () else defaultReturn (pending.state s.module.nextBlock) :
        Lower Unit) { s₁ with pass := { s₁.pass with throwStack := s₁.pass.throwStack.tail } } =
          .ok ((), s₂) ∧
      (do Build.positionAtEnd s.module.nextBlock
          Build.br (s.module.withBlock pending.function "entry").nextBlock : Lower Unit) s₂ =
        .ok ((), s₃) ∧
      s'.module = s₃.module.withPosition s.module.position ∧
      s'.context.errorCount = s₃.context.errorCount := by
  unfold Recur.body at hrun
  obtain ⟨entry, _, hrun₁, hrun⟩ := bind_eq_ok_iff.1 hrun
  obtain ⟨m₁, hentry, rfl⟩ := build_eq_ok_iff.1 hrun₁
  obtain ⟨rfl, rfl⟩ := Build.appendBlock_eq_ok hentry
  obtain ⟨bodyBlock, _, hrun₂, hrun⟩ := bind_eq_ok_iff.1 hrun
  obtain ⟨m₂, hbody, rfl⟩ := build_eq_ok_iff.1 hrun₂
  obtain ⟨rfl, rfl⟩ := Build.appendBlock_eq_ok hbody
  obtain ⟨s₃, fatal, hinside, rfl, -⟩ := inFunction_eq_ok hrun
  have hreceived : bindReceived pending = pure () := by
    unfold bindReceived
    rw [hplain.thisTy, hplain.params, List.zip_nil_right]
    rfl
  rw [hreceived] at hinside
  obtain ⟨⟨⟩, s₁, hstmt, hinside⟩ := bind_eq_ok_iff.1 (show ((within n).statement (some node) >>=
    fun _ => _) (s.opened pending) = .ok (throws, s₃) from hinside)
  obtain ⟨throws₁, _, hpop, hinside⟩ := bind_eq_ok_iff.1 hinside
  obtain ⟨rfl, rfl⟩ := popThrowFrame_eq_ok hpop
  obtain ⟨terminated, _, hrun₃, hinside⟩ := bind_eq_ok_iff.1 hinside
  obtain ⟨_, hask, rfl⟩ := build_eq_ok_iff.1 hrun₃
  obtain ⟨hterminated, rfl⟩ := Build.ask_eq_ok_iff.1 hask
  obtain ⟨s₂, hreturn, hinside⟩ : ∃ s₂, (if terminated then pure () else
      defaultReturn (pending.state s.module.nextBlock) : Lower Unit) { s₁ with
        pass := { s₁.pass with throwStack := s₁.pass.throwStack.tail } } = .ok ((), s₂) ∧
      (do Build.positionAtEnd s.module.nextBlock
          Build.br (s.module.withBlock pending.function "entry").nextBlock
          return s₁.pass.thrown : Lower ThrowSet) s₂ = .ok (throws, s₃) := by
    cases terminated with
    | true => exact ⟨_, rfl, hinside⟩
    | false =>
        obtain ⟨⟨⟩, s₂, hreturn, hinside⟩ := bind_eq_ok_iff.1 hinside
        exact ⟨s₂, hreturn, hinside⟩
  obtain ⟨⟨⟩, s₄, hposition, hinside⟩ := bind_eq_ok_iff.1 hinside
  obtain ⟨⟨⟩, s₅, hbr, hinside⟩ := bind_eq_ok_iff.1 hinside
  cases hinside
  exact ⟨s₁, s₂, s₃, terminated, hstmt, hterminated, hreturn,
    bind_eq_ok_iff.2 ⟨(), s₄, hposition, hbr⟩, rfl, rfl⟩

end

/-! ### The end of a body -/

/-- From a place a call goes back to its caller with zero, and has printed what it should. -/
def Activation.EndsAt (A : Activation) (b : BlockId) (k : Nat) : Prop :=
  ∀ ⦃st p⦄, p.At b k → A.Matches st p → ∃ q w, A.Reaches p q ∧
    Point.Returns A.module A.call A.name q (.int w) ∧ Denotes A.result.bits w 0 ∧
    q.state.output = st.output

/-- Behind the last statement zero is returned. -/
theorem Lowering.Hosts.defaultReturn {s s' : Lowering} {B : Body} {vars : List LocalVar}
    {b : BlockId} {k : Nat} (h : s.Hosts B vars []) (hat : s.GoesOnAt B b k)
    (hrun : (liftM (Lower.defaultReturn B.func) : Lower Unit) s = .ok ((), s'))
    (hclean : s'.context.errorCount = 0) :
    s'.Hosts B vars [] ∧ s.Emits B vars s' vars fun _ A => A.EndsAt b k := by
  obtain ⟨m, hreturn, rfl⟩ := build_eq_ok_iff.1 hrun
  unfold Lower.defaultReturn at hreturn
  rw [bind_of_ok (Build.typeAt_of_ok h.result), if_neg (by simp), B.retRef] at hreturn
  obtain ⟨u, m₁, hzero, hret⟩ := bind_eq_ok_iff.1 hreturn
  obtain ⟨b₁, k₁, h₁, hat₁, -, hemits₁⟩ := h.initialValue (n := 0) (e := none) hat .none h.result
    rfl (build_of_ok hzero) hclean
  obtain ⟨h', hemits'⟩ := h₁.ret hat₁ (build_of_ok hret)
  refine ⟨h', (hemits₁.trans hemits').imp ?_⟩
  rintro A hA - ⟨hcomputes, hreturns⟩ st p hp hmatches
  obtain ⟨q, hpath, hkeeps, hb, hk, hty, hx⟩ := hcomputes hp hmatches
  obtain ⟨w, hreturns, hw⟩ := hreturns ⟨hb, hk⟩ hx
  rw [← hA.result] at hw
  exact ⟨q, w, hpath, hreturns, hw, (hmatches.keeps hkeeps).output⟩

/-! ### A function that has been lowered -/

/-- A function begins with a block that makes room for variables, and what comes behind performs
statements and then returns. -/
structure Module.Realizes (M : Module) (f : FunctionId) (entry first : BlockId)
    (vars : List LocalVar) (t : ScalarType) (x : Nat → Run Flow) : Prop where
  function : ∃ d, M.function f = .ok d ∧ d.params = [] ∧ d.entry? = some entry
  rooms : ∀ v ∈ vars, v.IsRoomIn M
  places : (vars.map LocalVar.place).Nodup
  block : ∃ d, M.block entry = .ok d ∧ d.instrs.toList = vars.map LocalVar.place ∧
    d.terminator = some (.br first)
  opens : M.Opens entry ∧ M.Opens first
  performs : ∀ {A : Activation}, A.IsSound → A.module = M → A.result = t → A.vars = vars →
    ∃ b k, A.Performs [] first 0 b k x ∧ A.EndsAt b k

/-- The body of a function is lowered to code that performs it, in every later module. -/
theorem Recur.realizes_body {s s' : Lowering} {pending : PendingCallable} {scope : Name → Prop}
    {t : ScalarType} {n : Nat} {node : Node} {stmt : Stmt} {throws : ThrowSet} {M : Module}
    (h : s.Admits pending scope t) (hspelled : stmt.Spelled scope (some node))
    (hrun : (within n).body pending node s = .ok (throws, s')) (hclean : s'.context.errorCount = 0)
    (hM : s'.module.Enlarges M) :
    ∃ entry first vars, vars.map LocalVar.declaration = stmt.declared ∧
      M.Realizes pending.function entry first vars t fun rounds => stmt.exec rounds := by
  obtain ⟨s₁, s₂, s₃, terminated, hstmt, hterminated, hreturn, hend, hmodule, hcount⟩ :=
    body_eq_ok h.plain hrun
  obtain ⟨⟨⟩, s₄, hposition, hjump⟩ := bind_eq_ok_iff.1 hend
  cases Lower.positionAtEnd_eq_ok hposition
  obtain ⟨m₃, hbr, rfl⟩ := build_eq_ok_iff.1 hjump
  replace hcount : s₂.context.errorCount = 0 := hcount.symm.trans hclean
  -- the statements, and the return behind them
  obtain ⟨hopened, hat⟩ := h.hosts
  have hreports : s₁.context.errorCount ≤ s₂.context.errorCount := by
    cases terminated with
    | true =>
        cases hreturn
        exact Nat.le_refl _
    | false =>
        obtain ⟨m₂, -, rfl⟩ := build_eq_ok_iff.1 hreturn
        exact Nat.le_refl _
  obtain ⟨vars, b, k, h₁, hat₁, hvars, hemits₁⟩ := Stmt.lowers _ stmt hspelled hopened hat hstmt
    (by omega)
  cases hat₁.standsAt.currentBlockTerminated.symm.trans hterminated
  have hpopped : Lowering.Hosts { s₁ with pass := { s₁.pass with
      throwStack := s₁.pass.throwStack.tail } } _ vars _ := h₁.withPass rfl rfl rfl rfl rfl
  obtain ⟨h₂, hemits₂⟩ := hpopped.defaultReturn ⟨hat₁.standsAt, hat₁.ne⟩ hreturn hcount
  -- the end of the first block
  obtain ⟨d, hd, hopen, hinstrs⟩ := h₂.entry
  have hstands : (s₂.module.withPosition (some s.module.nextBlock)).StandsAt s.module.nextBlock
      d.instrs.size := ⟨rfl, d, hd, hopen, rfl⟩
  cases (Build.setTerminator_of_standsAt hstands _).symm.trans hbr
  have hwrites := Module.writes_withTerminator hstands
    (.br (s.module.withBlock pending.function "entry").nextBlock)
  have hended : Module.Enlarges _ M := (Module.writes_withPosition [] _ s.module.position).enlarges.trans
    (hmodule ▸ hM)
  have hM₂ : s₂.module.Enlarges M := (Module.writes_withPosition [] _ _).enlarges.trans
    (hwrites.enlarges.trans hended)
  have hM₁ : s₁.module.Enlarges M := hemits₂.enlarges.trans hM₂
  have hM₀ : (s.module.withEntry pending.function).Grows M :=
    (Module.grows_withPosition _ _).trans (hemits₁.enlarges.trans hM₁).grows
  obtain ⟨hentry, hfirst⟩ := s.module.isTarget_withEntry pending.function
  refine ⟨s.module.nextBlock, (s.module.withBlock pending.function "entry").nextBlock, vars, hvars, ?_,
    fun v hv => (h₂.rooms v hv).mono hM₂.grows, h₂.places, ?_,
    ⟨hentry.enter hM₀, hfirst.enter hM₀⟩, ?_⟩
  · obtain ⟨d, hd, hparams, hblocks⟩ := h.function
    obtain ⟨d₁, hd₁, hstart⟩ :=
      (Module.startsAt_of_appendBlock hd hblocks (Build.appendBlock_run hd "entry")).entry
    have hM' := (Module.grows_withBlock _ _ "body").trans hM₀
    obtain ⟨d', hd', hgrows⟩ := ((Module.grows_withBlock _ _ _).trans hM').functions hd
    obtain ⟨_, hd'', hgrows₁⟩ := hM'.functions hd₁
    cases hd'.symm.trans hd''
    refine ⟨d', hd', hgrows.params.trans hparams, ?_⟩
    obtain ⟨more, hmore⟩ := hgrows₁.blocks
    unfold FunctionData.entry? at hstart ⊢
    rw [← hmore, List.head?_append, hstart]
    rfl
  · obtain ⟨d', hd', hsize, hterm⟩ := Module.terminator_of_grows hstands hended.grows
    obtain ⟨_, hd'', hgrows⟩ := hM₂.grows.blocks hd
    cases hd'.symm.trans hd''
    exact ⟨d', hd', (hgrows.instrs.eq_of_length hsize.symm).symm.trans hinstrs, hterm⟩
  · rintro A hA rfl hresult rfl
    have hcomplete : A.Completes (h.plain.body s.module.nextBlock scope t) s₂.module A.vars :=
      { hA with result := hresult, enlarges := hM₂, subset := List.Subset.refl _ }
    have hopens : A.Opens [] := fun _ htargets => absurd htargets List.not_mem_nil
    refine ⟨b, k, hemits₁.runs (hcomplete.earlier hemits₂.enlarges (List.Subset.refl _)) hopens,
      hemits₂.runs hcomplete ?_⟩
    rw [hemits₁.loops]
    exact hopens

/-! ### Calls -/

namespace Exec

/-- A call ends with an outcome, unless it meets a limit. Without an outcome it meets one. -/
def EndsAs (r : EStateM.Result Stop MachineState Val) (t : ScalarType) (o : Option CallOutcome) : Prop :=
  match r with
  | .ok v s => ∃ x w, o = some ⟨s.output, some x⟩ ∧ v = .int w ∧ Denotes t.bits w x.value
  | .error stop s => IsLimit stop ∨ stop = .failed .divisionByZero ∧ o = some ⟨s.output, none⟩

section

variable {M : Module} {limits : Limits} {call : Caller} {name : String} {p q : Point} {n : Nat}
  {t : ScalarType} {o : Option CallOutcome}

/-- A call that has used up its steps meets a limit. -/
theorem endsAs_of_limit (hblock : ∃ d, M.block p.block = .ok d)
    (hlimit : limits.maxSteps ≤ p.state.steps) : EndsAs (rest M limits call name n p) t o := by
  obtain ⟨d, hd⟩ := hblock
  obtain ⟨b, k, frame, s⟩ := p
  rw [rest_of_limit hd hlimit]
  exact .inl trivial

/-- A call goes on along a path. -/
theorem endsAs_of_reaches (hpath : Point.Reaches M call name p q)
    (hfuel : limits.maxSteps ≤ n + p.state.steps)
    (h : ∀ n', EndsAs (rest M limits call name n' q) t o) :
    EndsAs (rest M limits call name n p) t o := by
  rcases rest_of_reaches hpath hfuel with ⟨n', -, heq⟩ | ⟨s, hlimit⟩
  · rw [heq]
    exact h n'
  · rw [hlimit]
    exact .inl trivial

/-- A call ends with a result. -/
theorem endsAs_of_returns {w : Int64} {x : Scalar} (h : Point.Returns M call name p (.int w))
    (hw : Denotes t.bits w x.value) (ho : o = some ⟨p.state.output, some x⟩) :
    EndsAs (rest M limits call name n p) t o := by
  rcases Nat.lt_or_ge p.state.steps limits.maxSteps with hlt | hle
  · rw [rest_of_returns h hlt]
    exact ⟨x, w, ho, rfl, hw⟩
  · cases h with
    | intro hblock => exact endsAs_of_limit ⟨_, hblock⟩ hle

theorem endsAs_of_stops {stop : Stop} (h : Point.Stops M call p stop)
    (hstop : IsLimit stop ∨ stop = .failed .divisionByZero ∧ o = some ⟨p.state.output, none⟩) :
    EndsAs (rest M limits call name n p) t o := by
  rcases Nat.lt_or_ge p.state.steps limits.maxSteps with hlt | hle
  · obtain ⟨s, hrest, houtput⟩ := rest_of_stops (n := n) h hlt
    rw [hrest]
    rw [← houtput] at hstop
    exact hstop
  · cases h with
    | instr hblock => exact endsAs_of_limit ⟨_, hblock⟩ hle

/-- A call with a body ends as the body does one level deeper. -/
theorem endsAs_inCall {x : Exec Val} {s : MachineState}
    (h : EndsAs (x { s with depth := s.depth + 1 }) t o) : EndsAs (inCall x s) t o := by
  cases hx : x { s with depth := s.depth + 1 } with
  | ok v s' =>
      rw [hx] at h
      rw [inCall_of_ok hx]
      exact h
  | error stop s' =>
      rw [hx] at h
      rw [inCall_of_error hx]
      exact h

end

end Exec

/-- On a path control stays in blocks that are there. -/
theorem Point.Reaches.exists_block {m : Module} {call : Caller} {name : String} {p q : Point}
    (h : Reaches m call name p q) (hp : ∃ d, m.block p.block = .ok d) :
    ∃ d, m.block q.block = .ok d := by
  cases h using Relation.ReflTransGen.rec with
  | refl => exact hp
  | tail _ hstep _ =>
      cases hstep with
      | instr hblock => exact ⟨_, hblock⟩
      | jump _ _ _ htarget => exact ⟨_, htarget⟩

/-- What follows a run of statements in a call ends as the run says. -/
theorem Point.Simulates.endsAs {A : Activation} {b : BlockId} {k rounds n : Nat} {p : Point}
    {r : EStateM.Result Halt Store Flow} (h : p.Simulates A [] b k rounds r) (hend : A.EndsAt b k)
    (hblock : ∃ d, A.module.block p.block = .ok d) (hrounds : A.limits.maxSteps ≤ rounds)
    (hfuel : A.limits.maxSteps ≤ n + p.state.steps) :
    Exec.EndsAs (Exec.rest A.module A.limits A.call A.name n p) A.result
      (CallOutcome.ofRun? A.result r) := by
  cases h with
  | next hpath hat hq =>
      obtain ⟨q, w, hpath', hreturns, hw, houtput⟩ := hend hat hq
      refine Exec.endsAs_of_reaches (hpath.trans hpath') hfuel fun n' =>
        Exec.endsAs_of_returns hreturns (x := ⟨A.result, 0⟩) hw ?_
      rw [houtput]
      rfl
  | breakOut hloops => cases hloops
  | nextRound hloops => cases hloops
  | leave hpath hreturns hw houtput =>
      refine Exec.endsAs_of_reaches hpath hfuel fun n' => Exec.endsAs_of_returns hreturns hw ?_
      rw [houtput]
      rfl
  | division hpath hstops houtput =>
      refine Exec.endsAs_of_reaches hpath hfuel fun n' =>
        Exec.endsAs_of_stops hstops (.inr ⟨rfl, ?_⟩)
      rw [houtput]
      rfl
  | rounds hpath hsteps =>
      exact Exec.endsAs_of_reaches hpath hfuel fun n' =>
        Exec.endsAs_of_limit (hpath.exists_block hblock) (by omega)
  | limit hpath hstops hlimit =>
      exact Exec.endsAs_of_reaches hpath hfuel fun n' => Exec.endsAs_of_stops hstops (.inl hlimit)

namespace Module.Realizes

variable {M : Module} {f : FunctionId} {entry first : BlockId} {vars : List LocalVar}
  {t : ScalarType} {x : Nat → Run Flow} {st : Store} {p : Point}

/-- From the beginning of a function on, the rooms are made and the statements are performed. -/
theorem follows {A : Activation} (h : A.module.Realizes f entry first A.vars A.result x)
    (hA : A.IsSound) (hzero : ∀ v ∈ A.vars, st.values v.name = ⟨v.ty, 0⟩) (hp : p.At entry 0)
    (hmatches : p.Matches A.module A.start [] st) (rounds : Nat) :
    ∃ b k, A.EndsAt b k ∧ p.Simulates A [] b k rounds (x rounds st) := by
  obtain ⟨b, k, hperforms, hend⟩ := h.performs hA rfl rfl rfl
  refine ⟨b, k, hend, ?_⟩
  obtain ⟨d, hd, hinstrs, hterm⟩ := h.block
  obtain ⟨q, hpath, ⟨hq, hmatches⟩ | ⟨stop, hstops, hlimit⟩⟩ := hmatches.makeRooms A.call A.name
    [] hd hinstrs h.rooms hA.names h.places hzero hp
  · have hjump : q.LeadsTo A.module A.call A.name first := by
      refine ⟨d, hq.block ▸ hd, ?_, Point.terminator_br hterm⟩
      rw [hq.next, ← Array.length_toList, hinstrs, List.length_map]
      rfl
    exact .of_reaches (hpath.tail (hjump.step_opens h.opens.2))
      (hperforms ⟨rfl, rfl⟩ (hmatches.tick first 0))
  · exact .limit hpath hstops hlimit

/-- A call of the function ends as its statements do. -/
theorem endsAs_call {limits : Limits} {state : MachineState} {rounds : Nat}
    (h : M.Realizes f entry first vars t x) (hnames : (vars.map LocalVar.name).Nodup)
    (hexternal : M.IsExternal "printf") (hbounded : state.memory.IsBounded)
    (htexts : state.HoldsTexts M) (hzero : ∀ v ∈ vars, st.values v.name = ⟨v.ty, 0⟩)
    (houtput : st.output = state.output) (hrounds : limits.maxSteps ≤ rounds) :
    Exec.EndsAs (Exec.call M limits f [] state) t (CallOutcome.ofRun? t (x rounds st)) := by
  obtain ⟨levels, hlevels⟩ : ∃ levels, Exec.nesting limits state = levels + 2 := ⟨_, rfl⟩
  unfold Exec.call
  rw [hlevels]
  by_cases hdepth : state.depth ≥ limits.maxCallDepth
  · have hrun : Exec.callWithin M limits (levels + 2) f [] state =
        .error (.failed (.callDepth limits.maxCallDepth)) state := by
      change (if state.depth ≥ limits.maxCallDepth then _ else _ : Exec Val) state = _
      rw [if_pos hdepth]
      rfl
    rw [hrun]
    exact .inl trivial
  obtain ⟨d, hd, hparams, hentry⟩ := h.function
  have hbody : d.isDeclaration = false := by
    unfold FunctionData.entry? at hentry
    unfold FunctionData.isDeclaration
    cases hblocks : d.blocks with
    | nil => rw [hblocks] at hentry; cases hentry
    | cons => rfl
  let A : Activation :=
    ⟨M, limits, levels, d.name, { state with depth := state.depth + 1 }, vars, t⟩
  have hrun : Exec.callWithin M limits (levels + 2) f [] state =
      Exec.inCall (Exec.body M limits A.call d []) state := by
    change (if state.depth ≥ limits.maxCallDepth then _ else _ : Exec Val) state = _
    rw [if_neg hdepth, Exec.bind_of_ok (show (liftM (M.function f) : Exec FunctionData) state =
      .ok d state by rw [hd]; rfl)]
    simp only [hbody]
    rfl
  rw [hrun]
  refine Exec.endsAs_inCall ?_
  obtain ⟨block, hblock, henter⟩ := h.opens.1
  let p : Point := ⟨entry, 0, ⟨∅, none⟩, A.start⟩
  have hstart : Exec.body M limits A.call d [] A.start =
      Exec.rest M limits A.call d.name limits.maxSteps p := by
    unfold Exec.body
    rw [hentry, hparams]
    exact Exec.walk_succ hblock (henter none _ A.start) rfl
  have hmatches : p.Matches M A.start [] st :=
    ⟨.refl _, hbounded, rfl, houtput.symm, fun _ => 0, fun _ hv => absurd hv List.not_mem_nil,
      fun _ hv => absurd hv List.not_mem_nil⟩
  obtain ⟨b, k, hend, hsimulates⟩ := h.follows (A := A) ⟨hexternal, hbounded, htexts, hnames⟩ hzero
    ⟨rfl, rfl⟩ hmatches rounds
  rw [hstart]
  exact hsimulates.endsAs hend ⟨block, hblock⟩ hrounds (Nat.le_add_right _ _)

end Module.Realizes

/-- At the beginning a variable of the statement has the value zero. -/
theorem Stmt.start_eq {stmt : Stmt} {vars : List LocalVar} {v : LocalVar}
    (hvars : vars.map LocalVar.declaration = stmt.declared)
    (hnames : (stmt.declared.map Prod.fst).Nodup) (hv : v ∈ vars) :
    stmt.start v.name = ⟨v.ty, 0⟩ := by
  obtain ⟨before, behind, hdeclared⟩ := List.append_of_mem
    (hvars ▸ List.mem_map_of_mem hv : v.declaration ∈ stmt.declared)
  have hfound : stmt.declared.lookup v.name = some v.ty := by
    refine List.lookup_eq_some_iff.2 ⟨before, behind, hdeclared, fun entry hentry => ?_⟩
    rw [hdeclared, List.map_append, List.map_cons] at hnames
    have hne := (List.nodup_append.1 hnames).2.2 _ (List.mem_map_of_mem hentry) v.name
      List.mem_cons_self
    simpa using hne.symm
  unfold start
  rw [hfound]
  rfl

/-- Lowering keeps what statements mean. The body of a function declares its integer variables under
different names and is lowered without a report. Then a call of the function prints what its
statements print and answers what they return, or ends in the same division by zero, unless it meets
one of the limits of the machine. This holds in every later module, and for as many rounds of every
loop as the machine may take steps. -/
theorem Recur.endsAs_call_body {s s' : Lowering} {pending : PendingCallable} {scope : Name → Prop}
    {t : ScalarType} {n rounds : Nat} {node : Node} {stmt : Stmt} {throws : ThrowSet} {M : Module}
    {limits : Limits} {state : MachineState} (h : s.Admits pending scope t)
    (hspelled : stmt.Spelled scope (some node)) (hnames : (stmt.declared.map Prod.fst).Nodup)
    (hrun : (within n).body pending node s = .ok (throws, s')) (hclean : s'.context.errorCount = 0)
    (hM : s'.module.Enlarges M) (hexternal : M.IsExternal "printf")
    (hbounded : state.memory.IsBounded) (htexts : state.HoldsTexts M)
    (hrounds : limits.maxSteps ≤ rounds) :
    Exec.EndsAs (Exec.call M limits pending.function [] state) t
      (stmt.outcome? t rounds state.output) := by
  obtain ⟨entry, first, vars, hvars, hrealizes⟩ := realizes_body h hspelled hrun hclean hM
  refine hrealizes.endsAs_call ?_ hexternal hbounded htexts
    (fun v hv => Stmt.start_eq hvars hnames hv) rfl hrounds
  rw [← hvars, List.map_map] at hnames
  exact hnames

/-! ### A switch in a loop -/

namespace LoopExample

/-- The walk outside of functions, where a function has been declared. -/
def walk : Lowering where
  context := { (Context.new .standard .initial).1 with symbols := SymbolTable.empty }
  names := ⟨#["", "Array", "T", "i", "sum"]⟩
  module := Module.ofTables "loop" [.int 32, .function [] ⟨0⟩ false]
    [⟨"main", ⟨1⟩, [], [], none, none⟩]
  pass := Pass.new ⟨0⟩

/-- The function, which returns an integer. -/
def pending : PendingCallable :=
  ⟨⟨0⟩, "main", ⟨[], [], ⟨0⟩, false⟩, none, .overload (.function ⟨5⟩), none⟩

/-- `for (; i < 5; i += 1) { switch (i) { case 1: continue; case 2: sum += 10; default: sum += 1 }
print sum; }` between `int i, sum;` and `return sum / (i - 4);`. -/
def stmt : Stmt :=
  let i : Expr := .var ⟨3⟩
  let sum : Expr := .var ⟨4⟩
  let cases : Cases := .cons (.int 1) .nextRound
    (.cons (.int 2) (.assign (some .add) ⟨4⟩ (.int 10)) .nil)
  let choice : Stmt := .switch i cases (.assign (some .add) ⟨4⟩ (.int 1)) false
  let loop : Stmt := .forLoop .skip (some (.binary .lt i (.int 5)))
    (.assign (some .add) ⟨3⟩ (.int 1)) (.block (.cons choice (.cons (.print [sum]) .nil)))
  .block (.cons (.declare .int [(⟨3⟩, none), (⟨4⟩, none)])
    (.cons loop (.cons (.leave (.binary .div sum (.binary .sub i (.int 4)))) .nil)))

/-- The statement as a tree. -/
def tree : Node :=
  let node (id : Nat) (kind : NodeKind Node) : Node := ⟨id, .unknown, kind⟩
  let i (id : Nat) : Node := node id (.ident ⟨3⟩)
  let sum (id : Nat) : Node := node id (.ident ⟨4⟩)
  let int (id : Nat) (value : Int64) : Node := node id (.intLit value)
  let add (id : Nat) (target value : Node) : Node := node id (.assign (some .add) target value)
  let choice := node 10 (.switch (i 11) [⟨int 12 1, node 13 .continueStmt⟩,
    ⟨int 14 2, add 15 (sum 16) (int 17 10)⟩] (add 18 (sum 19) (int 20 1)) false)
  let body := node 21 (.block [choice, node 22 (.print [sum 23])])
  let loop := node 24 (.forLoop none (node 25 (.binary .lt (i 26) (int 27 5)))
    (add 28 (i 29) (int 30 1)) body)
  let difference := node 31 (.binary .sub (i 32) (int 33 4))
  node 34 (.block [node 35 (.varDecl (.prim .int) [⟨⟨3⟩, none⟩, ⟨⟨4⟩, none⟩]), loop,
    node 36 (.returnStmt (node 37 (.binary .div (sum 38) difference)))])

/-- The machine with the format of the print in memory. -/
def state : MachineState :=
  { (default : MachineState) with
    memory := ⟨(Text.encode "%d\n" ++ [0]).toArray, #[], 64, 1⟩
    globals := #[16] }

theorem spelled : stmt.Spelled (fun x => x = ⟨3⟩ ∨ x = ⟨4⟩) (some tree) := by
  have hi (id : Nat) : (Expr.var ⟨3⟩).Spelled (fun x => x = ⟨3⟩ ∨ x = ⟨4⟩)
      ⟨id, .unknown, .ident ⟨3⟩⟩ := ⟨.inl rfl, rfl⟩
  have hsum (id : Nat) : (Expr.var ⟨4⟩).Spelled (fun x => x = ⟨3⟩ ∨ x = ⟨4⟩)
      ⟨id, .unknown, .ident ⟨4⟩⟩ := ⟨.inr rfl, rfl⟩
  refine ⟨_, _, rfl, rfl, _, _, rfl, ?declare, _, _, rfl, ?loop, _, _, rfl, ?leave, rfl⟩
  case declare =>
    exact ⟨_, _, rfl, rfl, .cons ⟨rfl, .inl rfl, .none⟩ (.cons ⟨rfl, .inr rfl, .none⟩ .nil)⟩
  case leave => exact ⟨_, _, rfl, rfl, rfl, _, _, rfl, hsum _, rfl, _, _, rfl, hi _, rfl⟩
  case loop =>
    refine ⟨_, _, _, _, _, rfl, rfl, rfl, .some ⟨rfl, _, _, rfl, hi _, rfl⟩, ?step, ?body⟩
    case step => exact ⟨by decide, .inl rfl, _, _, _, rfl, rfl, rfl, rfl⟩
    case body =>
      refine ⟨_, _, rfl, rfl, _, _, rfl, ?switch, _, _, rfl, ?print, rfl⟩
      case print => exact ⟨_, [_], rfl, rfl, .cons (hsum _) .nil⟩
      case switch =>
        refine ⟨_, _, _, _, rfl, rfl, hi _, ?cases, by decide, .inr rfl, _, _, _, rfl, rfl, rfl, rfl⟩
        exact ⟨_, _, _, rfl, rfl, rfl, ⟨_, rfl, rfl⟩, _, _, _, rfl, rfl, rfl,
          ⟨by decide, .inr rfl, _, _, _, rfl, rfl, rfl, rfl⟩, rfl⟩

theorem admits : walk.Admits pending (fun x => x = ⟨3⟩ ∨ x = ⟨4⟩) .int where
  plain := ⟨rfl, rfl, rfl⟩
  function := ⟨_, rfl, rfl, rfl⟩
  fatal := rfl
  operators := rfl
  known := {
    objects := fun h => by cases h
    structures := fun h => by cases h
    instances := fun h => by cases h
    functions := fun h => by cases h
    operators := fun _ h => absurd h List.not_mem_nil
    keys := OperatorTable.isIndexed_empty
    support := fun h => by cases h
    supported := .nil }
  result := rfl
  globals _ h := absurd h List.not_mem_nil

theorem holdsTexts {m : Module} (hsize : m.globals.size = 1)
    (hbytes : m.startBytes? 0 = some (Text.encode "%d\n" ++ [0])) : state.HoldsTexts m := by
  intro i bytes hstarts
  have hfound := hstarts.startBytes?
  obtain ⟨g, init, ty, hg, -⟩ := hstarts
  have hlt : i < m.globals.size := (Array.getElem?_eq_some_iff.1 hg).1
  obtain rfl : i = 0 := by omega
  obtain rfl := Option.some.inj (hfound.symm.trans hbytes)
  exact ⟨16, rfl, mem_toOption_iff.1 (by decide +kernel)⟩

/-- The rounds for zero, two, three and four print a line, and the one for one goes on at once. -/
theorem endsAs_call_switch : ∃ throws s',
    (Recur.within 12).body pending tree walk = .ok (throws, s') ∧ s'.context.errorCount = 0 ∧
      Exec.EndsAs (Exec.call s'.module .standard ⟨0⟩ [] state) .int
        (some ⟨"1\n12\n13\n14\n", some ⟨.int, 14⟩⟩) := by
  have hfacts : ((Recur.within 12).body pending tree walk).toOption.any fun result =>
      result.2.context.errorCount == 0 && result.2.module.globals.size == 1 &&
        result.2.module.startBytes? 0 == some (Text.encode "%d\n" ++ [0]) &&
        decide (result.2.module.IsExternal "printf") := by
    decide +kernel
  obtain ⟨hsome, hresult⟩ := (Option.any_eq_true_iff_get _ _).1 hfacts
  obtain ⟨⟨throws, s'⟩, hrun⟩ := Option.isSome_iff_exists.1 hsome
  simp only [hrun, Option.get_some, Bool.and_eq_true, beq_iff_eq, decide_eq_true_eq] at hresult
  obtain ⟨⟨⟨hclean, hsize⟩, hbytes⟩, hexternal⟩ := hresult
  have hbody := mem_toOption_iff.1 hrun
  have houtcome : stmt.outcome? .int 10 "" =
      some ⟨"1\n12\n13\n14\n", some ⟨.int, 14⟩⟩ := by decide +kernel
  refine ⟨throws, s', hbody, hclean, ?_⟩
  rw [← Stmt.outcome?_of_le houtcome (show 10 ≤ Limits.standard.maxSteps by decide)]
  exact Recur.endsAs_call_body admits spelled (by decide) hbody hclean (.refl _) hexternal
    ⟨by decide +kernel, by decide⟩ (holdsTexts hsize hbytes) (Nat.le_refl _)

end LoopExample

end SsaCompiler
