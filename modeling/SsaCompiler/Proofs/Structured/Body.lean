/-
# Lowering inside a body

While the statements of a body are lowered, code is written block by block, and rooms are made for
the variables in the first block. Blocks that have been made for later wait empty. Each part that is
lowered writes code, and says what running that code does in every call of the function, whatever
else the module comes to hold.
-/

import SsaCompiler.Proofs.Lower.Locality
import SsaCompiler.Proofs.Structured.Execution

namespace SsaCompiler

open Lower

/-! ### Later modules -/

/-- A later module with the same globals, to which more may have come. -/
structure Module.Enlarges (m m' : Module) : Prop where
  grows : m.Grows m'
  globals : m.globals.toList <+: m'.globals.toList

section

variable {m m' m'' : Module} {v : LocalVar}

namespace Module

theorem Enlarges.refl (m : Module) : m.Enlarges m := ⟨.refl m, List.prefix_rfl⟩

theorem Enlarges.trans (h : m.Enlarges m') (h' : m'.Enlarges m'') : m.Enlarges m'' :=
  ⟨h.grows.trans h'.grows, h.globals.trans h'.globals⟩

/-- Writing code enlarges a module. -/
theorem Writes.enlarges {touched : List BlockId} (h : m.Writes touched m') : m.Enlarges m' :=
  ⟨h.grows, h.globals⟩

end Module

/-- The place of a variable is room that has been made for it. -/
def LocalVar.IsRoomIn (v : LocalVar) (m : Module) : Prop :=
  ∃ ptr ty, m.value v.place = .ok ⟨ptr, .instr (.alloca ty)⟩ ∧
    m.types.get ptr = .ok (.pointer ty) ∧ m.types.get ty = .ok (.int v.ty.bits)

namespace LocalVar.IsRoomIn

theorem mono (h : v.IsRoomIn m) (hgrows : m.Grows m') : v.IsRoomIn m' := by
  obtain ⟨ptr, ty, hvalue, hptr, hty⟩ := h
  exact ⟨ptr, ty, hgrows.values hvalue, hgrows.types hptr (by simp), hgrows.types hty (by simp)⟩

theorem isPlace (h : v.IsRoomIn m) : ∃ ty, m.IsPlace v.place ty v.ty := by
  obtain ⟨ptr, ty, hvalue, hptr, hty⟩ := h
  exact ⟨ty, _, hvalue, hptr, hty⟩

end LocalVar.IsRoomIn

end

/-! ### The state of lowering inside a body -/

/-- A body: the function to which it belongs, which is not part of an object and has an integer as
its result, and the names of the variables. -/
structure Body where
  func : FunctionState
  result : ScalarType
  scope : Name → Prop
  thisTy : func.thisTy = none
  retRef : func.retRef = false

namespace Lowering

/-- A body is being lowered. The first block consists of the rooms for the variables that have been
declared, some blocks have been made for later, and operators have their built-in meaning. -/
structure Hosts (s : Lowering) (B : Body) (vars : List LocalVar) (later : List BlockId) : Prop where
  func : s.pass.func = some B.func
  fatal : s.pass.fatal = none
  operators : s.context.operators.size = 0
  known : s.Known
  result : s.module.types.get B.func.ret = .ok (.int B.result.bits)
  entry : ∃ d, s.module.block B.func.allocaBlock = .ok d ∧ d.terminator = none ∧
    d.instrs.toList = vars.map LocalVar.place
  rooms : ∀ v ∈ vars, v.IsRoomIn s.module
  places : (vars.map LocalVar.place).Nodup
  binds : ∀ x id, B.scope x → s.Binds x id → ∃ v ∈ vars, v.name = x ∧ v.place = id
  placed : s.IsPlaced
  reserves : ∀ c ∈ later, s.Reserves c (· ∉ Module.joinNames)
  nodup : later.Nodup

/-- The code of a body goes on at a place, which is not among the rooms. -/
structure GoesOnAt (s : Lowering) (B : Body) (b : BlockId) (k : Nat) : Prop where
  standsAt : s.module.StandsAt b k
  ne : b ≠ B.func.allocaBlock

variable {α : Type} {s s' : Lowering} {B : Body} {vars : List LocalVar} {later later' : List BlockId}
  {b c : BlockId} {k : Nat} {x : Lower α} {a : α}

namespace Hosts

theorem ready (h : s.Hosts B vars later) : s.Ready B.scope where
  func := ⟨B.func, h.func, fun _ _ _ => B.thisTy⟩
  operators := h.operators
  fatal := h.fatal
  places hx hid := by
    obtain ⟨v, hv, -, rfl⟩ := h.binds _ _ hx hid
    exact ⟨v.ty, (h.rooms v hv).isPlace⟩

/-- A block that waits may be led to. -/
theorem isTarget (h : s.Hosts B vars later) (hat : s.GoesOnAt B b k) (hc : c ∈ later) :
    s.module.IsTarget c ∧ c ≠ b := by
  have hreserves := h.reserves c hc
  refine ⟨hreserves.isVacant, ?_⟩
  rintro rfl
  exact hreserves.position hat.standsAt.position

/-- The waiting blocks in another order. -/
theorem perm (h : s.Hosts B vars later) (hperm : later.Perm later') : s.Hosts B vars later' :=
  { h with
    reserves := fun c hc => h.reserves c (hperm.mem_iff.2 hc)
    nodup := hperm.nodup h.nodup }

/-- What is noted about nodes and loops has no part in it. -/
theorem withPass (h : s.Hosts B vars later) (hcontext : s'.context = s.context)
    (hnames : s'.names = s.names) (hmodule : s'.module = s.module)
    (hfunc : s'.pass.func = s.pass.func) (hfatal : s'.pass.fatal = s.pass.fatal) :
    s'.Hosts B vars later := by
  obtain ⟨context, names, m, pass⟩ := s'
  obtain rfl : context = _ := hcontext
  obtain rfl : names = _ := hnames
  obtain rfl : m = _ := hmodule
  have hroom : room ⟨s.context, s.names, s.module, pass⟩ = s.room := by
    unfold room
    rw [hfunc]
  refine { h with
    func := hfunc.trans h.func
    fatal := hfatal.trans h.fatal
    placed := ⟨?_, h.placed.position⟩
    reserves := fun c hc => ?_ }
  · rw [hfunc]
    exact h.placed.func
  · obtain ⟨hvacant, hposition, hentry⟩ := h.reserves c hc
    exact ⟨hvacant, hposition, hroom ▸ hentry⟩

/-- Something has happened that leaves the function and the operators as they were. -/
theorem evolve {vars' : List LocalVar} [hstep : Stepwise x] (h : s.Hosts B vars later)
    (hrun : x s = .ok (a, s')) (hgrows : s.module.Grows s'.module)
    (hfunc : s'.pass.func = s.pass.func) (hfatal : s'.pass.fatal = s.pass.fatal)
    (hoperators : s'.context.operators = s.context.operators)
    (hentry : ∃ d, s'.module.block B.func.allocaBlock = .ok d ∧ d.terminator = none ∧
      d.instrs.toList = vars'.map LocalVar.place)
    (hrooms : ∀ v ∈ vars', v.IsRoomIn s'.module) (hplaces : (vars'.map LocalVar.place).Nodup)
    (hbinds : ∀ x id, B.scope x → s'.Binds x id → ∃ v ∈ vars', v.name = x ∧ v.place = id)
    (hplaced : s'.IsPlaced) (hreserves : ∀ c ∈ later', s'.Reserves c (· ∉ Module.joinNames))
    (hnodup : later'.Nodup) : s'.Hosts B vars' later' := by
  have hevolves := hstep.later h.known hrun
  refine ⟨hfunc.trans h.func, hfatal.trans h.fatal, ?_, hevolves.known h.known,
    hgrows.types h.result (by simp), hentry, hrooms, hplaces,
    hbinds, hplaced, hreserves, hnodup⟩
  rw [hoperators]
  exact h.operators

/-- The names stand for the variables as long as the symbols stay the same. -/
theorem binds_of_symbols (h : s.Hosts B vars later)
    (hsymbols : s'.context.symbols = s.context.symbols) :
    ∀ x id, B.scope x → s'.Binds x id → ∃ v ∈ vars, v.name = x ∧ v.place = id := by
  intro y id hy hid
  unfold Binds at hid
  rw [hsymbols] at hid
  exact h.binds y id hy hid

/-- Nothing but the module has changed. -/
theorem of_wired [Stepwise x] (h : s.Hosts B vars later) (hrun : x s = .ok (a, s'))
    (hwired : s.Wired s')
    (hentry : s'.module.block B.func.allocaBlock = s.module.block B.func.allocaBlock)
    (hplaced : s'.IsPlaced) (hreserves : ∀ c ∈ later', s'.Reserves c (· ∉ Module.joinNames))
    (hnodup : later'.Nodup) : s'.Hosts B vars later' := by
  have hsame := hwired.same
  refine h.evolve hrun hwired.grows ?_ ?_ ?_ (hentry ▸ h.entry)
    (fun v hv => (h.rooms v hv).mono hwired.grows) h.places (h.binds_of_symbols ?_) hplaced hreserves
    hnodup
  all_goals rw [hsame]

/-- A part has been lowered that has changed neither the symbols nor the rooms. -/
theorem advance [hx : Composed Elementary .inside x] [Stepwise x] (h : s.Hosts B vars later)
    (hrun : x s = .ok (a, s')) (hfatal : s'.pass.fatal = s.pass.fatal)
    (hoperators : s'.context.operators = s.context.operators)
    (hsymbols : s'.context.symbols = s.context.symbols)
    (hentry : s'.module.block B.func.allocaBlock = s.module.block B.func.allocaBlock) :
    s'.Hosts B vars later :=
  h.evolve hrun (grows_of_composed hrun) (hx.later_of hrun).func hfatal hoperators
    (hentry ▸ h.entry) (fun v hv => (h.rooms v hv).mono (grows_of_composed hrun)) h.places
    (h.binds_of_symbols hsymbols) (h.placed.of_composed hrun)
    (fun c hc => (h.reserves c hc).of_composed hrun) h.nodup

theorem of_same [Composed Elementary .inside x] [Stepwise x] (h : s.Hosts B vars later)
    (hrun : x s = .ok (a, s')) (hsame : s.Same s')
    (hentry : s'.module.block B.func.allocaBlock = s.module.block B.func.allocaBlock) :
    s'.Hosts B vars later := by
  refine h.advance hrun hsame.fatal ?_ ?_ hentry <;> rw [hsame.context]

/-- The rooms are left alone by code that is written elsewhere. -/
theorem entry_of_writes (h : s.Hosts B vars later) (hb : b ≠ B.func.allocaBlock)
    (hwrites : s.module.Writes [b] s'.module) :
    s'.module.block B.func.allocaBlock = s.module.block B.func.allocaBlock := by
  obtain ⟨d, hd, -⟩ := h.entry
  exact hwrites.others _ (by simpa using hb.symm) (Module.block_lt hd)

/-- Code goes on where a piece of code ends. -/
theorem goesOnAt_of_piece {b' : BlockId} {k' : Nat} (h : s.Hosts B vars later)
    (hat : s.GoesOnAt B b k) (hpiece : s.module.Piece [b] b k s'.module b' k') :
    s'.GoesOnAt B b' k' := by
  refine ⟨hpiece.stop, ?_⟩
  rcases hpiece.fresh with rfl | hle
  · exact hat.ne
  · rintro rfl
    obtain ⟨d, hd, -⟩ := h.entry
    have hlt := Module.block_lt hd
    omega

end Hosts

end Lowering

/-! ### Calls in which the code is run -/

/-- A call of a function whose body has been lowered up to a module: its variables are there, and the
module has become that of the call. -/
structure Activation.Completes (A : Activation) (B : Body) (m : Module) (vars : List LocalVar) : Prop
    extends A.IsSound where
  result : A.result = B.result
  enlarges : m.Enlarges A.module
  subset : vars ⊆ A.vars

/-- What has been lowered before is part of it. -/
theorem Activation.Completes.earlier {A : Activation} {B : Body} {m m' : Module}
    {vars vars' : List LocalVar} (h : A.Completes B m' vars') (hm : m.Enlarges m')
    (hvars : vars ⊆ vars') : A.Completes B m vars :=
  { h with
    enlarges := hm.trans h.enlarges
    subset := List.Subset.trans hvars h.subset }

/-- Between two states code has been written of which something holds in every call. -/
structure Lowering.Emits (s : Lowering) (B : Body) (vars : List LocalVar) (s' : Lowering)
    (vars' : List LocalVar) (code : List JumpTargets → Activation → Prop) : Prop where
  loops : s'.pass.loops = s.pass.loops
  enlarges : s.module.Enlarges s'.module
  subset : vars ⊆ vars'
  runs : ∀ ⦃A : Activation⦄, A.Completes B s'.module vars' → A.Opens s.pass.loops →
    code s.pass.loops A

namespace Lowering.Emits

variable {s s₁ s' : Lowering} {B : Body} {vars vars₁ vars' : List LocalVar}
  {code code' : List JumpTargets → Activation → Prop}

theorem trans (h : s.Emits B vars s₁ vars₁ code) (h' : s₁.Emits B vars₁ s' vars' code') :
    s.Emits B vars s' vars' fun loops A => code loops A ∧ code' loops A where
  loops := h'.loops.trans h.loops
  enlarges := h.enlarges.trans h'.enlarges
  subset := List.Subset.trans h.subset h'.subset
  runs A hA hopens := by
    refine ⟨h.runs (hA.earlier h'.enlarges h'.subset) hopens, ?_⟩
    rw [← h.loops] at hopens ⊢
    exact h'.runs hA hopens

/-- Something else holds of the code. -/
theorem imp (h : s.Emits B vars s' vars' code)
    (himp : ∀ ⦃A : Activation⦄, A.Completes B s'.module vars' → A.Opens s.pass.loops →
      code s.pass.loops A → code' s.pass.loops A) : s.Emits B vars s' vars' code' :=
  { h with runs := fun _ hA hopens => himp hA hopens (h.runs hA hopens) }

/-- What is noted about nodes is no code. -/
theorem withPass {s₂ : Lowering} (h : s₁.Emits B vars s' vars' code)
    (hmodule : s₁.module = s.module) (hloops : s₁.pass.loops = s.pass.loops)
    (hmodule' : s₂.module = s'.module) (hloops' : s₂.pass.loops = s'.pass.loops) :
    s.Emits B vars s₂ vars' code where
  loops := hloops'.trans (h.loops.trans hloops)
  enlarges := by
    rw [hmodule', ← hmodule]
    exact h.enlarges
  subset := h.subset
  runs A hA hopens := by
    rw [hmodule'] at hA
    rw [← hloops] at hopens ⊢
    exact h.runs hA hopens

/-- The code of a body of a loop or switch. -/
theorem withTargets {targets : JumpTargets} (h : Emits
      { s with pass := { s.pass with loops := targets :: s.pass.loops } } B vars s₁ vars' code)
    (hs' : s' = { s₁ with pass := { s₁.pass with
      loops := s₁.pass.loops.drop (s₁.pass.loops.length - s.pass.loops.length) } }) :
    s.Emits B vars s' vars' fun loops A =>
      (A.module.Opens targets.breakTo ∧ ∀ c ∈ targets.continueTo, A.module.Opens c) →
        code (targets :: loops) A := by
  subst hs'
  have hloops : s₁.pass.loops = targets :: s.pass.loops := h.loops
  exact ⟨by simp [hloops], h.enlarges, h.subset, fun A hA hopens htargets =>
    h.runs hA (List.forall_mem_cons.2 ⟨htargets, hopens⟩)⟩

end Lowering.Emits

/-! ### Steps -/

namespace Lowering.Hosts

variable {s s' : Lowering} {B : Body} {vars : List LocalVar} {later : List BlockId}
  {b c thenTo elseTo : BlockId} {k n : Nat} {name : String} {node : Node} {e : Expr}

/-- In a call the variables have the values of the store. -/
theorem agrees {A : Activation} {st : Store} {p : Point} (h : s.Hosts B vars later)
    (hA : vars ⊆ A.vars) (hmatches : A.Matches st p) : p.Agrees A.module s B.scope st.values :=
  Point.Matches.agrees hmatches fun y id hy hid =>
    let ⟨v, hv, hname⟩ := h.binds y id hy hid
    ⟨v, hA hv, hname⟩

/-- A block is made for later. -/
theorem appendBlock (h : s.Hosts B vars later) (hname : name ∉ Module.joinNames)
    (hrun : Lower.appendBlock name s = .ok (c, s')) :
    s'.Hosts B vars (c :: later) ∧ (∀ {b k}, s.GoesOnAt B b k → s'.GoesOnAt B b k) ∧
      s.Emits B vars s' vars fun _ A => A.module.Opens c := by
  have hprepares : s.Prepares c (· ∉ Module.joinNames) s' := h.placed.prepares hname hrun
  have hwrites : s.module.Writes [] s'.module := by
    rw [(Lower.appendBlock_eq_ok h.func hrun).2]
    exact Module.writes_withBlock [] s.module B.func.id name
  obtain ⟨d, hd, -⟩ := h.entry
  refine ⟨h.of_wired hrun hprepares.wired (hwrites.others _ List.not_mem_nil (Module.block_lt hd))
    hprepares.placed ?_ ?_, fun hat => ⟨hprepares.standsAt hat.standsAt, hat.ne⟩, ?_,
    hwrites.enlarges, List.Subset.refl _, fun A hA _ =>
      Module.IsTarget.enter hprepares.reserves.isVacant hA.enlarges.grows⟩
  · exact List.forall_mem_cons.2
      ⟨hprepares.reserves, fun c' hc' => (hprepares.others (h.reserves c' hc')).1⟩
  · exact List.nodup_cons.2 ⟨fun hc => (hprepares.others (h.reserves c hc)).2 rfl, h.nodup⟩
  · rw [hprepares.wired.same]

/-- Code goes on in the block that waits next. -/
theorem goOn (h : s.Hosts B vars (c :: later))
    (hrun : (liftM (Build.positionAtEnd c) : Lower Unit) s = .ok ((), s')) :
    s'.Hosts B vars later ∧ s'.GoesOnAt B c 0 ∧ s.Emits B vars s' vars fun _ _ => True := by
  obtain ⟨hc, hlater⟩ := List.forall_mem_cons.1 h.reserves
  obtain ⟨hne, hnodup⟩ := List.nodup_cons.1 h.nodup
  obtain ⟨hplaced, hwired, hmodule⟩ := hc.goOn h.placed hrun
  refine ⟨h.of_wired hrun hwired ?_ hplaced (fun c' hc' => ?_) hnodup, ⟨?_, ?_⟩, ?_, ?_,
    List.Subset.refl _, fun _ _ _ => trivial⟩
  · rw [hmodule]
    rfl
  · obtain ⟨hvacant, -, hroom⟩ := hlater c' hc'
    rw [hwired.same, hmodule]
    refine ⟨hvacant, ?_, hroom⟩
    rintro ⟨⟩
    exact hne hc'
  · rw [hmodule]
    exact hc.isVacant.standsAt
  · rintro rfl
    refine hc.room ?_
    unfold room
    rw [h.func]
    rfl
  · rw [hwired.same]
  · rw [hmodule]
    exact (Module.writes_withPosition [] s.module (some c)).enlarges

theorem terminate {x : Lower Unit} [Composed Elementary .inside x] [Stepwise x]
    (h : s.Hosts B vars later) (hat : s.GoesOnAt B b k) {t : Terminator} (hrun : x s = .ok ((), s'))
    (hend : s' = { s with module := s.module.withTerminator b t }) {code : Activation → Prop}
    (hcode : ∀ ⦃A : Activation⦄, (s.module.withTerminator b t).Grows A.module → code A) :
    s'.Hosts B vars later ∧ s.Emits B vars s' vars fun _ => code := by
  have hwrites : s.module.Writes [b] s'.module := by
    rw [hend]
    exact Module.writes_withTerminator hat.standsAt t
  refine ⟨h.of_same hrun ?_ (h.entry_of_writes hat.ne hwrites), ?_, hwrites.enlarges,
    List.Subset.refl _, fun A hA _ => hcode ?_⟩
  · rw [hend]
    exact s.same_withModule _
  · rw [hend]
  · rw [hend] at hA
    exact hA.enlarges.grows

theorem br (h : s.Hosts B vars later) (hat : s.GoesOnAt B b k)
    (hrun : (liftM (Build.br c) : Lower Unit) s = .ok ((), s')) :
    s'.Hosts B vars later ∧ s.Emits B vars s' vars fun _ A => A.Jumps b k c := by
  have hend := hrun
  obtain ⟨m, hbr, rfl⟩ := build_eq_ok_iff.1 hend
  cases (Build.setTerminator_of_standsAt hat.standsAt (.br c)).symm.trans hbr
  refine h.terminate hat hrun rfl ?_
  rintro A hgrows ⟨_, _, frame, state⟩ ⟨rfl, rfl⟩
  exact Point.leadsTo_of_grows hat.standsAt hgrows fun _ => Point.terminator_br

/-- A jump, as the block is open. -/
theorem brIfOpen (h : s.Hosts B vars later) (hat : s.GoesOnAt B b k)
    (hrun : Lower.brIfOpen c s = .ok ((), s')) :
    s'.Hosts B vars later ∧ s.Emits B vars s' vars fun _ A => A.Jumps b k c := by
  unfold Lower.brIfOpen at hrun
  rw [bind_of_ok (build_of_ok (Build.ask_of_ok hat.standsAt.currentBlockTerminated))] at hrun
  exact h.br hat hrun

theorem ret {u : ValueId} (h : s.Hosts B vars later) (hat : s.GoesOnAt B b k)
    (hrun : (liftM (Build.ret (some u)) : Lower Unit) s = .ok ((), s')) :
    s'.Hosts B vars later ∧ s.Emits B vars s' vars fun _ A => A.Returns b k u := by
  have hend := hrun
  obtain ⟨m, hret, rfl⟩ := build_eq_ok_iff.1 hend
  cases (Build.setTerminator_of_standsAt hat.standsAt (.ret (some u))).symm.trans hret
  refine h.terminate hat hrun rfl ?_
  rintro A hgrows ⟨_, _, frame, state⟩ x ⟨rfl, rfl⟩ ⟨w, hw, hdenotes⟩
  obtain ⟨d, hblock, hsize, hterm⟩ := Module.terminator_of_grows hat.standsAt hgrows
  refine ⟨w, .intro hblock hsize ?_, hdenotes⟩
  unfold Exec.terminator
  rw [hterm]
  exact Exec.bind_of_ok (Exec.operand_of_ok hw)

/-- Code has been written that branches on a truth value. -/
theorem of_branches {α : Type} {x : Lower α} [Composed Elementary .inside x] [Stepwise x] {a : α}
    {meaning : Module → Point → Option Bool → Prop} (h : s.Hosts B vars later)
    (hat : s.GoesOnAt B b k) (hrun : x s = .ok (a, s'))
    (hbranches : s.Branches b k s' thenTo elseTo meaning) :
    s'.Hosts B vars later ∧ s.Emits B vars s' vars fun _ A =>
      ∀ ⦃p o⦄, p.At b k → meaning A.module p o →
        p.Yields A.module A.call A.name s.module.values.size (if o.getD true then thenTo else elseTo)
          0 o fun _ _ => True := by
  refine ⟨h.of_same hrun hbranches.same (h.entry_of_writes hat.ne hbranches.writes), ?_,
    hbranches.writes.enlarges, List.Subset.refl _, fun A hA _ p o hp hmeaning => ?_⟩
  · rw [hbranches.same.pass]
  · exact hbranches.runs hA.enlarges.grows hp.block hp.next hmeaning

theorem condition (h : s.Hosts B vars later) (hat : s.GoesOnAt B b k)
    (hspelled : e.Spelled B.scope node) (hthen : thenTo ∈ later) (helse : elseTo ∈ later)
    (hrun : (Recur.within n).condition (some node) thenTo elseTo s = .ok ((), s'))
    (hclean : s'.context.errorCount = 0) :
    s'.Hosts B vars later ∧ s.Emits B vars s' vars fun _ A =>
      A.Tests s.module.values.size b k thenTo elseTo fun ρ => (e.eval ρ).map Scalar.truth := by
  obtain ⟨hthen, hthenNe⟩ := h.isTarget hat hthen
  obtain ⟨helse, helseNe⟩ := h.isTarget hat helse
  have hbranches := ((Recur.handles_within n).decides e).branches hspelled h.ready hat.standsAt
    hthen helse hthenNe helseNe hrun hclean
  obtain ⟨h', hemits⟩ := h.of_branches hat hrun hbranches
  refine ⟨h', hemits.imp fun A hA _ hruns st p hp hmatches => hruns hp ?_⟩
  exact ⟨_, h.agrees (List.Subset.trans hemits.subset hA.subset) hmatches, rfl⟩

/-- Code has been written that computes a value from those of the variables. -/
theorem of_operates {α : Type} {x : Lower α} [Composed Elementary .inside x] [Stepwise x] {a : α}
    {b' : BlockId} {k' : Nat} {v : ValueId} {t : ScalarType} {f : Valuation → Option Scalar}
    (h : s.Hosts B vars later) (hat : s.GoesOnAt B b k) (hrun : x s = .ok (a, s'))
    (hoperates : s.Operates b k s' b' k' (.ofValue v) t fun M p o =>
      ∃ ρ, p.Agrees M s B.scope ρ ∧ o = f ρ) :
    s'.Hosts B vars later ∧ s'.GoesOnAt B b' k' ∧ s'.module.IsScalar v t ∧
      s.Emits B vars s' vars fun _ A => A.Computes s.module.values.size b k b' k' f
        fun x q => x.ty = t ∧ q.Carries A.module v x := by
  refine ⟨h.of_same hrun hoperates.same (h.entry_of_writes hat.ne hoperates.piece.writes),
    h.goesOnAt_of_piece hat hoperates.piece, hoperates.operand, ?_,
    hoperates.piece.writes.enlarges, List.Subset.refl _, fun A hA _ st p hp hmatches => ?_⟩
  · rw [hoperates.same.pass]
  · exact hoperates.runs hA.enlarges.grows hp.block hp.next ⟨_, h.agrees hA.subset hmatches, rfl⟩

end Lowering.Hosts

end SsaCompiler
