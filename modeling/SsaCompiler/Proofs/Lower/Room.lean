/-
# Room for variables is made where control never returns

Lowering asks for room on the stack in the middle of expressions and inside of loops, and makes it in
the first block of the function. That block bears a name that no other block of a function has, and
control is sent to blocks of other names only. So whatever is lowered, and whatever is reported on the
way, no block that makes room is the successor of a block.

The names are what the proof follows through lowering. The blocks to which a computation may send
control, those to which jumps and exceptions around it lead and those in which it may make room are
parts of its leeway, and a state that grants the leeway knows their names. Outside of functions there
is no block at all in which code could go on, and room that is asked for there is set aside.
-/

import SsaCompiler.Proofs.Lower.Diagnostics
import SsaCompiler.Proofs.Lower.Position

namespace SsaCompiler

/-! ### Blocks and their names -/

namespace Module

variable {m m' : Module} {b c : BlockId}

/-- A block that may make room, as its name says. -/
def IsEntry (m : Module) (b : BlockId) : Prop := ∃ d, m.block b = .ok d ∧ d.name = "entry"

/-- A block to which control may be sent. -/
def IsGoal (m : Module) (b : BlockId) : Prop := ∃ d, m.block b = .ok d ∧ d.name ≠ "entry"

/-- An instruction that makes room on the stack. -/
def IsSlot (m : Module) (v : ValueId) : Prop :=
  ∃ ty elem, m.value v = .ok ⟨ty, .instr (.alloca elem)⟩

/-- It comes about in the way in which room comes about. -/
theorem IsSlot.comesFrom {v : ValueId} (h : m.IsSlot v) : m.comesFrom ValueDef.isSlot v = true := by
  obtain ⟨ty, elem, hv⟩ := h
  rw [Module.comesFrom, Checked.at_eq_ok_iff.1 hv]
  rfl

/-- Room is made in blocks of one name, and control is sent to blocks of other names. -/
structure GuardsEntries (m : Module) : Prop where
  listed : m.ListsValues
  slots : ∀ {b v}, v ∈ m.codeOf ValueDef.isSlot b → m.IsEntry b
  ends : ∀ {b t}, (m.code b).2 = some t → ∀ c ∈ t.successors, m.IsGoal c

theorem IsGoal.not_isEntry (h : m.IsGoal b) : ¬ m.IsEntry b := by
  rintro ⟨d, hd, hentry⟩
  obtain ⟨d', hd', hgoal⟩ := h
  cases hd.symm.trans hd'
  exact hgoal hentry

theorem GrowsLoosely.isEntry (h : m.GrowsLoosely m') (hb : m.IsEntry b) : m'.IsEntry b := by
  obtain ⟨d, hd, hname⟩ := hb
  obtain ⟨d', hd', hmore⟩ := h.blocks hd
  exact ⟨d', hd', hmore.name.trans hname⟩

theorem GrowsLoosely.isGoal (h : m.GrowsLoosely m') (hb : m.IsGoal b) : m'.IsGoal b := by
  obtain ⟨d, hd, hname⟩ := hb
  obtain ⟨d', hd', hmore⟩ := h.blocks hd
  exact ⟨d', hd', hmore.name ▸ hname⟩

/-- A new block has the name that was asked for. -/
theorem name_of_appendBlock {f : FunctionId} {name : String}
    (h : Build.appendBlock f name m = .ok (b, m')) : ∃ d, m'.block b = .ok d ∧ d.name = name := by
  obtain ⟨d, m₁, hf, hend⟩ := bind_eq_ok_iff.1 h
  obtain ⟨-, rfl⟩ := Build.ask_eq_ok_iff.1 hf
  cases hend
  exact ⟨⟨name, f, #[], none⟩, Checked.at_push_size _ _, rfl⟩

/-- An instruction in the code of a block is listed by it. -/
theorem exists_of_mem_code {v : ValueId} (h : v ∈ (m.code b).1) :
    ∃ d, m.block b = .ok d ∧ v ∈ d.instrs := by
  unfold code at h
  cases hget : m.blocks[b.index]? with
  | none => simp [hget] at h
  | some d => exact ⟨d, Checked.at_eq_ok_iff.2 hget, by simpa [hget] using h⟩

/-- A block lists each of its instructions once. -/
theorem ListsValues.nodup_code (h : m.ListsValues) (b : BlockId) : (m.code b).1.toList.Nodup := by
  unfold code
  cases hget : m.blocks[b.index]? with
  | none => exact List.nodup_nil
  | some d => exact h.nodup (Checked.at_eq_ok_iff.2 hget)

/-- A value that is there comes about in the way in which it came about before. -/
theorem GrowsLoosely.comesFrom (h : m.GrowsLoosely m') {v : ValueId} {e : ValueData}
    (hv : m.value v = .ok e) (p : ValueDef → Bool) : m'.comesFrom p v = m.comesFrom p v := by
  rw [Module.comesFrom, Module.comesFrom, Checked.at_eq_ok_iff.1 hv,
    Checked.at_eq_ok_iff.1 (h.values hv)]

namespace GuardsEntries

/-- Room is not made where control may be sent. -/
theorem not_isSlot (hm : m.GuardsEntries) (hb : m.IsGoal b) {v : ValueId} (hv : v ∈ (m.code b).1) :
    ¬ m.IsSlot v := fun hslot =>
  hb.not_isEntry (hm.slots (List.mem_filter.2 ⟨Array.mem_toList_iff.2 hv, hslot.comesFrom⟩))

/-- Instructions that come to blocks that may make room, and to no others. -/
theorem of_code (hm : m.GuardsEntries) (hmore : m.GrowsLoosely m')
    (hcode : ∀ c, ¬ m.IsEntry c → (m'.code c).1 = (m.code c).1)
    (hends : ∀ c, (m'.code c).2 = (m.code c).2) : m'.GuardsEntries where
  listed := hmore.listed hm.listed
  slots {c v} hv := by
    by_cases hentry : m.IsEntry c
    · exact hmore.isEntry hentry
    · unfold codeOf at hv
      rw [hcode c hentry] at hv
      obtain ⟨hmem, hslot⟩ := List.mem_filter.1 hv
      obtain ⟨d, hd, hlisted⟩ := exists_of_mem_code (Array.mem_toList_iff.1 hmem)
      obtain ⟨e, he⟩ := hm.listed.value hd hlisted
      rw [hmore.comesFrom he] at hslot
      exact hmore.isEntry (hm.slots (List.mem_filter.2 ⟨hmem, hslot⟩))
  ends {c t} ht := by
    rw [hends c] at ht
    exact fun b hb => hmore.isGoal (hm.ends ht b hb)

/-- A module with the same code. -/
theorem of_same (hm : m.GuardsEntries) (hmore : m.GrowsLoosely m') (hcode : m'.code = m.code) :
    m'.GuardsEntries :=
  hm.of_code hmore (fun c _ => by rw [hcode]) fun c => by rw [hcode]

/-- A request that makes no room and sends control where it may. -/
theorem of_sendsTo {α : Type} {B : Set BlockId} {x : Build α} [x.GrowsLoosely] [hx : x.SendsTo B]
    {a : α} (hm : m.GuardsEntries) (hB : ∀ b ∈ B, m.IsGoal b) (h : x m = .ok (a, m')) :
    m'.GuardsEntries := by
  have hmore : m.GrowsLoosely m' := Build.GrowsLoosely.later h
  refine ⟨hmore.listed hm.listed, fun {b v} hv => ?_, fun {b t} ht c hc => ?_⟩
  · rw [hx.slots h] at hv
    exact hmore.isEntry (hm.slots hv)
  · rcases hx.ends h ht with hbefore | htargets
    · exact hmore.isGoal (hm.ends hbefore c hc)
    · exact hmore.isGoal (hB c (htargets c hc))

/-- Room that is made where it may be. -/
theorem alloca (hm : m.GuardsEntries) (hhere : ∀ b, m.position = some b → m.IsEntry b) {ty : TypeId}
    {v : ValueId} (h : Build.alloca ty m = .ok (v, m')) : m'.GuardsEntries := by
  obtain ⟨ptrTy, m₁, hty, hpush⟩ := bind_eq_ok_iff.1 h
  have hm₁ : m₁.GuardsEntries := hm.of_sendsTo (fun _ hb => absurd hb (Set.notMem_empty _)) hty
  have hposition : m₁.position = m.position := Build.Preserves.same hty
  have hmore₁ : m.GrowsLoosely m₁ := Build.GrowsLoosely.later hty
  have hmore : m₁.GrowsLoosely m' := (Build.evolves_pushInstr hpush).growsLoosely
  rw [Build.pushInstr_run] at hpush
  split at hpush
  · rename_i b hb _
    cases hpush
    refine hm₁.of_code hmore (fun c hc => ?_) fun c => code_withInstr_snd m₁ b c ptrTy _
    have hne : c ≠ b := by
      rintro rfl
      exact hc (hmore₁.isEntry (hhere c (hposition.symm.trans hb)))
    have hblocks : (m₁.withInstr b ptrTy (.alloca ty)).blocks = m₁.blocks.modify b.index fun block =>
        { block with instrs := block.instrs.push m₁.nextValue } := rfl
    rw [code_modify_ne hne hblocks]
  · cases hpush
    exact hm₁.of_same hmore rfl
  · cases hpush
    exact hm₁.of_same hmore rfl
  · cases hpush

end GuardsEntries

end Module

/-! ### States that grant a leeway -/

/-- The blocks to which jumps and exceptions lead are known from the loops and tries. -/
theorem Pass.aims_congr {p p' : Pass} (hloops : p'.loops = p.loops) (htries : p'.tries = p.tries) :
    p'.aims = p.aims := by
  unfold Pass.aims
  rw [hloops, htries]

/-- Code is written with another leeway that writes code and changes variables alike. -/
theorem Leeway.Writes.of_isSome {L L' : Leeway} (h : L'.Writes) (hbinds : L'.binds = L.binds)
    (hblocks : L'.blocks.isSome = L.blocks.isSome) : L.Writes where
  binds := hbinds ▸ h.binds
  blocks := hblocks ▸ h.blocks

namespace Lowering

variable {L : Leeway} {s s' s'' : Lowering} {b : BlockId}

/-- A state in which a computation may use its leeway. The blocks to which it may send control and
those in which it may make room have the right names. Outside of functions code goes on nowhere. -/
structure Grants (L : Leeway) (s : Lowering) : Prop where
  guards : s.module.GuardsEntries
  aims : ∀ b ∈ s.pass.aims, s.module.IsGoal b
  room : ∀ f, s.pass.func = some f → s.module.IsEntry f.allocaBlock
  tries : s.pass.func = none → s.pass.tries = []
  targets : ∀ b ∈ L.targets, s.module.IsGoal b
  entries : ∀ b ∈ L.entries, s.module.IsEntry b
  atEntry : L.atEntry = true →
    L.blocks = none ∧ ∀ b, s.module.position = some b → s.module.IsEntry b
  inBody : L.inBody = true → s.pass.func.isSome
  outside : s.pass.func = none → L.Writes →
    s.module.position = none ∧ L.apart = false ∧ ∀ b, ¬ L.Offers b

/-- What a computation leaves behind that keeps to its leeway: control is still not sent where room is
made, and outside of functions code still goes on nowhere. -/
structure Respects (L : Leeway) (s s' : Lowering) : Prop where
  guards : s'.module.GuardsEntries
  outside : s.pass.func = none → L.Writes → s'.module.position = none

/-- Code goes on where it was. -/
theorem Respects.of_position (hs : s.Grants L) (hm : s'.module.GuardsEntries)
    (hposition : s'.module.position = s.module.position) : s.Respects L s' :=
  ⟨hm, fun hfunc hL => hposition.trans (hs.outside hfunc hL).1⟩

theorem Respects.of_module (hs : s.Grants L) (h : s'.module = s.module) : s.Respects L s' :=
  .of_position hs (h ▸ hs.guards) (congrArg Module.position h)

/-- Code of a function, whose state says so. -/
theorem Respects.of_isSome (hm : s'.module.GuardsEntries) (h : s.pass.func.isSome) :
    s.Respects L s' := by
  refine ⟨hm, fun hnone => ?_⟩
  rw [hnone] at h
  cases h

namespace Grants

/-- Behind a computation that keeps to its leeway the same leeway is granted. -/
theorem after (hs : s.Grants L) (hlater : s.Later s') (hkeeps : s.Keeps L s')
    (h : s.Respects L s') : s'.Grants L where
  guards := h.guards
  aims b hb := by
    rw [Pass.aims_congr hlater.loops hlater.tries] at hb
    exact hlater.module.isGoal (hs.aims b hb)
  room f hf := hlater.module.isEntry (hs.room f (hlater.func.symm.trans hf))
  tries hfunc := hlater.tries.trans (hs.tries (hlater.func.symm.trans hfunc))
  targets b hb := hlater.module.isGoal (hs.targets b hb)
  entries b hb := hlater.module.isEntry (hs.entries b hb)
  atEntry hL := by
    obtain ⟨hblocks, hentry⟩ := hs.atEntry hL
    refine ⟨hblocks, fun b hb => ?_⟩
    rw [hkeeps.position hblocks] at hb
    exact hlater.module.isEntry (hentry b hb)
  inBody hL := by
    rw [hlater.func]
    exact hs.inBody hL
  outside hfunc hL := by
    have hbefore := hlater.func.symm.trans hfunc
    exact ⟨h.outside hbefore hL, (hs.outside hbefore hL).2⟩

/-- Control may be sent to one more block, and code may go on there. -/
theorem offering (hs : s.Grants L) (hb : s.module.IsGoal b)
    (hinside : s.pass.func = none → ¬ L.Writes) : s.Grants (L.offering b) :=
  { hs with
    targets := by
      rintro c (rfl | hc)
      · exact hb
      · exact hs.targets c hc
    atEntry := fun hL => ⟨by rw [Leeway.offering, (hs.atEntry hL).1]; rfl, (hs.atEntry hL).2⟩
    outside := fun hfunc hL => (hinside hfunc (hL.of_isSome rfl Option.isSome_map)).elim }

/-- One more block may make room. -/
theorem entering (hs : s.Grants L) (hb : s.module.IsEntry b)
    (hinside : s.pass.func = none → ¬ L.Writes) : s.Grants (L.entering b) :=
  { hs with
    entries := by
      rintro c (rfl | hc)
      · exact hb
      · exact hs.entries c hc
    atEntry := fun hL => ⟨by rw [Leeway.entering, (hs.atEntry hL).1]; rfl, (hs.atEntry hL).2⟩
    outside := fun hfunc hL => (hinside hfunc (hL.of_isSome rfl Option.isSome_map)).elim }

/-- Control may be sent where jumps and exceptions lead. -/
theorem toward (hs : s.Grants L) : s.Grants (L.toward s.pass) :=
  { hs with
    targets := by
      rintro c (hc | hc)
      · exact hs.targets c hc
      · exact hs.aims c hc
    inBody := by
      intro hL
      cases hfunc : s.pass.func with
      | some f => rfl
      | none =>
          have hbody : L.inBody = true := by simpa [Leeway.toward, hs.tries hfunc] using hL
          rw [← hfunc]
          exact hs.inBody hbody
    outside := by
      intro hfunc hL
      obtain ⟨hposition, hapart, hoffers⟩ := hs.outside hfunc (hL.of_isSome rfl rfl)
      exact ⟨hposition, hapart, fun b hb => hoffers b ⟨hb.mem, hb.blocks⟩⟩ }

/-- The exceptions that are collected do not matter. -/
theorem withThrows (hs : s.Grants L) (throws : List ThrowSet) :
    Grants L { s with pass := { s.pass with throwStack := throws } } := { hs with }

/-- A jump leads where control may be sent. -/
theorem withTargets (hs : s.Grants L) {t : JumpTargets} (ht : t.aims ⊆ L.targets) :
    Grants L { s with pass := { s.pass with loops := t :: s.pass.loops } } :=
  { hs with
    aims := by
      rintro b (⟨u, hu, hb⟩ | htries)
      · rcases List.mem_cons.1 hu with rfl | hu
        · exact hs.targets b (ht hb)
        · exact hs.aims b (.inl ⟨u, hu, hb⟩)
      · exact hs.aims b (.inr htries) }

theorem withTry (hs : s.Grants L) (hL : L.InBody) {frame : TryFrame} (hframe : frame.aims ⊆ L.targets)
    (throws : List ThrowSet) : Grants L { s with
      pass := { s.pass with tries := frame :: s.pass.tries, throwStack := throws } } :=
  { hs with
    aims := by
      rintro b (hloops | ⟨g, hg, hb⟩)
      · exact hs.aims b (.inl hloops)
      · rcases List.mem_cons.1 hg with rfl | hg
        · exact hs.targets b (hframe hb)
        · exact hs.aims b (.inr ⟨g, hg, hb⟩)
    tries := fun hnone => by
      have hfunc := hs.inBody hL.inBody
      rw [show s.pass.func = none from hnone] at hfunc
      cases hfunc }

/-- What is written belongs to the current function. -/
theorem ofBody (hs : s.Grants L) (hfunc : s.pass.func.isSome) : s.Grants L.ofBody :=
  { hs with
    inBody := fun _ => hfunc
    outside := fun hnone _ => by rw [hnone] at hfunc; cases hfunc }

/-- Code goes on where room may be made. -/
theorem makingRoom (hs : s.Grants L) (hhere : ∀ b, s.module.position = some b → s.module.IsEntry b) :
    s.Grants L.makingRoom :=
  { hs with
    atEntry := fun _ => ⟨rfl, hhere⟩
    outside := fun _ hL => by cases hL.blocks }

/-- Outside of functions code that is written apart changes no variables. -/
theorem not_writes (hs : s.Grants L) (hL : L.IsApart) (hfunc : s.pass.func = none) :
    ¬ L.Writes := fun hwrites => by
  cases hL.apart.symm.trans (hs.outside hfunc hwrites).2.1

/-- Code is written apart from the code around it. -/
theorem elsewhere (hs : s.Grants L) : s.Grants L.elsewhere :=
  { hs with
    atEntry := fun hL => by cases hL
    outside := fun _ hL => by cases hL.binds }

/-- The body of a function, around which there are neither loops nor tries, with a block to make room
and one to start in. -/
theorem inFunction {f : FunctionState} {a : BlockId} (hs : s.Grants L) (hf : f.allocaBlock = a)
    (hentry : s.module.IsEntry a) (hstart : s.module.IsGoal b) (c : Context) :
    Grants ((L.inFunction.entering a).offering b) { s with
      context := c, pass := { s.pass with func := some f, loops := [], tries := [] } } := by
  have hbody : Grants L.inFunction { s with
      context := c, pass := { s.pass with func := some f, loops := [], tries := [] } } :=
    { hs with
      aims := by simp [Pass.aims]
      room := fun g hg => by
        cases hg
        exact hf ▸ hentry
      tries := fun _ => rfl
      atEntry := fun hL => by cases hL
      inBody := fun _ => rfl
      outside := fun hfunc _ => by cases hfunc }
  exact (hbody.entering hentry fun hfunc => by cases hfunc).offering hstart
    fun hfunc => by cases hfunc

/-- A walk of its own starts outside of functions and goes on nowhere. -/
theorem asNewPass (hs : s.Grants L) (names : Names) (this : Name) :
    Grants L.nowhere { s with names := names, pass := .new this } :=
  { hs with
    aims := by simp [Pass.aims, Pass.new]
    room := fun g hg => by cases hg
    tries := fun _ => rfl
    atEntry := fun hL => by cases hL
    inBody := fun hL => by cases hL
    outside := fun _ hL => by cases hL.blocks }

end Grants

end Lowering

/-! ### Lowering -/

namespace Lower

variable {α : Type} {L : Leeway} {s s' : Lowering} {x : Lower α} {a : α}

/-- A request that makes no room and sends control where it may. -/
theorem respects_of_sendsTo {y : Build α} [y.GrowsLoosely] [y.SendsTo L.targets]
    (hs : s.Grants L) (hposition : ∀ {m}, y s.module = .ok (a, m) → m.position = s.module.position)
    (h : (liftM y : Lower α) s = .ok (a, s')) : s.Respects L s' := by
  obtain ⟨m, hrun, rfl⟩ := build_eq_ok_iff.1 h
  exact .of_position hs (hs.guards.of_sendsTo hs.targets hrun) (hposition hrun)

/-- A step of lowering keeps to its leeway. -/
theorem respects_of_elementary (hx : Elementary L α x) (hs : s.Grants L) (h : x s = .ok (a, s')) :
    s.Respects L s' := by
  cases hx with
  | still y hy hlocal hends =>
      exact respects_of_sendsTo hs (fun hrun => congrArg Prod.fst (hlocal.same hrun)) h
  | alloca ty hL =>
      obtain ⟨m, hrun, rfl⟩ := build_eq_ok_iff.1 h
      exact .of_position hs (hs.guards.alloca (hs.atEntry hL.atEntry).2 hrun) (Build.Preserves.same hrun)
  | choose b hb ty incoming =>
      obtain ⟨m, hrun, rfl⟩ := build_eq_ok_iff.1 h
      have hsends : (choose b ty incoming).SendsTo L.targets := by
        unfold choose
        infer_instance
      refine ⟨hs.guards.of_sendsTo hs.targets hrun, fun hfunc hL => ?_⟩
      exact absurd hb ((hs.outside hfunc hL).2.2 b)
  | entryAlloca ty hL =>
      obtain ⟨m, hrun, rfl⟩ := entryAlloca_eq_ok h
      have hposition : m.position = (s.pass.func.map (·.allocaBlock)).or s.module.position :=
        Build.Preserves.same hrun
      have hgo (p : Option BlockId) (m : Module) (hm : m.GuardsEntries) :
          ({ m with position := p } : Module).GuardsEntries :=
        hm.of_same (Module.growsLoosely_withPosition m p) rfl
      cases hfunc : s.pass.func with
      | none =>
          obtain ⟨hnone, -⟩ := hs.outside hfunc hL
          rw [hfunc, hnone] at hrun hposition
          refine ⟨hgo _ m (Module.GuardsEntries.alloca (hgo _ _ hs.guards) ?_ hrun), fun _ _ => ?_⟩
          · intro b hb
            cases hb
          · rw [hnone, hposition]
            rfl
      | some f =>
          rw [hfunc] at hrun
          refine .of_isSome (hgo _ m (Module.GuardsEntries.alloca (hgo _ _ hs.guards) ?_ hrun)) ?_
          · intro b hb
            cases hb
            exact hs.room f hfunc
          · rw [hfunc]
            rfl
  | modifyContext | modifyPass =>
      cases h
      exact .of_module hs rfl

/-- Code may go on in another block only inside of functions. -/
theorem respects_of_goOn {b : BlockId} (hb : L.Offers b) (hs : s.Grants L) {u : Unit}
    (h : (liftM (Build.positionAtEnd b) : Lower Unit) s = .ok (u, s')) : s.Respects L s' := by
  cases h
  refine ⟨hs.guards.of_same (Module.growsLoosely_withPosition _ _) rfl, fun hfunc hL => ?_⟩
  exact absurd hb ((hs.outside hfunc hL).2.2 b)

/-- A new block has its name, and control is sent nowhere else. -/
theorem respects_of_newBlock {f : FunctionId} {name : String} {b : BlockId} (hs : s.Grants L)
    (h : (liftM (Build.appendBlock f name) : Lower BlockId) s = .ok (b, s')) :
    s.Respects L s' ∧ s'.Grants L ∧ ∃ d, s'.module.block b = .ok d ∧ d.name = name := by
  have hrespects := respects_of_sendsTo hs Build.Preserves.same h
  refine ⟨hrespects, hs.after (later_of_build h) (keeps_of_still h) hrespects, ?_⟩
  obtain ⟨m, hrun, rfl⟩ := build_eq_ok_iff.1 h
  exact Module.name_of_appendBlock hrun

theorem respects_of_appendBlock {name : String} {b : BlockId} (hs : s.Grants L)
    (h : appendBlock name s = .ok (b, s')) :
    s.Respects L s' ∧ s'.Grants L ∧ ∃ d, s'.module.block b = .ok d ∧ d.name = name := by
  unfold appendBlock at h
  rw [bind_of_ok (func_apply s)] at h
  cases hfunc : s.pass.func with
  | some f =>
      rw [hfunc] at h
      exact respects_of_newBlock hs h
  | none =>
      rw [hfunc] at h
      obtain ⟨g, s₁, hask, h⟩ := bind_eq_ok_iff.1 h
      rw [pure_bind] at h
      obtain ⟨m, hrun, rfl⟩ := build_eq_ok_iff.1 hask
      obtain ⟨-, rfl⟩ := Build.ask_eq_ok_iff.1 hrun
      exact respects_of_newBlock hs h

/-- Whatever is put together from the steps of lowering keeps to its leeway. -/
theorem Composed.respects (hx : Composed Elementary L x) (hs : s.Grants L)
    (h : x s = .ok (a, s')) : s.Respects L s' := by
  induction hx generalizing s s' with
  | part hx => exact respects_of_elementary hx hs h
  | pure | ask | intern | report | note =>
      cases h
      exact .of_module hs rfl
  | seq hx hf ihx ihf =>
      obtain ⟨b, s₁, hfirst, hrest⟩ := bind_eq_ok_iff.1 h
      have hfirst' := ihx hs hfirst
      have hlater := hx.later_of hfirst
      have hrest' := ihf b (hs.after hlater (hx.keeps hfirst) hfirst') hrest
      exact ⟨hrest'.guards, fun hfunc => hrest'.outside (hlater.func.trans hfunc)⟩
  | check c =>
      cases c with
      | error e => cases h
      | ok a =>
          cases h
          exact .of_module hs rfl
  | outer _ _ ih =>
      have hinside := ih s hs.toward (get_eq_ok h)
      exact ⟨hinside.guards, fun hfunc _ => hinside.outside hfunc inferInstance⟩
  | within _ _ ihx ihy =>
      rcases ifOutside_eq_ok h with ⟨-, h⟩ | ⟨hfunc, h⟩
      · exact ihx hs h
      · exact .of_isSome (ihy (hs.ofBody hfunc) h).guards hfunc
  | goOn b hb => exact respects_of_goOn hb hs h
  | enter b hb hentry _ ih =>
      obtain ⟨⟨⟩, s₁, hgo, hrest⟩ := bind_eq_ok_iff.1 h
      have hs₁ := hs.after (later_of_build hgo) (keeps_of_goOn hb hgo) (respects_of_goOn hb hs hgo)
      refine ⟨(ih (hs₁.makingRoom fun c hc => ?_) hrest).guards, fun hfunc hL => ?_⟩
      · cases hgo
        cases hc
        exact hs.entries b hentry.mem
      · exact absurd hb ((hs.outside hfunc hL).2.2 b)
  | @fresh L _ hL name hname f hf ih =>
      obtain ⟨b, s₁, hblock, hrest⟩ := bind_eq_ok_iff.1 h
      have hfunc : s.pass.func.isSome := hs.inBody hL.inBody
      obtain ⟨-, hs₁, d, hd, rfl⟩ := respects_of_appendBlock hs hblock
      refine .of_isSome (ih b (hs₁.offering ⟨d, hd, hname⟩ fun hnone _ => ?_) hrest).guards hfunc
      rw [← (later_of_appendBlock hblock).func, hnone] at hfunc
      cases hfunc
  | freshIn hL g name hname _ ih =>
      obtain ⟨b, s₁, hblock, hrest⟩ := bind_eq_ok_iff.1 h
      obtain ⟨-, hs₁, d, hd, rfl⟩ := respects_of_newBlock hs hblock
      have hinside := ih b (hs₁.offering ⟨d, hd, hname⟩ (hs₁.not_writes hL)) hrest
      exact ⟨hinside.guards, fun hfunc hwrites => absurd hwrites (hs.not_writes hL hfunc)⟩
  | entryIn hL g _ ih =>
      obtain ⟨b, s₁, hblock, hrest⟩ := bind_eq_ok_iff.1 h
      obtain ⟨-, hs₁, hentry⟩ := respects_of_newBlock hs hblock
      have hinside := ih b (hs₁.entering hentry (hs₁.not_writes hL)) hrest
      exact ⟨hinside.guards, fun hfunc hwrites => absurd hwrites (hs.not_writes hL hfunc)⟩
  | comingBack _ ih =>
      obtain ⟨⟨⟩, s₁, hx, hback⟩ := bind_eq_ok_iff.1 (comingBack_apply _ s ▸ h)
      cases hback
      have hgo := Module.growsLoosely_withPosition s₁.module s.module.position
      exact .of_position hs ((ih hs.elsewhere hx).guards.of_same hgo rfl) rfl
  | demand _ _ ih =>
      obtain ⟨s₁, hx, rfl | ⟨-, hreport⟩⟩ := demand_eq_ok h
      · exact ih hs hx
      · cases hreport
        exact ⟨(ih hs hx).guards, (ih hs hx).outside⟩
  | collecting _ ih =>
      obtain ⟨s₁, hrun, -, rfl⟩ := collecting_eq_ok h
      have hinside := ih (hs.withThrows _) hrun
      exact ⟨hinside.guards, hinside.outside⟩
  | withTargets _ htargets _ ih =>
      obtain ⟨s₁, hrun, rfl⟩ := withTargets_eq_ok h
      have hinside := ih (hs.withTargets htargets) hrun
      exact ⟨hinside.guards, hinside.outside⟩
  | @withTry L hL _ hframe _ _ ih =>
      obtain ⟨s₁, hrun, -, rfl⟩ := withTry_eq_ok h
      have hinside := ih (hs.withTry hL hframe _) hrun
      exact ⟨hinside.guards, hinside.outside⟩
  | withBody g hf _ ih =>
      obtain ⟨a, s₁, ha, h⟩ := bind_eq_ok_iff.1 h
      obtain ⟨b, s₂, hb, h⟩ := bind_eq_ok_iff.1 h
      obtain ⟨-, hs₁, hentry⟩ := respects_of_newBlock hs ha
      obtain ⟨hrespects', hs₂, d, hd, hname⟩ := respects_of_newBlock hs₁ hb
      obtain ⟨s₃, fatal, hrun, rfl, -⟩ := inFunction_eq_ok h
      have hinside := ih a b (hs₂.inFunction (hf a) ((later_of_build hb).module.isEntry hentry)
        ⟨d, hd, by simp [hname]⟩ _) hrun
      refine ⟨hinside.guards.of_same (Module.growsLoosely_withPosition _ _) rfl, fun hfunc hL => ?_⟩
      exact hrespects'.outside ((later_of_build ha).func.trans hfunc) hL
  | asNewPass hx ih =>
      obtain ⟨s₁, hrun, rfl⟩ := asNewPass_eq_ok h
      have hinside := ih (hs.asNewPass _ _) hrun
      exact .of_position hs hinside.guards ((hx.keeps hrun).position rfl)

end Lower

/-! ### Compilations -/

/-- Outside of functions no block is known, and there are no variables but those of the module. -/
def Leeway.outside : Leeway where
  blocks := some ∅
  apart := false
  binds := true
  operators := ∅
  targets := ∅
  entries := ∅
  atEntry := false
  inBody := false

instance : Leeway.outside.Writes where
  binds := rfl
  blocks := rfl

namespace Compilation

open Lower

variable {c c' : Compilation}

/-- Between two trees code goes on nowhere, and control is not sent where room is made. -/
structure IsGuarded (c : Compilation) : Prop where
  entries : c.module.GuardsEntries
  position : c.module.position = none

theorem isGuarded_new (options : LowerOptions) (moduleName : String) :
    (new options moduleName).IsGuarded := by
  have hcode (b : BlockId) : (Module.new moduleName).code b = (#[], none) := rfl
  refine ⟨⟨?_, fun {b v} hv => ?_, fun {b t} ht => ?_⟩, rfl⟩
  · constructor <;> intro b d <;> intros <;> contradiction
  · exact absurd hv (by simp [Module.codeOf, new, hcode])
  · cases ht

/-- A walk of its own starts with nothing around it. -/
theorem IsGuarded.grants (hc : c.IsGuarded) (names : Names) (this : Name) :
    Lowering.Grants .outside ⟨c.context, names, c.module, .new this⟩ where
  guards := hc.entries
  aims := by simp [Pass.aims, Pass.new]
  room f hf := by cases hf
  tries _ := rfl
  targets b hb := absurd hb (Set.notMem_empty b)
  entries b hb := absurd hb (Set.notMem_empty b)
  atEntry hL := by cases hL
  inBody hL := by cases hL
  outside _ _ := ⟨hc.position, rfl, fun b hb => Set.notMem_empty b (hb.mem rfl)⟩

/-- A walk sends control only where no room is made. -/
theorem IsGuarded.walk {α : Type} {body : Lower α} [hbody : Composed Elementary .outside body] {a : α}
    {result : Except InternalError (Table Nat ThrowSet)} (hc : c.IsGuarded)
    (h : c.walk body = .ok (a, result, c')) : c'.IsGuarded := by
  let start : Lowering :=
    ⟨c.context, (c.names.intern "this").2, c.module, .new (c.names.intern "this").1⟩
  change (body start >>= _) = _ at h
  obtain ⟨⟨a', s⟩, hrun, hend⟩ := answer_bind_eq_ok_iff.1 h
  cases hend
  have hrespects := hbody.respects (hc.grants _ _) hrun
  exact ⟨hrespects.guards, hrespects.outside rfl inferInstance⟩

theorem IsGuarded.lowerWithin {bound : Nat} {root : Option Node}
    {result : Except InternalError LowerOutcome} (hc : c.IsGuarded)
    (h : c.lowerWithin bound root = .ok (result, c')) : c'.IsGuarded := by
  obtain ⟨⟨⟨⟩, nodeThrows, c₁⟩, hwalk, hend⟩ := answer_bind_eq_ok_iff.1 h
  have hc₁ := hc.walk hwalk
  cases nodeThrows <;> cases hend <;> exact ⟨hc₁.entries, hc₁.position⟩

/-- However many trees have been lowered, control is not sent where room is made. -/
theorem IsBuilt.isGuarded (h : c.IsBuilt) : c.IsGuarded := by
  induction h with
  | new options moduleName => exact isGuarded_new options moduleName
  | read _ _ ih => exact ⟨ih.entries, ih.position⟩
  | lower _ step ih => exact ih.lowerWithin step

end Compilation

end SsaCompiler
