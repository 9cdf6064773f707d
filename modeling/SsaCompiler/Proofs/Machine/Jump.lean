/-
# Jumps between blocks

A block is made before anything leads there, and it is filled afterwards. A jump to a block
that was empty when the jump was written enters the block at its start in every later module,
because choices only stand at the head of blocks that join two ways.

A branch is a piece of code that ends its block: it leads to one of two blocks by a truth value
that it computes.

The choices at the head of a block are one assignment: what a choice takes from another one of the
same block is what that one was before control came to the block.
-/

import SsaCompiler.Proofs.Machine.Emission

namespace SsaCompiler

/-! ### Requests for blocks and jumps -/

namespace Build

variable {m : Module} {b : BlockId} {k : Nat}

@[simp]
theorem positionAtEnd_run (b : BlockId) (m : Module) :
    positionAtEnd b m = .ok ((), m.withPosition (some b)) := rfl

/-- A new block of a function that is there. -/
theorem appendBlock_run {f : FunctionId} {d : FunctionData} (hf : m.function f = .ok d)
    (name : String) : appendBlock f name m = .ok (m.nextBlock, m.withBlock f name) :=
  bind_of_ok (ask_of_ok hf)

/-- A request for a block answers only when the function is there. -/
theorem appendBlock_eq_ok {f : FunctionId} {name : String} {c : BlockId} {m' : Module}
    (h : appendBlock f name m = .ok (c, m')) : c = m.nextBlock ∧ m' = m.withBlock f name := by
  obtain ⟨d, m₁, hask, -⟩ := bind_eq_ok_iff.1 h
  obtain ⟨hf, rfl⟩ := ask_eq_ok_iff.1 hask
  cases (appendBlock_run hf name).symm.trans h
  exact ⟨rfl, rfl⟩

/-- An open block ends with what it is given. -/
theorem setTerminator_of_standsAt (h : m.StandsAt b k) (t : Terminator) :
    setTerminator t m = .ok ((), m.withTerminator b t) := by
  unfold setTerminator
  rw [bind_of_ok (ask_of_ok h.currentBlockTerminated)]
  simp only [Bool.false_eq_true, ↓reduceIte]
  rw [bind_of_ok (get_apply m), h.position]
  rfl

/-- A branch on a truth value. -/
theorem condBr_of_standsAt {cond : ValueId} {d : ValueData} (h : m.StandsAt b k)
    (hcond : m.value cond = .ok d) (ht : m.types.get d.ty = .ok (.int 1)) (thenTo elseTo : BlockId) :
    condBr cond thenTo elseTo m = .ok ((), m.withTerminator b (.condBr cond thenTo elseTo)) := by
  unfold condBr
  rw [bind_of_ok (typeOf_of_ok hcond), bind_of_ok (typeAt_of_ok ht), if_pos rfl]
  exact setTerminator_of_standsAt h _

end Build

namespace Module

variable {m m' M : Module} {b c : BlockId} {k : Nat}

/-! ### Blocks that are still empty -/

/-- An open block without instructions, whose name has a property. -/
def IsVacant (m : Module) (c : BlockId) (named : String → Prop) : Prop :=
  ∃ d, m.block c = .ok d ∧ d.terminator = none ∧ d.instrs.size = 0 ∧ named d.name

/-- An empty block to which jumps may lead. -/
abbrev IsTarget (m : Module) (c : BlockId) : Prop := m.IsVacant c (· ∉ joinNames)

variable {named : String → Prop}

theorem isVacant_withBlock (f : FunctionId) {name : String} (hname : named name) :
    (m.withBlock f name).IsVacant m.nextBlock named :=
  ⟨⟨name, f, #[], none⟩, Checked.at_push_size _ _, rfl, rfl, hname⟩

/-- A block that is not written to stays empty. -/
theorem IsVacant.mono {touched : List BlockId} (h : m.IsVacant c named)
    (hwrites : m.Writes touched m') (hc : c ∉ touched) : m'.IsVacant c named := by
  obtain ⟨d, hd, hrest⟩ := h
  exact ⟨d, (hwrites.others c hc (block_lt hd)).trans hd, hrest⟩

/-- A block that code does not lead to stays empty. -/
theorem IsVacant.piece {b' : BlockId} {k' : Nat} (h : m.IsVacant c named)
    (hpiece : m.Piece [b] b k m' b' k') (hc : c ≠ b) : m'.IsVacant c named ∧ c ≠ b' := by
  refine ⟨h.mono hpiece.writes (by simpa using hc), ?_⟩
  rcases hpiece.fresh with rfl | hle
  · exact hc
  · rintro rfl
    obtain ⟨d, hd, -⟩ := h
    have hlt := block_lt hd
    omega

theorem IsVacant.lt (h : m.IsVacant c named) : c.index < m.blocks.size := by
  obtain ⟨d, hd, -⟩ := h
  exact block_lt hd

/-- A new block leaves the others alone. -/
theorem writes_withBlock (touched : List BlockId) (m : Module) (f : FunctionId) (name : String) :
    m.Writes touched (m.withBlock f name) where
  grows := grows_withBlock m f name
  others c _ hlt := by
    obtain ⟨d, hd⟩ := exists_block hlt
    rw [hd]
    exact Checked.at_push _ hd
  globals := List.prefix_rfl
  errors := rfl

/-- Code goes on at the start of an empty block. -/
theorem IsVacant.standsAt (h : m.IsVacant c named) : (m.withPosition (some c)).StandsAt c 0 := by
  obtain ⟨d, hd, hopen, hempty, -⟩ := h
  exact ⟨rfl, d, hd, hopen, hempty⟩

/-- Going on elsewhere changes nothing. -/
theorem writes_withPosition (touched : List BlockId) (m : Module) (p : Option BlockId) :
    m.Writes touched (m.withPosition p) :=
  ⟨grows_withPosition m p, fun _ _ _ => rfl, List.prefix_rfl, rfl⟩

/-- Code goes on elsewhere while a block is made. -/
theorem StandsAt.withBlock (h : m.StandsAt b k) (f : FunctionId) (name : String) :
    (m.withBlock f name).StandsAt b k := by
  obtain ⟨d, hd, hopen, hsize⟩ := h.block
  exact ⟨h.position, d, Checked.at_push _ hd, hopen, hsize⟩

/-- The end of a block is a change of this block only. -/
theorem writes_withTerminator (h : m.StandsAt b k) (t : Terminator) :
    m.Writes [b] (m.withTerminator b t) := by
  obtain ⟨d, hd, hopen, -⟩ := h.block
  refine ⟨grows_withTerminator hd hopen t, fun c hc _ => ?_, List.prefix_rfl, rfl⟩
  exact block_modify_ne (fun heq => hc (heq ▸ List.mem_singleton.2 rfl))

/-- A block that has ended is the same ever after. -/
theorem terminator_of_grows (h : m.StandsAt b k) {t : Terminator}
    (hgrows : (m.withTerminator b t).Grows M) :
    ∃ d, M.block b = .ok d ∧ d.instrs.size = k ∧ d.terminator = some t := by
  obtain ⟨d, hd, hopen, hsize⟩ := h.block
  obtain ⟨d', hd', hnew⟩ := hgrows.blocks (block_modify hd b)
  rw [if_pos rfl] at hnew
  obtain rfl := hnew.ended t rfl
  exact ⟨_, hd', hsize, rfl⟩

/-- Entering a block that was empty settles nothing. -/
theorem IsTarget.enter (h : m.IsTarget c) (hgrows : m.Grows M) :
    ∃ d, M.block c = .ok d ∧ ∀ source frame s,
      Exec.enterBlock M d source frame s = .ok (frame, d.instrs.toList) s := by
  obtain ⟨d, hd, -, hempty, hname⟩ := h
  obtain ⟨d', hd', hnew⟩ := hgrows.blocks hd
  refine ⟨d', hd', fun source frame s => ?_⟩
  unfold Exec.enterBlock
  have hchoices : Exec.choices M d' source frame d'.instrs.toList s =
      .ok ([], d'.instrs.toList) s := by
    cases hinstrs : d'.instrs.toList with
    | nil => rfl
    | cons id rest =>
        have hid : d'.instrs[0]? = some id := by
          rw [← Array.getElem?_toList, hinstrs]
          rfl
        rcases hnew.added (by omega) hid with ⟨⟨ty, origin⟩, he, hplain⟩ | ⟨-, hjoin⟩
        · rw [Exec.choices, he]
          refine (Exec.bind_of_ok (Exec.liftM_checked_ok _ s)).trans ?_
          cases origin with
          | instr i =>
              cases i with
              | phi incoming => exact absurd rfl (hplain incoming)
              | _ => rfl
          | _ => rfl
        · exact absurd hjoin hname
  exact Exec.bind_of_ok hchoices

/-- Entering a block that begins with a choice settles it. -/
theorem enter_choice {d : BlockData} {ty : TypeId} {incoming : List (ValueId × BlockId)}
    {source : BlockId} {entry : ValueId × BlockId} {frame : Frame} {s : MachineState} {x : Val}
    (hd : m.block c = .ok d) (hempty : d.instrs.size = 0)
    (hgrows : (m.withInstr c ty (.phi incoming)).Grows M)
    (hfind : incoming.find? (·.2 = source) = some entry)
    (hx : frame.operand M s.globals entry.1 = .ok x) :
    ∃ d', M.block c = .ok d' ∧ Exec.enterBlock M d' (some source) frame s =
      .ok (frame.bind m.nextValue x, d'.instrs.toList.drop 1) s := by
  obtain ⟨d', hd', hnew⟩ := hgrows.blocks (block_modify hd c)
  rw [if_pos rfl] at hnew
  refine ⟨d', hd', ?_⟩
  have hfirst : d'.instrs[0]? = some m.nextValue := by
    apply hnew.getElem?
    rw [← hempty]
    exact Array.getElem?_push_size
  have hvalue : M.value m.nextValue = .ok ⟨ty, .instr (.phi incoming)⟩ :=
    hgrows.values (value_withValue_nextValue m ty _)
  -- Behind the choice there is none.
  have hrest : Exec.choices M d' (some source) frame (d'.instrs.toList.drop 1) s =
      .ok ([], d'.instrs.toList.drop 1) s := by
    cases hinstrs : d'.instrs.toList.drop 1 with
    | nil => rfl
    | cons id rest =>
        have hid : d'.instrs[1]? = some id := by
          rw [← Array.getElem?_toList, ← List.head?_drop, hinstrs]
          rfl
        rcases hnew.added (by simp [hempty]) hid with ⟨⟨ty', origin⟩, he, hplain⟩ | ⟨hzero, -⟩
        · rw [Exec.choices, he]
          refine (Exec.bind_of_ok (Exec.liftM_checked_ok _ s)).trans ?_
          cases origin with
          | instr i =>
              cases i with
              | phi incoming => exact absurd rfl (hplain incoming)
              | _ => rfl
          | _ => rfl
        · cases hzero
  have hchoices : Exec.choices M d' (some source) frame d'.instrs.toList s =
      .ok ([(m.nextValue, x)], d'.instrs.toList.drop 1) s := by
    have hcons := Exec.drop_instrs hfirst
    rw [List.drop_zero] at hcons
    rw [hcons, Exec.choices, hvalue]
    refine (Exec.bind_of_ok (Exec.liftM_checked_ok _ s)).trans ?_
    simp only [hfind]
    refine (Exec.bind_of_ok (Exec.operand_of_ok hx)).trans ?_
    exact Exec.bind_of_ok hrest
  unfold Exec.enterBlock
  exact Exec.bind_of_ok hchoices

end Module

/-! ### Running jumps -/

namespace Point

variable {m m' M : Module} {call : Caller} {name : String} {b c : BlockId} {k : Nat}
  {frame : Frame} {s : MachineState}

/-- Running the end of a block that goes on elsewhere. -/
theorem terminator_br {d : BlockData} (hterm : d.terminator = some (.br c)) :
    Exec.terminator M call name d frame s = .ok (.goto c frame) s := by
  unfold Exec.terminator
  rw [hterm]
  rfl

/-- At a point a block has been executed up to its end, and that goes on in another block. -/
def LeadsTo (M : Module) (call : Caller) (name : String) (p : Point) (c : BlockId) : Prop :=
  ∃ d, M.block p.block = .ok d ∧ d.instrs.size = p.next ∧
    Exec.terminator M call name d p.frame p.state.tick = .ok (.goto c p.frame) p.state.tick

/-- The end that has been written for a block is reached behind its instructions. -/
theorem leadsTo_of_grows {t : Terminator} (hat : m.StandsAt b k)
    (hgrows : (m.withTerminator b t).Grows M)
    (hrun : ∀ d : BlockData, d.terminator = some t →
      Exec.terminator M call name d frame s.tick = .ok (.goto c frame) s.tick) :
    LeadsTo M call name ⟨b, k, frame, s⟩ c := by
  obtain ⟨d, hblock, hend, hterm⟩ := Module.terminator_of_grows hat hgrows
  exact ⟨d, hblock, hend, hrun d hterm⟩

/-- A jump to the start of a block is one step. -/
theorem LeadsTo.step_target {p : Point} (h : p.LeadsTo M call name c) (htarget : m'.IsTarget c)
    (hgrows : m'.Grows M) : Step M call name p ⟨c, 0, p.frame, p.state.tick⟩ := by
  obtain ⟨d, hblock, hend, hrun⟩ := h
  obtain ⟨d', hblock', henter⟩ := htarget.enter hgrows
  exact .jump hblock hend hrun hblock' (henter _ _ _) rfl (Nat.lt_succ_self _)

/-- A jump to a block that begins with a choice settles the choice in the same step. -/
theorem LeadsTo.step_join {p : Point} {d : BlockData} {ty : TypeId}
    {incoming : List (ValueId × BlockId)} {entry : ValueId × BlockId} {x : Val}
    (h : p.LeadsTo M call name c) (hd : m'.block c = .ok d) (hempty : d.instrs.size = 0)
    (hgrows : (m'.withInstr c ty (.phi incoming)).Grows M)
    (hfind : incoming.find? (·.2 = p.block) = some entry)
    (hx : p.frame.operand M p.state.globals entry.1 = .ok x) :
    Step M call name p ⟨c, 1, p.frame.bind m'.nextValue x, p.state.tick⟩ := by
  obtain ⟨d₁, hblock, hend, hrun⟩ := h
  obtain ⟨d₂, hblock', henter⟩ :=
    Module.enter_choice (s := p.state.tick) hd hempty hgrows hfind hx
  exact .jump hblock hend hrun hblock' henter rfl (Nat.lt_succ_self _)

/-- A jump to the start of a block. -/
theorem yields_jump {α : Type} {a : α} {R : α → Point → Prop} {low : Nat} {t : Terminator}
    (hat : m.StandsAt b k) (hgrows : (m.withTerminator b t).Grows M) (htarget : m'.IsTarget c)
    (hgrows' : m'.Grows M)
    (hrun : ∀ d : BlockData, d.terminator = some t →
      Exec.terminator M call name d frame s.tick = .ok (.goto c frame) s.tick)
    (hR : R a ⟨c, 0, frame, s.tick⟩) :
    Yields M call name low ⟨b, k, frame, s⟩ c 0 (some a) R := by
  have hstep := (leadsTo_of_grows hat hgrows hrun).step_target htarget hgrows'
  exact ⟨_, Relation.ReflTransGen.single hstep, ⟨fun _ _ => rfl, s.steps + 1, rfl⟩, rfl, rfl, hR⟩

/-- Running the end of a block that goes on in one of two blocks. -/
theorem terminator_condBr {d : BlockData} {cond : ValueId} {thenTo elseTo : BlockId} {i : Int64}
    (hterm : d.terminator = some (.condBr cond thenTo elseTo))
    (hcond : frame.operand M s.globals cond = .ok (.int i)) :
    Exec.terminator M call name d frame s =
      .ok (.goto (if i ≠ 0 then thenTo else elseTo) frame) s := by
  unfold Exec.terminator
  rw [hterm]
  refine (Exec.bind_of_ok (Exec.operand_of_ok hcond)).trans ?_
  have htruth : (Val.int i).asBool?.getD false = (i != 0) := rfl
  rw [htruth]
  by_cases hi : i = 0 <;> simp [hi]

end Point

/-! ### The choices at the head of a block -/

/-- A choice: its value, and the values it takes by the blocks from which control comes. -/
structure Choice where
  id : ValueId
  incoming : List (ValueId × BlockId)

namespace Choice

variable {M : Module} {globals : Array UInt64} {frame : Frame} {source : Option BlockId}

/-- What a choice takes when control comes from a block. -/
def edge (c : Choice) (source : Option BlockId) : Option ValueId :=
  source.bind fun b => (c.incoming.find? (·.2 = b)).map (·.1)

/-- A choice takes a value: the one that has been computed for its edge. -/
def Takes (M : Module) (globals : Array UInt64) (frame : Frame) (source : Option BlockId)
    (c : Choice) (v : Val) : Prop :=
  ∃ value, c.edge source = some value ∧ frame.operand M globals value = .ok v

/-- A choice takes one value. -/
theorem Takes.unique {c : Choice} {v v' : Val} (h : c.Takes M globals frame source v)
    (h' : c.Takes M globals frame source v') : v' = v := by
  obtain ⟨value, hedge, hv⟩ := h
  obtain ⟨value', hedge', hv'⟩ := h'
  obtain rfl := Option.some.inj (hedge'.symm.trans hedge)
  exact Except.ok.inj (hv'.symm.trans hv)

end Choice

namespace Module

/-- The choice that a value is. -/
def choice? (m : Module) (id : ValueId) : Option Choice :=
  match m.value id with
  | .ok ⟨_, .instr (.phi incoming)⟩ => some ⟨id, incoming⟩
  | _ => none

/-- The choices that a list of instructions begins with. -/
def leading (m : Module) : List ValueId → List Choice
  | [] => []
  | id :: rest =>
    match m.choice? id with
    | some c => c :: m.leading rest
    | none => []

variable {m : Module} {id : ValueId} {c : Choice} {ids : List ValueId}

/-- Only an instruction that chooses is a choice. -/
theorem value_of_choice? (h : m.choice? id = some c) :
    c.id = id ∧ ∃ ty, m.value id = .ok ⟨ty, .instr (.phi c.incoming)⟩ := by
  unfold choice? at h
  split at h
  · rename_i ty incoming hvalue
    cases h
    exact ⟨rfl, ty, hvalue⟩
  · cases h

/-- The choices at the head of a block are the choices of their values. -/
theorem choice?_of_mem_leading (h : c ∈ m.leading ids) : m.choice? c.id = some c := by
  induction ids with
  | nil => cases h
  | cons id rest ih =>
      rw [leading] at h
      split at h
      · rename_i c' hc'
        obtain ⟨hid, -⟩ := value_of_choice? hc'
        rcases List.mem_cons.1 h with rfl | htail
        · rw [hid]
          exact hc'
        · exact ih htail
      · cases h

end Module

/-- What a choice takes from another one, of the same block or not, is what the frame has for it. -/
theorem Choice.takes_of_choice? {m : Module} {globals : Array UInt64} {frame : Frame}
    {source : Option BlockId} {c c' : Choice} {value : ValueId} {v : Val}
    (hedge : c.edge source = some value) (hc' : m.choice? value = some c')
    (hv : frame.values[value]? = some v) : c.Takes m globals frame source v := by
  obtain ⟨rfl, ty, hvalue⟩ := Module.value_of_choice? hc'
  refine ⟨c'.id, hedge, ?_⟩
  unfold Frame.operand
  rw [hvalue]
  rw [hv]
  rfl

namespace Frame

variable {frame : Frame} {id : ValueId} {v : Val} {entries : List (ValueId × Val)}

/-- Two frames in which the same has been computed. -/
structure Agrees (frame frame' : Frame) : Prop where
  values : frame.values.Equiv frame'.values
  inFlight : frame.inFlight = frame'.inFlight

@[simp]
theorem inFlight_bindAll (frame : Frame) (entries : List (ValueId × Val)) :
    (frame.bindAll entries).inFlight = frame.inFlight := by
  induction entries generalizing frame with
  | nil => rfl
  | cons entry rest ih => exact ih (frame.bind entry.1 entry.2)

/-- What is not computed anew stays as it was. -/
theorem getElem?_bindAll_of_notMem (h : id ∉ entries.map (·.1)) (frame : Frame) :
    (frame.bindAll entries).values[id]? = frame.values[id]? := by
  induction entries generalizing frame with
  | nil => rfl
  | cons entry rest ih =>
      simp only [List.map_cons, List.mem_cons, not_or] at h
      have hrest := ih h.2 (frame.bind entry.1 entry.2)
      have hne : (entry.1 == id) = false := by simpa using Ne.symm h.1
      rw [show frame.bindAll (entry :: rest) = (frame.bind entry.1 entry.2).bindAll rest from rfl,
        hrest]
      simp [bind, Std.HashMap.getElem?_insert, hne]

/-- What is computed, once or more often with the same result, is there. -/
theorem getElem?_bindAll_of_mem (h : id ∈ entries.map (·.1))
    (hv : ∀ entry ∈ entries, entry.1 = id → entry.2 = v) (frame : Frame) :
    (frame.bindAll entries).values[id]? = some v := by
  induction entries generalizing frame with
  | nil => cases h
  | cons entry rest ih =>
      rw [show frame.bindAll (entry :: rest) = (frame.bind entry.1 entry.2).bindAll rest from rfl]
      by_cases hrest : id ∈ rest.map (·.1)
      · exact ih hrest (fun e he => hv e (List.mem_cons_of_mem _ he)) _
      · rw [getElem?_bindAll_of_notMem hrest]
        have hid : entry.1 = id := by
          rcases List.mem_cons.1 h with heq | hmem
          · exact heq.symm
          · exact absurd hmem hrest
        have hentry := hv entry List.mem_cons_self hid
        simp [bind, hid, hentry]

end Frame

namespace Exec

variable {M : Module} {block : BlockData} {source : Option BlockId} {frame : Frame}
  {s : MachineState} {id : ValueId} {ids : List ValueId} {c : Choice} {v : Val}

/-- A choice that takes a value comes before the others. -/
theorem choices_cons (hc : M.choice? id = some c) (hv : c.Takes M s.globals frame source v)
    (ids : List ValueId) :
    choices M block source frame (id :: ids) s =
      (do
        let (chosen, rest) ← choices M block source frame ids
        return ((id, v) :: chosen, rest) : Exec _) s := by
  obtain ⟨rfl, ty, hvalue⟩ := Module.value_of_choice? hc
  obtain ⟨value, hedge, hoperand⟩ := hv
  obtain ⟨b, rfl, hfind⟩ := Option.bind_eq_some_iff.1 hedge
  obtain ⟨entry, hentry, rfl⟩ := Option.map_eq_some_iff.1 hfind
  rw [choices, hvalue]
  refine (bind_of_ok (liftM_checked_ok _ s)).trans ?_
  simp only [hentry]
  exact bind_of_ok (operand_of_ok hoperand)

theorem choices_cons_of_takes (hc : M.choice? id = some c)
    (hv : c.Takes M s.globals frame source v) {chosen : List (ValueId × Val)}
    {rest : List ValueId} (hrest : choices M block source frame ids s = .ok (chosen, rest) s) :
    choices M block source frame (id :: ids) s = .ok ((id, v) :: chosen, rest) s := by
  rw [choices_cons hc hv]
  exact bind_of_ok hrest

/-- A choice behind one that takes a value may still be the end. -/
theorem choices_cons_of_stop (hc : M.choice? id = some c)
    (hv : c.Takes M s.globals frame source v) {stop : Stop}
    (hstop : choices M block source frame ids s = .error stop s) :
    choices M block source frame (id :: ids) s = .error stop s := by
  rw [choices_cons hc hv]
  exact bind_of_error hstop

/-- A choice that takes no value is the end, before anything is bound. -/
theorem choices_cons_of_not_takes (hc : M.choice? id = some c)
    (hv : ∀ v, ¬ c.Takes M s.globals frame source v) (ids : List ValueId) :
    ∃ stop, choices M block source frame (id :: ids) s = .error stop s := by
  obtain ⟨rfl, ty, hvalue⟩ := Module.value_of_choice? hc
  rw [choices, hvalue]
  have hstart : ∀ f : ValueData → Exec (List (ValueId × Val) × List ValueId),
      (liftM (Except.ok ⟨ty, .instr (.phi c.incoming)⟩ : Checked ValueData) >>= f) s =
        f ⟨ty, .instr (.phi c.incoming)⟩ s := fun f => bind_of_ok (liftM_checked_ok _ s)
  rw [hstart]
  cases source with
  | none => exact ⟨.failed (.malformedCode (.phiInEntry block.name)), rfl⟩
  | some b =>
      cases hfind : c.incoming.find? (·.2 = b) with
      | none =>
          simp only [hfind]
          exact ⟨.failed (.malformedCode (.phiWithoutEdge c.id b)), rfl⟩
      | some entry =>
          simp only [hfind]
          cases hoperand : frame.operand M s.globals entry.1 with
          | ok v => exact absurd ⟨entry.1, by simp [Choice.edge, hfind], hoperand⟩ (hv v)
          | error fault =>
              have herror : operand M frame entry.1 s = .error (.ofFault fault) s := by
                unfold operand
                rw [hoperand]
              exact ⟨_, bind_of_error herror⟩

/-- Behind the choices there is nothing to settle. -/
theorem choices_cons_of_plain {d : ValueData} (hvalue : M.value id = .ok d)
    (hplain : M.choice? id = none) (ids : List ValueId) :
    choices M block source frame (id :: ids) s = .ok ([], id :: ids) s := by
  rw [choices, hvalue]
  refine (bind_of_ok (liftM_checked_ok _ s)).trans ?_
  obtain ⟨ty, origin⟩ := d
  cases origin with
  | instr i =>
      cases i with
      | phi incoming => simp [Module.choice?, hvalue] at hplain
      | _ => rfl
  | _ => rfl

/-- When every choice takes a value, all of them are settled, each with the value it takes. -/
theorem choices_of_takes (hvalues : ∀ id ∈ ids, ∃ d, M.value id = .ok d)
    (htakes : ∀ c ∈ M.leading ids, ∃ v, c.Takes M s.globals frame source v) :
    ∃ chosen, choices M block source frame ids s =
        .ok (chosen, ids.drop (M.leading ids).length) s ∧
      chosen.map (·.1) = (M.leading ids).map (·.id) ∧
      ∀ entry ∈ chosen, ∃ c ∈ M.leading ids,
        c.id = entry.1 ∧ c.Takes M s.globals frame source entry.2 := by
  induction ids with
  | nil => exact ⟨[], rfl, rfl, by simp⟩
  | cons id ids ih =>
      cases hc : M.choice? id with
      | none =>
          obtain ⟨d, hd⟩ := hvalues id List.mem_cons_self
          have hleading : M.leading (id :: ids) = [] := by simp [Module.leading, hc]
          rw [hleading]
          exact ⟨[], choices_cons_of_plain hd hc ids, rfl, by simp⟩
      | some c =>
          have hleading : M.leading (id :: ids) = c :: M.leading ids := by
            simp [Module.leading, hc]
          rw [hleading] at htakes ⊢
          obtain ⟨v, hv⟩ := htakes c List.mem_cons_self
          obtain ⟨chosen, hrest, hids, hchosen⟩ :=
            ih (fun id hid => hvalues id (List.mem_cons_of_mem _ hid))
              (fun c hc => htakes c (List.mem_cons_of_mem _ hc))
          obtain ⟨hid, -⟩ := Module.value_of_choice? hc
          refine ⟨(id, v) :: chosen, choices_cons_of_takes hc hv hrest, ?_, ?_⟩
          · simp [hids, hid]
          · intro entry hentry
            rcases List.mem_cons.1 hentry with rfl | htail
            · exact ⟨c, List.mem_cons_self, hid, hv⟩
            · obtain ⟨c', hc', hrest'⟩ := hchosen entry htail
              exact ⟨c', List.mem_cons_of_mem _ hc', hrest'⟩

/-- When a choice takes no value, none is settled. -/
theorem choices_of_not_takes (hc : c ∈ M.leading ids)
    (hv : ∀ v, ¬ c.Takes M s.globals frame source v) :
    ∃ stop, choices M block source frame ids s = .error stop s := by
  induction ids with
  | nil => cases hc
  | cons id ids ih =>
      cases hfirst : M.choice? id with
      | none => simp [Module.leading, hfirst] at hc
      | some first =>
          simp only [Module.leading, hfirst, List.mem_cons] at hc
          by_cases htakes : ∃ v, first.Takes M s.globals frame source v
          · obtain ⟨v, htakes⟩ := htakes
            -- The first one takes a value, so it is one of those behind it.
            have htail : c ∈ M.leading ids := by
              rcases hc with rfl | htail
              · exact absurd htakes (hv v)
              · exact htail
            obtain ⟨stop, hstop⟩ := ih htail
            exact ⟨stop, choices_cons_of_stop hfirst htakes hstop⟩
          · exact choices_cons_of_not_takes hfirst (not_exists.1 htakes) ids

/-- The choices of a block have been settled: each is what its edge was in the frame before, and
nothing else is different. -/
structure Chooses (M : Module) (globals : Array UInt64) (block : BlockData)
    (source : Option BlockId) (frame frame' : Frame) : Prop where
  chosen : ∀ c ∈ M.leading block.instrs.toList, ∀ v, c.Takes M globals frame source v →
    frame'.values[c.id]? = some v
  others : ∀ id, id ∉ (M.leading block.instrs.toList).map (·.id) →
    frame'.values[id]? = frame.values[id]?
  inFlight : frame'.inFlight = frame.inFlight

/-- When every choice takes a value, a block is entered. -/
theorem enterBlock_of_takes (hvalues : ∀ id ∈ block.instrs, ∃ d, M.value id = .ok d)
    (htakes : ∀ c ∈ M.leading block.instrs.toList, ∃ v, c.Takes M s.globals frame source v) :
    ∃ frame', enterBlock M block source frame s =
        .ok (frame', block.instrs.toList.drop (M.leading block.instrs.toList).length) s ∧
      Chooses M s.globals block source frame frame' := by
  have hlisted : ∀ id ∈ block.instrs.toList, ∃ d, M.value id = .ok d := by simpa using hvalues
  obtain ⟨chosen, hrun, hids, hchosen⟩ := choices_of_takes hlisted htakes
  refine ⟨frame.bindAll chosen, bind_of_ok hrun, ?_, ?_, frame.inFlight_bindAll chosen⟩
  · intro c hc v hv
    have hmem : c.id ∈ chosen.map (·.1) := hids ▸ List.mem_map_of_mem hc
    apply Frame.getElem?_bindAll_of_mem hmem
    -- A value that stands at the head twice is the same choice both times.
    intro entry hentry hid
    obtain ⟨c', hc', hid', htaken⟩ := hchosen entry hentry
    have hsame : c' = c := by
      have hfirst := Module.choice?_of_mem_leading hc
      have hsecond := Module.choice?_of_mem_leading hc'
      rw [hid', hid, hfirst] at hsecond
      exact (Option.some.inj hsecond).symm
    rw [hsame] at htaken
    exact hv.unique htaken
  · intro id hid
    apply Frame.getElem?_bindAll_of_notMem
    rw [hids]
    exact hid

/-- When a choice takes no value, a block is not entered. -/
theorem enterBlock_of_not_takes (hc : c ∈ M.leading block.instrs.toList)
    (hv : ∀ v, ¬ c.Takes M s.globals frame source v) :
    ∃ stop, enterBlock M block source frame s = .error stop s := by
  obtain ⟨stop, hstop⟩ := choices_of_not_takes hc hv
  exact ⟨stop, bind_of_error hstop⟩

/-- Choices in another order make the same frame. -/
theorem Chooses.agrees {globals : Array UInt64} {block' : BlockData} {frame' frame'' : Frame}
    (h : Chooses M globals block source frame frame')
    (h' : Chooses M globals block' source frame frame'')
    (htakes : ∀ c ∈ M.leading block.instrs.toList, ∃ v, c.Takes M globals frame source v)
    (hperm : (M.leading block'.instrs.toList).Perm (M.leading block.instrs.toList)) :
    frame'.Agrees frame'' := by
  refine ⟨Std.HashMap.Equiv.of_forall_getElem?_eq fun id => ?_, h.inFlight.trans h'.inFlight.symm⟩
  by_cases hid : id ∈ (M.leading block.instrs.toList).map (·.id)
  · obtain ⟨c, hc, rfl⟩ := List.mem_map.1 hid
    obtain ⟨v, hv⟩ := htakes c hc
    rw [h.chosen c hc v hv, h'.chosen c (hperm.mem_iff.2 hc) v hv]
  · have hid' : id ∉ (M.leading block'.instrs.toList).map (·.id) :=
      fun hmem => hid ((hperm.map _).mem_iff.1 hmem)
    rw [h.others id hid, h'.others id hid']

/-- The choices at the head of a block are one assignment. When each has an edge for the block
from which control comes, with a value in the frame before, then all of them get these values at
once, whatever their order. When one has none, the block is not entered, and nothing has
changed. -/
theorem enterBlock_in_parallel (M : Module) (block : BlockData) (source : Option BlockId)
    (frame : Frame) (s : MachineState) (hvalues : ∀ id ∈ block.instrs, ∃ d, M.value id = .ok d) :
    ((∀ c ∈ M.leading block.instrs.toList, ∃ v, c.Takes M s.globals frame source v) →
      ∃ frame', enterBlock M block source frame s =
          .ok (frame', block.instrs.toList.drop (M.leading block.instrs.toList).length) s ∧
        Chooses M s.globals block source frame frame' ∧
        ∀ block' : BlockData, (∀ id ∈ block'.instrs, ∃ d, M.value id = .ok d) →
          (M.leading block'.instrs.toList).Perm (M.leading block.instrs.toList) →
          ∃ frame'', enterBlock M block' source frame s = .ok (frame'',
              block'.instrs.toList.drop (M.leading block'.instrs.toList).length) s ∧
            frame'.Agrees frame'') ∧
      ((∃ c ∈ M.leading block.instrs.toList, c.edge source = none ∨
          ∃ value fault, c.edge source = some value ∧
            frame.operand M s.globals value = .error fault) →
        ∃ stop, enterBlock M block source frame s = .error stop s) := by
  constructor
  · intro htakes
    obtain ⟨frame', hrun, hsettles⟩ := enterBlock_of_takes hvalues htakes
    refine ⟨frame', hrun, hsettles, fun block' hvalues' hperm => ?_⟩
    have htakes' : ∀ c ∈ M.leading block'.instrs.toList,
        ∃ v, c.Takes M s.globals frame source v := fun c hc => htakes c (hperm.mem_iff.1 hc)
    obtain ⟨frame'', hrun', hsettles'⟩ := enterBlock_of_takes hvalues' htakes'
    exact ⟨frame'', hrun', hsettles.agrees hsettles' htakes hperm⟩
  · rintro ⟨c, hc, hnone⟩
    apply enterBlock_of_not_takes hc
    rintro v ⟨value, hedge, hv⟩
    rcases hnone with hnone | ⟨value', fault, hedge', hfault⟩
    · exact absurd (hnone.symm.trans hedge) nofun
    · obtain rfl := Option.some.inj (hedge'.symm.trans hedge)
      exact absurd (hfault.symm.trans hv) nofun

/-- A loop whose body exchanges two values. -/
def swapModule : Module :=
  { Module.ofTables "swap" [.int 32, .function [] ⟨0⟩ false]
      [⟨"main", ⟨1⟩, [], [⟨0⟩], none, none⟩] with
    values := #[⟨⟨0⟩, .instr (.phi [(⟨1⟩, ⟨0⟩)])⟩, ⟨⟨0⟩, .instr (.phi [(⟨0⟩, ⟨0⟩)])⟩]
    blocks := #[⟨"loop", ⟨0⟩, #[⟨0⟩, ⟨1⟩], some (.br ⟨0⟩)⟩] }

/-- One and two, before they are exchanged. -/
def swapFrame : Frame := Frame.bindAll ⟨∅, none⟩ [(⟨0⟩, .int 1), (⟨1⟩, .int 2)]

/-- Control comes back from the body with the values exchanged, and it cannot come from nowhere. -/
theorem enterBlock_swapModule :
    (∀ id ∈ swapModule.blocks[0].instrs, ∃ d, swapModule.value id = .ok d) ∧
      (∃ frame', enterBlock swapModule swapModule.blocks[0] (some ⟨0⟩) swapFrame default =
          .ok (frame', []) default ∧
        frame'.values[(⟨0⟩ : ValueId)]? = some (.int 2) ∧
        frame'.values[(⟨1⟩ : ValueId)]? = some (.int 1)) ∧
      ∃ stop, enterBlock swapModule swapModule.blocks[0] none swapFrame default =
        .error stop default := by
  have hvalues : ∀ id ∈ swapModule.blocks[0].instrs, ∃ d, swapModule.value id = .ok d := by
    simp [swapModule, Module.value, Checked.at]
  have hone : swapModule.choice? ⟨0⟩ = some ⟨⟨0⟩, [(⟨1⟩, ⟨0⟩)]⟩ := rfl
  have htwo : swapModule.choice? ⟨1⟩ = some ⟨⟨1⟩, [(⟨0⟩, ⟨0⟩)]⟩ := rfl
  have hfirst : (⟨⟨0⟩, [(⟨1⟩, ⟨0⟩)]⟩ : Choice).Takes swapModule (default : MachineState).globals
      swapFrame (some ⟨0⟩) (.int 2) :=
    Choice.takes_of_choice? rfl htwo (Frame.getElem?_bindAll_of_mem (by decide) (by simp) _)
  have hsecond : (⟨⟨1⟩, [(⟨0⟩, ⟨0⟩)]⟩ : Choice).Takes swapModule (default : MachineState).globals
      swapFrame (some ⟨0⟩) (.int 1) :=
    Choice.takes_of_choice? rfl hone (Frame.getElem?_bindAll_of_mem (by decide) (by simp) _)
  obtain ⟨hsettled, -⟩ := enterBlock_in_parallel swapModule swapModule.blocks[0] (some ⟨0⟩)
    swapFrame default hvalues
  obtain ⟨-, hrefused⟩ := enterBlock_in_parallel swapModule swapModule.blocks[0] none
    swapFrame default hvalues
  have htakes : ∀ c ∈ swapModule.leading swapModule.blocks[0].instrs.toList,
      ∃ v, c.Takes swapModule (default : MachineState).globals swapFrame (some ⟨0⟩) v := by
    rintro c (_ | ⟨_, _ | ⟨_, hc⟩⟩)
    · exact ⟨_, hfirst⟩
    · exact ⟨_, hsecond⟩
    · cases hc
  obtain ⟨frame', hrun, hsettles, -⟩ := hsettled htakes
  refine ⟨hvalues, ⟨frame', hrun, ?_, ?_⟩, ?_⟩
  · exact hsettles.chosen _ List.mem_cons_self _ hfirst
  · exact hsettles.chosen _ (List.mem_cons_of_mem _ List.mem_cons_self) _ hsecond
  · exact hrefused ⟨⟨⟨0⟩, [(⟨1⟩, ⟨0⟩)]⟩, List.mem_cons_self, .inl rfl⟩

end Exec

end SsaCompiler
