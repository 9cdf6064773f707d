/-
# Closed control flow

A module is closed when control can never leave the code of a function by accident: every
block ends, a block continues only in blocks of its own function, and everything that an
instruction or a terminator uses is known without running anything, comes in as a parameter of
the function, or is made by an instruction or a call of that same function.

A module under construction has all of this but the first: some blocks are still open. Which
ones they are, and where the next instruction goes, is the state that a construction is
followed through. Facts about single values and blocks hold on in every later module. They are
classes, so that they are found again in later modules without being mentioned.
-/

import SsaCompiler.Proofs.Ir.Growth

namespace SsaCompiler

/-- The values that an instruction uses. -/
def Instr.operands : Instr → List ValueId
  | binary _ lhs rhs | icmp _ lhs rhs | fcmp _ lhs rhs => [lhs, rhs]
  | cast _ value => [value]
  | alloca _ | inlineAsm _ => []
  | load ptr | structGep ptr _ => [ptr]
  | store value ptr => [value, ptr]
  | gep ptr index => [ptr, index]
  | extractValue aggregate _ => [aggregate]
  | phi incoming => incoming.map Prod.fst
  | call _ args => args
  | landingPad clauses _ => clauses
  | typeIdFor descriptor => [descriptor]

namespace Terminator

/-- The values that a terminator uses. -/
def operands : Terminator → List ValueId
  | condBr cond _ _ => [cond]
  | ret value => value.toList
  | invoke _ args _ _ _ => args
  | resume pad => [pad]
  | br _ | unreachable => []

/-- The value that a terminator makes, which only a call does. -/
def result? : Terminator → Option ValueId
  | invoke _ _ _ _ result => result
  | _ => none

end Terminator

namespace Module

/-! ### Values and blocks of a function -/

/-- A value that an instruction or a call makes in some block of a function. -/
def IsPlacedIn (m : Module) (f : FunctionId) (v : ValueId) : Prop :=
  ∃ b d, m.block b = .ok d ∧ d.function = f ∧
    (v ∈ d.instrs ∨ ∃ t, d.terminator = some t ∧ t.result? = some v)

/-- A value that the code of a function may use: a constant or an address, a parameter of the
function, or something made in it. -/
def IsUsableIn (m : Module) (f : FunctionId) (v : ValueId) : Prop :=
  m.isConstant v = .ok true ∨ (∃ d, m.function f = .ok d ∧ v ∈ d.params) ∨ m.IsPlacedIn f v

/-- A block of a function. -/
class HasBlock (m : Module) (f : FunctionId) (b : BlockId) : Prop where
  block : ∃ d, m.block b = .ok d ∧ d.function = f

/-- A block whose code stays inside its function, as far as there is code. -/
structure Admits (m : Module) (b : BlockId) (d : BlockData) : Prop where
  owned : ∃ f, m.function d.function = .ok f ∧ b ∈ f.blocks
  instructions : ∀ id ∈ d.instrs, ∃ ty i, m.value id = .ok ⟨ty, .instr i⟩ ∧
    ∀ v ∈ i.operands, m.IsUsableIn d.function v
  successors : ∀ t, d.terminator = some t → ∀ c ∈ t.successors, m.HasBlock d.function c
  operands : ∀ t, d.terminator = some t → ∀ v ∈ t.operands, m.IsUsableIn d.function v

/-- A module in which control never leaves a function by accident. -/
structure IsClosed (m : Module) : Prop where
  ended : ∀ {b d}, m.block b = .ok d → ∃ t, d.terminator = some t
  admitted : ∀ {b d}, m.block b = .ok d → m.Admits b d
  listed : ∀ {f d b}, m.function f = .ok d → b ∈ d.blocks → m.HasBlock f b

/-! ### Later modules -/

/-- A later module: values stay what they are, blocks stay in their function and keep what they
hold, and functions keep their parameters and blocks. The earlier module is found from the
later one. -/
class Extends (m : outParam Module) (m' : Module) : Prop where
  values : ∀ {v d}, m.value v = .ok d → m'.value v = .ok d
  blocks : ∀ {b d}, m.block b = .ok d → ∃ d', m'.block b = .ok d' ∧ d'.function = d.function ∧
    (∀ v ∈ d.instrs, v ∈ d'.instrs) ∧ ∀ t, d.terminator = some t → d'.terminator = some t
  functions : ∀ {f d}, m.function f = .ok d → ∃ d', m'.function f = .ok d' ∧
    d'.params = d.params ∧ ∀ b ∈ d.blocks, b ∈ d'.blocks

variable {m m' m'' : Module} {f : FunctionId} {v : ValueId} {b : BlockId}

/-- A module is a later form of itself. -/
theorem Extends.refl (m : Module) : m.Extends m where
  values hv := hv
  blocks hb := ⟨_, hb, rfl, fun _ hv => hv, fun _ ht => ht⟩
  functions hf := ⟨_, hf, rfl, fun _ hb => hb⟩

theorem Extends.trans (h : m.Extends m') (h' : m'.Extends m'') : m.Extends m'' where
  values hv := h'.values (h.values hv)
  blocks hb := by
    obtain ⟨d', hd', hfunction, hinstrs, hended⟩ := h.blocks hb
    obtain ⟨d'', hd'', hfunction', hinstrs', hended'⟩ := h'.blocks hd'
    exact ⟨d'', hd'', hfunction'.trans hfunction, fun v hv => hinstrs' v (hinstrs v hv),
      fun t ht => hended' t (hended t ht)⟩
  functions hf := by
    obtain ⟨d', hd', hparams, hblocks⟩ := h.functions hf
    obtain ⟨d'', hd'', hparams', hblocks'⟩ := h'.functions hd'
    exact ⟨d'', hd'', hparams'.trans hparams, fun b hb => hblocks' b (hblocks b hb)⟩

/-- A module that has grown is a later module. -/
theorem GrowsBy.extends {New : Novelty} (h : GrowsBy New m m') : m.Extends m' where
  values := h.values
  blocks hb := by
    obtain ⟨d', hd', hgrows⟩ := h.blocks hb
    refine ⟨d', hd', hgrows.function, fun v hv => ?_, fun t ht => ?_⟩
    · rw [← Array.mem_toList_iff] at hv ⊢
      exact hgrows.instrs.subset hv
    · rw [hgrows.ended t ht, ht]
  functions hf := by
    obtain ⟨d', hd', hgrows⟩ := h.functions hf
    exact ⟨d', hd', hgrows.params, fun b hb => hgrows.blocks.subset hb⟩

theorem Extends.isConstant (h : m.Extends m') (hv : m.isConstant v = .ok true) :
    m'.isConstant v = .ok true := by
  cases hd : m.value v with
  | error c =>
      rw [Module.isConstant, hd] at hv
      cases hv
  | ok d =>
      rw [isConstant_of_value hd] at hv
      rw [isConstant_of_value (h.values hd), hv]

/-- What is made in a function stays there. -/
theorem IsPlacedIn.mono (hv : m.IsPlacedIn f v) (h : m.Extends m') : m'.IsPlacedIn f v := by
  obtain ⟨b, d, hb, rfl, hplaced⟩ := hv
  obtain ⟨d', hd', hfunction, hinstrs, hended⟩ := h.blocks hb
  refine ⟨b, d', hd', hfunction, ?_⟩
  rcases hplaced with hv | ⟨t, ht, hresult⟩
  · exact .inl (hinstrs v hv)
  · exact .inr ⟨t, hended t ht, hresult⟩

/-- What a function may use it may use later. -/
theorem IsUsableIn.mono (hv : m.IsUsableIn f v) (h : m.Extends m') : m'.IsUsableIn f v := by
  rcases hv with hconstant | ⟨d, hd, hparam⟩ | hplaced
  · exact .inl (h.isConstant hconstant)
  · obtain ⟨d', hd', hparams, -⟩ := h.functions hd
    exact .inr (.inl ⟨d', hd', hparams ▸ hparam⟩)
  · exact .inr (.inr (hplaced.mono h))

instance (priority := low) HasBlock.mono [h : m.Extends m'] [hb : m.HasBlock f b] :
    m'.HasBlock f b where
  block := by
    obtain ⟨d, hd, rfl⟩ := hb.block
    obtain ⟨d', hd', hfunction, -⟩ := h.blocks hd
    exact ⟨d', hd', hfunction⟩

/-- Code that stays inside its function does so in every later module. -/
theorem Admits.mono {d : BlockData} (hd : m.Admits b d) (h : m.Extends m') : m'.Admits b d where
  owned := by
    obtain ⟨f, hf, hb⟩ := hd.owned
    obtain ⟨f', hf', -, hblocks⟩ := h.functions hf
    exact ⟨f', hf', hblocks b hb⟩
  instructions id hid := by
    obtain ⟨ty, i, hi, huses⟩ := hd.instructions id hid
    exact ⟨ty, i, h.values hi, fun v hv => (huses v hv).mono h⟩
  successors t ht c hc := by
    have := hd.successors t ht c hc
    infer_instance
  operands t ht v hv := (hd.operands t ht v hv).mono h

/-! ### Facts about values -/

/-- A value that is known without running anything. -/
class Known (m : Module) (v : ValueId) : Prop where
  isConstant : m.isConstant v = .ok true

instance (priority := low) Known.mono [h : m.Extends m'] [hv : m.Known v] : m'.Known v where
  isConstant := h.isConstant hv.isConstant

/-- A value that code at some place may use. Outside all functions there is no code, and nothing
is asked of a value. -/
class Avail (m : Module) (scope : Option FunctionId) (v : ValueId) : Prop where
  usable : ∀ {f}, scope = some f → m.IsUsableIn f v

variable {scope : Option FunctionId}

instance (priority := low) Avail.mono [h : m.Extends m'] [hv : m.Avail scope v] :
    m'.Avail scope v where
  usable hf := (hv.usable hf).mono h

instance (priority := low) Avail.of_known [hv : m.Known v] : m.Avail scope v where
  usable _ := .inl hv.isConstant

/-- Values that code at some place may use. -/
class AllAvail (m : Module) (scope : Option FunctionId) (vs : List ValueId) : Prop where
  all : ∀ v ∈ vs, m.Avail scope v

instance AllAvail.nil : m.AllAvail scope [] where
  all _ hv := absurd hv List.not_mem_nil

instance AllAvail.cons {vs : List ValueId} [hv : m.Avail scope v] [hvs : m.AllAvail scope vs] :
    m.AllAvail scope (v :: vs) where
  all w hw := by
    rcases List.mem_cons.1 hw with rfl | hw
    · exact hv
    · exact hvs.all w hw

instance AllAvail.append {vs ws : List ValueId} [hvs : m.AllAvail scope vs]
    [hws : m.AllAvail scope ws] : m.AllAvail scope (vs ++ ws) where
  all v hv := (List.mem_append.1 hv).elim (hvs.all v) (hws.all v)

instance (priority := low) AllAvail.mono {vs : List ValueId} [m.Extends m']
    [hvs : m.AllAvail scope vs] : m'.AllAvail scope vs where
  all v hv := by
    have := hvs.all v hv
    infer_instance

/-! ### Modules under construction -/

/-- A module under construction: the code so far stays inside its functions, the next
instruction goes to a given place, and given blocks are the ones that have not ended. -/
structure Open (p : Option BlockId) (blocks : List BlockId) (m : Module) : Prop where
  admitted : ∀ {b d}, m.block b = .ok d → m.Admits b d
  listed : ∀ {f d b}, m.function f = .ok d → b ∈ d.blocks → m.HasBlock f b
  addresses : ∀ {f d v}, m.function f = .ok d → d.address = some v → m.Known v
  position : m.position = p
  isOpen : ∀ {b}, m.IsOpen b ↔ b ∈ blocks

/-- When no block is open, the module is closed. -/
theorem Open.isClosed {p : Option BlockId} (h : m.Open p []) : m.IsClosed where
  ended := by
    intro b d hb
    cases ht : d.terminator with
    | some t => exact ⟨t, rfl⟩
    | none =>
        have hopen : m.IsOpen b := ⟨d, hb, ht⟩
        exact absurd (h.isOpen.1 hopen) List.not_mem_nil
  admitted := h.admitted
  listed := h.listed

variable {p p' : Option BlockId} {blocks blocks' : List BlockId}

/-! ### Changes of a module under construction -/

/-- A later module under construction, when everything new in it stays inside its function. -/
theorem Open.of_extends (h : m.Open p blocks) (hm : m.Extends m')
    (hadmitted : ∀ {b d}, m'.block b = .ok d → m.block b = .ok d ∨ m'.Admits b d)
    (hlisted : ∀ {f d b}, m'.function f = .ok d → b ∈ d.blocks →
      (∃ e, m.function f = .ok e ∧ b ∈ e.blocks) ∨ m'.HasBlock f b)
    (haddresses : ∀ {f d v}, m'.function f = .ok d → d.address = some v →
      (∃ e, m.function f = .ok e ∧ e.address = some v) ∨ m'.Known v)
    (hposition : m'.position = p') (hopen : ∀ {b}, m'.IsOpen b ↔ b ∈ blocks') :
    m'.Open p' blocks' where
  admitted hb := by
    rcases hadmitted hb with hold | hnew
    · exact (h.admitted hold).mono hm
    · exact hnew
  listed hf hb := by
    rcases hlisted hf hb with ⟨e, he, hold⟩ | hnew
    · have := h.listed he hold
      infer_instance
    · exact hnew
  addresses hf hv := by
    rcases haddresses hf hv with ⟨e, he, hold⟩ | hnew
    · have := h.addresses he hold
      infer_instance
    · exact hnew
  position := hposition
  isOpen := hopen

/-- A change that adds values and touches no code. -/
theorem extends_of_values (hvalues : ∀ {v d}, m.value v = .ok d → m'.value v = .ok d)
    (hblocks : m'.blocks = m.blocks) (hfunctions : m'.functions = m.functions) :
    m.Extends m' where
  values := hvalues
  blocks {b d} hb := by
    have hb' : m'.block b = .ok d := by rwa [block, hblocks]
    exact ⟨d, hb', rfl, fun _ hv => hv, fun _ ht => ht⟩
  functions {f d} hf := by
    have hf' : m'.function f = .ok d := by rwa [function, hfunctions]
    exact ⟨d, hf', rfl, fun _ hb => hb⟩

/-- The code is as sound as it was, wherever the next instruction goes. -/
theorem Open.of_values (h : m.Open p blocks)
    (hvalues : ∀ {v d}, m.value v = .ok d → m'.value v = .ok d) (hblocks : m'.blocks = m.blocks)
    (hfunctions : m'.functions = m.functions) (hposition : m'.position = p') :
    m'.Open p' blocks := by
  refine h.of_extends (extends_of_values hvalues hblocks hfunctions) ?_ ?_ ?_ hposition ?_
  · intro b d hb
    left
    rwa [block, hblocks] at hb
  · intro f d b hf hb
    left
    exact ⟨d, by rwa [function, hfunctions] at hf, hb⟩
  · intro f d v hf hv
    left
    exact ⟨d, by rwa [function, hfunctions] at hf, hv⟩
  · intro b
    rw [← h.isOpen, IsOpen, IsOpen, block, block, hblocks]

theorem Open.withPosition (h : m.Open p blocks) (p' : Option BlockId) :
    (m.withPosition p').Open p' blocks :=
  h.of_values (fun hv => hv) rfl rfl rfl

/-- A block after a change of one block is what it was or the changed one. -/
theorem exists_of_block_modify {g : BlockData → BlockData} {old : Array BlockData} {c : BlockId}
    {d' : BlockData} (hc : Checked.at (old.modify b.index g) c.index = .ok d') :
    ∃ d, Checked.at old c.index = .ok d ∧ d' = if b = c then g d else d := by
  cases hd : Checked.at old c.index with
  | ok d =>
      refine ⟨d, rfl, ?_⟩
      rw [block_modify hd b] at hc
      exact (Except.ok.inj hc).symm
  | error e =>
      have hnone : old[c.index]? = none := by
        cases h : old[c.index]? with
        | none => rfl
        | some x => simp [Checked.at, h] at hd
      rw [Checked.at_eq_ok_iff, Array.getElem?_modify, hnone] at hc
      simp at hc

/-- A function after a change of one function is what it was or the changed one. -/
theorem exists_of_function_modify {g : FunctionData → FunctionData} {old : Array FunctionData}
    {i j : Nat} {d' : FunctionData} (hj : Checked.at (old.modify i g) j = .ok d') :
    ∃ d, Checked.at old j = .ok d ∧ d' = if i = j then g d else d := by
  rw [Checked.at_eq_ok_iff, Array.getElem?_modify] at hj
  split at hj
  · rename_i hij
    obtain ⟨d, hd, rfl⟩ := Option.map_eq_some_iff.1 hj
    exact ⟨d, Checked.at_eq_ok_iff.2 hd, by rw [if_pos hij]⟩
  · rename_i hij
    exact ⟨d', Checked.at_eq_ok_iff.2 hj, by rw [if_neg hij]⟩

/-- A function that is there is there after a change of one function. -/
theorem function_modify {g : FunctionData → FunctionData} {old : Array FunctionData} {i j : Nat}
    {d : FunctionData} (hj : Checked.at old j = .ok d) :
    Checked.at (old.modify i g) j = .ok (if i = j then g d else d) := by
  rw [Checked.at_eq_ok_iff] at hj ⊢
  rw [Array.getElem?_modify, hj]
  split <;> rfl

section Code

variable {d : BlockData}

/-- An instruction at the end of an open block is a later module. -/
theorem extends_withInstr (hb : m.block b = .ok d) (hopen : d.terminator = none) (ty : TypeId)
    (i : Instr) : m.Extends (m.withInstr b ty i) where
  values hv := value_withValue ty _ hv
  blocks {c e} hc := by
    refine ⟨_, block_modify hc b, ?_⟩
    split
    · rename_i heq
      subst heq
      cases hb.symm.trans hc
      refine ⟨rfl, fun v hv => Array.mem_push_of_mem _ hv, fun t ht => ?_⟩
      rw [hopen] at ht
      cases ht
    · exact ⟨rfl, fun _ hv => hv, fun _ ht => ht⟩
  functions hf := ⟨_, hf, rfl, fun _ hb => hb⟩

/-- An open block takes an instruction that only uses what is available. -/
theorem Open.withInstr (h : m.Open p blocks) (hb : m.block b = .ok d)
    (hopen : d.terminator = none) (ty : TypeId) {i : Instr}
    (huses : ∀ v ∈ i.operands, m.IsUsableIn d.function v) :
    (m.withInstr b ty i).Open p blocks := by
  have hm := extends_withInstr hb hopen ty i
  refine h.of_extends hm ?_ (fun hf hb => .inl ⟨_, hf, hb⟩) (fun hf hv => .inl ⟨_, hf, hv⟩)
    h.position ?_
  · intro c e' hc
    obtain ⟨e, he, rfl⟩ := exists_of_block_modify hc
    split
    · -- The block that takes the instruction.
      rename_i heq
      subst heq
      cases hb.symm.trans he
      right
      have hadmits := (h.admitted hb).mono hm
      refine ⟨hadmits.owned, fun id hid => ?_, hadmits.successors, hadmits.operands⟩
      rcases Array.mem_push.1 hid with hold | rfl
      · exact hadmits.instructions id hold
      · exact ⟨ty, i, value_withValue_nextValue m ty _, fun v hv => (huses v hv).mono hm⟩
    · exact .inl he
  · intro c
    rw [← h.isOpen]
    constructor
    · rintro ⟨e', hc, hnone⟩
      obtain ⟨e, he, rfl⟩ := exists_of_block_modify hc
      refine ⟨e, he, ?_⟩
      split at hnone <;> exact hnone
    · rintro ⟨e, he, hnone⟩
      refine ⟨_, block_modify he b, ?_⟩
      split <;> exact hnone

/-- The end of an open block is a later module. -/
theorem extends_withTerminator (hb : m.block b = .ok d) (hopen : d.terminator = none)
    (t : Terminator) : m.Extends (m.withTerminator b t) :=
  (grows_withTerminator hb hopen t).extends

/-- An open block ends in a way that stays inside its function. -/
theorem Open.withTerminator (h : m.Open p (b :: blocks)) (hb : m.block b = .ok d)
    (hfresh : b ∉ blocks) {t : Terminator}
    (hsuccessors : ∀ c ∈ t.successors, m.HasBlock d.function c)
    (huses : ∀ v ∈ t.operands, m.IsUsableIn d.function v) :
    (m.withTerminator b t).Open p blocks := by
  obtain ⟨d', hd', hopen⟩ := h.isOpen.2 (List.mem_cons_self (l := blocks))
  obtain rfl : d = d' := Except.ok.inj (hb.symm.trans hd')
  have hm := extends_withTerminator hb hopen t
  refine h.of_extends hm ?_ (fun hf hb => .inl ⟨_, hf, hb⟩) (fun hf hv => .inl ⟨_, hf, hv⟩)
    h.position ?_
  · intro c e' hc
    obtain ⟨e, he, rfl⟩ := exists_of_block_modify hc
    split
    · rename_i heq
      subst heq
      cases hb.symm.trans he
      right
      have hadmits := (h.admitted hb).mono hm
      refine ⟨hadmits.owned, hadmits.instructions, ?_, ?_⟩
      · rintro _ ⟨rfl⟩ c hc
        have := hsuccessors c hc
        infer_instance
      · rintro _ ⟨rfl⟩ v hv
        exact (huses v hv).mono hm
    · exact .inl he
  · intro c
    constructor
    · rintro ⟨e', hc, hnone⟩
      obtain ⟨e, he, rfl⟩ := exists_of_block_modify hc
      split at hnone
      · cases hnone
      · rename_i hne
        have hmem : c ∈ b :: blocks := h.isOpen.1 ⟨e, he, hnone⟩
        exact (List.mem_cons.1 hmem).resolve_left fun heq => hne heq.symm
    · intro hmem
      obtain ⟨e, he, hnone⟩ := h.isOpen.2 (List.mem_cons_of_mem b hmem)
      refine ⟨_, block_modify he b, ?_⟩
      rw [if_neg]
      · exact hnone
      · rintro rfl
        exact hfresh hmem

end Code

/-- A new block of a function that is there. -/
theorem Open.withBlock (h : m.Open p blocks) {d : FunctionData} (hf : m.function f = .ok d)
    (name : String) : (m.withBlock f name).Open p (m.nextBlock :: blocks) := by
  have hm := (grows_withBlock m f name).extends
  have hnew : (m.withBlock f name).block m.nextBlock = .ok ⟨name, f, #[], none⟩ :=
    Checked.at_push_size _ _
  have hold : ∀ {b e}, (m.withBlock f name).block b = .ok e →
      m.block b = .ok e ∨ b = m.nextBlock ∧ e = ⟨name, f, #[], none⟩ := by
    intro b e hb
    have hb' := Checked.at_eq_ok_iff.1 hb
    change (m.blocks.push _)[b.index]? = _ at hb'
    rw [Array.getElem?_push] at hb'
    split at hb'
    · rename_i heq
      right
      refine ⟨?_, (Option.some.inj hb').symm⟩
      cases b
      exact congrArg BlockId.mk heq
    · exact .inl (Checked.at_eq_ok_iff.2 hb')
  have hfunction : (m.withBlock f name).function f =
      .ok { d with blocks := d.blocks ++ [m.nextBlock] } := by
    have hmodified := function_modify (i := f.index)
      (g := fun data => { data with blocks := data.blocks ++ [m.nextBlock] }) hf
    rwa [if_pos rfl] at hmodified
  refine h.of_extends hm ?_ ?_ ?_ h.position ?_
  · intro b e hb
    rcases hold hb with hb | ⟨rfl, rfl⟩
    · exact .inl hb
    · right
      refine ⟨⟨_, hfunction, by simp⟩, fun id hid => ?_, fun t ht => ?_, fun t ht => ?_⟩
      · simp at hid
      · cases ht
      · cases ht
  · intro g e b hg hb
    obtain ⟨e', he', rfl⟩ := exists_of_function_modify hg
    split at hb
    · rename_i heq
      have hfg : f = g := by
        cases f
        cases g
        exact congrArg FunctionId.mk heq
      subst hfg
      rcases List.mem_append.1 hb with hb | hb
      · exact .inl ⟨e', he', hb⟩
      · right
        obtain rfl := List.mem_singleton.1 hb
        exact ⟨_, hnew, rfl⟩
    · exact .inl ⟨e', he', hb⟩
  · intro g e v hg hv
    obtain ⟨e', he', rfl⟩ := exists_of_function_modify hg
    left
    refine ⟨e', he', ?_⟩
    split at hv <;> exact hv
  · intro b
    rw [List.mem_cons, ← h.isOpen]
    constructor
    · rintro ⟨e, he, hnone⟩
      rcases hold he with he | ⟨rfl, -⟩
      · exact .inr ⟨e, he, hnone⟩
      · exact .inl rfl
    · rintro (rfl | ⟨e, he, hnone⟩)
      · exact ⟨_, hnew, rfl⟩
      · exact ⟨e, Checked.at_push _ he, hnone⟩

/-- The block that is made next has not been open. -/
theorem Open.nextBlock_notMem (h : m.Open p blocks) : m.nextBlock ∉ blocks := by
  intro hmem
  obtain ⟨e, he, -⟩ := h.isOpen.2 hmem
  obtain ⟨hlt, -⟩ := Array.getElem?_eq_some_iff.1 (Checked.at_eq_ok_iff.1 he)
  exact Nat.lt_irrefl _ hlt

/-- A new block is a block of its function. -/
instance hasBlock_withBlock (m : Module) (f : FunctionId) (name : String) :
    (m.withBlock f name).HasBlock f m.nextBlock where
  block := ⟨_, Checked.at_push_size _ _, rfl⟩

/-- A change of a function that leaves its parameters and blocks alone. -/
theorem extends_modifyFunction {g : FunctionData → FunctionData} {hg : ∀ d, (g d).name = d.name}
    (hparams : ∀ d, (g d).params = d.params) (hblocks : ∀ d, (g d).blocks = d.blocks) :
    m.Extends (m.modifyFunction f g hg) where
  values hv := hv
  blocks hb := ⟨_, hb, rfl, fun _ hv => hv, fun _ ht => ht⟩
  functions hd := by
    refine ⟨_, function_modify hd, ?_⟩
    split
    · exact ⟨hparams _, fun b hb => (hblocks _).symm ▸ hb⟩
    · exact ⟨rfl, fun _ hb => hb⟩

/-- Such a change keeps the module sound when the address of the function, if there is one, is
known. -/
theorem Open.modifyFunction (h : m.Open p blocks) {g : FunctionData → FunctionData}
    {hg : ∀ d, (g d).name = d.name} (hparams : ∀ d, (g d).params = d.params)
    (hblocks : ∀ d, (g d).blocks = d.blocks)
    (haddress : ∀ d v, (g d).address = some v → d.address = some v ∨ m.Known v) :
    (m.modifyFunction f g hg).Open p blocks := by
  have hm : m.Extends (m.modifyFunction f g hg) := extends_modifyFunction hparams hblocks
  refine h.of_extends hm (fun hb => .inl hb) ?_ ?_ h.position h.isOpen
  · intro f' d' b hd' hb
    obtain ⟨d, hd, rfl⟩ := exists_of_function_modify hd'
    left
    refine ⟨d, hd, ?_⟩
    split at hb
    · rwa [hblocks] at hb
    · exact hb
  · intro f' d' v hd' hv
    obtain ⟨d, hd, rfl⟩ := exists_of_function_modify hd'
    split at hv
    · rcases haddress d v hv with hv | hknown
      · exact .inl ⟨d, hd, hv⟩
      · exact .inr inferInstance
    · exact .inl ⟨d, hd, hv⟩

/-- A new function without blocks is a later module. -/
theorem extends_withFunction (m : Module) (d : FunctionData)
    (hnew : m.functionByName? d.name = none) : m.Extends (m.withFunction d hnew) where
  values hv := hv
  blocks hb := ⟨_, hb, rfl, fun _ hv => hv, fun _ ht => ht⟩
  functions hf := ⟨_, Checked.at_push _ hf, rfl, fun _ hb => hb⟩

/-- A new function without blocks and without an address keeps the module sound. -/
theorem Open.withFunction (h : m.Open p blocks) {d : FunctionData}
    (hnew : m.functionByName? d.name = none) (hblocks : d.blocks = [])
    (haddress : d.address = none) : (m.withFunction d hnew).Open p blocks := by
  have hold : ∀ {f e}, (m.withFunction d hnew).function f = .ok e →
      m.function f = .ok e ∨ e = d := by
    intro f e hf
    have hf' := Checked.at_eq_ok_iff.1 hf
    change (m.functions.push d)[f.index]? = _ at hf'
    rw [Array.getElem?_push] at hf'
    split at hf'
    · exact .inr (Option.some.inj hf').symm
    · exact .inl (Checked.at_eq_ok_iff.2 hf')
  refine h.of_extends (extends_withFunction m d hnew) (fun hb => .inl hb) ?_ ?_ h.position h.isOpen
  · intro f e b hf hb
    rcases hold hf with hf | rfl
    · exact .inl ⟨e, hf, hb⟩
    · rw [hblocks] at hb
      cases hb
  · intro f e v hf hv
    rcases hold hf with hf | rfl
    · exact .inl ⟨e, hf, hv⟩
    · rw [haddress] at hv
      cases hv

end Module

end SsaCompiler
