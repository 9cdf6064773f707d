/-
# Growth of modules

A module under construction only grows. Values stay what they are, blocks get further
instructions until they end and then never change, functions get further blocks. What is
proved about a piece of code when it is made therefore holds of every later module, and in
particular of the finished one.

A choice by the block from which control came stands only at the head of a block that was made
to join two ways, and such blocks have names of their own. Growth includes that no choice is
added anywhere else, so that entering any other block settles nothing.
-/

import SsaCompiler.Proofs.Ir.Request

namespace SsaCompiler

namespace Module

/-- The names of blocks that begin with a choice. -/
def joinNames : List String := ["bool.end", "grow.alloc"]

/-- A value that is there and is no choice. -/
def IsPlain (m : Module) (v : ValueId) : Prop :=
  ∃ d, m.value v = .ok d ∧ ∀ incoming, d.origin ≠ .instr (.phi incoming)

/-- What may be known of an instruction that has come to a block: in a later module, of the block as
it was, of the place of the instruction and of the instruction. -/
abbrev Novelty := Module → BlockData → Nat → ValueId → Prop

/-- A block in a later module: an ended block is the same, an open one may have more instructions,
of which something is known. -/
structure BlockGrowsBy (New : Novelty) (m' : Module) (old new : BlockData) : Prop where
  function : new.function = old.function
  name : new.name = old.name
  instrs : old.instrs.toList <+: new.instrs.toList
  added : ∀ {i id}, old.instrs.size ≤ i → new.instrs[i]? = some id → New m' old i id
  ended : ∀ t, old.terminator = some t → new = old

/-- A function in a later module. -/
structure FunctionGrows (old new : FunctionData) : Prop where
  name : new.name = old.name
  ty : new.ty = old.ty
  params : new.params = old.params
  blocks : old.blocks <+: new.blocks

/-- A later module. A structure may have got its body in the meantime. -/
structure GrowsBy (New : Novelty) (m m' : Module) : Prop where
  types : ∀ {id t}, m.types.get id = .ok t → (∀ name, t ≠ .named name none) →
    m'.types.get id = .ok t
  values : ∀ {v d}, m.value v = .ok d → m'.value v = .ok d
  blocks : ∀ {b d}, m.block b = .ok d → ∃ d', m'.block b = .ok d' ∧ BlockGrowsBy New m' d d'
  functions : ∀ {f d}, m.function f = .ok d → ∃ d', m'.function f = .ok d' ∧ FunctionGrows d d'
  errors : m.codegenErrors ≤ m'.codegenErrors

/-- No choice, unless it stands at the head of a block that joins two ways. -/
def IsInOrder : Novelty := fun m old i id => m.IsPlain id ∨ i = 0 ∧ old.name ∈ joinNames

/-- A block that may have got instructions, choices only where they belong. -/
abbrev BlockGrows (m' : Module) (old new : BlockData) : Prop := BlockGrowsBy IsInOrder m' old new

/-- A later module to which choices have come only where they belong. -/
abbrev Grows (m m' : Module) : Prop := GrowsBy IsInOrder m m'

/-! ### Order -/

/-- What is known of new instructions remains true. -/
class Novelty.IsLasting (New : Novelty) : Prop where
  mono : ∀ {m m' : Module} {d d' : BlockData} {i : Nat} {id : ValueId},
    (∀ {v e}, m.value v = .ok e → m'.value v = .ok e) → d'.name = d.name → New m d' i id →
      New m' d i id

/-- What is no choice stays none. -/
theorem IsPlain.mono {m m' : Module} {v : ValueId} (h : m.IsPlain v)
    (hvalues : ∀ {v d}, m.value v = .ok d → m'.value v = .ok d) : m'.IsPlain v := by
  obtain ⟨d, hd, hplain⟩ := h
  exact ⟨d, hvalues hd, hplain⟩

instance : IsInOrder.IsLasting where
  mono hvalues hname h := h.imp (·.mono hvalues) fun hjoin => ⟨hjoin.1, hname ▸ hjoin.2⟩

/-- A block is a later form of itself. -/
theorem BlockGrowsBy.refl {New : Novelty} (m : Module) (d : BlockData) : BlockGrowsBy New m d d where
  function := rfl
  name := rfl
  instrs := List.prefix_rfl
  added hi hid := absurd (Array.getElem?_eq_some_iff.1 hid).1 (Nat.not_lt.2 hi)
  ended _ _ := rfl

/-- A function is a later form of itself. -/
theorem FunctionGrows.refl (d : FunctionData) : FunctionGrows d d :=
  ⟨rfl, rfl, rfl, List.prefix_rfl⟩

/-- A module is a later form of itself. -/
theorem GrowsBy.refl {New : Novelty} (m : Module) : GrowsBy New m m where
  types ht _ := ht
  values hv := hv
  blocks hb := ⟨_, hb, .refl m _⟩
  functions hf := ⟨_, hf, .refl _⟩
  errors := Nat.le_refl _

/-- An instruction that is there stays where it is. -/
theorem BlockGrowsBy.getElem? {New : Novelty} {m : Module} {d d' : BlockData}
    (h : BlockGrowsBy New m d d') {i : Nat} {id : ValueId} (hid : d.instrs[i]? = some id) :
    d'.instrs[i]? = some id := by
  rw [← Array.getElem?_toList] at hid ⊢
  obtain ⟨extra, hextra⟩ := h.instrs
  rw [← hextra, List.getElem?_append_left (List.getElem?_eq_some_iff.1 hid).1, hid]

theorem BlockGrowsBy.trans {New : Novelty} [New.IsLasting] {m m' : Module} {d d' d'' : BlockData}
    (h : BlockGrowsBy New m d d') (h' : BlockGrowsBy New m' d' d'')
    (hvalues : ∀ {v e}, m.value v = .ok e → m'.value v = .ok e) : BlockGrowsBy New m' d d'' where
  function := h'.function.trans h.function
  name := h'.name.trans h.name
  instrs := h.instrs.trans h'.instrs
  added := by
    intro i id hi hid
    cases hmid : d'.instrs[i]? with
    | none =>
        exact Novelty.IsLasting.mono (fun hv => hv) h.name
          (h'.added (Array.getElem?_eq_none_iff.1 hmid) hid)
    | some id' =>
        cases hid.symm.trans (h'.getElem? hmid)
        exact Novelty.IsLasting.mono hvalues rfl (h.added hi hmid)
  ended := by
    intro t ht
    obtain rfl := h.ended t ht
    exact h'.ended t ht

theorem FunctionGrows.trans {d d' d'' : FunctionData} (h : FunctionGrows d d')
    (h' : FunctionGrows d' d'') : FunctionGrows d d'' :=
  ⟨h'.name.trans h.name, h'.ty.trans h.ty, h'.params.trans h.params, h.blocks.trans h'.blocks⟩

theorem GrowsBy.trans {New : Novelty} [New.IsLasting] {m m' m'' : Module} (h : GrowsBy New m m')
    (h' : GrowsBy New m' m'') : GrowsBy New m m'' where
  types ht hbody := h'.types (h.types ht hbody) hbody
  values hv := h'.values (h.values hv)
  blocks hb := by
    obtain ⟨d', hd', hgrows⟩ := h.blocks hb
    obtain ⟨d'', hd'', hgrows'⟩ := h'.blocks hd'
    exact ⟨d'', hd'', hgrows.trans hgrows' h'.values⟩
  functions hf := by
    obtain ⟨d', hd', hgrows⟩ := h.functions hf
    obtain ⟨d'', hd'', hgrows'⟩ := h'.functions hd'
    exact ⟨d'', hd'', hgrows.trans hgrows'⟩
  errors := Nat.le_trans h.errors h'.errors

/-- Tables of blocks only get longer. -/
theorem GrowsBy.blocks_size {New : Novelty} {m m' : Module} (h : GrowsBy New m m') :
    m.blocks.size ≤ m'.blocks.size := by
  refine Nat.le_of_not_lt fun hlt => ?_
  have hb : m.block ⟨m'.blocks.size⟩ = .ok m.blocks[m'.blocks.size] :=
    Checked.at_eq_ok_iff.2 (Array.getElem?_eq_getElem hlt)
  obtain ⟨d', hd', -⟩ := h.blocks hb
  exact Nat.lt_irrefl _ (Array.getElem?_eq_some_iff.1 (Checked.at_eq_ok_iff.1 hd')).1

/-- Tables of values only get longer. -/
theorem GrowsBy.values_size {New : Novelty} {m m' : Module} (h : GrowsBy New m m') :
    m.values.size ≤ m'.values.size := by
  refine Nat.le_of_not_lt fun hlt => ?_
  have hv : m.value ⟨m'.values.size⟩ = .ok m.values[m'.values.size] :=
    Checked.at_eq_ok_iff.2 (Array.getElem?_eq_getElem hlt)
  exact Nat.lt_irrefl _
    (Array.getElem?_eq_some_iff.1 (Checked.at_eq_ok_iff.1 (h.values hv))).1

/-- A function is found under its name in a later module. -/
theorem GrowsBy.functionByName? {New : Novelty} {m M : Module} {name : String} {f : FunctionId}
    (h : GrowsBy New m M) (hf : m.functionByName? name = some f) : M.functionByName? name = some f := by
  obtain ⟨d, hd, hname⟩ := functionByName?_eq_some_iff.1 hf
  obtain ⟨d', hd', hgrows⟩ := h.functions hd
  exact functionByName?_eq_some_iff.2 ⟨d', hd', hgrows.name.trans hname⟩

/-! ### Single changes -/

section Changes

variable {m : Module} {b : BlockId} {d : BlockData}

/-- The module in which a new block has been added to a function. -/
def withBlock (m : Module) (f : FunctionId) (name : String) : Module :=
  { m with
    blocks := m.blocks.push ⟨name, f, #[], none⟩
    functions := m.functions.modify f.index fun data =>
      { data with blocks := data.blocks ++ [⟨m.blocks.size⟩] }
    functionsIndexed := m.functionsIndexed.modify fun _ _ => rfl }

/-- The block that is made next. -/
def nextBlock (m : Module) : BlockId := ⟨m.blocks.size⟩

/-- Another current block. -/
def withPosition (m : Module) (p : Option BlockId) : Module := { m with position := p }

/-- A new value is no change of the others. -/
theorem grows_withValue (m : Module) (ty : TypeId) (origin : ValueDef) :
    m.Grows (m.withValue ty origin) where
  types ht _ := ht
  values hv := value_withValue ty origin hv
  blocks hb := ⟨_, hb, .refl _ _⟩
  functions hf := ⟨_, hf, .refl _⟩
  errors := Nat.le_refl _

/-- A new type is no change of the others. -/
theorem grows_withType (m : Module) (ty : IrType) (hty : ty.description? = some ty :=
    by exact IrType.description?_eq_self _) : m.Grows (m.withType ty hty) where
  types ht _ := TypeTable.get_intern_of_ok ty ht
  values hv := hv
  blocks hb := ⟨_, hb, .refl _ _⟩
  functions hf := ⟨_, hf, .refl _⟩
  errors := Nat.le_refl _

/-- A new function is no change of the others. -/
theorem grows_withFunction (m : Module) (d : FunctionData)
    (hnew : m.functionByName? d.name = none) : m.Grows (m.withFunction d hnew) where
  types ht _ := ht
  values hv := hv
  blocks hb := ⟨_, hb, .refl _ _⟩
  functions hf := ⟨_, Checked.at_push _ hf, .refl _⟩
  errors := Nat.le_refl _

/-- Going on elsewhere is no change. -/
theorem grows_withPosition (m : Module) (p : Option BlockId) : m.Grows (m.withPosition p) where
  types ht _ := ht
  values hv := hv
  blocks hb := ⟨_, hb, .refl _ _⟩
  functions hf := ⟨_, hf, .refl _⟩
  errors := Nat.le_refl _

/-- A block after a change of one block. -/
theorem block_modify {f : BlockData → BlockData} {blocks : Array BlockData} {c : BlockId}
    {d : BlockData} (hc : Checked.at blocks c.index = .ok d) (b : BlockId) :
    Checked.at (blocks.modify b.index f) c.index = .ok (if b = c then f d else d) := by
  rw [Checked.at_eq_ok_iff] at hc ⊢
  rw [Array.getElem?_modify, hc]
  have hindex : b.index = c.index ↔ b = c := by
    cases b
    cases c
    simp
  by_cases hb : b = c
  · rw [if_pos (hindex.2 hb), if_pos hb]
    rfl
  · rw [if_neg (fun h => hb (hindex.1 h)), if_neg hb]

/-- An open block takes an instruction. -/
theorem growsBy_withInstr {New : Novelty} (hb : m.block b = .ok d) (hopen : d.terminator = none)
    (ty : TypeId) {i : Instr} (hnew : New (m.withInstr b ty i) d d.instrs.size m.nextValue) :
    GrowsBy New m (m.withInstr b ty i) where
  types ht _ := ht
  values hv := value_withValue ty _ hv
  blocks := by
    intro c e hc
    refine ⟨_, block_modify hc b, ?_⟩
    split
    · rename_i heq
      subst heq
      cases hb.symm.trans hc
      refine ⟨rfl, rfl, by simp, fun {k id} hk hid => ?_, fun t ht => ?_⟩
      · obtain rfl : k = d.instrs.size := by
          obtain ⟨hlt, -⟩ := Array.getElem?_eq_some_iff.1 hid
          simp only [Array.size_push] at hlt
          omega
        obtain rfl : m.nextValue = id := by simpa using hid
        exact hnew
      · cases hopen.symm.trans ht
    · exact .refl _ _
  functions hf := ⟨_, hf, .refl _⟩
  errors := Nat.le_refl _

/-- A choice stands at the head of a block that joins two ways. -/
theorem grows_withInstr (hb : m.block b = .ok d) (hopen : d.terminator = none) (ty : TypeId)
    {i : Instr} (hplain : (∀ incoming, i ≠ .phi incoming) ∨ d.instrs.size = 0 ∧ d.name ∈ joinNames) :
    m.Grows (m.withInstr b ty i) := by
  refine growsBy_withInstr hb hopen ty (hplain.imp_left fun hplain => ?_)
  exact ⟨⟨ty, .instr i⟩, value_withValue_nextValue m ty _, fun incoming heq =>
    hplain incoming (ValueDef.instr.inj heq)⟩

theorem grows_withTerminator (hb : m.block b = .ok d) (hopen : d.terminator = none)
    (t : Terminator) : m.Grows (m.withTerminator b t) where
  types ht _ := ht
  values hv := hv
  blocks := by
    intro c e hc
    refine ⟨_, block_modify hc b, ?_⟩
    split
    · rename_i heq
      subst heq
      cases hb.symm.trans hc
      refine ⟨rfl, rfl, List.prefix_rfl, (BlockGrowsBy.refl (m.withTerminator b t) d).added, fun t ht => ?_⟩
      rw [hopen] at ht
      cases ht
    · exact .refl _ _
  functions hf := ⟨_, hf, .refl _⟩
  errors := Nat.le_refl _

/-- A new block is no change of the others. -/
theorem grows_withBlock (m : Module) (f : FunctionId) (name : String) :
    m.Grows (m.withBlock f name) where
  types ht _ := ht
  values hv := hv
  blocks hb := ⟨_, Checked.at_push _ hb, .refl _ _⟩
  functions := by
    intro g e hg
    have hmodified : (m.withBlock f name).function g = .ok (if f.index = g.index then
        { e with blocks := e.blocks ++ [m.nextBlock] } else e) := by
      refine Checked.at_eq_ok_iff.2 ?_
      have hg' := Checked.at_eq_ok_iff.1 hg
      change (m.functions.modify f.index _)[g.index]? = _
      rw [Array.getElem?_modify, hg']
      split <;> rfl
    refine ⟨_, hmodified, ?_⟩
    split
    · exact ⟨rfl, rfl, rfl, List.prefix_append _ _⟩
    · exact .refl e
  errors := Nat.le_refl _

end Changes

end Module

end SsaCompiler
