/-
# What requests leave alone

A request for a type, a value or code changes the types, the values, the current block or the
globals of a module. What depends on none of these is the same before and after: the names of the
functions, and what is around the current block, which is where code goes on, the code of the other
blocks, and the choices by the block from which control came. Only a declaration changes the names,
only a request to go on somewhere else changes the current block, and only a request for a choice
adds one.

How a block ends and what room it makes on the stack is its outline. Most requests leave the
outlines of all blocks alone, the current one included.
-/

import SsaCompiler.Proofs.Ir.Session

namespace SsaCompiler

/-! ### Choices and room on the stack -/

/-- A choice by the block from which control came. -/
def Instr.isChoice : Instr → Bool
  | phi _ => true
  | _ => false

/-- A value that is such a choice. -/
def ValueDef.isChoice : ValueDef → Bool
  | instr i => i.isChoice
  | _ => false

/-- An instruction that makes room on the stack. -/
def Instr.isSlot : Instr → Bool
  | alloca _ => true
  | _ => false

/-- A value that is the address of such room. -/
def ValueDef.isSlot : ValueDef → Bool
  | instr i => i.isSlot
  | _ => false

/-- Only choices are of the kind of choices. -/
theorem Instr.isChoice_eq_false {i : Instr} (h : i.kind ≠ .choice) : i.isChoice = false := by
  cases i with
  | phi => exact absurd rfl h
  | _ => rfl

/-- Only room on the stack is of its kind. -/
theorem Instr.isSlot_eq_false {i : Instr} (h : i.kind ≠ .slot) : i.isSlot = false := by
  cases i with
  | alloca => exact absurd rfl h
  | _ => rfl

/-- A value that is no instruction is of neither kind. -/
theorem ValueDef.isChoice_eq_false {origin : ValueDef} (h : ∀ i, origin ≠ .instr i) :
    origin.isChoice = false := by
  cases origin with
  | instr i => exact absurd rfl (h i)
  | _ => rfl

theorem ValueDef.isSlot_eq_false {origin : ValueDef} (h : ∀ i, origin ≠ .instr i) :
    origin.isSlot = false := by
  cases origin with
  | instr i => exact absurd rfl (h i)
  | _ => rfl

/-! ### What is around the current block -/

namespace Module

variable {m m' : Module}

/-- The instructions of a block and its end. A block that is still to be made has neither. -/
def code (m : Module) (b : BlockId) : Array ValueId × Option Terminator :=
  (m.blocks[b.index]?.map fun d => (d.instrs, d.terminator)).getD (#[], none)

/-- Whether a value is a choice. -/
def isChoice (m : Module) (v : ValueId) : Bool :=
  (m.values[v.index]?.map fun d => d.origin.isChoice).getD false

/-- The choices in a block. -/
def choices (m : Module) (b : BlockId) : List ValueId := (m.code b).1.toList.filter m.isChoice

/-- Whether a value comes about in one of some ways. -/
def comesFrom (m : Module) (p : ValueDef → Bool) (v : ValueId) : Bool :=
  (m.values[v.index]?.map fun d => p d.origin).getD false

/-- The instructions of a block that come about in one of some ways. -/
def codeOf (m : Module) (p : ValueDef → Bool) (b : BlockId) : List ValueId :=
  (m.code b).1.toList.filter (m.comesFrom p)

/-- The current block, the code of the other blocks, and the choices in all of them. -/
def surroundings (m : Module) : Option BlockId ×
    (BlockId → Option (Array ValueId × Option Terminator)) × (BlockId → List ValueId) :=
  (m.position, fun b => if m.position = some b then none else some (m.code b), m.choices)

/-- How the blocks end, and what room they make on the stack. -/
def outline (m : Module) (b : BlockId) : Option Terminator × List ValueId :=
  ((m.code b).2, m.codeOf ValueDef.isSlot b)

variable {p : ValueDef → Bool}

/-- The surroundings are the same when the code of the other blocks and the choices are. -/
theorem surroundings_eq (hposition : m'.position = m.position)
    (hcode : ∀ b, m.position ≠ some b → m'.code b = m.code b)
    (hchoices : m'.codeOf ValueDef.isChoice = m.codeOf ValueDef.isChoice) :
    m'.surroundings = m.surroundings := by
  have hsame : m'.choices = m.choices := hchoices
  unfold surroundings
  rw [hposition, hsame]
  refine Prod.ext rfl (Prod.ext (funext fun b => ?_) rfl)
  dsimp only
  split
  · rfl
  · rename_i hne
    rw [hcode b hne]

/-- The outline is the same when the ends of the blocks and their room are. -/
theorem outline_eq (hends : ∀ b, (m'.code b).2 = (m.code b).2)
    (hslots : m'.codeOf ValueDef.isSlot = m.codeOf ValueDef.isSlot) : m'.outline = m.outline := by
  funext b
  unfold outline
  rw [hends b, hslots]

/-- A block at the end of the blocks is as if it were still to be made. -/
theorem code_withBlock (m : Module) (f : FunctionId) (name : String) (b : BlockId) :
    (m.withBlock f name).code b = m.code b := by
  unfold code withBlock
  rw [Array.getElem?_push]
  by_cases hlast : b.index = m.blocks.size
  · rw [if_pos hlast, hlast, Array.getElem?_size]
    rfl
  · rw [if_neg hlast]

/-- A change of one block leaves the code of the others alone. -/
theorem code_modify_ne {g : BlockData → BlockData} {b c : BlockId} (hne : b ≠ c)
    (hblocks : m'.blocks = m.blocks.modify c.index g) : m'.code b = m.code b := by
  have hindex : c.index ≠ b.index := fun heq => hne (congrArg BlockId.mk heq.symm)
  rw [code, hblocks, Array.getElem?_modify, if_neg hindex, code]

/-- A value that comes about in another way leaves the others what they are. -/
theorem comesFrom_withValue (m : Module) (ty : TypeId) {origin : ValueDef}
    (horigin : p origin = false) : (m.withValue ty origin).comesFrom p = m.comesFrom p := by
  funext v
  unfold comesFrom withValue
  rw [Array.getElem?_push]
  by_cases hlast : v.index = m.values.size
  · rw [if_pos hlast, hlast, Array.getElem?_size]
    exact horigin
  · rw [if_neg hlast]

/-- A value that is still to be made has not come about in any way. -/
theorem comesFrom_nextValue (m : Module) (p : ValueDef → Bool) :
    m.comesFrom p m.nextValue = false := by
  rw [comesFrom, show m.values[m.nextValue.index]? = none from Array.getElem?_size]
  rfl

/-- An instruction that comes about in another way is none of a kind. -/
theorem codeOf_withInstr (m : Module) (b : BlockId) (ty : TypeId) {i : Instr}
    (hi : p (.instr i) = false) : (m.withInstr b ty i).codeOf p = m.codeOf p := by
  have hblocks : (m.withInstr b ty i).blocks = m.blocks.modify b.index fun block =>
      { block with instrs := block.instrs.push m.nextValue } := rfl
  have hsame : (m.withInstr b ty i).comesFrom p = m.comesFrom p := comesFrom_withValue m ty hi
  funext c
  unfold codeOf
  rw [hsame]
  by_cases hc : c = b
  · subst hc
    rw [code, code, hblocks, Array.getElem?_modify, if_pos rfl]
    cases m.blocks[c.index]? with
    | none => rfl
    | some d => simp [comesFrom_nextValue]
  · rw [code_modify_ne hc hblocks]

/-- The end of a block is no instruction. -/
theorem codeOf_withTerminator (m : Module) (b : BlockId) (t : Terminator) :
    (m.withTerminator b t).codeOf p = m.codeOf p := by
  have hblocks : (m.withTerminator b t).blocks = m.blocks.modify b.index fun block =>
      { block with terminator := some t } := rfl
  have hinstrs : ∀ c, ((m.withTerminator b t).code c).1 = (m.code c).1 := by
    intro c
    by_cases hc : c = b
    · subst hc
      rw [code, code, hblocks, Array.getElem?_modify, if_pos rfl]
      cases m.blocks[c.index]? <;> rfl
    · rw [code_modify_ne hc hblocks]
  funext c
  unfold codeOf
  rw [hinstrs c]
  rfl

/-- A new block has no instructions. -/
theorem codeOf_withBlock (m : Module) (f : FunctionId) (name : String) :
    (m.withBlock f name).codeOf p = m.codeOf p := by
  funext b
  unfold codeOf
  rw [code_withBlock]
  rfl

/-- A value that comes about in another way is no instruction of a kind. -/
theorem codeOf_withValue (m : Module) (ty : TypeId) {origin : ValueDef}
    (horigin : p origin = false) : (m.withValue ty origin).codeOf p = m.codeOf p := by
  funext b
  unfold codeOf
  rw [comesFrom_withValue m ty horigin]
  rfl

/-- A plain instruction leaves the surroundings alone. -/
theorem surroundings_withInstr {b : BlockId} (hb : m.position = some b) (ty : TypeId) {i : Instr}
    (hi : i.isChoice = false) : (m.withInstr b ty i).surroundings = m.surroundings := by
  have hblocks : (m.withInstr b ty i).blocks = m.blocks.modify b.index fun block =>
      { block with instrs := block.instrs.push m.nextValue } := rfl
  exact surroundings_eq rfl (fun c hc => code_modify_ne (fun heq => hc (heq ▸ hb)) hblocks)
    (codeOf_withInstr m b ty hi)

theorem code_withInstr_snd (m : Module) (b c : BlockId) (ty : TypeId) (i : Instr) :
    ((m.withInstr b ty i).code c).2 = (m.code c).2 := by
  have hblocks : (m.withInstr b ty i).blocks = m.blocks.modify b.index fun block =>
      { block with instrs := block.instrs.push m.nextValue } := rfl
  by_cases hc : c = b
  · subst hc
    rw [code, code, hblocks, Array.getElem?_modify, if_pos rfl]
    cases m.blocks[c.index]? <;> rfl
  · rw [code_modify_ne hc hblocks]

/-- An instruction that makes no room leaves the outline alone. -/
theorem outline_withInstr (m : Module) (b : BlockId) (ty : TypeId) {i : Instr}
    (hi : i.isSlot = false) : (m.withInstr b ty i).outline = m.outline :=
  outline_eq (fun c => code_withInstr_snd m b c ty i) (codeOf_withInstr m b ty hi)

/-- The end of the current block leaves the surroundings alone. -/
theorem surroundings_withTerminator {b : BlockId} (hb : m.position = some b) (t : Terminator) :
    (m.withTerminator b t).surroundings = m.surroundings := by
  have hblocks : (m.withTerminator b t).blocks = m.blocks.modify b.index fun block =>
      { block with terminator := some t } := rfl
  exact surroundings_eq rfl (fun c hc => code_modify_ne (fun heq => hc (heq ▸ hb)) hblocks)
    (codeOf_withTerminator m b t)

/-- A new block leaves the surroundings alone. -/
theorem surroundings_withBlock (m : Module) (f : FunctionId) (name : String) :
    (m.withBlock f name).surroundings = m.surroundings :=
  surroundings_eq rfl (fun b _ => code_withBlock m f name b) (codeOf_withBlock m f name)

theorem outline_withBlock (m : Module) (f : FunctionId) (name : String) :
    (m.withBlock f name).outline = m.outline :=
  outline_eq (fun b => congrArg Prod.snd (code_withBlock m f name b)) (codeOf_withBlock m f name)

theorem surroundings_withValue (m : Module) (ty : TypeId) {origin : ValueDef}
    (horigin : origin.isChoice = false) :
    (m.withValue ty origin).surroundings = m.surroundings :=
  surroundings_eq rfl (fun _ _ => rfl) (codeOf_withValue m ty horigin)

/-- A value that makes no room leaves the outline alone. -/
theorem outline_withValue (m : Module) (ty : TypeId) {origin : ValueDef}
    (horigin : origin.isSlot = false) : (m.withValue ty origin).outline = m.outline :=
  outline_eq (fun _ => rfl) (codeOf_withValue m ty horigin)

/-- Something about a module that depends on the index of the functions, on the surroundings of the
current block and on the outline only. -/
class Sketched {β : Type} (π : Module → β) : Prop where
  same : ∀ {m m' : Module}, m'.functionIndex = m.functionIndex →
    m'.surroundings = m.surroundings → m'.outline = m.outline → π m' = π m

/-- Something that depends on the surroundings of the current block and on the outline only. -/
class Drawn {β : Type} (π : Module → β) : Prop where
  same : ∀ {m m' : Module}, m'.surroundings = m.surroundings → m'.outline = m.outline → π m' = π m

/-- Something about a module that depends on the index of the functions and on the surroundings of
the current block only. -/
class Unwritten {β : Type} (π : Module → β) : Prop where
  same : ∀ {m m' : Module}, m'.functionIndex = m.functionIndex →
    m'.surroundings = m.surroundings → π m' = π m

/-- Something that does not depend on code at all. -/
class Uncoded {β : Type} (π : Module → β) : Prop where
  same : ∀ {m m' : Module}, m'.functionIndex = m.functionIndex → m'.position = m.position →
    π m' = π m

/-- Something that depends on the surroundings of the current block only. -/
class Local {β : Type} (π : Module → β) : Prop where
  same : ∀ {m m' : Module}, m'.surroundings = m.surroundings → π m' = π m

section

variable {β : Type} {π : Module → β}

instance [hπ : Uncoded π] : Unwritten π := ⟨fun hindex h => hπ.same hindex (congrArg Prod.fst h)⟩

instance [hπ : Local π] : Unwritten π := ⟨fun _ h => hπ.same h⟩

instance [hπ : Local π] : Drawn π := ⟨fun h _ => hπ.same h⟩

instance [hπ : Drawn π] : Sketched π := ⟨fun _ h houtline => hπ.same h houtline⟩

instance [hπ : Unwritten π] : Sketched π := ⟨fun hindex h _ => hπ.same hindex h⟩

end

instance : Uncoded functionIndex := ⟨fun hindex _ => hindex⟩

instance : Uncoded position := ⟨fun _ hposition => hposition⟩

instance : Local position := ⟨fun h => congrArg Prod.fst h⟩

instance : Local surroundings := ⟨id⟩

instance : Drawn outline := ⟨fun _ h => h⟩

/-! ### Edits that leave something alone -/

/-- Modules that agree in something. -/
def Same {β : Type} (π : Module → β) (m m' : Module) : Prop := π m' = π m

section

variable {β : Type} {π : Module → β}

instance : IsPreorder Module (Same π) where
  refl _ := rfl
  trans _ _ _ h h' := h'.trans h

/-- A plain edit concerns no code. -/
instance [hπ : Sketched π] : Allows (Same π) .plain where
  edit {m m'} h := by
    cases h with
    | value ty horigin =>
        exact hπ.same rfl (surroundings_withValue m ty (ValueDef.isChoice_eq_false horigin))
          (outline_withValue m ty (ValueDef.isSlot_eq_false horigin))
    | _ => exact hπ.same rfl rfl rfl

instance [hπ : Sketched π] : Allows (Same π) .compound where
  edit h := by
    cases h
    exact hπ.same rfl rfl rfl

/-- An instruction goes to the current block and changes nothing around it. -/
instance [hπ : Sketched π] : Allows (Same π) (.code .flat) where
  edit {m m'} h := by
    have hflat {i : Instr} (hk : i.kind = .flat) : i.isChoice = false ∧ i.isSlot = false :=
      ⟨Instr.isChoice_eq_false (by rw [hk]; rintro ⟨⟩), Instr.isSlot_eq_false (by rw [hk]; rintro ⟨⟩)⟩
    cases h with
    | instr hb _ hk =>
        exact hπ.same rfl (surroundings_withInstr hb _ (hflat hk).1)
          (outline_withInstr m _ _ (hflat hk).2)
    | @detached ty i _ hk =>
        have hchoice : (m.withValue ty (.instr i)).surroundings = m.surroundings :=
          surroundings_withValue m ty (hflat hk).1
        have hroom : (m.withValue ty (.instr i)).outline = m.outline :=
          outline_withValue m ty (hflat hk).2
        exact hπ.same rfl hchoice hroom

/-- Room on the stack is made in the current block. -/
instance [hπ : Unwritten π] : Allows (Same π) (.code .slot) where
  edit {m m'} h := by
    have hslot {i : Instr} (hk : i.kind = .slot) : i.isChoice = false :=
      Instr.isChoice_eq_false (by rw [hk]; rintro ⟨⟩)
    cases h with
    | instr hb _ hk => exact hπ.same rfl (surroundings_withInstr hb _ (hslot hk))
    | @detached ty i _ hk =>
        have hchoice : (m.withValue ty (.instr i)).surroundings = m.surroundings :=
          surroundings_withValue m ty (hslot hk)
        exact hπ.same rfl hchoice

/-- A choice is code, and it changes nothing else. -/
instance [hπ : Uncoded π] : Allows (Same π) (.code .choice) where
  edit h := by cases h <;> exact hπ.same rfl rfl

/-- A choice makes no room. -/
instance : Allows (Same outline) (.code .choice) where
  edit {m m'} h := by
    have hchoice {i : Instr} (hk : i.kind = .choice) : i.isSlot = false :=
      Instr.isSlot_eq_false (by rw [hk]; rintro ⟨⟩)
    cases h with
    | instr _ _ hk => exact outline_withInstr m _ _ (hchoice hk)
    | @detached ty i _ hk => exact outline_withValue m ty (hchoice hk)

instance [hπ : Unwritten π] : Allows (Same π) .ending where
  edit h := by
    cases h with
    | terminator hb => exact hπ.same rfl (surroundings_withTerminator hb _)

instance [hπ : Sketched π] : Allows (Same π) .block where
  edit {m m'} h := by
    cases h with
    | @block f _ _ name =>
        exact hπ.same rfl (surroundings_withBlock m f name) (outline_withBlock m f name)

/-- A declaration leaves the surroundings of the current block alone, and the outline. -/
instance [hπ : Drawn π] : Allows (Same π) .declaration where
  edit h := by
    cases h
    exact hπ.same rfl rfl

instance : Allows (Same outline) .position where
  edit h := by
    cases h
    rfl

instance : Allows (Same functionIndex) .position where
  edit h := by
    cases h
    rfl

end

end Module

namespace Build

open SsaCompiler.Module

/-- A request that leaves something about the module alone. -/
abbrev Preserves {α β : Type} (π : Module → β) (x : Build α) : Prop := Moves (Same π) x

theorem Preserves.same {α β : Type} {π : Module → β} {x : Build α} [hx : Preserves π x]
    {m m' : Module} {a : α} (h : x m = .ok (a, m')) : π m' = π m := hx.run h

/-- A body changes a type only. -/
instance {β : Type} {π : Module → β} [hπ : Sketched π] (id : TypeId) (body : List TypeId) :
    Preserves π (setStructBody id body) where
  run {m done m'} h := by
    obtain ⟨types, -, rfl⟩ := setStructBody_eq_ok h
    exact hπ.same rfl rfl rfl

/-! ### Where control is sent -/

/-- A request that makes no room on the stack, and that sends control to some blocks only. -/
class SendsTo {α : Type} (B : Set BlockId) (x : Build α) : Prop where
  slots : ∀ {m a m'}, x m = .ok (a, m') →
    m'.codeOf ValueDef.isSlot = m.codeOf ValueDef.isSlot
  ends : ∀ {m a m'}, x m = .ok (a, m') → ∀ {b t}, (m'.code b).2 = some t →
    (m.code b).2 = some t ∨ ∀ c ∈ t.successors, c ∈ B

section

variable {α β : Type} {B : Set BlockId} {thenTo elseTo : BlockId}

/-- A request that leaves the outline alone sends control nowhere. -/
instance {x : Build α} [hx : Preserves outline x] : SendsTo B x where
  slots h := funext fun b => congrArg Prod.snd (congrFun (hx.run h) b)
  ends := by
    intro m a m' h b t hend
    exact .inl ((congrArg Prod.fst (congrFun (hx.run h) b)).symm.trans hend)

instance {x : Build α} {f : α → Build β} [hx : SendsTo B x] [hf : ∀ a, SendsTo B (f a)] :
    SendsTo B (x >>= f) where
  slots h := by
    obtain ⟨a, m₁, hfirst, hrest⟩ := bind_eq_ok_iff.1 h
    exact ((hf a).slots hrest).trans (hx.slots hfirst)
  ends h _ _ hend := by
    obtain ⟨a, m₁, hfirst, hrest⟩ := bind_eq_ok_iff.1 h
    rcases (hf a).ends hrest hend with hbefore | hnew
    · exact hx.ends hfirst hbefore
    · exact .inr hnew

instance {p : Prop} [Decidable p] {x y : Build α} [SendsTo B x] [SendsTo B y] :
    SendsTo B (if p then x else y) := by
  split <;> assumption

/-- The end of a block sends control to its successors. -/
theorem sendsTo_setTerminator {t : Terminator} (ht : ∀ b ∈ t.successors, b ∈ B) :
    SendsTo B (setTerminator t) := by
  have hcases {m m' : Module} {u : Unit} (h : setTerminator t m = .ok (u, m')) :
      m'.outline = m.outline ∨ ∃ b, m' = m.withTerminator b t := by
    rcases setTerminator_cases h with rfl | ⟨b, -, -, rfl⟩
    · exact .inl rfl
    · exact .inr ⟨b, rfl⟩
  constructor
  · intro m u m' h
    rcases hcases h with hsame | ⟨b, rfl⟩
    · exact funext fun b => congrArg Prod.snd (congrFun hsame b)
    · exact codeOf_withTerminator m b t
  · intro m u m' h c t' hend
    rcases hcases h with hsame | ⟨b, rfl⟩
    · exact .inl ((congrArg Prod.fst (congrFun hsame c)).symm.trans hend)
    · have hblocks : (m.withTerminator b t).blocks = m.blocks.modify b.index fun block =>
          { block with terminator := some t } := rfl
      by_cases hc : c = b
      · right
        have hblock : (m.withTerminator b t).blocks[c.index]? =
            m.blocks[c.index]?.map fun block => { block with terminator := some t } := by
          rw [hc, hblocks, Array.getElem?_modify, if_pos rfl]
        rw [code, hblock] at hend
        cases hbefore : m.blocks[c.index]? with
        | none =>
            rw [hbefore] at hend
            cases hend
        | some d =>
            rw [hbefore] at hend
            cases hend
            exact ht
      · left
        rw [code_modify_ne hc hblocks] at hend
        exact hend

instance (pad : ValueId) : SendsTo B (resume pad) :=
  sendsTo_setTerminator fun _ hb => absurd hb List.not_mem_nil

instance (value : Option ValueId) : SendsTo B (ret value) :=
  sendsTo_setTerminator fun _ hb => absurd hb List.not_mem_nil

instance : SendsTo B unreachable :=
  sendsTo_setTerminator fun _ hb => absurd hb List.not_mem_nil

theorem sendsTo_br {target : BlockId} (h : target ∈ B) : SendsTo B (br target) :=
  sendsTo_setTerminator fun _ hb => List.mem_singleton.1 hb ▸ h

theorem sendsTo_condBr {cond : ValueId} (hthen : thenTo ∈ B) (helse : elseTo ∈ B) :
    SendsTo B (condBr cond thenTo elseTo) := by
  have hboth : SendsTo B (setTerminator (.condBr cond thenTo elseTo)) := by
    apply sendsTo_setTerminator
    simp [Terminator.successors, hthen, helse]
  have hone : SendsTo B (setTerminator (.br elseTo)) := sendsTo_br helse
  unfold condBr
  infer_instance

/-- A call that goes on in one block, or with an exception in another. -/
theorem sendsTo_invoke {f : FunctionId} {args : List ValueId} {normal unwind : BlockId}
    (hnormal : normal ∈ B) (hunwind : unwind ∈ B) : SendsTo B (invoke f args normal unwind) := by
  have (result : Option ValueId) : SendsTo B (setTerminator (.invoke f args normal unwind result)) := by
    apply sendsTo_setTerminator
    simp [Terminator.successors, hnormal, hunwind]
  unfold invoke
  infer_instance

end

end Build

end SsaCompiler
