/-
# The code of a block while it is written and afterwards

Code that is put together by hand is written block by block: the blocks of a function are made
first, and each is then filled from its start to its end without going back. A draft says how far
the current block has come and which blocks are still blank. When a block has ended, its
instructions and its end are a listing that stays the same in every later module.

The values of a function are made in the order of the listing, so that the number of a value
tells which values are older.
-/

import SsaCompiler.Proofs.Ir.Typing
import SsaCompiler.Proofs.Machine.Emission

namespace SsaCompiler

/-- What a line of code does. Beside the operands it says which types the machine finds when it
does it. -/
inductive Operation where
  /-- Room on the stack for a value of a type. -/
  | alloca (ty : TypeId)
  /-- The value of a type at an address. -/
  | load (ptr : ValueId) (ty : TypeId)
  /-- A value of a type goes to an address. -/
  | store (value ptr : ValueId) (ty : TypeId)
  /-- The address of a field of the structure at an address. -/
  | field (ptr : ValueId) (struct : TypeId) (index : Nat)
  /-- The address of an element behind the one at an address. -/
  | element (ptr index : ValueId) (elem : TypeId)
  /-- An operation on two integers of a width. -/
  | binary (op : BinOp) (lhs rhs : ValueId) (bits : Nat)
  | icmp (pred : IntPredicate) (lhs rhs : ValueId)
  /-- An address under another type. -/
  | recast (value : ValueId)
  | call (f : FunctionId) (args : List ValueId)
  /-- A choice by the block from which control came. -/
  | phi (incoming : List (ValueId × BlockId))

/-- A line of code: the value that it computes, and how. -/
structure Line where
  /-- The value. -/
  id : ValueId
  /-- How it is computed. -/
  operation : Operation

namespace Module

variable {m m' : Module} {id : ValueId} {o : Operation}

/-- A value is computed by an operation, and the operands have the types that go with it. -/
inductive Computes (m : Module) (id : ValueId) : Operation → Prop where
  | alloca {p ty : TypeId} (hvalue : m.value id = .ok ⟨p, .instr (.alloca ty)⟩) :
      Computes m id (.alloca ty)
  | load {ptr : ValueId} {ty : TypeId} (hvalue : m.value id = .ok ⟨ty, .instr (.load ptr)⟩) :
      Computes m id (.load ptr ty)
  | store {value ptr : ValueId} {ty void : TypeId}
      (hvalue : m.value id = .ok ⟨void, .instr (.store value ptr)⟩)
      (htype : m.typeOf value = .ok ty) : Computes m id (.store value ptr ty)
  | field {ptr : ValueId} {index : Nat} {struct p : TypeId}
      (hvalue : m.value id = .ok ⟨p, .instr (.structGep ptr index)⟩)
      (htype : m.valueType ptr = .ok (.pointer struct)) : Computes m id (.field ptr struct index)
  | element {ptr index : ValueId} {elem p : TypeId}
      (hvalue : m.value id = .ok ⟨p, .instr (.gep ptr index)⟩)
      (htype : m.valueType ptr = .ok (.pointer elem)) : Computes m id (.element ptr index elem)
  | binary {op : BinOp} {lhs rhs : ValueId} {bits : Nat} {ty : TypeId}
      (hvalue : m.value id = .ok ⟨ty, .instr (.binary op lhs rhs)⟩)
      (htype : m.valueType lhs = .ok (.int bits)) : Computes m id (.binary op lhs rhs bits)
  | icmp {pred : IntPredicate} {lhs rhs : ValueId} {ty : TypeId}
      (hvalue : m.value id = .ok ⟨ty, .instr (.icmp pred lhs rhs)⟩) :
      Computes m id (.icmp pred lhs rhs)
  | recast {value : ValueId} {dest target : TypeId} {source : IrType}
      (hvalue : m.value id = .ok ⟨dest, .instr (.cast .bitcast value)⟩)
      (hdest : m.types.get dest = .ok (.pointer target))
      (htype : m.valueType value = .ok source) : Computes m id (.recast value)
  | call {f : FunctionId} {args : List ValueId} {ty : TypeId}
      (hvalue : m.value id = .ok ⟨ty, .instr (.call f args)⟩) : Computes m id (.call f args)
  | phi {incoming : List (ValueId × BlockId)} {ty : TypeId}
      (hvalue : m.value id = .ok ⟨ty, .instr (.phi incoming)⟩) : Computes m id (.phi incoming)

/-- What a value is computed by does not change. -/
theorem Computes.mono (h : m.Computes id o) (hm : m.Evolves m') : m'.Computes id o := by
  cases h with
  | alloca hvalue => exact .alloca (hm.value hvalue)
  | load hvalue => exact .load (hm.value hvalue)
  | store hvalue htype => exact .store (hm.value hvalue) (hm.typeOf htype)
  | field hvalue htype => exact .field (hm.value hvalue) (hm.valueType_pointer htype)
  | element hvalue htype => exact .element (hm.value hvalue) (hm.valueType_pointer htype)
  | binary hvalue htype =>
      obtain ⟨ty, hty, hint⟩ := exists_typeOf_of_valueType htype
      exact .binary (hm.value hvalue)
        (valueType_of_typeOf (hm.typeOf hty) (hm.types.get_of_isOpaque_eq_false hint rfl))
  | icmp hvalue => exact .icmp (hm.value hvalue)
  | recast hvalue hdest htype =>
      obtain ⟨ty, hty, hsource⟩ := exists_typeOf_of_valueType htype
      obtain ⟨source, hsource', -⟩ := hm.types.get_of_ok hsource
      exact .recast (hm.value hvalue) (hm.types.get_of_isOpaque_eq_false hdest rfl)
        (valueType_of_typeOf (hm.typeOf hty) hsource')
  | call hvalue => exact .call (hm.value hvalue)
  | phi hvalue => exact .phi (hm.value hvalue)

end Module

/-- The values of lines come one after the other, from a number on and before another one. -/
def Line.Ascends : Nat → List Line → Nat → Prop
  | low, [], high => low ≤ high
  | low, l :: rest, high => low ≤ l.id.index ∧ Ascends (l.id.index + 1) rest high

namespace Line.Ascends

variable {low low' mid high high' : Nat} {code code' : List Line}

theorem mono (h : Ascends low code high) (hlow : low' ≤ low) (hhigh : high ≤ high') :
    Ascends low' code high' := by
  induction code generalizing low low' with
  | nil => exact Nat.le_trans hlow (Nat.le_trans h hhigh)
  | cons l rest ih => exact ⟨Nat.le_trans hlow h.1, ih h.2 (Nat.le_refl _)⟩

theorem append (h : Ascends low code mid) (h' : Ascends mid code' high) :
    Ascends low (code ++ code') high := by
  induction code generalizing low with
  | nil => exact h'.mono h (Nat.le_refl _)
  | cons l rest ih => exact ⟨h.1, ih h.2⟩

end Line.Ascends

namespace Module

open Relation

variable {m m' : Module} {low : Nat} {b c : BlockId} {code : List Line} {rest : List BlockId}
  {t : Terminator} {v : ValueId} {ty : TypeId} {i : Instr} {o : Operation}

/-! ### Ended blocks -/

/-- A block that has ended with given lines. -/
class HasCode (m : Module) (b : BlockId) (code : outParam (List Line)) (t : outParam Terminator) :
    Prop where
  block : ∃ d, m.block b = .ok d ∧ d.instrs.toList = code.map Line.id ∧ d.terminator = some t
  lines : ∀ l ∈ code, m.Computes l.id l.operation

/-- A block that has ended is changed no more. -/
theorem Change.block_of_ended {d : BlockData} (h : m.Change m') (hb : m.block b = .ok d)
    (ht : d.terminator = some t) : m'.block b = .ok d := by
  have hopen : ∀ {p}, m.IsOpen p → b ≠ p := by
    rintro p ⟨d', hd', hnone⟩ rfl
    cases hb.symm.trans hd'
    cases ht.symm.trans hnone
  cases h with
  | @instr p _ hp ty i => exact (block_modify_ne (hopen hp)).trans hb
  | @terminator p _ hp t' => exact (block_modify_ne (hopen hp)).trans hb
  | block f name => exact Checked.at_push _ hb
  | _ => exact hb

theorem HasCode.mono (h : m.HasCode b code t) (hm : m.Evolves m') : m'.HasCode b code t where
  block := by
    obtain ⟨d, hd, hids, hterm⟩ := h.block
    refine ⟨d, ?_, hids, hterm⟩
    induction hm with
    | refl => exact hd
    | tail _ hchange ih => exact hchange.block_of_ended ih hterm
  lines l hl := (h.lines l hl).mono hm

/-- A function may get further blocks, but its name and its parameters stay. -/
theorem Change.function_of_ok {f : FunctionId} {d : FunctionData} (h : m.Change m')
    (hf : m.function f = .ok d) : ∃ d', m'.function f = .ok d' ∧ FunctionGrows d d' := by
  have hmodify : ∀ (k : FunctionId) (g : FunctionData → FunctionData),
      (∀ e, FunctionGrows e (g e)) →
      ∃ d', Checked.at (m.functions.modify k.index g) f.index = .ok d' ∧ FunctionGrows d d' := by
    intro k g hg
    have hget := Checked.at_eq_ok_iff.1 hf
    by_cases hk : k.index = f.index
    · exact ⟨g d, Checked.at_eq_ok_iff.2 (by rw [Array.getElem?_modify, if_pos hk, hget]; rfl), hg d⟩
    · exact ⟨d, Checked.at_eq_ok_iff.2 (by rw [Array.getElem?_modify, if_neg hk, hget]), .refl d⟩
  cases h with
  | function _ ty params => exact ⟨d, Checked.at_push _ hf, .refl d⟩
  | address k v =>
      exact hmodify k (fun d => { d with address := some v })
        fun _ => ⟨rfl, rfl, rfl, List.prefix_rfl⟩
  | personality k g =>
      exact hmodify k (fun d => { d with personality := some g })
        fun _ => ⟨rfl, rfl, rfl, List.prefix_rfl⟩
  | block k name =>
      exact hmodify k (fun d => { d with blocks := d.blocks ++ [⟨m.blocks.size⟩] })
        fun e => ⟨rfl, rfl, rfl, List.prefix_append _ _⟩
  | _ => exact ⟨d, hf, .refl d⟩

theorem Evolves.function {f : FunctionId} {d : FunctionData} (h : m.Evolves m')
    (hf : m.function f = .ok d) : ∃ d', m'.function f = .ok d' ∧ FunctionGrows d d' := by
  induction h with
  | refl => exact ⟨d, hf, .refl d⟩
  | tail _ hchange ih =>
      obtain ⟨d₁, hd₁, hgrows⟩ := ih
      obtain ⟨d₂, hd₂, hgrows'⟩ := hchange.function_of_ok hd₁
      exact ⟨d₂, hd₂, hgrows.trans hgrows'⟩

theorem Evolves.values_size (h : m.Evolves m') : m.values.size ≤ m'.values.size := by
  refine Nat.le_of_not_lt fun hlt => ?_
  have hv : m.value ⟨m'.values.size⟩ = .ok m.values[m'.values.size] :=
    Checked.at_eq_ok_iff.2 (Array.getElem?_eq_getElem hlt)
  exact absurd (value_lt (h.value hv)) (Nat.lt_irrefl _)

/-- A block that has ended, whose lines compute values behind those that were there before. -/
class Listing (m : Module) (b : BlockId) (prior : outParam (List ValueId))
    (code : outParam (List Line)) (t : outParam Terminator) : Prop where
  hasCode : m.HasCode b code t
  order : ∃ low high, (∀ v ∈ prior, v.index < low) ∧ Line.Ascends low code high

/-! ### Drafts -/

/-- Different blocks that have neither instructions nor an end. -/
structure Blanks (m : Module) (rest : List BlockId) : Prop where
  nodup : rest.Nodup
  blank : ∀ c ∈ rest, ∃ d, m.block c = .ok d ∧ d.terminator = none ∧ d.instrs.toList = []

/-- The current block has given lines, with values from a number on, and is still open. Further
blocks are blank. -/
structure Draft (m : Module) (low : Nat) (b : BlockId) (code : List Line)
    (rest : List BlockId) : Prop where
  position : m.position = some b
  block : ∃ d, m.block b = .ok d ∧ d.terminator = none ∧ d.instrs.toList = code.map Line.id
  lines : ∀ l ∈ code, m.Computes l.id l.operation
  ascends : Line.Ascends low code m.values.size
  apart : b ∉ rest
  blanks : m.Blanks rest

theorem Blanks.nil (m : Module) : m.Blanks [] :=
  ⟨List.nodup_nil, fun _ hc => absurd hc List.not_mem_nil⟩

/-- What happens beside the blocks does not matter to blank blocks. -/
theorem Blanks.of_blocks_eq (h : m.Blanks rest) (hblocks : m'.blocks = m.blocks) :
    m'.Blanks rest := by
  have hsame : ∀ c, m'.block c = m.block c := fun c => by unfold Module.block; rw [hblocks]
  exact ⟨h.nodup, fun c hc => hsame c ▸ h.blank c hc⟩

/-- What happens beside the blocks does not matter to a draft. -/
theorem Draft.of_blocks_eq (h : m.Draft low b code rest) (hm : m.Evolves m')
    (hblocks : m'.blocks = m.blocks) (hposition : m'.position = m.position) :
    m'.Draft low b code rest where
  position := hposition.trans h.position
  block := by
    have hsame : m'.block b = m.block b := by unfold Module.block; rw [hblocks]
    exact hsame ▸ h.block
  lines l hl := (h.lines l hl).mono hm
  ascends := h.ascends.mono (Nat.le_refl _) hm.values_size
  apart := h.apart
  blanks := h.blanks.of_blocks_eq hblocks

/-- A change of one block leaves other blank blocks alone. -/
theorem Blanks.of_modify {f : BlockData → BlockData} (h : m.Blanks rest) (hb : b ∉ rest)
    (hblocks : m'.blocks = m.blocks.modify b.index f) : m'.Blanks rest := by
  refine ⟨h.nodup, fun c hc => ?_⟩
  have hne : c ≠ b := fun heq => hb (heq ▸ hc)
  have hsame : m'.block c = m.block c := by
    unfold Module.block
    rw [hblocks]
    exact block_modify_ne hne
  exact hsame ▸ h.blank c hc

/-- The place of a draft is a place for code. -/
theorem Draft.currentBlockTerminated (h : m.Draft low b code rest) :
    m.currentBlockTerminated = .ok false := by
  obtain ⟨d, hd, hopen, -⟩ := h.block
  exact currentBlockTerminated_eq_false_iff.2 ⟨b, h.position, d, hd, hopen⟩

/-- A new instruction is the next line. -/
theorem Draft.pushInstr (h : m.Draft low b code rest)
    (hrun : Build.pushInstr ty i m = .ok (v, m')) (ho : m'.Computes v o) :
    m'.Draft low b (code ++ [⟨v, o⟩]) rest := by
  have hlater : m.Evolves m' := Build.evolves_pushInstr hrun
  rw [Build.pushInstr_run, h.currentBlockTerminated, h.position] at hrun
  cases hrun
  obtain ⟨d, hd, hopen, hids⟩ := h.block
  have hblanks : (m.withInstr b ty i).Blanks rest := h.blanks.of_modify
    (f := fun block => { block with instrs := block.instrs.push m.nextValue }) h.apart rfl
  refine ⟨h.position, ⟨_, block_modify hd b, ?_, ?_⟩, ?_, ?_, h.apart, hblanks⟩
  · simpa using hopen
  · simp [hids]
  · intro l hl
    rcases List.mem_append.1 hl with hl | hl
    · exact (h.lines l hl).mono hlater
    · cases List.mem_singleton.1 hl
      exact ho
  · refine h.ascends.append ⟨Nat.le_refl _, ?_⟩
    have hsize : (m.withInstr b ty i).values.size = m.values.size + 1 := Array.size_push _
    exact hsize.ge

/-- The end of a block makes it a listing. -/
theorem Draft.setTerminator (h : m.Draft low b code rest)
    (hrun : Build.setTerminator t m = .ok ((), m')) :
    m'.HasCode b code t ∧ Line.Ascends low code m'.values.size ∧ m'.Blanks rest := by
  have hlater : m.Evolves m' := Build.evolves_setTerminator hrun
  unfold Build.setTerminator at hrun
  rw [bind_of_ok (Build.ask_of_ok h.currentBlockTerminated)] at hrun
  simp only [Bool.false_eq_true, ↓reduceIte] at hrun
  rw [bind_of_ok (get_apply m), h.position] at hrun
  cases hrun
  obtain ⟨d, hd, hopen, hids⟩ := h.block
  have hblanks : (m.withTerminator b t).Blanks rest := h.blanks.of_modify
    (f := fun block => { block with terminator := some t }) h.apart rfl
  refine ⟨⟨⟨_, block_modify hd b, ?_, ?_⟩, fun l hl => (h.lines l hl).mono hlater⟩, h.ascends,
    hblanks⟩
  · simpa using hids
  · simp

/-- Code goes on at the start of a blank block. -/
theorem Blanks.positionAtEnd (h : m.Blanks (c :: rest)) :
    (m.withPosition (some c)).Draft m.values.size c [] rest where
  position := rfl
  block := by
    obtain ⟨d, hd, hopen, hids⟩ := h.blank c List.mem_cons_self
    exact ⟨d, hd, hopen, hids⟩
  lines l hl := absurd hl List.not_mem_nil
  ascends := Nat.le_refl _
  apart := (List.nodup_cons.1 h.nodup).1
  blanks := ⟨(List.nodup_cons.1 h.nodup).2, fun c' hc' => h.blank c' (List.mem_cons_of_mem _ hc')⟩

/-- A new block is a blank one. -/
theorem Blanks.withBlock (h : m.Blanks rest) (f : FunctionId) (name : String) :
    (m.withBlock f name).Blanks (rest ++ [m.nextBlock]) where
  nodup := by
    refine List.nodup_append.2 ⟨h.nodup, List.nodup_singleton _, fun c hc c' hc' => ?_⟩
    cases List.mem_singleton.1 hc'
    rintro rfl
    obtain ⟨d, hd, -⟩ := h.blank _ hc
    exact absurd (block_lt hd) (Nat.lt_irrefl _)
  blank c hc := by
    rcases List.mem_append.1 hc with hc | hc
    · obtain ⟨d, hd, hblank⟩ := h.blank c hc
      exact ⟨d, Checked.at_push _ hd, hblank⟩
    · cases List.mem_singleton.1 hc
      exact ⟨⟨name, f, #[], none⟩, Checked.at_push_size _ _, rfl, rfl⟩

end Module

end SsaCompiler
