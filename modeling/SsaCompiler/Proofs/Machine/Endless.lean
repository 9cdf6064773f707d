/-
# Recursion that comes to an end

Sizes, values in memory and the values of constants are computed along the structure of types and
constants, and the computation is given up as endless when the structure leads back to itself. In a
module that was built from its own handles it never does: no type holds itself by value, and a
constant only contains constants that were there before it.

The blocks of a function and the instructions of a block are entered in the tables before they are
listed, and nothing is ever taken out of a table, so such a module lists only what it has. The one
place where a request brings along handles that are recorded without a look at the tables and
followed without running code is a structure constant.

Everything else that the machine computes without running code, such as the text of a format, walks
along a list and ends in any case.
-/

import SsaCompiler.Machine.Run
import SsaCompiler.Proofs.Ir.History

namespace SsaCompiler

open Relation

/-! ### Modules that know their own handles -/

/-- An entry of a table one entry of which has been changed. -/
theorem exists_of_mem_modify {α : Type} {xs : Array α} {i : Nat} {f : α → α} {x : α}
    (h : x ∈ xs.modify i f) : ∃ y ∈ xs, x = y ∨ x = f y := by
  obtain ⟨j, hj⟩ := Array.mem_iff_getElem?.1 h
  rw [Array.getElem?_modify] at hj
  split at hj
  · obtain ⟨y, hy, rfl⟩ := Option.map_eq_some_iff.1 hj
    exact ⟨y, Array.mem_of_getElem? hy, .inr rfl⟩
  · exact ⟨x, Array.mem_of_getElem? hj, .inl rfl⟩

namespace Module

/-- A module that lists only blocks and instructions that it has, and whose structure constants
only contain values that are older. -/
structure IsCoherent (m : Module) : Prop where
  blocks : ∀ d ∈ m.functions, ∀ b ∈ d.blocks, b.index < m.blocks.size
  instrs : ∀ d ∈ m.blocks, ∀ v ∈ d.instrs, v.index < m.values.size
  constants : ∀ {v d fields}, m.value v = .ok d → d.origin = .const (.struct fields) →
    ∀ f ∈ fields, f.index < v.index

variable {m m' : Module}

/-- A block that a function lists is there. -/
theorem IsCoherent.exists_block (h : m.IsCoherent) {f : FunctionId} {d : FunctionData} {b : BlockId}
    (hf : m.function f = .ok d) (hb : b ∈ d.blocks) : ∃ data, m.block b = .ok data := by
  have hlt := h.blocks d (Array.mem_of_getElem? (Checked.at_eq_ok_iff.1 hf)) b hb
  exact ⟨_, Checked.at_eq_ok_iff.2 (Array.getElem?_eq_getElem hlt)⟩

/-- An instruction that a block lists is there. -/
theorem IsCoherent.exists_value (h : m.IsCoherent) {b : BlockId} {d : BlockData} {v : ValueId}
    (hb : m.block b = .ok d) (hv : v ∈ d.instrs) : ∃ data, m.value v = .ok data := by
  have hlt := h.instrs d (Array.mem_of_getElem? (Checked.at_eq_ok_iff.1 hb)) v hv
  exact ⟨_, Checked.at_eq_ok_iff.2 (Array.getElem?_eq_getElem hlt)⟩

/-- The module that only has a name lists nothing. -/
theorem isCoherent_new (name : String) : (Module.new name).IsCoherent where
  blocks := by simp [Module.new]
  instrs := by simp [Module.new]
  constants hv := by
    have hnone := Checked.at_eq_ok_iff.1 hv
    simp [Module.new] at hnone

/-- A change after which the structure constants that are new contain values from before. -/
def OwnChange (m m' : Module) : Prop :=
  m.Change m' ∧ ∀ d fields, m'.values[m.values.size]? = some d →
    d.origin = .const (.struct fields) → ∀ f ∈ fields, f.index < m.values.size

/-- Entries are only added to the tables of blocks and values, and to that of values one at a
time. -/
theorem Change.sizes (h : m.Change m') : m.blocks.size ≤ m'.blocks.size ∧
    (m'.values = m.values ∨ ∃ d, m'.values = m.values.push d) := by
  cases h with
  | value ty origin => exact ⟨Nat.le_refl _, .inr ⟨_, rfl⟩⟩
  | instr _ _ ty i => exact ⟨by simp [withInstr], .inr ⟨_, rfl⟩⟩
  | detached ty i => exact ⟨Nat.le_refl _, .inr ⟨_, rfl⟩⟩
  | terminator => exact ⟨by simp [withTerminator], .inl rfl⟩
  | block f name => exact ⟨by simp [withBlock], .inl rfl⟩
  | _ => exact ⟨Nat.le_refl _, .inl rfl⟩

/-- A function that is changed or new lists blocks that were listed or are there now. -/
theorem Change.blocks_of_mem (h : m.Change m') {d : FunctionData} (hd : d ∈ m'.functions)
    {b : BlockId} (hb : b ∈ d.blocks) :
    (∃ d₀ ∈ m.functions, b ∈ d₀.blocks) ∨ b.index < m'.blocks.size := by
  cases h with
  | function hnew ty params =>
      rcases Array.mem_push.1 hd with hd | rfl
      · exact .inl ⟨d, hd, hb⟩
      · cases hb
  | address f v =>
      dsimp only [modifyFunction] at hd
      obtain ⟨d₀, hd₀, rfl | rfl⟩ := exists_of_mem_modify hd <;> exact .inl ⟨_, hd₀, hb⟩
  | personality f g =>
      dsimp only [modifyFunction] at hd
      obtain ⟨d₀, hd₀, rfl | rfl⟩ := exists_of_mem_modify hd <;> exact .inl ⟨_, hd₀, hb⟩
  | block f name =>
      dsimp only [withBlock] at hd
      obtain ⟨d₀, hd₀, rfl | rfl⟩ := exists_of_mem_modify hd
      · exact .inl ⟨d, hd₀, hb⟩
      · rcases List.mem_append.1 hb with hb | hb
        · exact .inl ⟨d₀, hd₀, hb⟩
        · cases List.mem_singleton.1 hb
          exact .inr (by simp [withBlock])
  | _ => exact .inl ⟨d, hd, hb⟩

/-- A block that is changed or new lists instructions that were listed or are there now. -/
theorem Change.instrs_of_mem (h : m.Change m') {d : BlockData} (hd : d ∈ m'.blocks) {v : ValueId}
    (hv : v ∈ d.instrs) : (∃ d₀ ∈ m.blocks, v ∈ d₀.instrs) ∨ v.index < m'.values.size := by
  cases h with
  | instr _ _ ty i =>
      dsimp only [withInstr] at hd
      obtain ⟨d₀, hd₀, rfl | rfl⟩ := exists_of_mem_modify hd
      · exact .inl ⟨d, hd₀, hv⟩
      · rcases Array.mem_push.1 hv with hv | rfl
        · exact .inl ⟨d₀, hd₀, hv⟩
        · exact .inr (by simp [withInstr, withValue, nextValue])
  | terminator _ _ t =>
      dsimp only [withTerminator] at hd
      obtain ⟨d₀, hd₀, rfl | rfl⟩ := exists_of_mem_modify hd <;> exact .inl ⟨_, hd₀, hv⟩
  | block f name =>
      rcases Array.mem_push.1 hd with hd | rfl
      · exact .inl ⟨d, hd, hv⟩
      · simp at hv
  | _ => exact .inl ⟨d, hd, hv⟩

theorem OwnChange.isCoherent (h : m.OwnChange m') (hm : m.IsCoherent) : m'.IsCoherent := by
  obtain ⟨hchange, hown⟩ := h
  obtain ⟨hblocks, hvalues⟩ := hchange.sizes
  have hsize : m.values.size ≤ m'.values.size := by
    rcases hvalues with hvalues | ⟨d, hvalues⟩ <;> simp [hvalues]
  refine ⟨fun d hd b hb => ?_, fun d hd v hv => ?_, fun {v d fields} hv hd => ?_⟩
  · rcases hchange.blocks_of_mem hd hb with ⟨d₀, hd₀, hb₀⟩ | hlt
    · exact Nat.lt_of_lt_of_le (hm.blocks d₀ hd₀ b hb₀) hblocks
    · exact hlt
  · rcases hchange.instrs_of_mem hd hv with ⟨d₀, hd₀, hv₀⟩ | hlt
    · exact Nat.lt_of_lt_of_le (hm.instrs d₀ hd₀ v hv₀) hsize
    · exact hlt
  · have hold : ∀ {d}, m.values[v.index]? = some d → d.origin = .const (.struct fields) →
        ∀ f ∈ fields, f.index < v.index := fun h => hm.constants (Checked.at_eq_ok_iff.2 h)
    have hv' := Checked.at_eq_ok_iff.1 hv
    rcases hvalues with hvalues | ⟨new, hvalues⟩
    · exact hold (hvalues ▸ hv') hd
    · rw [hvalues, Array.getElem?_push] at hv'
      split at hv'
      · rename_i hlast
        cases hv'
        rw [hlast]
        exact hown d fields (by rw [hvalues, Array.getElem?_push_size]) hd
      · exact hold hv' hd

/-- A module that was built from its own handles is coherent. -/
theorem isCoherent_of_reflTransGen {name : String}
    (h : ReflTransGen OwnChange (Module.new name) m) : m.IsCoherent := by
  induction h with
  | refl => exact isCoherent_new name
  | tail _ hchange ih => exact hchange.isCoherent ih

end Module

/-! ### Computations that come to an end -/

/-- Reasons to stop one of which is that a recursion does not come to an end. -/
class MeetsEndless (ε : Type) where
  /-- Whether the reason is an endless recursion. -/
  IsEndless : ε → Prop

instance : MeetsEndless Crash := ⟨fun c => c = .endless⟩

instance : MeetsEndless Fault where
  IsEndless
    | .failed _ => False
    | .crashed c => c = .endless

instance : MeetsEndless Stop where
  IsEndless
    | .crashed c => c = .endless
    | _ => False

open MeetsEndless

/-- A computation that comes to an end, be it with an answer or not. -/
class Ends {ε α : Type} [MeetsEndless ε] (x : Except ε α) : Prop where
  not_endless : ∀ {e}, x = .error e → ¬ IsEndless e

namespace Ends

variable {ε α β : Type} [MeetsEndless ε] {x : Except ε α} {f : α → Except ε β}

instance ok (a : α) : Ends (.ok a : Except ε α) := ⟨fun h => by cases h⟩

instance pure (a : α) : Ends (Pure.pure a : Except ε α) := ok a

/-- A sequence of two computations the second of which comes to an end after every answer of the
first. -/
theorem bind_of_ok (hx : Ends x) (hf : ∀ a, x = .ok a → Ends (f a)) : Ends (x >>= f) where
  not_endless h := by
    rcases answer_bind_eq_error_iff.1 h with h | ⟨a, ha, h⟩
    · exact hx.not_endless h
    · exact (hf a ha).not_endless h

instance bind [hx : Ends x] [hf : ∀ a, Ends (f a)] : Ends (x >>= f) :=
  bind_of_ok hx fun a _ => hf a

instance {p : Prop} [Decidable p] {x y : Except ε α} [Ends x] [Ends y] :
    Ends (if p then x else y) := by
  split <;> assumption

/-- Computations for the entries of a list. -/
theorem mapM {xs : List α} (h : ∀ x ∈ xs, Ends (f x)) : Ends (xs.mapM f) where
  not_endless he := by
    obtain ⟨x, hx, hfx⟩ := exists_of_mapM_eq_error he
    exact (h x hx).not_endless hfx

instance {c : Checked α} [h : Ends c] : Ends (liftM c : Fallible α) where
  not_endless he := by
    cases c with
    | ok a => cases he
    | error c =>
        cases he
        exact h.not_endless rfl

/-- An answer of a lifted computation is one of the computation. -/
theorem eq_ok_of_liftM {c : Checked α} {a : α} (h : (liftM c : Fallible α) = .ok a) : c = .ok a := by
  cases c with
  | ok b =>
      cases h
      rfl
  | error c => cases h

instance {c : Checked α} [h : Ends c] : Ends (Fallible.ofChecked c) := inferInstanceAs (Ends (liftM c))

instance fail (e : ExecError) : Ends (Fallible.fail e : Fallible α) :=
  ⟨fun h => by cases h; exact id⟩

instance malformed (reason : Malformation) : Ends (Fallible.malformed reason : Fallible α) :=
  fail _

instance (n : Nat) : Ends (Checked.word n) where
  not_endless h he := Shape.word_ne_endless n (h.trans (congrArg _ he))

instance {xs : Array α} (i : Nat) : Ends (Checked.at xs i) where
  not_endless h := by
    unfold Checked.at at h
    split at h
    · cases h
    · cases h
      exact nofun

end Ends

/-! ### Types -/

namespace TypeTable

variable {t : TypeTable} {id : TypeId}

instance (id : TypeId) : Ends (t.get id) := inferInstanceAs (Ends (Checked.at t.types id.index))

/-- What a type has on one level more than its parts, every type has on as many levels as the table
has types: no type is met again inside itself. -/
theorem IsAcyclic.of_parts {P : Nat → TypeId → Prop} (h : t.IsAcyclic)
    (hstep : ∀ n id, (∀ p, t.Contains id p → P n p) → P (n + 1) id) (id : TypeId) :
    P (t.size + 1) id := by
  by_contra hnot
  refine h.not_of_descends (E := fun n id => ¬ P n id) ?_ ∅ (by simp) (by simp) hnot
  intro n id hid
  by_contra hparts
  push Not at hparts
  exact hid (hstep n id hparts)

variable (h : t.IsAcyclic)

include h in
theorem IsAcyclic.ends_alignOf (id : TypeId) : Ends (t.alignOf id) where
  not_endless he hendless := (h.ne_endless id).1 (he.trans (congrArg _ hendless))

include h in
theorem IsAcyclic.ends_sizeOf (id : TypeId) : Ends (t.sizeOf id) where
  not_endless he hendless := (h.ne_endless id).2 (he.trans (congrArg _ hendless))

include h in
theorem IsAcyclic.ends_fieldStart (offset : Nat) (field : TypeId) :
    Ends (t.fieldStart offset field) :=
  have := h.ends_alignOf field
  .bind

include h in
theorem IsAcyclic.ends_fieldEnd (start : Nat) (field : TypeId) : Ends (t.fieldEnd start field) :=
  have := h.ends_sizeOf field
  .bind

include h in
/-- The end of a list of fields. -/
theorem IsAcyclic.ends_fieldsEnd (offset : Nat) (fields : List TypeId) :
    Ends (t.fieldsEnd offset fields) := by
  induction fields generalizing offset with
  | nil => exact .ok offset
  | cons field rest ih =>
      have hstart := h.ends_fieldStart offset field
      have hend := fun start => h.ends_fieldEnd start field
      unfold fieldsEnd
      infer_instance

include h in
theorem IsAcyclic.ends_fieldOffset (id : TypeId) (index : Nat) : Ends (t.fieldOffset id index) := by
  have hend := fun fields => h.ends_fieldsEnd 0 fields
  have hstart := h.ends_fieldStart
  unfold fieldOffset
  refine .bind_of_ok inferInstance fun ty _ => ?_
  split
  · infer_instance
  · split <;> infer_instance

include h in
theorem IsAcyclic.ends_zero (id : TypeId) : Ends (t.zero id) := by
  refine h.of_parts (P := fun n id => Ends (t.zeroWithin n id)) ?_ id
  intro n id hparts
  unfold zeroWithin
  refine .bind_of_ok inferInstance fun ty hty => ?_
  have hpart : ∀ p ∈ ty.parts, Ends (t.zeroWithin n p) := fun p hp => hparts p ⟨ty, hty, hp⟩
  cases ty with
  | record fields =>
      have : Ends (fields.mapM (t.zeroWithin n)) := .mapM hpart
      exact .bind
  | named name body =>
      cases body with
      | none => infer_instance
      | some fields =>
          have : Ends (fields.mapM (t.zeroWithin n)) := .mapM hpart
          exact .bind
  | array elem length =>
      have := hpart elem List.mem_cons_self
      infer_instance
  | _ => infer_instance

end TypeTable

/-! ### Memory -/

namespace Memory

variable (m : Memory) {t : TypeTable}

instance (a : UInt64) (n : Nat) : Ends (addressPlus a n) := by
  unfold addressPlus
  infer_instance

instance (a : UInt64) (n : Nat) : Ends (m.readBytes a n) := by
  unfold readBytes
  split
  · infer_instance
  · split <;> infer_instance

instance (a : UInt64) (n : Nat) : Ends (m.readWord a n) := by
  unfold readWord
  infer_instance

instance (a : UInt64) : Ends (m.readText a) := by
  unfold readText
  split
  · infer_instance
  · dsimp only
    split <;> infer_instance

instance (size align : Nat) : Ends (m.checkLimit size align) := by
  unfold checkLimit
  infer_instance

instance (region : Array UInt8) (size align : Nat) : Ends (m.place region size align) := by
  have hcrash : Ends (throw (.crashed .overflow) : Fallible Nat) := ⟨fun h => by cases h; exact nofun⟩
  unfold place
  infer_instance

/-- The fields of a structure, when each of them comes to an end. -/
theorem ends_readFields (h : t.IsAcyclic) {one : UInt64 → TypeId → Fallible Val}
    {fields : List TypeId} (hone : ∀ f ∈ fields, ∀ a, Ends (one a f)) (a : UInt64) (offset : Nat) :
    Ends (readFields t one a offset fields) := by
  induction fields generalizing offset with
  | nil => exact .pure []
  | cons field rest ih =>
      have hstart := h.ends_fieldStart offset field
      have hend := fun start => h.ends_fieldEnd start field
      have hfield := hone field List.mem_cons_self
      have hrest := ih fun f hf => hone f (List.mem_cons_of_mem field hf)
      unfold readFields
      infer_instance

/-- The items of an array, when each of them comes to an end. -/
theorem ends_readItems {one : UInt64 → Fallible Val} (hone : ∀ a, Ends (one a)) (a : UInt64)
    (size left i : Nat) : Ends (readItems one a size left i) := by
  induction left generalizing i with
  | zero => exact .pure []
  | succ left ih =>
      have hrest := ih (i + 1)
      unfold readItems
      infer_instance

theorem ends_read (h : t.IsAcyclic) (a : UInt64) (ty : TypeId) : Ends (m.read t a ty) := by
  refine h.of_parts (P := fun n ty => ∀ a, Ends (m.readWithin t n a ty)) ?_ ty a
  intro n ty hparts a
  unfold readWithin
  refine .bind_of_ok inferInstance fun kind hkind => ?_
  have hpart : ∀ p ∈ kind.parts, ∀ a, Ends (m.readWithin t n a p) := fun p hp =>
    hparts p ⟨kind, Ends.eq_ok_of_liftM hkind, hp⟩
  cases kind with
  | record fields =>
      have : Ends (readFields t (m.readWithin t n) a 0 fields) := ends_readFields h hpart a 0
      exact .bind
  | named name body =>
      cases body with
      | none => infer_instance
      | some fields =>
          have : Ends (readFields t (m.readWithin t n) a 0 fields) := ends_readFields h hpart a 0
          exact .bind
  | array elem length =>
      have hsize := h.ends_sizeOf elem
      have := fun size => ends_readItems (hpart elem List.mem_cons_self) a size length 0
      infer_instance
  | _ => infer_instance

end Memory

/-! ### Constants and operands -/

namespace Module

variable {m : Module}

/-- A module in which neither a type nor a constant contains itself. -/
structure IsWellFounded (m : Module) : Prop where
  types : m.types.IsAcyclic
  constants : ∀ {v d fields}, m.value v = .ok d → d.origin = .const (.struct fields) →
    ∀ f ∈ fields, f.index < v.index

instance (v : ValueId) : Ends (m.value v) := inferInstanceAs (Ends (Checked.at m.values v.index))

instance (v : ValueId) : Ends (m.typeOf v) := by
  unfold typeOf
  infer_instance

instance (v : ValueId) : Ends (m.valueType v) := by
  unfold valueType
  infer_instance

instance (f : FunctionId) : Ends (m.function f) :=
  inferInstanceAs (Ends (Checked.at m.functions f.index))

instance (b : BlockId) : Ends (m.block b) := inferInstanceAs (Ends (Checked.at m.blocks b.index))

/-- The value of a constant, when there are levels for all values that are older. -/
theorem IsWellFounded.ends_constantWithin (h : m.IsWellFounded) (globals : Array UInt64) {n : Nat}
    {v : ValueId} (hv : v.index < n) : Ends (m.constantWithin globals n v) := by
  induction n generalizing v with
  | zero => omega
  | succ n ih =>
      change Ends ((liftM (m.value v) : Fallible ValueData) >>= _)
      refine .bind_of_ok inferInstance fun d hd => ?_
      have hzero := h.types.ends_zero d.ty
      cases horigin : d.origin with
      | const c =>
          cases c with
          | struct fields =>
              have hfields : Ends (fields.mapM (m.constantWithin globals n)) := .mapM fun f hf =>
                ih (Nat.lt_of_lt_of_le (h.constants (Ends.eq_ok_of_liftM hd) horigin f hf)
                  (Nat.lt_succ_iff.1 hv))
              exact .bind
          | _ => infer_instance
      | _ => infer_instance

theorem IsWellFounded.ends_constantVal (h : m.IsWellFounded) (globals : Array UInt64)
    (v : ValueId) : Ends (m.constantVal globals v) := by
  by_cases hv : v.index < m.values.size + 1
  · exact h.ends_constantWithin globals hv
  · -- There is no such value at all.
    have hnone : m.value v = .error .outOfRange := by
      unfold Module.value Checked.at
      rw [Array.getElem?_eq_none (by omega)]
    change Ends ((liftM (m.value v) : Fallible ValueData) >>= _)
    rw [hnone]
    exact ⟨fun he => by cases he; exact nofun⟩

theorem IsWellFounded.ends_operand (h : m.IsWellFounded) (frame : Frame) (globals : Array UInt64)
    (v : ValueId) : Ends (frame.operand m globals v) := by
  have hconstant := h.ends_constantVal globals v
  unfold Frame.operand
  refine .bind_of_ok inferInstance fun d _ => ?_
  split
  case h_4 => exact hconstant
  all_goals split <;> infer_instance

/-- The clauses of a landing pad. -/
theorem IsWellFounded.ends_clausesCatch (h : m.IsWellFounded) (globals : Array UInt64)
    (descriptor : UInt64) (clauses : List ValueId) :
    Ends (Exec.clausesCatch m globals descriptor clauses) := by
  induction clauses with
  | nil => exact .ok false
  | cons clause rest ih =>
      unfold Exec.clausesCatch
      split
      · split <;> infer_instance
      · exact ih
      · rename_i c hc
        exact ⟨fun he => by cases he; exact (h.ends_constantVal globals clause).not_endless hc⟩

/-- Whether a landing pad stops an exception. -/
theorem IsWellFounded.ends_padCatches (h : m.IsWellFounded) (globals : Array UInt64) (b : BlockId)
    (descriptor : UInt64) : Ends (Exec.padCatches m globals b descriptor) := by
  have hclauses := h.ends_clausesCatch globals descriptor
  unfold Exec.padCatches
  refine .bind_of_ok inferInstance fun d _ => ?_
  split
  · infer_instance
  · refine .bind_of_ok inferInstance fun first _ => ?_
    split <;> infer_instance

end Module

/-! ### Formats -/

instance (s : FormatSpec) (body : String) (numeric : Bool) : Ends (s.pad body numeric) := by
  have hcrash : Ends (.error .overflow : Checked String) := ⟨fun h => by cases h; exact nofun⟩
  unfold FormatSpec.pad
  infer_instance

instance (v : Int64) (bits : Nat) : Ends (zeroExtend v bits) := by
  have hcrash : Ends (.error .overflow : Checked Int64) := ⟨fun h => by cases h; exact nofun⟩
  unfold zeroExtend
  infer_instance

instance (n d : Nat) : Ends (appendDigit n d) := by
  unfold appendDigit
  infer_instance

namespace Text

instance (n : Nat) (cs : List Char) : Ends (takeBytes n cs) := by
  have hcrash : Ends (.error .splitCharacter : Checked (List Char)) :=
    ⟨fun h => by cases h; exact nofun⟩
  induction cs generalizing n with
  | nil => exact .ok []
  | cons c rest ih => cases n <;> unfold takeBytes <;> infer_instance

instance (s : String) (n : Nat) : Ends (truncate s n) := by
  unfold truncate
  infer_instance

end Text

namespace FormatStep

instance (spec : FormatSpec) (c : Char) : Ends (inWidth spec c) := by
  unfold inWidth
  split <;> infer_instance

instance (spec : FormatSpec) (c : Char) : Ends (inPrecision spec c) := by
  unfold inPrecision
  split <;> infer_instance

instance (spec : FormatSpec) (c : Char) : Ends (inFlags spec c) := by
  unfold inFlags
  infer_instance

instance (mode : FormatMode) (c : Char) : Ends (ofChar mode c) := by
  cases mode <;> unfold ofChar <;> infer_instance

end FormatStep

namespace Format

variable (memory : Memory)

instance (n : Nat) : Ends (places n) := by
  have hcrash : Ends (.error .overflow : Checked Nat) := ⟨fun h => by cases h; exact nofun⟩
  unfold places
  infer_instance

instance (x : Double) (n : Nat) : Ends (fixedText x n) := by
  unfold fixedText
  infer_instance

instance (x : Double) (n : Nat) (capital : Bool) : Ends (exponentText x n capital) := by
  unfold exponentText
  refine .bind_of_ok inferInstance fun places _ => ?_
  dsimp only
  split <;> infer_instance

instance (x : Double) (digits : Nat) : Ends (generalText x digits) := by
  unfold generalText
  infer_instance

instance (letter : Char) (args : List Val) : Ends (nextArg letter args) := by
  cases args <;> unfold nextArg <;> infer_instance

instance (letter : Char) (v : Val) : Ends (intArg letter v) := by
  unfold intArg
  split <;> infer_instance

instance (letter : Char) (v : Val) : Ends (floatArg letter v) := by
  unfold floatArg
  split <;> infer_instance

instance (spec : FormatSpec) (v : Int64) : Ends (signedText spec v) := by
  unfold signedText
  infer_instance

instance (spec : FormatSpec) (letter : Char) (v : Val) : Ends (argText memory spec letter v) := by
  unfold argText
  split
  case h_7 =>
    split
    · infer_instance
    · refine .bind_of_ok inferInstance fun s _ => ?_
      split <;> infer_instance
  all_goals infer_instance

instance (spec : FormatSpec) (letter : Char) (args : List Val) :
    Ends (convert memory spec letter args) := by
  unfold convert
  infer_instance

instance (mode : FormatMode) (format : List Char) (args : List Val) :
    Ends (textFrom memory mode format args) := by
  induction format generalizing mode args with
  | nil => cases mode <;> unfold textFrom <;> infer_instance
  | cons c rest ih =>
      rw [textFrom]
      refine .bind_of_ok inferInstance fun step _ => ?_
      cases step <;> infer_instance

instance (format : String) (args : List Val) : Ends (text memory format args) := by
  unfold text
  exact .bind_of_ok inferInstance fun out _ => .pure _

end Format

/-- The name of the type of an exception. -/
instance (memory : Memory) (descriptor : UInt64) :
    Ends (Machine.descriptorName memory descriptor) := by
  unfold Machine.descriptorName
  refine .bind_of_ok inferInstance fun place _ => ?_
  have hname : Ends (do
      memory.readText (UInt64.ofNat (← memory.readWord place pointerSize)) : Fallible String) :=
    inferInstance
  dsimp only
  split
  · infer_instance
  · infer_instance
  · rename_i c hc
    exact ⟨fun he => by cases he; exact hname.not_endless hc⟩

end SsaCompiler
