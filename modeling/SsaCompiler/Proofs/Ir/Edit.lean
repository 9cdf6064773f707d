/-
# Edits of a module

A request to a module is met by edits of a few kinds, and each kind has conditions. An instruction
goes to the end of the current block while that is open, the block's end is settled once, a block is
entered for a function that is there. As long as nothing has been counted as an error, an instruction
fits its operands as well: a load yields what its address points to, and so on. What holds of every
edit holds of every request, and of any number of requests one after the other.

Only the body of a structure is not an edit: it changes a type that is there.

The kinds tell what else there is to say about edits. A relation between modules may allow edits of
some kinds and not of others, and then it holds of the requests that are met by these.
-/

import SsaCompiler.Proofs.Ir.History

namespace SsaCompiler

open Relation

/-- Some arguments are as many as a signature asks for. More may follow if it is variadic. -/
def Signature.Accepts (sig : Signature) (args : List ValueId) : Prop :=
  if sig.variadic then args.length ≥ sig.params.length else args.length = sig.params.length

instance (sig : Signature) (args : List ValueId) : Decidable (sig.Accepts args) :=
  inferInstanceAs (Decidable (if sig.variadic then _ else _))

/-- A structure whose fields are known is not without body. -/
theorem IrType.isOpaque_of_fields? {t : IrType} {fields : List TypeId}
    (h : t.fields? = some fields) : t.isOpaque = false := by
  cases t with
  | named name body =>
      cases h
      rfl
  | _ => rfl

/-! ### Kinds of edits -/

/-- Choices by the block from which control came, room on the stack, and all other instructions. -/
inductive InstrKind where
  | flat
  | choice
  | slot

/-- The kind of an instruction. -/
def Instr.kind : Instr → InstrKind
  | phi _ => .choice
  | alloca _ => .slot
  | _ => .flat

/-- What kind of an edit it is tells what it may concern. A plain edit concerns no code: it adds a
type whose parts are there, a value that is no instruction or a global, or it counts an error. The
parts of a compound type may be missing. -/
inductive EditKind where
  | plain
  | compound
  | code (k : InstrKind)
  | ending
  | block
  | position
  | declaration

namespace Module

variable {m m' m'' : Module} {v : ValueId} {d : ValueData} {id ty : TypeId} {t : IrType}
  {i : Instr} {b : BlockId} {f : FunctionId}

/-! ### Code that fits -/

/-- A function accepts some arguments, as far as it has a signature. -/
def Accepts (m : Module) (f : FunctionId) (args : List ValueId) : Prop :=
  ∃ d t, m.function f = .ok d ∧ m.types.get d.ty = .ok t ∧
    ∀ sig, t.signature? = some sig → sig.Accepts args

/-- An instruction fits its operands and yields a value of a type. -/
def Fits (m : Module) (ty : TypeId) : Instr → Prop
  | .binary _ lhs rhs => m.typeOf lhs = .ok ty ∧ m.typeOf rhs = .ok ty
  | .load ptr => m.valueType ptr = .ok (.pointer ty)
  | .store value ptr => ∃ pointee, m.valueType ptr = .ok (.pointer pointee) ∧
      m.typeOf value = .ok pointee
  | .structGep ptr index => ∃ struct t fields field, m.valueType ptr = .ok (.pointer struct) ∧
      m.types.get struct = .ok t ∧ t.fields? = some fields ∧ fields[index]? = some field ∧
      m.types.get ty = .ok (.pointer field)
  | .gep ptr _ => m.typeOf ptr = .ok ty ∧ ∃ pointee, m.types.get ty = .ok (.pointer pointee)
  | .extractValue aggregate index => ∃ t fields, m.valueType aggregate = .ok t ∧
      t.fields? = some fields ∧ fields[index]? = some ty
  | .call f args => m.Accepts f args
  | _ => True

/-- The end of a block fits its operands. -/
def FitsEnd (m : Module) : Terminator → Prop
  | .condBr cond _ _ => m.valueType cond = .ok (.int 1)
  | .invoke f args _ _ _ => m.Accepts f args
  | _ => True

/-! ### What is settled -/

/-- A later module, in which all that has been settled is as it was: what values are, what types
denote but for the bodies of structures, the names and the types of functions, blocks that have
ended, and errors that have been counted. -/
structure Upholds (m m' : Module) : Prop where
  value : ∀ {v d}, m.value v = .ok d → m'.value v = .ok d
  type : ∀ {id t}, m.types.get id = .ok t → ∃ t', m'.types.get id = .ok t' ∧ t.Becomes t'
  function : ∀ {f d}, m.function f = .ok d →
    ∃ d', m'.function f = .ok d' ∧ d'.name = d.name ∧ d'.ty = d.ty
  block : ∀ {b block}, m.block b = .ok block → block.terminator.isSome → m'.block b = .ok block
  errors : m.codegenErrors ≤ m'.codegenErrors

namespace Upholds

theorem refl (m : Module) : m.Upholds m where
  value hv := hv
  type ht := ⟨_, ht, .inl rfl⟩
  function hf := ⟨_, hf, rfl, rfl⟩
  block hb _ := hb
  errors := Nat.le_refl _

theorem trans (h : m.Upholds m') (h' : m'.Upholds m'') : m.Upholds m'' where
  value hv := h'.value (h.value hv)
  type ht := by
    obtain ⟨t₁, ht₁, hbecomes⟩ := h.type ht
    obtain ⟨t₂, ht₂, hbecomes'⟩ := h'.type ht₁
    exact ⟨t₂, ht₂, hbecomes.trans hbecomes'⟩
  function hf := by
    obtain ⟨d₁, hd₁, hname, hty⟩ := h.function hf
    obtain ⟨d₂, hd₂, hname', hty'⟩ := h'.function hd₁
    exact ⟨d₂, hd₂, hname'.trans hname, hty'.trans hty⟩
  block hb hended := h'.block (h.block hb hended) hended
  errors := Nat.le_trans h.errors h'.errors

/-- What a type denotes stays, unless it is a structure without body. -/
theorem get (h : m.Upholds m') (ht : m.types.get id = .ok t) (hfull : t.isOpaque = false) :
    m'.types.get id = .ok t := by
  obtain ⟨t', ht', hbecomes⟩ := h.type ht
  rw [ht', hbecomes.eq hfull]

/-- The type of a value stays. -/
theorem typeOf (h : m.Upholds m') (hv : m.typeOf v = .ok ty) : m'.typeOf v = .ok ty := by
  obtain ⟨d, hd, rfl⟩ := exists_value_of_typeOf hv
  exact typeOf_of_value (h.value hd)

/-- What the type of a value denotes stays, unless it is a structure without body. -/
theorem valueType (h : m.Upholds m') (hv : m.valueType v = .ok t) (hfull : t.isOpaque = false) :
    m'.valueType v = .ok t := by
  obtain ⟨ty, hty, ht⟩ := exists_typeOf_of_valueType hv
  exact valueType_of_typeOf (h.typeOf hty) (h.get ht hfull)

/-- What a function accepts it accepts later. -/
theorem accepts (h : m.Upholds m') {args : List ValueId} (hf : m.Accepts f args) :
    m'.Accepts f args := by
  obtain ⟨d, t, hd, ht, haccepts⟩ := hf
  obtain ⟨d', hd', -, hty⟩ := h.function hd
  obtain ⟨t', ht', hbecomes⟩ := h.type ht
  refine ⟨d', t', hd', hty ▸ ht', fun sig hsig => haccepts sig ?_⟩
  rcases hbecomes with rfl | ⟨name, body, rfl, rfl⟩
  · exact hsig
  · cases hsig

/-- An instruction that fits its operands fits them later. -/
theorem fits (h : m.Upholds m') (hi : m.Fits ty i) : m'.Fits ty i := by
  cases i with
  | binary op lhs rhs => exact ⟨h.typeOf hi.1, h.typeOf hi.2⟩
  | load ptr => exact h.valueType hi rfl
  | store value ptr =>
      obtain ⟨pointee, hptr, hvalue⟩ := hi
      exact ⟨pointee, h.valueType hptr rfl, h.typeOf hvalue⟩
  | structGep ptr index =>
      obtain ⟨struct, t, fields, field, hptr, ht, hfields, hfield, hty⟩ := hi
      exact ⟨struct, t, fields, field, h.valueType hptr rfl,
        h.get ht (IrType.isOpaque_of_fields? hfields), hfields, hfield, h.get hty rfl⟩
  | gep ptr index =>
      obtain ⟨hptr, pointee, hty⟩ := hi
      exact ⟨h.typeOf hptr, pointee, h.get hty rfl⟩
  | extractValue aggregate index =>
      obtain ⟨t, fields, ht, hfields, hfield⟩ := hi
      exact ⟨t, fields, h.valueType ht (IrType.isOpaque_of_fields? hfields), hfields, hfield⟩
  | call f args => exact h.accepts hi
  | _ => trivial

theorem fitsEnd (h : m.Upholds m') {t : Terminator} (ht : m.FitsEnd t) : m'.FitsEnd t := by
  cases t with
  | condBr cond thenTo elseTo => exact h.valueType ht rfl
  | invoke f args normal unwind result => exact h.accepts ht
  | _ => trivial

end Upholds

/-! ### Edits -/

/-- One edit of a module, of a kind. Without an error so far, code fits its operands. -/
inductive Edit : Module → EditKind → Module → Prop where
  | types {m : Module} {types : TypeTable} (hchange : m.types.Change types)
      (htypes : ∀ {id t}, m.types.get id = .ok t → types.get id = .ok t)
      (hindexed : types.IsIndexed) : Edit m .plain (m.withTypes types hindexed)
  | compound (m : Module) (ty : IrType) (hty : ty.description? = some ty) :
      Edit m .compound (m.withType ty hty)
  | value (m : Module) (ty : TypeId) {origin : ValueDef} (horigin : ∀ i, origin ≠ .instr i) :
      Edit m .plain (m.withValue ty origin)
  | instr {m : Module} {b : BlockId} (hb : m.position = some b) (hopen : m.IsOpen b) {ty : TypeId}
      {i : Instr} {k : InstrKind} (hk : i.kind = k) (hfits : m.codegenErrors = 0 → m.Fits ty i) :
      Edit m (.code k) (m.withInstr b ty i)
  | detached (m : Module) (ty : TypeId) {i : Instr} {k : InstrKind} (hk : i.kind = k) :
      Edit m (.code k) (m.withDetached ty i)
  | terminator {m : Module} {b : BlockId} (hb : m.position = some b) (hopen : m.IsOpen b)
      {t : Terminator} (hfits : m.codegenErrors = 0 → m.FitsEnd t) :
      Edit m .ending (m.withTerminator b t)
  | error (m : Module) : Edit m .plain { m with codegenErrors := m.codegenErrors + 1 }
  | function {m : Module} {name : String} (hnew : m.functionByName? name = none) (ty : TypeId)
      (params : List ValueId) :
      Edit m .declaration (m.withFunction ⟨name, ty, params, [], none, none⟩ hnew)
  | address (m : Module) (f : FunctionId) (v : ValueId) :
      Edit m .plain (m.modifyFunction f (fun d => { d with address := some v }) fun _ => rfl)
  | personality (m : Module) (f g : FunctionId) :
      Edit m .plain (m.modifyFunction f (fun d => { d with personality := some g }) fun _ => rfl)
  | block {m : Module} {f : FunctionId} {d : FunctionData} (hf : m.function f = .ok d)
      (name : String) : Edit m .block (m.withBlock f name)
  | position (m : Module) (p : Option BlockId) : Edit m .position (m.withPosition p)
  | global (m : Module) (g : Global) (strings : Nat) :
      Edit m .plain { m with globals := m.globals.push g, stringCount := strings }
  | init (m : Module) (index : Nat) (v : ValueId) :
      Edit m .plain { m with globals := m.globals.modify index fun g => { g with init := some v } }

/-- An edit is a change of the module, unless it is a type whose parts may be missing. -/
theorem Edit.change {k : EditKind} (h : m.Edit k m') (hk : k ≠ .compound) : m.Change m' := by
  cases h with
  | types hchange => exact .types hchange _
  | compound => exact absurd rfl hk
  | value => exact .value _ _ _
  | instr hb hopen => exact .instr hb hopen _ _
  | detached => exact .detached _ _ _
  | terminator hb hopen => exact .terminator hb hopen _
  | error => exact .error _
  | function hnew => exact .function hnew _ _
  | address => exact .address _ _ _
  | personality => exact .personality _ _ _
  | block => exact .block _ _ _
  | position => exact .position _ _
  | global => exact .global _ _ _
  | init => exact .init _ _ _

/-- A module some edits later. -/
def Edits : Module → Module → Prop := ReflTransGen fun m m' => ∃ k, m.Edit k m'

/-- A module is edited into itself. -/
theorem Edits.refl (m : Module) : m.Edits m := ReflTransGen.refl

theorem Edits.trans (h : m.Edits m') (h' : m'.Edits m'') : m.Edits m'' := ReflTransGen.trans h h'

theorem Edit.edits {k : EditKind} (h : m.Edit k m') : m.Edits m' := ReflTransGen.single ⟨k, h⟩

/-- A function that is changed keeps its name and its type. -/
theorem exists_function_modify {g : FunctionData → FunctionData} {k : Nat} {d : FunctionData}
    (hf : m.function f = .ok d) (hname : ∀ d, (g d).name = d.name) (hty : ∀ d, (g d).ty = d.ty) :
    ∃ d', Checked.at (m.functions.modify k g) f.index = .ok d' ∧ d'.name = d.name ∧
      d'.ty = d.ty := by
  refine ⟨_, function_modify hf, ?_, ?_⟩
  · split
    · exact hname d
    · rfl
  · split
    · exact hty d
    · rfl

/-- A block that has ended is not the one that is open. -/
theorem block_of_isOpen {c : BlockId} {block : BlockData} {g : BlockData → BlockData}
    (hopen : m.IsOpen c) (hb : m.block b = .ok block) (hended : block.terminator.isSome) :
    Checked.at (m.blocks.modify c.index g) b.index = .ok block := by
  have hne : c ≠ b := by
    rintro rfl
    obtain ⟨block', hblock, hnone⟩ := hopen
    cases hb.symm.trans hblock
    rw [hnone] at hended
    cases hended
  rw [block_modify hb, if_neg hne]

/-- An edit leaves all that is settled as it is. -/
theorem Edit.upholds {k : EditKind} (h : m.Edit k m') : m.Upholds m' := by
  have hsame := Upholds.refl m
  cases h with
  | types _ htypes => exact { hsame with type := fun ht => ⟨_, htypes ht, .inl rfl⟩ }
  | compound =>
      exact { hsame with type := fun ht => ⟨_, TypeTable.get_intern_of_ok _ ht, .inl rfl⟩ }
  | value ty horigin => exact { hsame with value := Checked.at_push _ }
  | instr hb hopen hk hfits =>
      exact { hsame with
        value := Checked.at_push _
        block := fun hb hended => block_of_isOpen hopen hb hended }
  | detached ty hk => exact { hsame with value := Checked.at_push _, errors := Nat.le_succ _ }
  | terminator hb hopen hfits =>
      exact { hsame with block := fun hb hended => block_of_isOpen hopen hb hended }
  | error => exact { hsame with errors := Nat.le_succ _ }
  | function hnew ty params =>
      exact { hsame with function := fun hf => ⟨_, Checked.at_push _ hf, rfl, rfl⟩ }
  | address f v =>
      exact { hsame with
        function := fun hf => exists_function_modify hf (fun _ => rfl) fun _ => rfl }
  | personality f g =>
      exact { hsame with
        function := fun hf => exists_function_modify hf (fun _ => rfl) fun _ => rfl }
  | block hf name =>
      exact { hsame with
        function := fun hf => exists_function_modify hf (fun _ => rfl) fun _ => rfl
        block := fun hb _ => Checked.at_push _ hb }
  | position p => exact { hsame with }
  | global g strings => exact { hsame with }
  | init index v => exact { hsame with }

theorem Edits.upholds (h : m.Edits m') : m.Upholds m' := by
  induction h with
  | refl => exact .refl m
  | tail _ hedit ih =>
      obtain ⟨k, hedit⟩ := hedit
      exact ih.trans hedit.upholds

/-! ### What requests lead to -/

/-- What a request may do to a module at once: edit it, or fill in the body of a structure. -/
inductive Alters : Module → Module → Prop where
  | edit {m m' : Module} {k : EditKind} (h : m.Edit k m') : Alters m m'
  | body {m : Module} {id : TypeId} {fields : List TypeId} {types : TypeTable}
      (h : m.types.setStructBody id fields = .ok (true, types)) (hindexed : types.IsIndexed) :
      Alters m (m.withTypes types hindexed)

/-- A structure that gets its body is all that changes. -/
theorem upholds_setStructBody {fields : List TypeId} {types : TypeTable}
    (h : m.types.setStructBody id fields = .ok (true, types)) (hindexed : types.IsIndexed) :
    m.Upholds (m.withTypes types hindexed) := by
  have hsame := Upholds.refl m
  refine { hsame with type := fun {other ty} hother => ?_ }
  obtain ⟨name, hid, hget⟩ := TypeTable.get_setStructBody h other
  by_cases heq : other = id
  · subst heq
    rw [if_pos rfl] at hget
    cases hid.symm.trans hother
    exact ⟨_, hget, .inr ⟨name, fields, rfl, rfl⟩⟩
  · rw [if_neg heq] at hget
    exact ⟨ty, hget.trans hother, .inl rfl⟩

theorem Alters.upholds (h : m.Alters m') : m.Upholds m' := by
  cases h with
  | edit hedit => exact hedit.upholds
  | body hset hindexed => exact upholds_setStructBody hset hindexed

/-- A module from which some requests lead to another. -/
def Continues : Module → Module → Prop := ReflTransGen Alters

/-- A module is edited by requests. -/
theorem Edits.continues (h : m.Edits m') : m.Continues m' := by
  induction h with
  | refl => exact ReflTransGen.refl
  | tail _ hedit ih =>
      obtain ⟨k, hedit⟩ := hedit
      exact ih.tail (.edit hedit)

/-- What is settled stays settled over any number of requests. -/
theorem Continues.upholds (h : m.Continues m') : m.Upholds m' := by
  induction h with
  | refl => exact .refl m
  | tail _ hstep ih => exact ih.trans hstep.upholds

/-- What holds of a module and survives whatever a request may do holds after any requests. -/
theorem Continues.invariant {P : Module → Prop} (h : m.Continues m') (hm : P m)
    (hstep : ∀ {m m' : Module}, m.Alters m' → P m → P m') : P m' := by
  induction h with
  | refl => exact hm
  | tail _ halters ih => exact hstep halters ih

/-- A module that is further on: changes lead to it, whatever they are for, and so do requests. -/
structure Progresses (m m' : Module) : Prop where
  evolves : m.Evolves m'
  continues : m.Continues m'

theorem Progresses.refl (m : Module) : m.Progresses m := ⟨.refl m, .refl⟩

theorem Progresses.trans (h : m.Progresses m') (h' : m'.Progresses m'') : m.Progresses m'' :=
  ⟨h.evolves.trans h'.evolves, h.continues.trans h'.continues⟩

end Module

instance : Timeline Module := ⟨fun _ => True, Module.Progresses, .refl, .trans, fun _ _ => trivial⟩

namespace Build

variable {α : Type} {m m' : Module}

/-- A request takes a module further. -/
theorem progresses {x : Build α} {a : α} [Stepwise x] (h : x m = .ok (a, m')) : m.Progresses m' :=
  Stepwise.later trivial h

theorem evolves {x : Build α} {a : α} [Stepwise x] (h : x m = .ok (a, m')) : m.Evolves m' :=
  (progresses h).evolves

end Build

end SsaCompiler
