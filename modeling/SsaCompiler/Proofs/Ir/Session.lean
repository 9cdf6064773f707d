/-
# Requests are met by edits

Every request is followed once through the edits that meet it, and what is found holds for any
relation between modules that allows edits of these kinds: that the module evolves, that it is only
edited, that something about it stays the same. For most requests it is enough to look at the parts.
Where an instruction has to fit its operands, the request has looked at the types of the operands
before, and what it found then is still so when the instruction is written.

A session is any number of requests, one after the other, whatever their order is and whatever they
were answered.
-/

import Mathlib.Order.Defs.Unbundled
import SsaCompiler.Proofs.Ir.Edit

namespace SsaCompiler

open Relation

/-! ### Relations that allow edits -/

namespace Module

/-- A relation between modules in which every edit of a kind is. -/
class Allows (R : Module → Module → Prop) (k : EditKind) : Prop where
  edit : ∀ {m m' : Module}, m.Edit k m' → R m m'

instance : IsPreorder Module Edits where
  refl := .refl
  trans _ _ _ := .trans

instance (k : EditKind) : Allows Edits k := ⟨Edit.edits⟩

instance : IsPreorder Module Progresses where
  refl := .refl
  trans _ _ _ := .trans

/-- An edit of a kind other than that of compound types is a change of the module. -/
theorem allows_progresses {k : EditKind} (hk : k ≠ .compound) : Allows Progresses k :=
  ⟨fun h => ⟨(h.change hk).evolves, h.edits.continues⟩⟩

instance : Allows Progresses .plain := allows_progresses (by rintro ⟨⟩)

instance (k : InstrKind) : Allows Progresses (.code k) := allows_progresses (by rintro ⟨⟩)

instance : Allows Progresses .ending := allows_progresses (by rintro ⟨⟩)

instance : Allows Progresses .block := allows_progresses (by rintro ⟨⟩)

instance : Allows Progresses .position := allows_progresses (by rintro ⟨⟩)

instance : Allows Progresses .declaration := allows_progresses (by rintro ⟨⟩)

end Module

namespace Build

open SsaCompiler.Module

variable {α β : Type} {R : Module → Module → Prop} {m m' : Module} {v : ValueId} {ty : TypeId}

/-- A request that moves a module along a relation. -/
class Moves (R : Module → Module → Prop) (x : Build α) : Prop where
  run : ∀ {m a m'}, x m = .ok (a, m') → R m m'

/-- A request that is met by edits. -/
abbrev Edits (x : Build α) : Prop := Moves Module.Edits x

/-- A request that takes a module further. -/
instance (priority := low) {x : Build α} [hx : Moves Progresses x] : Stepwise x := ⟨fun _ => hx.run⟩

/-- An instruction goes to the current block, or it is set aside, whether it fits or not. -/
theorem evolves_pushInstr {i : Instr} (h : pushInstr ty i m = .ok (v, m')) : m.Evolves m' := by
  rw [pushInstr_run] at h
  split at h
  · rename_i b hb hended
    cases h
    obtain ⟨b', hb', hopen⟩ := currentBlockTerminated_eq_false_iff.1 hended
    cases hb.symm.trans hb'
    exact (Change.instr hb hopen ty i).evolves
  · cases h
    exact (Change.value _ ty (.instr i)).evolves
  · cases h
    exact (Change.detached _ ty i).evolves
  · cases h

/-- The end of a block is settled, or an error is counted. -/
theorem setTerminator_cases {t : Terminator} {u : Unit} (h : setTerminator t m = .ok (u, m')) :
    m' = { m with codegenErrors := m.codegenErrors + 1 } ∨
      ∃ b, m.position = some b ∧ m.IsOpen b ∧ m' = m.withTerminator b t := by
  unfold setTerminator at h
  obtain ⟨ended, m₁, hask, h⟩ := bind_eq_ok_iff.1 h
  obtain ⟨hended, rfl⟩ := ask_eq_ok_iff.1 hask
  cases ended with
  | true =>
      cases h
      exact .inl rfl
  | false =>
      obtain ⟨b, hb, hopen⟩ := currentBlockTerminated_eq_false_iff.1 hended
      change ((get : Build Module) >>= fun m => _) m₁ = _ at h
      rw [bind_of_ok (get_apply m₁), hb] at h
      cases h
      exact .inr ⟨b, hb, hopen, rfl⟩

theorem evolves_setTerminator {t : Terminator} {u : Unit} (h : setTerminator t m = .ok (u, m')) :
    m.Evolves m' := by
  rcases setTerminator_cases h with rfl | ⟨b, hb, hopen, rfl⟩
  · exact (Change.error m).evolves
  · exact (Change.terminator hb hopen t).evolves

/-! ### Requests from parts -/

section

variable [IsPreorder Module R]

instance (a : α) : Moves R (pure a : Build α) where
  run h := by
    cases h
    exact refl_of R _

theorem Moves.bind {x : Build α} {f : α → Build β} [hx : Moves R x] (hf : ∀ a, Moves R (f a)) :
    Moves R (x >>= f) where
  run h := by
    obtain ⟨a, m₁, hfirst, hrest⟩ := bind_eq_ok_iff.1 h
    exact trans_of R (hx.run hfirst) ((hf a).run hrest)

instance {x : Build α} {f : α → Build β} [Moves R x] [hf : ∀ a, Moves R (f a)] :
    Moves R (x >>= f) := .bind hf

/-- Where the answer is of no concern, the second request is looked at only once. -/
instance {x : Build α} {y : Build β} [Moves R x] [hy : Moves R y] : Moves R (x >>= fun _ => y) :=
  .bind fun _ => hy

instance {x : Build α} [Moves R x] : Moves R (discard x) :=
  inferInstanceAs (Moves R (x >>= fun _ => pure PUnit.unit))

instance : Moves R (get : Build Module) where
  run h := by
    cases h
    exact refl_of R _

instance (c : Checked α) : Moves R (liftM c : Build α) where
  run h := by
    cases c with
    | error e => cases h
    | ok a =>
        cases h
        exact refl_of R _

instance (q : Module → Checked α) : Moves R (ask q) where
  run h := by
    obtain ⟨-, rfl⟩ := ask_eq_ok_iff.1 h
    exact refl_of R _

instance (ty : TypeId) : Moves R (typeAt ty) := inferInstanceAs (Moves R (ask _))

instance (v : ValueId) : Moves R (typeOf v) := inferInstanceAs (Moves R (ask _))

instance (ptr : ValueId) : Moves R (pointeeOf ptr) := by
  unfold pointeeOf
  infer_instance

end

instance {p : Prop} [Decidable p] {x y : Build α} [Moves R x] [Moves R y] :
    Moves R (if p then x else y) := by
  split <;> assumption

theorem moves_modify {k : EditKind} [hR : Allows R k] {f : Module → Module}
    (hf : ∀ m : Module, m.Edit k (f m)) : Moves R (modify f : Build PUnit) where
  run h := by
    cases h
    exact hR.edit (hf _)

/-! ### Plain requests -/

section

variable [Allows R .plain]

instance : Moves R codegenError := moves_modify .error

/-! #### Types -/

/-- A type that is described by its components and is no named structure, once its parts are
there. -/
theorem moves_of_internType {t : IrType} {ht : t.description? = some t} {id : TypeId}
    (h : internType t ht m = .ok (id, m')) (hparts : ∀ p ∈ t.parts, m.types.Has p) : R m m' := by
  cases h
  have hname := IrType.description?_eq_self_iff.1 ht
  exact Allows.edit (.types (.intern _ t hname hparts) (TypeTable.get_intern_of_ok t) _)

theorem moves_internType {t : IrType} (ht : t.description? = some t) (hparts : t.parts = []) :
    Moves R (internType t ht) where
  run h := moves_of_internType h fun _ hp => absurd (hparts ▸ hp) List.not_mem_nil

instance (bits : Nat) : Moves R (intType bits) := moves_internType rfl rfl

instance (bits : Nat) : Moves R (floatType bits) := moves_internType rfl rfl

instance : Moves R voidType := moves_internType rfl rfl

instance (pointee : TypeId) : Moves R (pointerType pointee) := moves_internType rfl rfl

instance (params : List TypeId) (ret : TypeId) (variadic : Bool) :
    Moves R (functionType params ret variadic) := moves_internType rfl rfl

/-- A type that has been asked for is there. -/
theorem has_of_internType {t : IrType} {ht : t.description? = some t} {id : TypeId}
    (h : internType t ht m = .ok (id, m')) : m'.types.Has id := by
  cases h
  exact ⟨t, Module.get_intern _ _⟩

instance (name : String) : Moves R (namedStruct name) where
  run h := by
    cases h
    exact Allows.edit (.types (.namedStruct _ name) (Checked.at_push _) _)

/-! #### Values -/

/-- A value that is no instruction. -/
theorem moves_pushValue (ty : TypeId) {origin : ValueDef} (horigin : ∀ i, origin ≠ .instr i) :
    Moves R (pushValue ty origin) where
  run h := by
    cases h
    exact Allows.edit (.value _ ty horigin)

instance (ty : TypeId) (c : Constant) : Moves R (pushValue ty (.const c)) :=
  moves_pushValue ty fun _ h => by cases h

instance (ty : TypeId) (f : FunctionId) (index : Nat) : Moves R (pushValue ty (.param f index)) :=
  moves_pushValue ty fun _ h => by cases h

instance (ty : TypeId) (index : Nat) : Moves R (pushValue ty (.global index)) :=
  moves_pushValue ty fun _ h => by cases h

instance (ty : TypeId) (f : FunctionId) : Moves R (pushValue ty (.function f)) :=
  moves_pushValue ty fun _ h => by cases h

instance (ty : TypeId) : Moves R (pushValue ty .invokeResult) :=
  moves_pushValue ty fun _ h => by cases h

instance (ty : TypeId) : Moves R (constNull ty) := inferInstanceAs (Moves R (pushValue _ _))

instance (ty : TypeId) (fields : List ValueId) : Moves R (constStruct ty fields) :=
  inferInstanceAs (Moves R (pushValue _ _))

variable [IsPreorder Module R]

instance (ty : TypeId) (value : Int64) : Moves R (constInt ty value) := by
  unfold constInt
  refine .bind fun _ => ?_
  split <;> infer_instance

instance (ty : TypeId) (value : Double) : Moves R (constFloat ty value) := by
  unfold constFloat
  refine .bind fun _ => ?_
  split <;> infer_instance

instance (ty : TypeId) : Moves R (constZero ty) := by
  unfold constZero
  refine .bind fun _ => ?_
  split <;> infer_instance

/-! #### Functions and globals -/

instance (f : FunctionId) (i : Nat) (tys : List TypeId) : Moves R (pushParams f i tys) := by
  induction tys generalizing i with
  | nil =>
      unfold pushParams
      infer_instance
  | cons ty rest ih =>
      unfold pushParams
      infer_instance

instance (f : FunctionId) (index : Nat) : Moves R (param f index) := by
  unfold param
  refine .bind fun _ => ?_
  split <;> infer_instance

instance (f : FunctionId) : Moves R (functionPtr f) := by
  have (v : ValueId) : Moves R
      (modifyFunction f (fun data => { data with address := some v }) fun _ => rfl) :=
    moves_modify fun m => .address m f v
  unfold functionPtr
  refine .bind fun _ => ?_
  split <;> infer_instance

instance (f personality : FunctionId) : Moves R (setPersonality f personality) := by
  have : Moves R
      (modifyFunction f (fun data => { data with personality := some personality }) fun _ => rfl) :=
    moves_modify fun m => .personality m f personality
  unfold setPersonality
  infer_instance

instance (name : String) (ty : TypeId) : Moves R (addGlobal name ty) := by
  have : Moves R (modify fun m => { m with globals := m.globals.push ⟨name, ty, none⟩ } :
      Build PUnit) := moves_modify fun m => .global m ⟨name, ty, none⟩ m.stringCount
  unfold addGlobal
  infer_instance

instance (global init : ValueId) : Moves R (setGlobalInitializer global init) := by
  have (index : Nat) : Moves R (modify fun m =>
      { m with globals := m.globals.modify index fun g => { g with init := some init } } :
      Build PUnit) := moves_modify fun m => .init m index init
  unfold setGlobalInitializer
  refine .bind fun _ => ?_
  split <;> infer_instance

instance (text : String) : Moves R (globalString text) := by
  have (ty : TypeId) (init : ValueId) : Moves R (modify fun m =>
      { m with
        globals := m.globals.push ⟨s!".str.{m.stringCount}", ty, some init⟩
        stringCount := m.stringCount + 1 } : Build PUnit) :=
    moves_modify fun m => .global m _ (m.stringCount + 1)
  unfold globalString
  constructor
  intro m v m' h
  obtain ⟨byte, m₁, hbyte, h⟩ := bind_eq_ok_iff.1 h
  obtain ⟨array, m₂, harray, h⟩ := bind_eq_ok_iff.1 h
  refine trans_of R (Moves.run hbyte) (trans_of R (moves_of_internType harray fun p hp => ?_) ?_)
  · cases List.mem_singleton.1 hp
    exact has_of_internType hbyte
  · exact Moves.run h

/-! #### Folding -/

instance (v : ValueId) : Moves R (intConst? v) := by
  unfold intConst?
  refine .bind fun _ => .bind fun _ => ?_
  split <;> infer_instance

instance (v : ValueId) : Moves R (floatConst? v) := by
  unfold floatConst?
  refine .bind fun _ => .bind fun _ => ?_
  split <;> infer_instance

instance (v : ValueId) : Moves R (isNullConst v) := by
  unfold isNullConst
  infer_instance

instance (op : BinOp) (lhs rhs : ValueId) : Moves R (foldBinary op lhs rhs) := by
  unfold foldBinary
  refine .bind fun _ => ?_
  split <;>
  · refine .bind fun _ => .bind fun _ => ?_
    split
    · split <;> infer_instance
    · infer_instance

instance (pred : IntPredicate) (lhs rhs : ValueId) : Moves R (foldICmp pred lhs rhs) := by
  unfold foldICmp
  refine .bind fun _ => .bind fun _ => ?_
  split <;> infer_instance

instance (pred : FloatPredicate) (lhs rhs : ValueId) : Moves R (foldFCmp pred lhs rhs) := by
  unfold foldFCmp
  refine .bind fun _ => ?_
  split
  · infer_instance
  · refine .bind fun _ => ?_
    split <;> infer_instance

instance (op : CastOp) (value : ValueId) (dest : TypeId) : Moves R (foldCast op value dest) := by
  unfold foldCast
  refine .bind fun _ => ?_
  split
  all_goals first
    | infer_instance
    | (refine .bind fun _ => ?_
       split <;> infer_instance)

instance (f : FunctionId) (args : List ValueId) : Moves R (callResultType f args) := by
  unfold callResultType
  refine .bind fun _ => .bind fun _ => ?_
  split <;> infer_instance

end

/-! ### Types whose parts may be missing -/

section

variable [Allows R .compound]

instance (priority := low) (t : IrType) (ht : t.description? = some t) :
    Moves R (internType t ht) where
  run h := by
    cases h
    exact Allows.edit (.compound _ t ht)

instance (elem : TypeId) (length : Nat) : Moves R (arrayType elem length) :=
  inferInstanceAs (Moves R (internType _ _))

instance (fields : List TypeId) : Moves R (recordType fields) :=
  inferInstanceAs (Moves R (internType _ _))

end

/-! ### Blocks and declarations -/

instance [Allows R .block] (f : FunctionId) (name : String) : Moves R (appendBlock f name) where
  run {m b m'} h := by
    obtain ⟨d, m₁, hask, hend⟩ := bind_eq_ok_iff.1 h
    obtain ⟨hf, rfl⟩ := ask_eq_ok_iff.1 hask
    cases hend
    exact Allows.edit (.block hf name)

section

variable [Allows R .position]

instance (b : BlockId) : Moves R (positionAtEnd b) := moves_modify fun m => .position m (some b)

instance : Moves R clearPosition := moves_modify fun m => .position m none

instance (p : Option BlockId) : Moves R (restorePosition p) := moves_modify fun m => .position m p

end

instance [IsPreorder Module R] [Allows R .plain] [Allows R .declaration] (name : String)
    (ty : TypeId) : Moves R (declareFunction name ty) where
  run h := by
    rcases declareFunction_eq_ok h with ⟨-, rfl⟩ | ⟨-, -, _, params, m₁, -, hparams, hnew, rfl⟩
    · exact refl_of R _
    · exact trans_of R (Moves.run hparams) (Allows.edit (.function hnew ty params))

/-- Parameters are values, so the functions stay as they are. -/
theorem functions_of_pushParams {f : FunctionId} {i : Nat} {tys : List TypeId}
    {params : List ValueId} (h : pushParams f i tys m = .ok (params, m')) :
    m'.functions = m.functions := by
  induction tys generalizing m i params with
  | nil =>
      cases h
      rfl
  | cons ty rest ih =>
      rw [pushParams, bind_of_ok (pushValue_run ty _ m)] at h
      obtain ⟨others, m₁, hrest, hend⟩ := bind_eq_ok_iff.1 h
      cases hend
      exact (ih hrest : m'.functions = (m.withValue ty _).functions)

/-- A function that has been declared is found under its name. -/
theorem functionByName?_of_declareFunction {name : String} {ty : TypeId} {f : FunctionId}
    (h : declareFunction name ty m = .ok (f, m')) : m'.functionByName? name = some f := by
  rcases declareFunction_eq_ok h with
    ⟨hname, rfl⟩ | ⟨-, rfl, _, params, m₁, -, hparams, hnew, rfl⟩
  · exact hname
  · rw [Module.functionByName?_withFunction, if_pos rfl, functions_of_pushParams hparams]

/-- A function with a new name has the type that is asked for, and no code yet. -/
theorem function_of_declareFunction {name : String} {ty : TypeId} {f : FunctionId}
    (hnew : m.functionByName? name = none) (h : declareFunction name ty m = .ok (f, m')) :
    ∃ params, m'.function f = .ok ⟨name, ty, params, [], none, none⟩ := by
  rcases declareFunction_eq_ok h with
    ⟨hname, -⟩ | ⟨-, rfl, _, params, m₁, -, hparams, hnew, rfl⟩
  · cases hnew.symm.trans hname
  · refine ⟨params, ?_⟩
    rw [← functions_of_pushParams hparams]
    exact Checked.at_push_size _ _

/-- A body is filled in for a structure that is not one of its own fields. Nothing happens when
there is a body already. -/
theorem setStructBody_progresses {id : TypeId} {body : List TypeId} {done : Bool}
    (h : setStructBody id body m = .ok (done, m'))
    (hself : ∀ name, m.types.get id = .ok (.named name none) → id ∉ body)
    (hbody : ∀ f ∈ body, m.types.Has f) : m.Progresses m' := by
  obtain ⟨types, hset, rfl⟩ := setStructBody_eq_ok h
  cases done with
  | true =>
      obtain ⟨name, hid, -⟩ := TypeTable.get_of_setStructBody hset
      exact ⟨(Module.Change.types (.setStructBody hset (hself name hid) hbody) _).evolves,
        .single (.body hset _)⟩
  | false =>
      cases TypeTable.eq_of_setStructBody hset
      exact .refl _

/-! ### Code -/

/-- An instruction that fits its operands. -/
theorem moves_of_pushInstr (k : InstrKind) [Allows R (.code k)] {i : Instr}
    (h : pushInstr ty i m = .ok (v, m')) (hk : i.kind = k)
    (hfits : m.codegenErrors = 0 → m.Fits ty i) : R m m' := by
  rw [pushInstr_run] at h
  split at h
  · rename_i b hb hended
    cases h
    obtain ⟨c, hc, hopen⟩ := currentBlockTerminated_eq_false_iff.1 hended
    cases hb.symm.trans hc
    exact Allows.edit (.instr hb hopen hk hfits)
  · rename_i hnone hended
    obtain ⟨c, hc, -⟩ := currentBlockTerminated_eq_false_iff.1 hended
    cases hnone.symm.trans hc
  · cases h
    exact Allows.edit (.detached _ ty hk)
  · cases h

/-- An instruction of which nothing is asked. -/
theorem moves_pushInstr (k : InstrKind) [Allows R (.code k)] (ty : TypeId) {i : Instr}
    (hk : i.kind = k) (hfits : ∀ m : Module, m.Fits ty i) : Moves R (pushInstr ty i) :=
  ⟨fun h => moves_of_pushInstr k h hk fun _ => hfits _⟩

/-- The end of a block that fits its operands. -/
theorem moves_of_setTerminator [Allows R .plain] [Allows R .ending] {t : Terminator} {u : Unit}
    (h : setTerminator t m = .ok (u, m')) (hfits : m.codegenErrors = 0 → m.FitsEnd t) : R m m' := by
  rcases setTerminator_cases h with rfl | ⟨b, hb, hopen, rfl⟩
  · exact Allows.edit (.error m)
  · exact Allows.edit (.terminator hb hopen hfits)

/-- The end of a block of which nothing is asked. -/
theorem moves_setTerminator [Allows R .plain] [Allows R .ending] {t : Terminator}
    (hfits : ∀ m : Module, m.FitsEnd t) : Moves R (setTerminator t) :=
  ⟨fun h => moves_of_setTerminator h fun _ => hfits _⟩

section

variable [Allows R .plain] [Allows R .ending]

instance (target : BlockId) : Moves R (br target) := moves_setTerminator fun _ => trivial

instance (value : Option ValueId) : Moves R (ret value) := moves_setTerminator fun _ => trivial

instance (pad : ValueId) : Moves R (resume pad) := moves_setTerminator fun _ => trivial

instance : Moves R unreachable := moves_setTerminator fun _ => trivial

end

/-! ### Requests for instructions that fit as they are -/

instance [Allows R (.code .choice)] (ty : TypeId) (incoming : List (ValueId × BlockId)) :
    Moves R (phi ty incoming) := moves_pushInstr .choice ty rfl fun _ => trivial

section

variable [IsPreorder Module R] [Allows R .plain]

instance [Allows R (.code .slot)] (ty : TypeId) : Moves R (alloca ty) := by
  have (ptr : TypeId) : Moves R (pushInstr ptr (.alloca ty)) :=
    moves_pushInstr .slot ptr rfl fun _ => trivial
  unfold alloca
  infer_instance

variable [Allows R (.code .flat)]

instance (pred : IntPredicate) (lhs rhs : ValueId) : Moves R (icmp pred lhs rhs) := by
  have (ty : TypeId) : Moves R (pushInstr ty (.icmp pred lhs rhs)) :=
    moves_pushInstr .flat ty rfl fun _ => trivial
  unfold icmp
  refine .bind fun _ => ?_
  split <;> infer_instance

instance (pred : FloatPredicate) (lhs rhs : ValueId) : Moves R (fcmp pred lhs rhs) := by
  have (ty : TypeId) : Moves R (pushInstr ty (.fcmp pred lhs rhs)) :=
    moves_pushInstr .flat ty rfl fun _ => trivial
  unfold fcmp
  refine .bind fun _ => ?_
  split <;> infer_instance

instance (op : CastOp) (value : ValueId) (dest : TypeId) : Moves R (cast op value dest) := by
  have : Moves R (pushInstr dest (.cast op value)) := moves_pushInstr .flat dest rfl fun _ => trivial
  unfold cast
  refine .bind fun _ => ?_
  split
  · infer_instance
  · refine .bind fun _ => ?_
    split <;> infer_instance

instance (text : String) : Moves R (inlineAsm text) := by
  have (ty : TypeId) : Moves R (pushInstr ty (.inlineAsm text)) :=
    moves_pushInstr .flat ty rfl fun _ => trivial
  unfold inlineAsm
  infer_instance

instance (descriptor : ValueId) : Moves R (typeIdFor descriptor) := by
  have (ty : TypeId) : Moves R (pushInstr ty (.typeIdFor descriptor)) :=
    moves_pushInstr .flat ty rfl fun _ => trivial
  unfold typeIdFor
  infer_instance

instance (clauses : List ValueId) (catchAll : Bool) : Moves R (landingPad clauses catchAll) := by
  have (ty : TypeId) : Moves R (pushInstr ty (.landingPad clauses catchAll)) :=
    moves_pushInstr .flat ty rfl fun _ => trivial
  unfold landingPad
  constructor
  intro m v m' h
  obtain ⟨byte, m₁, hbyte, h⟩ := bind_eq_ok_iff.1 h
  obtain ⟨bytePtr, m₂, hptr, h⟩ := bind_eq_ok_iff.1 h
  obtain ⟨selector, m₃, hselector, h⟩ := bind_eq_ok_iff.1 h
  obtain ⟨record, m₄, hrecord, h⟩ := bind_eq_ok_iff.1 h
  have hparts : ∀ p ∈ [bytePtr, selector], m₃.types.Has p := by
    intro p hp
    rcases List.mem_pair.1 hp with rfl | rfl
    · exact (evolves hselector).types.has (has_of_internType hptr)
    · exact has_of_internType hselector
  exact trans_of R (Moves.run hbyte) (trans_of R (Moves.run hptr) (trans_of R (Moves.run hselector)
    (trans_of R (moves_of_internType hrecord hparts) (Moves.run h))))

end

/-! ### Requests that look at the types of their operands -/

theorem ask_bind_eq_ok {q : Module → Checked α} {k : α → Build β} {r : β × Module}
    (h : (ask q >>= k) m = .ok r) : ∃ a, q m = .ok a ∧ k a m = .ok r := by
  obtain ⟨a, m₁, hask, hrest⟩ := bind_eq_ok_iff.1 h
  obtain ⟨ha, rfl⟩ := ask_eq_ok_iff.1 hask
  exact ⟨a, ha, hrest⟩

theorem codegenError_bind_eq_ok {k : PUnit → Build β} {r : β × Module}
    (h : (codegenError >>= k) m = .ok r) :
    k ⟨⟩ { m with codegenErrors := m.codegenErrors + 1 } = .ok r := by
  obtain ⟨⟨⟩, m₁, herror, h⟩ := bind_eq_ok_iff.1 h
  cases herror
  exact h

/-- What a value points to is read off its type. -/
theorem pointeeOf_eq_ok {ptr : ValueId} {o : Option TypeId} (h : pointeeOf ptr m = .ok (o, m')) :
    m' = m ∧ ∃ t, m.valueType ptr = .ok t ∧ o = t.pointee? := by
  unfold pointeeOf at h
  obtain ⟨ty, hty, h⟩ := ask_bind_eq_ok h
  obtain ⟨t, ht, h⟩ := ask_bind_eq_ok h
  cases h
  exact ⟨rfl, t, valueType_of_typeOf hty ht, rfl⟩

/-- A value that points to something is a pointer to it. -/
theorem valueType_of_pointeeOf {ptr : ValueId} {pointee : TypeId}
    (h : pointeeOf ptr m = .ok (some pointee, m')) :
    m' = m ∧ m.valueType ptr = .ok (.pointer pointee) := by
  obtain ⟨rfl, t, ht, hpointee⟩ := pointeeOf_eq_ok h
  cases t <;> cases hpointee
  exact ⟨rfl, ht⟩

section

variable [IsPreorder Module R] [Allows R .plain] [Allows R (.code .flat)]

instance (op : BinOp) (lhs rhs : ValueId) : Moves R (binary op lhs rhs) where
  run {m v m'} h := by
    unfold binary at h
    obtain ⟨folded, m₁, hfold, h⟩ := bind_eq_ok_iff.1 h
    refine trans_of R (Moves.run hfold) ?_
    cases folded with
    | some v =>
        cases h
        exact refl_of R _
    | none =>
        obtain ⟨lty, hlhs, h⟩ := ask_bind_eq_ok h
        obtain ⟨rty, hrhs, h⟩ := ask_bind_eq_ok h
        split at h
        · -- Different types have just been counted as an error.
          exact trans_of R (Allows.edit (.error _))
            (moves_of_pushInstr .flat (codegenError_bind_eq_ok h) rfl fun hzero => by cases hzero)
        · rename_i heq
          obtain rfl := not_not.1 heq
          exact moves_of_pushInstr .flat h rfl fun _ => ⟨hlhs, hrhs⟩

instance (ptr : ValueId) : Moves R (load ptr) where
  run {m v m'} h := by
    have hnone : Moves R (do
        codegenError
        constZero (← intType 64)) := inferInstance
    unfold load at h
    obtain ⟨o, m₁, hptr, hrest⟩ := bind_eq_ok_iff.1 h
    cases o with
    | none =>
        obtain ⟨rfl, -⟩ := pointeeOf_eq_ok hptr
        exact hnone.run hrest
    | some pointee =>
        obtain ⟨rfl, hptr⟩ := valueType_of_pointeeOf hptr
        exact moves_of_pushInstr .flat hrest rfl fun _ => hptr

/-- A value is written where a pointer to its type goes. -/
theorem moves_of_store {value ptr : ValueId} {pointee : TypeId} {u : Unit}
    (hptr : m.valueType ptr = .ok (.pointer pointee)) (hvalue : m.typeOf value = .ok pointee)
    (h : (do let _ ← pushInstr (← voidType) (.store value ptr) : Build Unit) m = .ok (u, m')) :
    R m m' := by
  obtain ⟨void, m₁, hvoid, h⟩ := bind_eq_ok_iff.1 h
  obtain ⟨w, m₂, hpush, h⟩ := bind_eq_ok_iff.1 h
  cases h
  have hedits : m.Edits m₁ := Moves.run hvoid
  have hstore : m.Fits void (.store value ptr) := ⟨pointee, hptr, hvalue⟩
  exact trans_of R (Moves.run hvoid)
    (moves_of_pushInstr .flat hpush rfl fun _ => hedits.upholds.fits hstore)

instance (value ptr : ValueId) : Moves R (store value ptr) where
  run {m u m'} h := by
    unfold store at h
    obtain ⟨o, m₁, hptr, hrest⟩ := bind_eq_ok_iff.1 h
    cases o with
    | none =>
        obtain ⟨rfl, -⟩ := pointeeOf_eq_ok hptr
        exact Moves.run (x := codegenError) hrest
    | some pointee =>
        obtain ⟨rfl, hptr⟩ := valueType_of_pointeeOf hptr
        obtain ⟨ty, hvalue, hrest⟩ := ask_bind_eq_ok hrest
        split at hrest
        · rename_i heq
          exact moves_of_store hptr (heq ▸ hvalue) hrest
        · exact Moves.run (x := codegenError) hrest

/-- The address of a field whose type has been looked up. -/
theorem moves_of_structGep {ptr : ValueId} {index : Nat} {struct field : TypeId} {t : IrType}
    {fields : List TypeId} (hptr : m.valueType ptr = .ok (.pointer struct))
    (ht : m.types.get struct = .ok t) (hfields : t.fields? = some fields)
    (hfield : fields[index]? = some field)
    (h : (do pushInstr (← pointerType field) (.structGep ptr index) : Build ValueId) m =
      .ok (v, m')) : R m m' := by
  obtain ⟨ty, m₁, htype, h⟩ := bind_eq_ok_iff.1 h
  have hedits : m.Edits m₁ := Moves.run htype
  have hmoves : R m m₁ := Moves.run htype
  cases htype
  refine trans_of R hmoves (moves_of_pushInstr .flat h rfl fun _ => ?_)
  exact ⟨struct, t, fields, field, hedits.upholds.valueType hptr rfl,
    hedits.upholds.get ht (IrType.isOpaque_of_fields? hfields), hfields, hfield,
    Module.get_intern _ _⟩

instance (ptr : ValueId) (index : Nat) : Moves R (structGep ptr index) where
  run {m v m'} h := by
    have hnone : Moves R (do
        codegenError
        return ptr) := inferInstance
    unfold structGep at h
    obtain ⟨o, m₁, hptr, hrest⟩ := bind_eq_ok_iff.1 h
    cases o with
    | none =>
        obtain ⟨rfl, -⟩ := pointeeOf_eq_ok hptr
        exact hnone.run hrest
    | some struct =>
        obtain ⟨rfl, hptr⟩ := valueType_of_pointeeOf hptr
        obtain ⟨t, ht, hrest⟩ := ask_bind_eq_ok hrest
        cases hfields : t.fields? with
        | none =>
            rw [hfields] at hrest
            exact hnone.run hrest
        | some fields =>
            rw [hfields] at hrest
            cases hfield : fields[index]? with
            | none =>
                dsimp only at hrest
                rw [pure_bind, hfield] at hrest
                exact hnone.run hrest
            | some field =>
                dsimp only at hrest
                rw [pure_bind, hfield] at hrest
                exact moves_of_structGep hptr ht hfields hfield hrest

instance (ptr index : ValueId) : Moves R (gep ptr index) where
  run {m v m'} h := by
    have hnone : Moves R (do
        codegenError
        return ptr) := inferInstance
    unfold gep at h
    obtain ⟨ty, hty, h⟩ := ask_bind_eq_ok h
    obtain ⟨t, ht, h⟩ := ask_bind_eq_ok h
    split at h
    · rename_i hpointer
      cases t <;> cases hpointer
      exact moves_of_pushInstr .flat h rfl fun _ => ⟨hty, _, ht⟩
    · exact hnone.run h

instance (aggregate : ValueId) (index : Nat) : Moves R (extractValue aggregate index) where
  run {m v m'} h := by
    have hnone : Moves R (do
        codegenError
        return aggregate) := inferInstance
    unfold extractValue at h
    obtain ⟨ty, hty, h⟩ := ask_bind_eq_ok h
    obtain ⟨t, ht, h⟩ := ask_bind_eq_ok h
    cases hfields : t.fields? with
    | none =>
        rw [hfields] at h
        exact hnone.run h
    | some fields =>
        rw [hfields] at h
        dsimp only at h
        cases hfield : fields[index]? with
        | none =>
            rw [hfield] at h
            exact hnone.run h
        | some field =>
            rw [hfield] at h
            exact moves_of_pushInstr .flat h rfl fun _ =>
              ⟨t, fields, valueType_of_typeOf hty ht, hfields, hfield⟩

end

/-- A call is counted as an error, or its arguments are as many as the function accepts. -/
theorem accepts_of_callResultType {f : FunctionId} {args : List ValueId} {ret : TypeId}
    (h : callResultType f args m = .ok (ret, m')) (hzero : m'.codegenErrors = 0) :
    m'.Accepts f args := by
  unfold callResultType at h
  obtain ⟨d, hd, h⟩ := ask_bind_eq_ok h
  obtain ⟨t, ht, h⟩ := ask_bind_eq_ok h
  cases hsig : t.signature? with
  | none =>
      rw [hsig] at h
      have hedits : m.Edits m' := Moves.run (x := voidType) h
      refine hedits.upholds.accepts ⟨d, t, hd, ht, fun sig hsome => ?_⟩
      cases hsig.symm.trans hsome
  | some sig =>
      rw [hsig] at h
      change (if ¬ sig.Accepts args then do
        codegenError
        return sig.ret
      else return sig.ret : Build TypeId) m = _ at h
      split at h
      · cases codegenError_bind_eq_ok h
        cases hzero
      · rename_i haccepts
        cases h
        refine ⟨d, t, hd, ht, fun sig' hsome => ?_⟩
        cases hsig.symm.trans hsome
        exact not_not.1 haccepts

/-- The end of a block with a call. -/
theorem moves_of_invoke [Allows R .plain] [Allows R .ending] {f : FunctionId} {args : List ValueId} {normal unwind : BlockId}
    {result o : Option ValueId} (haccepts : m.codegenErrors = 0 → m.Accepts f args)
    (h : (do
      setTerminator (.invoke f args normal unwind result)
      return result : Build (Option ValueId)) m = .ok (o, m')) : R m m' := by
  obtain ⟨⟨⟩, m₁, hend, h⟩ := bind_eq_ok_iff.1 h
  cases h
  exact moves_of_setTerminator hend haccepts

section

variable [IsPreorder Module R] [Allows R .plain]

instance [Allows R (.code .flat)] (f : FunctionId) (args : List ValueId) : Moves R (call f args) where
  run {m o m'} h := by
    unfold call at h
    obtain ⟨ret, m₁, hret, h⟩ := bind_eq_ok_iff.1 h
    obtain ⟨v, m₂, hpush, h⟩ := bind_eq_ok_iff.1 h
    obtain ⟨t, ht, h⟩ := ask_bind_eq_ok h
    cases h
    exact trans_of R (Moves.run hret)
      (moves_of_pushInstr .flat hpush rfl (accepts_of_callResultType hret))

variable [Allows R .ending]

instance (f : FunctionId) (args : List ValueId) (normal unwind : BlockId) :
    Moves R (invoke f args normal unwind) where
  run {m o m'} h := by
    unfold invoke at h
    obtain ⟨ret, m₁, hret, h⟩ := bind_eq_ok_iff.1 h
    have haccepts := accepts_of_callResultType hret
    refine trans_of R (Moves.run hret) ?_
    obtain ⟨t, ht, h⟩ := ask_bind_eq_ok h
    dsimp only at h
    split at h
    · exact moves_of_invoke haccepts h
    · obtain ⟨result, m₂, hpush, h⟩ := bind_eq_ok_iff.1 h
      have hedits : m₁.Edits m₂ := Moves.run hpush
      refine trans_of R (Moves.run hpush)
        (moves_of_invoke (fun hzero => hedits.upholds.accepts (haccepts ?_)) h)
      exact Nat.le_zero.1 (hzero ▸ hedits.upholds.errors)

instance (cond : ValueId) (thenTo elseTo : BlockId) : Moves R (condBr cond thenTo elseTo) where
  run {m u m'} h := by
    unfold condBr at h
    obtain ⟨ty, hty, h⟩ := ask_bind_eq_ok h
    obtain ⟨t, ht, h⟩ := ask_bind_eq_ok h
    split at h
    · rename_i htruth
      subst htruth
      exact moves_of_setTerminator h fun _ => valueType_of_typeOf hty ht
    · exact trans_of R (Allows.edit (.error _))
        (moves_of_setTerminator (codegenError_bind_eq_ok h) fun _ => trivial)

end

end Build

/-! ### Sessions -/

namespace Build

open SsaCompiler.Module

/-- A request to a module under construction. -/
inductive Request where
  | intType (bits : Nat)
  | floatType (bits : Nat)
  | voidType
  | pointerType (pointee : TypeId)
  | arrayType (elem : TypeId) (length : Nat)
  | functionType (params : List TypeId) (ret : TypeId) (variadic : Bool)
  | recordType (fields : List TypeId)
  | namedStruct (name : String)
  | setStructBody (id : TypeId) (fields : List TypeId)
  /-- A question about the module as it is. -/
  | ask (q : Module → Checked PUnit)
  | constInt (ty : TypeId) (value : Int64)
  | constFloat (ty : TypeId) (value : Double)
  | constNull (ty : TypeId)
  | constZero (ty : TypeId)
  | constStruct (ty : TypeId) (fields : List ValueId)
  | declareFunction (name : String) (ty : TypeId)
  | param (f : FunctionId) (index : Nat)
  | functionPtr (f : FunctionId)
  | setPersonality (f personality : FunctionId)
  | appendBlock (f : FunctionId) (name : String)
  | positionAtEnd (b : BlockId)
  | clearPosition
  | restorePosition (p : Option BlockId)
  | addGlobal (name : String) (ty : TypeId)
  | setGlobalInitializer (global init : ValueId)
  | globalString (text : String)
  | binary (op : BinOp) (lhs rhs : ValueId)
  | icmp (pred : IntPredicate) (lhs rhs : ValueId)
  | fcmp (pred : FloatPredicate) (lhs rhs : ValueId)
  | cast (op : CastOp) (value : ValueId) (dest : TypeId)
  | alloca (ty : TypeId)
  | load (ptr : ValueId)
  | store (value ptr : ValueId)
  | structGep (ptr : ValueId) (index : Nat)
  | gep (ptr index : ValueId)
  | extractValue (aggregate : ValueId) (index : Nat)
  | phi (ty : TypeId) (incoming : List (ValueId × BlockId))
  | call (f : FunctionId) (args : List ValueId)
  | inlineAsm (text : String)
  | invoke (f : FunctionId) (args : List ValueId) (normal unwind : BlockId)
  | landingPad (clauses : List ValueId) (catchAll : Bool)
  | typeIdFor (descriptor : ValueId)
  | resume (pad : ValueId)
  | br (target : BlockId)
  | condBr (cond : ValueId) (thenTo elseTo : BlockId)
  | ret (value : Option ValueId)
  | unreachable

/-- A request is made. The answer matters in later requests only. -/
def Request.run : Request → Build Unit
  | intType bits => discard (Build.intType bits)
  | floatType bits => discard (Build.floatType bits)
  | voidType => discard Build.voidType
  | pointerType pointee => discard (Build.pointerType pointee)
  | arrayType elem length => discard (Build.arrayType elem length)
  | functionType params result variadic => discard (Build.functionType params result variadic)
  | recordType fields => discard (Build.recordType fields)
  | namedStruct name => discard (Build.namedStruct name)
  | setStructBody id fields => discard (Build.setStructBody id fields)
  | ask q => Build.ask q
  | constInt ty value => discard (Build.constInt ty value)
  | constFloat ty value => discard (Build.constFloat ty value)
  | constNull ty => discard (Build.constNull ty)
  | constZero ty => discard (Build.constZero ty)
  | constStruct ty fields => discard (Build.constStruct ty fields)
  | declareFunction name ty => discard (Build.declareFunction name ty)
  | param f index => discard (Build.param f index)
  | functionPtr f => discard (Build.functionPtr f)
  | setPersonality f personality => Build.setPersonality f personality
  | appendBlock f name => discard (Build.appendBlock f name)
  | positionAtEnd b => Build.positionAtEnd b
  | clearPosition => Build.clearPosition
  | restorePosition p => Build.restorePosition p
  | addGlobal name ty => discard (Build.addGlobal name ty)
  | setGlobalInitializer global init => discard (Build.setGlobalInitializer global init)
  | globalString text => discard (Build.globalString text)
  | binary op lhs rhs => discard (Build.binary op lhs rhs)
  | icmp pred lhs rhs => discard (Build.icmp pred lhs rhs)
  | fcmp pred lhs rhs => discard (Build.fcmp pred lhs rhs)
  | cast op value dest => discard (Build.cast op value dest)
  | alloca ty => discard (Build.alloca ty)
  | load ptr => discard (Build.load ptr)
  | store value ptr => Build.store value ptr
  | structGep ptr index => discard (Build.structGep ptr index)
  | gep ptr index => discard (Build.gep ptr index)
  | extractValue aggregate index => discard (Build.extractValue aggregate index)
  | phi ty incoming => discard (Build.phi ty incoming)
  | call f args => discard (Build.call f args)
  | inlineAsm text => Build.inlineAsm text
  | invoke f args normal unwind => discard (Build.invoke f args normal unwind)
  | landingPad clauses catchAll => discard (Build.landingPad clauses catchAll)
  | typeIdFor descriptor => discard (Build.typeIdFor descriptor)
  | resume pad => Build.resume pad
  | br target => Build.br target
  | condBr cond thenTo elseTo => Build.condBr cond thenTo elseTo
  | ret value => Build.ret value
  | unreachable => Build.unreachable

/-- Requests are made one after the other. -/
def session : List Request → Build Unit
  | [] => pure ()
  | request :: rest => do
    request.run
    session rest

variable {m m' : Module}

/-- A request that is met by edits only. -/
theorem continues_of_edits {α : Type} {x : Build α} [hx : Edits x] {a : α}
    (h : x m = .ok (a, m')) : m.Continues m' := (hx.run h).continues

/-- The request for a body fills it in or changes nothing. -/
theorem continues_setStructBody {id : TypeId} {fields : List TypeId} {done : Bool}
    (h : Build.setStructBody id fields m = .ok (done, m')) : m.Continues m' := by
  obtain ⟨types, hset, rfl⟩ := Build.setStructBody_eq_ok h
  cases done with
  | true => exact ReflTransGen.single (.body hset _)
  | false =>
      cases TypeTable.eq_of_setStructBody hset
      exact ReflTransGen.refl

/-- Every request is met by edits and by bodies that are filled in. -/
theorem Request.continues (r : Request) (h : r.run m = .ok ((), m')) : m.Continues m' := by
  cases r with
  | setStructBody id fields =>
      change (Build.setStructBody id fields >>= fun _ => pure PUnit.unit) m = _ at h
      obtain ⟨done, m₁, hset, h⟩ := bind_eq_ok_iff.1 h
      cases h
      exact continues_setStructBody hset
  | _ =>
      dsimp only [Request.run] at h
      exact continues_of_edits h

theorem continues_session {requests : List Request} (h : session requests m = .ok ((), m')) :
    m.Continues m' := by
  induction requests generalizing m with
  | nil =>
      cases h
      exact ReflTransGen.refl
  | cons request rest ih =>
      obtain ⟨⟨⟩, m₁, hfirst, hrest⟩ := bind_eq_ok_iff.1 h
      exact ReflTransGen.trans (request.continues hfirst) (ih hrest)

end Build

end SsaCompiler
