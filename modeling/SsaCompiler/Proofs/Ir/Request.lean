/-
# What requests do to a module

One lemma for each request that changes a module, saying what the module is afterwards. The
requests for instructions and terminators depend on the current block: an open block takes
what it is given, and otherwise the request is counted as an error.
-/

import SsaCompiler.Proofs.Computation

namespace SsaCompiler

/-! ### Tables with given entries -/

namespace Table

variable {κ ι β : Type} [DecidableEq κ] {pos : ι → Nat} {key? : β → Option κ}

/-- The index of given entries, the last entry first. -/
def indexOf (mk : Nat → ι) (key? : β → Option κ) (xs : List β) : Table κ ι :=
  ⟨(xs.zipIdx.filterMap fun (x, i) => (key? x).map (·, mk i)).reverse⟩

/-- Entries whose keys are different have an index. -/
theorem indexes_indexOf {mk : Nat → ι} {xs : List β} (hmk : ∀ id, mk (pos id) = id)
    (hpos : ∀ i, pos (mk i) = i) (hkeys : (xs.filterMap key?).Nodup) :
    (indexOf mk key? xs).Indexes pos key? xs.toArray := by
  have hmem {k : κ} {id : ι} : (k, id) ∈ (indexOf mk key? xs).entries ↔
      xs.toArray[pos id]?.bind key? = some k := by
    simp only [indexOf, List.mem_reverse, List.mem_filterMap, Prod.exists,
      List.mem_zipIdx_iff_getElem?, Option.map_eq_some_iff, Prod.mk.injEq, List.getElem?_toArray,
      Option.bind_eq_some_iff]
    constructor
    · rintro ⟨x, i, hx, k, hk, rfl, rfl⟩
      exact ⟨x, by rwa [hpos i], hk⟩
    · rintro ⟨x, hx, hk⟩
      exact ⟨x, pos id, hx, k, hk, rfl, hmk id⟩
  have hfirst : (indexOf mk key? xs).entries.map Prod.fst = (xs.filterMap key?).reverse := by
    simp only [indexOf, List.map_reverse, List.map_filterMap, Option.map_map, Function.comp_def]
    conv => rhs; rw [← List.zipIdx_map_fst 0 xs, List.filterMap_map]
    simp only [Option.map_id']
    rfl
  exact fun k id => ⟨fun h => hmem.1 (mem_of_findIn h),
    fun h => findIn_of_mem (hfirst ▸ List.pairwise_reverse.2 (hkeys.imp Ne.symm)) (hmem.2 h)⟩

end Table

/-- The table of given types. -/
def TypeTable.ofTypes (types : List IrType) : TypeTable :=
  ⟨types.toArray, .indexOf TypeId.mk IrType.description? types⟩

/-- The module with given types and functions, none of which stands there twice. -/
def Module.ofTables (name : String) (types : List IrType) (functions : List FunctionData)
    (hkeys : (types.filterMap IrType.description?).Nodup ∧
      (functions.filterMap fun f => some f.name).Nodup := by decide) : Module :=
  { Module.new name with
    types := .ofTypes types
    typesIndexed := Table.indexes_indexOf (fun _ => rfl) (fun _ => rfl) hkeys.1
    functions := functions.toArray
    functionIndex := .indexOf FunctionId.mk (fun f => some f.name) functions
    functionsIndexed := Table.indexes_indexOf (fun _ => rfl) (fun _ => rfl) hkeys.2 }

namespace Module

/-- The value that is made next. -/
def nextValue (m : Module) : ValueId := ⟨m.values.size⟩

/-- A name finds the one function that has it. -/
theorem functionByName?_eq_some_iff {m : Module} {name : String} {f : FunctionId} :
    m.functionByName? name = some f ↔ ∃ d, m.function f = .ok d ∧ d.name = name := by
  rw [functionByName?, m.functionsIndexed name f, Option.bind_eq_some_iff]
  simp only [function, Checked.at_eq_ok_iff, Option.some.injEq]

/-- The module in which a type described by its components has been entered. -/
def withType (m : Module) (ty : IrType) (hty : ty.description? = some ty :=
    by exact IrType.description?_eq_self _) : Module :=
  m.withTypes (m.types.intern ty).2 (m.typesIndexed.intern hty)

/-- The module with one more value. -/
def withValue (m : Module) (ty : TypeId) (origin : ValueDef) : Module :=
  { m with values := m.values.push ⟨ty, origin⟩ }

/-- The module in which a new instruction stands at the end of a block. -/
def withInstr (m : Module) (b : BlockId) (ty : TypeId) (i : Instr) : Module :=
  { m.withValue ty (.instr i) with
    blocks := m.blocks.modify b.index fun block =>
      { block with instrs := block.instrs.push m.nextValue } }

/-- The module in which a new instruction has been set aside. -/
def withDetached (m : Module) (ty : TypeId) (i : Instr) : Module :=
  { m.withValue ty (.instr i) with
    codegenErrors := m.codegenErrors + 1
    detached := m.detached.push m.nextValue }

/-- The module in which a block has ended. -/
def withTerminator (m : Module) (b : BlockId) (t : Terminator) : Module :=
  { m with blocks := m.blocks.modify b.index fun block => { block with terminator := some t } }

/-- A block to which something can be added. -/
def IsOpen (m : Module) (b : BlockId) : Prop :=
  ∃ block, m.block b = .ok block ∧ block.terminator = none

variable {m : Module} {v : ValueId} {d : ValueData}

/-- Adding a value leaves the other values alone. -/
theorem value_withValue (ty : TypeId) (origin : ValueDef) (hv : m.value v = .ok d) :
    (m.withValue ty origin).value v = .ok d := Checked.at_push _ hv

/-- The value that has been added last. -/
@[simp]
theorem value_withValue_nextValue (m : Module) (ty : TypeId) (origin : ValueDef) :
    (m.withValue ty origin).value m.nextValue = .ok ⟨ty, origin⟩ := Checked.at_push_size _ _

/-- The type of a value that is there. -/
theorem typeOf_of_value (hv : m.value v = .ok d) : m.typeOf v = .ok d.ty := by
  unfold typeOf
  rw [hv]
  rfl

/-- What the type of a value is. -/
theorem valueType_of_value {t : IrType} (hv : m.value v = .ok d)
    (ht : m.types.get d.ty = .ok t) : m.valueType v = .ok t := by
  unfold valueType
  rw [typeOf_of_value hv]
  exact ht

/-- Whether a value is known follows from where it comes from. -/
theorem isConstant_of_value (hv : m.value v = .ok d) :
    m.isConstant v = .ok d.origin.isConstant := by
  unfold isConstant
  rw [hv]
  rfl

/-- A current block that takes what it is given. -/
theorem currentBlockTerminated_eq_false_iff :
    m.currentBlockTerminated = .ok false ↔ ∃ b, m.position = some b ∧ m.IsOpen b := by
  unfold currentBlockTerminated IsOpen
  cases hposition : m.position with
  | none => simp
  | some b =>
      simp only [blockTerminated, Option.some.injEq, exists_eq_left']
      cases hblock : m.block b with
      | error c => simp [bind, Except.bind]
      | ok block =>
          simp [bind, Except.bind, pure, Except.pure]

end Module

namespace TypeTable

variable {t t' : TypeTable} {ty : IrType} {id : TypeId}

/-- A type stands in the index exactly at the position where it stands in the table. -/
theorem IsIndexed.interned_eq_some_iff (ht : t.IsIndexed) :
    t.interned.get? ty = some id ↔ t.get id = .ok ty ∧ ty.structName? = none := by
  rw [ht ty id, TypeTable.get, Checked.at_eq_ok_iff]
  constructor
  · intro h
    obtain ⟨found, hfound, hdescription⟩ := Option.bind_eq_some_iff.1 h
    cases IrType.eq_of_description? hdescription
    exact ⟨hfound, IrType.description?_eq_self_iff.1 hdescription⟩
  · rintro ⟨hget, hname⟩
    rw [hget]
    exact IrType.description?_eq_self_iff.2 hname

/-- A type that has been entered is found at the position that was answered. -/
theorem get_intern (ht : t.IsIndexed) (ty : IrType) :
    (t.intern ty).2.get (t.intern ty).1 = .ok ty := by
  unfold intern
  split
  · rename_i found hfound
    exact (ht.interned_eq_some_iff.1 hfound).1
  · exact Checked.at_push_size _ _

/-- Entering a type leaves the other types alone. -/
theorem get_intern_of_ok {old : IrType} (ty : IrType)
    (hid : t.get id = .ok old) : (t.intern ty).2.get id = .ok old := by
  unfold intern
  split
  · exact hid
  · exact Checked.at_push _ hid

end TypeTable

/-- What a module has entered among its types is found there. -/
theorem Module.get_intern (m : Module) (ty : IrType) :
    (m.types.intern ty).2.get (m.types.intern ty).1 = .ok ty :=
  TypeTable.get_intern m.typesIndexed ty

namespace Build

variable {m m' : Module} {v : ValueId}

@[simp]
theorem pushValue_run (ty : TypeId) (origin : ValueDef) (m : Module) :
    pushValue ty origin m = .ok (m.nextValue, m.withValue ty origin) := rfl

/-- A type described by its components. -/
@[simp]
theorem internType_run (ty : IrType) (hty : ty.description? = some ty) (m : Module) :
    internType ty hty m = .ok ((m.types.intern ty).1, m.withType ty hty) := rfl

/-- The body of a structure changes the types only. -/
theorem setStructBody_eq_ok {id : TypeId} {body : List TypeId} {done : Bool}
    (h : setStructBody id body m = .ok (done, m')) : ∃ types,
      ∃ hset : m.types.setStructBody id body = .ok (done, types),
        m' = m.withTypes types (m.typesIndexed.setStructBody hset) := by
  unfold setStructBody at h
  split at h
  · rename_i hset
    cases h
    exact ⟨_, hset, rfl⟩
  · cases h

/-- A function is there already, or it is entered under its new name behind the others, once its
parameters are values. -/
theorem declareFunction_eq_ok {name : String} {ty : TypeId} {f : FunctionId}
    (h : declareFunction name ty m = .ok (f, m')) :
    (m.functionByName? name = some f ∧ m' = m) ∨
      m.functionByName? name = none ∧ f = ⟨m.functions.size⟩ ∧ ∃ irTy params m₁,
        m.types.get ty = .ok irTy ∧
        pushParams f 0 ((irTy.signature?.map (·.params)).getD []) m = .ok (params, m₁) ∧
        ∃ hnew, m' = m₁.withFunction ⟨name, ty, params, [], none, none⟩ hnew := by
  unfold declareFunction at h
  split at h
  · rename_i hname
    cases h
    exact .inl ⟨hname, rfl⟩
  · rename_i hname
    obtain ⟨irTy, hty, h⟩ := answer_bind_eq_ok_iff.1 h
    dsimp only at h
    split at h
    · rename_i hparams
      cases h
      exact .inr ⟨hname, rfl, irTy, _, _, hty, hparams, _, rfl⟩
    · cases h

/-- An integer constant of an integer type. -/
theorem constInt_run {ty : TypeId} {bits : Nat} (ht : m.types.get ty = .ok (.int bits))
    (value : Int64) : constInt ty value m =
      .ok (m.nextValue, m.withValue ty (.const (.int (normalizeInt value bits)))) :=
  bind_of_ok (typeAt_of_ok ht)

/-- An instruction is added to an open block and set aside otherwise. -/
theorem pushInstr_run (ty : TypeId) (i : Instr) (m : Module) :
    pushInstr ty i m = match m.position, m.currentBlockTerminated with
      | some b, .ok false => .ok (m.nextValue, m.withInstr b ty i)
      | none, .ok false => .ok (m.nextValue, m.withValue ty (.instr i))
      | _, .ok true => .ok (m.nextValue, m.withDetached ty i)
      | _, .error c => .error c := by
  have hsame : (m.withValue ty (.instr i)).currentBlockTerminated = m.currentBlockTerminated := rfl
  unfold pushInstr
  rw [bind_of_ok (pushValue_run ty (.instr i) m)]
  cases hended : m.currentBlockTerminated with
  | error c =>
      have hask : ask Module.currentBlockTerminated (m.withValue ty (.instr i)) = .error c := by
        change (liftM (Module.currentBlockTerminated (m.withValue ty (.instr i))) : Build Bool) _ = _
        rw [hsame, hended]
        rfl
      rw [bind_of_error hask]
      cases m.position <;> rfl
  | ok ended =>
      rw [bind_of_ok (ask_of_ok (hsame.trans hended))]
      obtain ⟨name, types, typesIndexed, values, functions, functionIndex, functionsIndexed, blocks,
        globals, position, detached, errors, strings⟩ := m
      cases ended <;> cases position <;> rfl

end Build

end SsaCompiler
