/-
# Requests keep modules under construction sound

A request that makes no code, such as one for a type or a constant, leaves every block alone and
may come at any time. A request for an instruction adds to the block that is being written,
which has to be open, and only uses what is available there. While the blocks of a branch or a
loop are written, the place where code goes changes: a block ends, another one is taken up, and
between the two nothing is written.
-/

import SsaCompiler.Proofs.ControlFlow.Flow

namespace SsaCompiler

/-- What holds of an answer if there is one. -/
def OnSome {α : Type} (G : Module → α → Prop) (m : Module) (o : Option α) : Prop :=
  ∀ a, o = some a → G m a

/-- Where code is being written: in an open block of a function, or nowhere. -/
inductive Module.At (m : Module) : Option FunctionId → Option BlockId → List BlockId → Prop where
  | outside {blocks : List BlockId} : m.At none none blocks
  | inside {f : FunctionId} {b : BlockId} {blocks : List BlockId} (hmem : b ∈ blocks)
      (hb : m.HasBlock f b) : m.At (some f) (some b) blocks

/-- The place stays where it is. -/
theorem Module.At.mono {m m' : Module} {scope : Option FunctionId} {p : Option BlockId}
    {blocks : List BlockId} (h : m.At scope p blocks) (hm : m.Extends m') :
    m'.At scope p blocks := by
  cases h with
  | outside => exact .outside
  | inside hmem hb => exact .inside hmem inferInstance

namespace Module

variable {m : Module} {p : Option BlockId} {blocks blocks' : List BlockId}

/-- Code is being written to a block of a function, and given further blocks are open. -/
def Writing (f : FunctionId) (blocks : List BlockId) (m : Module) : Prop :=
  ∃ b, b ∉ blocks ∧ m.HasBlock f b ∧ m.Open (some b) (b :: blocks)

/-- The current block has ended, and given blocks are open. -/
def Resting (blocks : List BlockId) (m : Module) : Prop := ∃ p, m.Open p blocks

/-- The order of the open blocks does not matter. -/
theorem Open.of_mem_iff (h : m.Open p blocks) (hmem : ∀ b, b ∈ blocks ↔ b ∈ blocks') :
    m.Open p blocks' :=
  ⟨h.admitted, h.listed, h.addresses, h.position, h.isOpen.trans (hmem _)⟩

theorem Writing.of_mem_iff {f : FunctionId} (h : m.Writing f blocks)
    (hmem : ∀ b, b ∈ blocks ↔ b ∈ blocks') : m.Writing f blocks' := by
  obtain ⟨b, hfresh, hb, hopen⟩ := h
  refine ⟨b, fun hmem' => hfresh ((hmem b).2 hmem'), hb, hopen.of_mem_iff fun c => ?_⟩
  rw [List.mem_cons, List.mem_cons, hmem]

theorem Resting.of_mem_iff (h : m.Resting blocks) (hmem : ∀ b, b ∈ blocks ↔ b ∈ blocks') :
    m.Resting blocks' := by
  obtain ⟨p, hopen⟩ := h
  exact ⟨p, hopen.of_mem_iff hmem⟩

end Module

namespace Build

open SsaCompiler.Module

variable {α β : Type} {m m' : Module} {scope : Option FunctionId} {x : Build α}
  {G : Module → α → Prop} {p : Option BlockId} {blocks blocks' : List BlockId} {f g : FunctionId}
  {b : BlockId}

/-- A request that may come at any time and makes no code. -/
abbrev Quiet (m : Module) (x : Build α) (G : Module → α → Prop) : Prop :=
  Keeps m (fun (i : Option BlockId × List BlockId) => Open i.1 i.2) x G

/-- A request that only writes to the current block. -/
abbrev Steady (m : Module) (scope : Option FunctionId) (x : Build α) (G : Module → α → Prop) :
    Prop :=
  Keeps m (fun (i : Option BlockId × List BlockId) (m : Module) =>
    m.At scope i.1 i.2 ∧ m.Open i.1 i.2) x G

/-- A request is quiet when it leaves the place and the open blocks alone. -/
theorem Quiet.of_run (h : ∀ {m₁ m₂ a p blocks}, x m₁ = .ok (a, m₂) → m.Extends m₁ →
    m₁.Open p blocks → m₁.Extends m₂ ∧ m₂.Open p blocks ∧ G m₂ a) : Quiet m x G :=
  ⟨fun _ => ⟨fun hx hm hopen => h hx hm hopen⟩⟩

theorem Quiet.run {m₁ m₂ : Module} {a : α} (hx : Quiet m x G) (h : x m₁ = .ok (a, m₂))
    (hm : m.Extends m₁) (hopen : m₁.Open p blocks) :
    m₁.Extends m₂ ∧ m₂.Open p blocks ∧ G m₂ a :=
  (hx.leads (p, blocks)).run h hm hopen

/-- A request only writes to the current block when it keeps the place and the open blocks. -/
theorem Steady.of_run (h : ∀ {m₁ m₂ a p blocks}, x m₁ = .ok (a, m₂) → m.Extends m₁ →
    m₁.At scope p blocks → m₁.Open p blocks → m₁.Extends m₂ ∧ m₂.Open p blocks ∧ G m₂ a) :
    Steady m scope x G :=
  ⟨fun _ => ⟨fun hx hm hs => by
    obtain ⟨hm', hopen, ha⟩ := h hx hm hs.1 hs.2
    exact ⟨hm', ⟨hs.1.mono hm', hopen⟩, ha⟩⟩⟩

/-- What a request to the current block does. -/
theorem Steady.run {m₁ m₂ : Module} {a : α} (hx : Steady m scope x G) (h : x m₁ = .ok (a, m₂))
    (hm : m.Extends m₁) (hat : m₁.At scope p blocks) (hopen : m₁.Open p blocks) :
    m₁.Extends m₂ ∧ m₂.Open p blocks ∧ G m₂ a := by
  obtain ⟨hm', hs, ha⟩ := (hx.leads (p, blocks)).run h hm ⟨hat, hopen⟩
  exact ⟨hm', hs.2, ha⟩

instance Quiet.steady [hx : Quiet m x G] : Steady m scope x G :=
  .of_run fun h hm _ hopen => hx.run h hm hopen

/-! ### Questions, types and constants -/

instance (q : Module → Checked α) : Quiet m (ask q) fun m a => q m = .ok a :=
  .of_run fun h _ hopen => by
    obtain ⟨hq, rfl⟩ := ask_eq_ok_iff.1 h
    exact ⟨.refl _, hopen, hq⟩

instance : Quiet m (get : Build Module) fun _ _ => True :=
  .of_run fun h _ hopen => by
    cases h
    exact ⟨.refl _, hopen, trivial⟩

/-- A change of the module that touches no code. -/
theorem Quiet.of_modify {g : Module → Module} (hvalues : ∀ m, (g m).values = m.values)
    (hblocks : ∀ m, (g m).blocks = m.blocks) (hfunctions : ∀ m, (g m).functions = m.functions)
    (hposition : ∀ m, (g m).position = m.position) :
    Quiet m (modify g : Build PUnit) fun _ _ => True :=
  .of_run fun {m₁ _ _ _ _} h _ hopen => by
    cases h
    have hkeeps : ∀ {v d}, m₁.value v = .ok d → (g m₁).value v = .ok d := by
      intro v d hv
      rwa [Module.value, hvalues]
    exact ⟨extends_of_values hkeeps (hblocks m₁) (hfunctions m₁),
      hopen.of_values hkeeps (hblocks m₁) (hfunctions m₁) ((hposition m₁).trans hopen.position),
      trivial⟩

instance : Quiet m codegenError fun _ _ => True :=
  .of_modify (fun _ => rfl) (fun _ => rfl) (fun _ => rfl) (fun _ => rfl)

instance (ty : IrType) (hty : ty.description? = some ty) :
    Quiet m (internType ty hty) fun _ _ => True :=
  .of_run fun h _ hopen => by
    cases h
    exact ⟨extends_of_values (fun hv => hv) rfl rfl,
      hopen.of_values (fun hv => hv) rfl rfl hopen.position, trivial⟩

instance (bits : Nat) : Quiet m (intType bits) fun _ _ => True := by
  unfold intType
  infer_instance

instance (bits : Nat) : Quiet m (floatType bits) fun _ _ => True := by
  unfold floatType
  infer_instance

instance : Quiet m voidType fun _ _ => True := by
  unfold voidType
  infer_instance

instance (pointee : TypeId) : Quiet m (pointerType pointee) fun _ _ => True := by
  unfold pointerType
  infer_instance

instance (elem : TypeId) (length : Nat) : Quiet m (arrayType elem length) fun _ _ => True := by
  unfold arrayType
  infer_instance

instance (params : List TypeId) (ret : TypeId) (variadic : Bool) :
    Quiet m (functionType params ret variadic) fun _ _ => True := by
  unfold functionType
  infer_instance

instance (fields : List TypeId) : Quiet m (recordType fields) fun _ _ => True := by
  unfold recordType
  infer_instance

instance (name : String) : Quiet m (namedStruct name) fun _ _ => True :=
  .of_run fun h _ hopen => by
    cases h
    exact ⟨extends_of_values (fun hv => hv) rfl rfl,
      hopen.of_values (fun hv => hv) rfl rfl hopen.position, trivial⟩

instance (id : TypeId) : Quiet m (typeAt id) fun m t => m.types.get id = .ok t := by
  unfold typeAt
  infer_instance

instance (id : ValueId) : Quiet m (typeOf id) fun m t => m.typeOf id = .ok t := by
  unfold typeOf
  infer_instance

instance (ptr : ValueId) : Quiet m (pointeeOf ptr) fun _ _ => True := by
  unfold pointeeOf
  refine .bind fun _ _ _ _ => .bind fun _ _ _ _ => ?_
  exact .pure fun _ => trivial

instance (ty : TypeId) (origin : ValueDef) :
    Quiet m (pushValue ty origin) fun m v => m.value v = .ok ⟨ty, origin⟩ :=
  .of_run fun {m₁ _ _ _ _} h _ hopen => by
    cases h
    exact ⟨(grows_withValue m₁ ty origin).extends,
      hopen.of_values (fun hv => value_withValue ty origin hv) rfl rfl hopen.position,
      value_withValue_nextValue m₁ ty origin⟩

/-- A value that is made as a constant or as an address is known. -/
theorem Quiet.known {ty : TypeId} {origin : ValueDef} (hconstant : origin.isConstant = true) :
    Quiet m (pushValue ty origin) fun m v => m.Known v :=
  Keeps.imp inferInstance fun _ hv => ⟨by rw [isConstant_of_value hv, hconstant]⟩

instance (ty : TypeId) (value : Int64) : Quiet m (constInt ty value) fun m v => m.Known v := by
  unfold constInt
  refine .bind fun _ _ _ _ => ?_
  split
  · exact Quiet.known rfl
  · exact .bind fun _ _ _ _ => Quiet.known rfl

instance (ty : TypeId) (value : Double) : Quiet m (constFloat ty value) fun m v => m.Known v := by
  unfold constFloat
  refine .bind fun _ _ _ _ => ?_
  split <;> exact Quiet.known rfl

instance (ty : TypeId) : Quiet m (constNull ty) fun m v => m.Known v := by
  unfold constNull
  exact Quiet.known rfl

instance (ty : TypeId) : Quiet m (constZero ty) fun m v => m.Known v := by
  unfold constZero
  refine .bind fun _ _ _ _ => ?_
  split <;> exact Quiet.known rfl

instance (ty : TypeId) (fields : List ValueId) :
    Quiet m (constStruct ty fields) fun m v => m.Known v := by
  unfold constStruct
  exact Quiet.known rfl

instance (id : TypeId) (body : List TypeId) : Quiet m (setStructBody id body) fun _ _ => True :=
  .of_run fun {m₁ m₂ a _ _} h _ hopen => by
    obtain ⟨types, -, rfl⟩ := setStructBody_eq_ok h
    exact ⟨extends_of_values (fun hv => hv) rfl rfl,
      hopen.of_values (fun hv => hv) rfl rfl hopen.position, trivial⟩

/-! ### Functions -/

instance (f : FunctionId) (i : Nat) (tys : List TypeId) :
    Quiet m (pushParams f i tys) fun _ _ => True := by
  induction tys generalizing m i with
  | nil =>
      unfold pushParams
      exact .pure fun _ => trivial
  | cons ty rest ih =>
      unfold pushParams
      refine .bind fun _ _ _ _ => .bind fun _ _ _ _ => ?_
      exact .pure fun _ => trivial

instance (name : String) (ty : TypeId) : Quiet m (declareFunction name ty) fun _ _ => True :=
  .of_run fun {m₁ _ _ _ _} h hm hopen => by
    rcases declareFunction_eq_ok h with ⟨-, rfl⟩ | ⟨-, -, _, _, m₂, -, hparams, hnew, rfl⟩
    · exact ⟨.refl _, hopen, trivial⟩
    · obtain ⟨hlater, hopen₂, -⟩ := Quiet.run inferInstance hparams hm hopen
      exact ⟨hlater.trans (extends_withFunction m₂ _ hnew), hopen₂.withFunction hnew rfl rfl,
        trivial⟩

/-- A parameter is available in its function. -/
instance (f : FunctionId) (index : Nat) :
    Quiet m (param f index) fun m v => m.Avail (some f) v := by
  unfold param
  refine .bind ?_
  intro d m₁ _ hd
  split
  · rename_i v hv
    refine .pure fun hm => ?_
    have hparam : m₁.IsUsableIn f v := .inr (.inl ⟨d, hd, List.mem_of_getElem? hv⟩)
    refine ⟨fun hf => ?_⟩
    cases hf
    exact hparam.mono hm
  · refine .bind fun _ _ _ _ => .bind fun _ _ _ _ => ?_
    exact Keeps.imp inferInstance fun _ hv => inferInstance

/-- The address of a function is known, also when it has been asked for before. -/
instance (f : FunctionId) : Quiet m (functionPtr f) fun m v => m.Known v :=
  .of_run fun {m₁ m₂ v p blocks} h hm hopen => by
    unfold functionPtr at h
    obtain ⟨d, m', hask, hrest⟩ := bind_eq_ok_iff.1 h
    obtain ⟨hd, rfl⟩ := ask_eq_ok_iff.1 hask
    cases haddress : d.address with
    | some w =>
        rw [haddress] at hrest
        cases hrest
        exact ⟨.refl _, hopen, hopen.addresses hd haddress⟩
    | none =>
        rw [haddress] at hrest
        obtain ⟨ptrTy, m₃, hty, hrest⟩ := bind_eq_ok_iff.1 hrest
        obtain ⟨w, m₄, hpush, hrest⟩ := bind_eq_ok_iff.1 hrest
        obtain ⟨⟨⟩, m₅, hmodify, hend⟩ := bind_eq_ok_iff.1 hrest
        cases hmodify
        cases hend
        obtain ⟨hm₃, hopen₃, -⟩ := Quiet.run inferInstance hty hm hopen
        have hknown : Quiet m₃ (pushValue ptrTy (.function f)) fun m v => m.Known v :=
          Quiet.known rfl
        obtain ⟨hm₄, hopen₄, hv⟩ := hknown.run hpush (.refl _) hopen₃
        have hm₅ : m₄.Extends
            (m₄.modifyFunction f (fun data => { data with address := some v }) fun _ => rfl) :=
          extends_modifyFunction (fun _ => rfl) (fun _ => rfl)
        refine ⟨(hm₃.trans hm₄).trans hm₅, ?_, inferInstance⟩
        refine hopen₄.modifyFunction (fun _ => rfl) (fun _ => rfl) fun d w hw => .inr ?_
        cases hw
        exact hv

instance (f personality : FunctionId) : Quiet m (setPersonality f personality) fun _ _ => True :=
  .of_run fun {m₁ m₂ a p blocks} h _ hopen => by
    unfold setPersonality at h
    obtain ⟨d, m', hask, hrest⟩ := bind_eq_ok_iff.1 h
    obtain ⟨-, rfl⟩ := ask_eq_ok_iff.1 hask
    cases hrest
    exact ⟨extends_modifyFunction (fun _ => rfl) (fun _ => rfl),
      hopen.modifyFunction (fun _ => rfl) (fun _ => rfl) fun _ _ hv => .inl hv, trivial⟩

/-! ### Globals -/

instance (name : String) (ty : TypeId) : Quiet m (addGlobal name ty) fun m v => m.Known v := by
  have (m : Module) : Quiet m (modify fun m =>
      { m with globals := m.globals.push ⟨name, ty, none⟩ } : Build PUnit) fun _ _ => True :=
    .of_modify (fun _ => rfl) (fun _ => rfl) (fun _ => rfl) (fun _ => rfl)
  unfold addGlobal
  refine .bind fun _ _ _ _ => .bind fun _ _ _ _ => .bind fun _ _ _ _ => ?_
  exact Quiet.known rfl

instance (global init : ValueId) : Quiet m (setGlobalInitializer global init) fun _ _ => True := by
  have (m : Module) (index : Nat) : Quiet m (modify fun m => { m with
      globals := m.globals.modify index fun g => { g with init := some init } } : Build PUnit)
      fun _ _ => True :=
    .of_modify (fun _ => rfl) (fun _ => rfl) (fun _ => rfl) (fun _ => rfl)
  unfold setGlobalInitializer
  refine .bind fun _ _ _ _ => ?_
  split
  · refine .bind fun _ _ _ _ => ?_
    split
    · exact .bind fun _ _ _ _ => .pure fun _ => trivial
    · exact .pure fun _ => trivial
  · exact .bind fun _ _ _ _ => .pure fun _ => trivial

instance (text : String) : Quiet m (globalString text) fun m v => m.Known v := by
  have (m : Module) (ty : TypeId) (init : ValueId) : Quiet m (modify fun m => { m with
      globals := m.globals.push ⟨s!".str.{m.stringCount}", ty, some init⟩
      stringCount := m.stringCount + 1 } : Build PUnit) fun _ _ => True :=
    .of_modify (fun _ => rfl) (fun _ => rfl) (fun _ => rfl) (fun _ => rfl)
  unfold globalString
  refine .bind fun _ _ _ _ => .bind fun _ _ _ _ => .bind fun _ _ _ _ => .bind fun _ _ _ _ =>
    .bind fun _ _ _ _ => .bind fun _ _ _ _ => ?_
  exact Quiet.known rfl

/-! ### Folding -/

instance (v : ValueId) : Quiet m (intConst? v) fun _ _ => True := by
  unfold intConst?
  refine .bind fun _ _ _ _ => .bind fun _ _ _ _ => ?_
  split <;> exact .pure fun _ => trivial

instance (v : ValueId) : Quiet m (floatConst? v) fun _ _ => True := by
  unfold floatConst?
  refine .bind fun _ _ _ _ => .bind fun _ _ _ _ => ?_
  split <;> exact .pure fun _ => trivial

instance (v : ValueId) : Quiet m (isNullConst v) fun _ _ => True := by
  unfold isNullConst
  exact .bind fun _ _ _ _ => .pure fun _ => trivial

/-- A request for a constant whose answer is handed on. -/
theorem Quiet.someKnown {x : Build ValueId} [Quiet m x fun m v => m.Known v] :
    Quiet m (do return some (← x)) (OnSome fun m v => m.Known v) := by
  refine .bind ?_
  intro v m₁ _ hv
  refine .pure fun hm w hw => ?_
  cases hw
  infer_instance

theorem Quiet.nothing {G : Module → α → Prop} : Quiet m (Pure.pure none) (OnSome G) :=
  .pure fun _ a ha => by cases ha

instance (op : BinOp) (lhs rhs : ValueId) :
    Quiet m (foldBinary op lhs rhs) (OnSome fun m v => m.Known v) := by
  unfold foldBinary
  refine .bind fun _ _ _ _ => ?_
  split
  · refine .bind fun _ _ _ _ => .bind fun _ _ _ _ => ?_
    split
    · split
      · exact Quiet.someKnown
      · exact Quiet.nothing
    · exact Quiet.nothing
  · refine .bind fun _ _ _ _ => .bind fun _ _ _ _ => ?_
    split
    · split
      · exact Quiet.someKnown
      · exact Quiet.nothing
    · exact Quiet.nothing

instance (pred : IntPredicate) (lhs rhs : ValueId) :
    Quiet m (foldICmp pred lhs rhs) (OnSome fun m v => m.Known v) := by
  unfold foldICmp
  refine .bind fun _ _ _ _ => .bind fun _ _ _ _ => ?_
  split
  · exact .bind fun _ _ _ _ => Quiet.someKnown
  · refine .bind fun _ _ _ _ => .bind fun _ _ _ _ => ?_
    split
    · exact .bind fun _ _ _ _ => Quiet.someKnown
    · exact Quiet.nothing

instance (pred : FloatPredicate) (lhs rhs : ValueId) :
    Quiet m (foldFCmp pred lhs rhs) (OnSome fun m v => m.Known v) := by
  unfold foldFCmp
  refine .bind fun _ _ _ _ => ?_
  split
  · exact Quiet.nothing
  · refine .bind fun _ _ _ _ => ?_
    split
    · exact Quiet.nothing
    · exact .bind fun _ _ _ _ => Quiet.someKnown

instance (op : CastOp) (value : ValueId) (dest : TypeId) :
    Quiet m (foldCast op value dest) (OnSome fun m v => m.Known v) := by
  unfold foldCast
  refine .bind fun _ _ _ _ => ?_
  cases op with
  | trunc | sext =>
      refine .bind fun _ _ _ _ => ?_
      split
      · exact Quiet.someKnown
      · exact Quiet.nothing
  | zext =>
      refine .bind fun _ _ _ _ => ?_
      split
      · exact .bind fun _ _ _ _ => Quiet.someKnown
      · exact Quiet.nothing
  | fptrunc | fpext | fptosi =>
      refine .bind fun _ _ _ _ => ?_
      split
      · exact Quiet.someKnown
      · exact Quiet.nothing
  | sitofp =>
      refine .bind fun _ _ _ _ => ?_
      split
      · exact Quiet.someKnown
      · exact Quiet.nothing
  | ptrtoint =>
      refine .bind fun _ _ _ _ => ?_
      split
      · exact Quiet.someKnown
      · exact Quiet.nothing
  | inttoptr =>
      refine .bind fun _ _ _ _ => ?_
      split
      · split
        · exact Quiet.someKnown
        · exact Quiet.nothing
      · exact Quiet.nothing
  | bitcast =>
      -- An address under another type stands for the same thing.
      have hpush (m : Module) {origin : ValueDef} (h : origin.isConstant = true) :
          Quiet m (do return some (← pushValue dest origin)) (OnSome fun m v => m.Known v) :=
        have : Quiet m (pushValue dest origin) fun m v => m.Known v := Quiet.known h
        Quiet.someKnown
      refine .bind fun _ _ _ _ => ?_
      split
      · exact hpush _ rfl
      · exact hpush _ rfl
      · exact hpush _ rfl
      · exact Quiet.nothing

/-! ### Instructions -/

/-- An instruction that uses what is available is written to the current block and makes
something available there. -/
theorem Steady.instr {ty : TypeId} {i : Instr} (huses : m.AllAvail scope i.operands) :
    Steady m scope (pushInstr ty i) fun m v => m.Avail scope v :=
  .of_run fun {m₁ m₂ a p blocks} h hm hat hopen => by
    rw [pushInstr_run, hopen.position] at h
    cases hat with
    | outside =>
        have hnone : m₁.currentBlockTerminated = .ok true := by
          rw [currentBlockTerminated, hopen.position]
        rw [hnone] at h
        cases h
        exact ⟨extends_of_values (fun hv => value_withValue ty _ hv) rfl rfl,
          hopen.of_values (fun hv => value_withValue ty _ hv) rfl rfl hopen.position,
          ⟨fun hf => by cases hf⟩⟩
    | @inside f b _ hmem hb =>
        obtain ⟨d, hd, hnone⟩ := hopen.isOpen.2 hmem
        have hfalse : m₁.currentBlockTerminated = .ok false :=
          currentBlockTerminated_eq_false_iff.2 ⟨b, hopen.position, d, hd, hnone⟩
        obtain ⟨d', hd', rfl⟩ := hb.block
        obtain rfl : d = d' := Except.ok.inj (hd.symm.trans hd')
        rw [hfalse] at h
        cases h
        have hinstr := extends_withInstr hd hnone ty i
        refine ⟨hinstr, hopen.withInstr hd hnone ty fun v hv => ?_, ⟨fun hf => ?_⟩⟩
        · exact ((huses.all v hv).usable rfl).mono hm
        · cases hf
          refine .inr (.inr ⟨b, _, block_modify hd b, ?_⟩)
          rw [if_pos rfl]
          exact ⟨rfl, .inl Array.mem_push_self⟩

/-- The answer of folding if there is one, and otherwise an instruction. -/
theorem Steady.folded {fold : Build (Option ValueId)} {instr : Build ValueId}
    [Quiet m fold (OnSome fun m v => m.Known v)]
    (hinstr : ∀ m₁, m.Extends m₁ → Steady m₁ scope instr fun m v => m.Avail scope v) :
    Steady m scope (fold >>= fun
      | some v => Pure.pure v
      | none => instr) fun m v => m.Avail scope v := by
  refine .bind ?_
  intro o m₁ hm ho
  cases o with
  | none => exact hinstr m₁ hm
  | some v =>
      have := ho v rfl
      exact .pure fun _ => inferInstance

section

variable {lhs rhs v ptr : ValueId} [m.Avail scope lhs] [m.Avail scope rhs] [m.Avail scope v]
  [m.Avail scope ptr]

instance (op : BinOp) : Steady m scope (binary op lhs rhs) fun m v => m.Avail scope v := by
  refine Steady.folded fun m₁ _ => ?_
  refine .bind fun _ _ _ _ => .bind fun _ _ _ _ => ?_
  dsimp only
  split
  · refine .bind fun _ _ _ _ => ?_
    exact Steady.instr (inferInstanceAs (AllAvail _ scope [lhs, rhs]))
  · exact Steady.instr (inferInstanceAs (AllAvail _ scope [lhs, rhs]))

instance (pred : IntPredicate) :
    Steady m scope (icmp pred lhs rhs) fun m v => m.Avail scope v := by
  refine Steady.folded fun m₁ _ => ?_
  refine .bind fun _ _ _ _ => ?_
  exact Steady.instr (inferInstanceAs (AllAvail _ scope [lhs, rhs]))

instance (pred : FloatPredicate) :
    Steady m scope (fcmp pred lhs rhs) fun m v => m.Avail scope v := by
  refine Steady.folded fun m₁ _ => ?_
  refine .bind fun _ _ _ _ => ?_
  exact Steady.instr (inferInstanceAs (AllAvail _ scope [lhs, rhs]))

instance (op : CastOp) (dest : TypeId) :
    Steady m scope (cast op v dest) fun m v => m.Avail scope v := by
  unfold cast
  refine .bind fun _ _ _ _ => ?_
  split
  · exact .pure fun _ => inferInstance
  · refine Steady.folded fun m₁ _ => ?_
    exact Steady.instr (inferInstanceAs (AllAvail _ scope [v]))

instance (ty : TypeId) : Steady m scope (alloca ty) fun m v => m.Avail scope v := by
  unfold alloca
  refine .bind fun _ _ _ _ => ?_
  exact Steady.instr (inferInstanceAs (AllAvail _ scope []))

instance : Steady m scope (load ptr) fun m v => m.Avail scope v := by
  unfold load
  refine .bind fun _ _ _ _ => ?_
  split
  · exact Steady.instr (inferInstanceAs (AllAvail _ scope [ptr]))
  · refine .bind fun _ _ _ _ => .bind fun _ _ _ _ => ?_
    exact Keeps.imp inferInstance fun _ hv => inferInstance

instance : Steady m scope (store v ptr) fun _ _ => True := by
  unfold store
  refine .bind fun _ _ _ _ => ?_
  split
  · infer_instance
  · refine .bind fun _ _ _ _ => ?_
    split
    · refine .bind fun ty m₁ _ _ => ?_
      exact .seq (Steady.instr (inferInstanceAs (AllAvail _ scope [v, ptr]))) fun _ _ _ _ =>
        .pure fun _ => trivial
    · infer_instance

instance (index : Nat) : Steady m scope (structGep ptr index) fun m v => m.Avail scope v := by
  have hfield (m₁ : Module) [m₁.Avail scope ptr] (field : Option TypeId) : Steady m₁ scope
      (match field with
        | some ty => do pushInstr (← pointerType ty) (.structGep ptr index)
        | none => do
          codegenError
          return ptr) fun m v => m.Avail scope v := by
    cases field with
    | some ty =>
        exact .bind fun _ _ _ _ => Steady.instr (inferInstanceAs (AllAvail _ scope [ptr]))
    | none => exact .bind fun _ _ _ _ => .pure fun _ => inferInstance
  unfold structGep
  refine .bind fun _ _ _ _ => ?_
  dsimp only
  split
  · refine .bind fun _ _ _ _ => ?_
    split
    · exact .bind fun field m₁ _ _ => hfield m₁ field
    · exact .bind fun field m₁ _ _ => hfield m₁ field
  · exact .bind fun field m₁ _ _ => hfield m₁ field

instance : Steady m scope (gep lhs rhs) fun m v => m.Avail scope v := by
  unfold gep
  refine .bind fun _ _ _ _ => .bind fun _ _ _ _ => ?_
  split
  · exact Steady.instr (inferInstanceAs (AllAvail _ scope [lhs, rhs]))
  · exact .bind fun _ _ _ _ => .pure fun _ => inferInstance

instance (index : Nat) : Steady m scope (extractValue v index) fun m v => m.Avail scope v := by
  unfold extractValue
  refine .bind fun _ _ _ _ => .bind fun _ _ _ _ => ?_
  split
  · split
    · exact Steady.instr (inferInstanceAs (AllAvail _ scope [v]))
    · exact .bind fun _ _ _ _ => .pure fun _ => inferInstance
  · exact .bind fun _ _ _ _ => .pure fun _ => inferInstance

instance (ty : TypeId) (incoming : List (ValueId × BlockId))
    [m.AllAvail scope (incoming.map Prod.fst)] :
    Steady m scope (phi ty incoming) fun m v => m.Avail scope v := by
  unfold phi
  exact Steady.instr (inferInstanceAs (AllAvail _ scope (incoming.map Prod.fst)))

instance : Steady m scope (typeIdFor v) fun m v => m.Avail scope v := by
  unfold typeIdFor
  refine .bind fun _ _ _ _ => ?_
  exact Steady.instr (inferInstanceAs (AllAvail _ scope [v]))

instance (text : String) : Steady m scope (inlineAsm text) fun _ _ => True := by
  unfold inlineAsm
  refine .bind fun _ _ _ _ => ?_
  exact .seq (Steady.instr (inferInstanceAs (AllAvail _ scope []))) fun _ _ _ _ => .pure fun _ => trivial

instance (f : FunctionId) (args : List ValueId) : Quiet m (callResultType f args) fun _ _ => True := by
  unfold callResultType
  refine .bind fun _ _ _ _ => .bind fun _ _ _ _ => ?_
  split
  · infer_instance
  · exact .ite (.bind fun _ _ _ _ => .pure fun _ => trivial) (.pure fun _ => trivial)

instance (f : FunctionId) (args : List ValueId) [m.AllAvail scope args] :
    Steady m scope (call f args) (OnSome fun m v => m.Avail scope v) := by
  unfold call
  refine .bind fun _ _ _ _ => ?_
  refine .seq (Steady.instr (inferInstanceAs (AllAvail _ scope args))) ?_
  intro v m₁ _ hv
  refine .bind fun _ _ _ _ => ?_
  refine .pure fun _ w hw => ?_
  split at hw
  · cases hw
  · cases hw
    infer_instance

instance (clauses : List ValueId) (catchAll : Bool) [m.AllAvail scope clauses] :
    Steady m scope (landingPad clauses catchAll) fun m v => m.Avail scope v := by
  unfold landingPad
  refine .bind fun _ _ _ _ => .bind fun _ _ _ _ => .bind fun _ _ _ _ => .bind fun _ _ _ _ => ?_
  exact Steady.instr (inferInstanceAs (AllAvail _ scope clauses))

end

instance [hx : Quiet m x G] : Leads m (Open p blocks) x (fun _ => Open p blocks) G where
  run h hm hopen := hx.run h hm hopen

instance [hx : Quiet m x G] : Leads m (Resting blocks) x (fun _ => Resting blocks) G where
  run h hm hrest := by
    obtain ⟨p, hopen⟩ := hrest
    obtain ⟨hm', hopen', ha⟩ := hx.run h hm hopen
    exact ⟨hm', ⟨p, hopen'⟩, ha⟩

instance [hx : Steady m (some f) x G] :
    Leads m (Writing f blocks) x (fun _ => Writing f blocks) G where
  run h hm hwriting := by
    obtain ⟨b, hfresh, hb, hopen⟩ := hwriting
    obtain ⟨hm', hopen', ha⟩ := hx.run h hm (.inside List.mem_cons_self hb) hopen
    exact ⟨hm', ⟨b, hfresh, inferInstance, hopen'⟩, ha⟩

/-- A request to a block that is open and current. -/
theorem Steady.leads_open (hx : Steady m (some f) x G) [m.HasBlock f b] (hmem : b ∈ blocks) :
    Leads m (Open (some b) blocks) x (fun _ => Open (some b) blocks) G where
  run h hm hopen := hx.run h hm (.inside hmem inferInstance) hopen

/-! ### Blocks -/

/-- A new block is open and has not been open before. -/
instance (name : String) : Leads m (Open p blocks) (appendBlock f name)
    (fun b => Open p (b :: blocks)) fun m b => b ∉ blocks ∧ m.HasBlock f b where
  run {m₁ b m₂} h hm hopen := by
    unfold appendBlock at h
    obtain ⟨d, m', hask, hrest⟩ := bind_eq_ok_iff.1 h
    obtain ⟨hd, rfl⟩ := ask_eq_ok_iff.1 hask
    cases hrest
    exact ⟨(grows_withBlock m' f name).extends, hopen.withBlock hd name, hopen.nextBlock_notMem,
      hasBlock_withBlock m' f name⟩

instance (name : String) : Leads m (Writing f blocks) (appendBlock g name)
    (fun b => Writing f (b :: blocks)) fun m b => b ∉ blocks ∧ m.HasBlock g b where
  run {m₁ b m₂} h hm hwriting := by
    obtain ⟨c, hc, hblock, hopen⟩ := hwriting
    obtain ⟨hm', hopen', hb, hblock'⟩ := Leads.run h hm hopen
    refine ⟨hm', ⟨c, ?_, inferInstance, hopen'.of_mem_iff ?_⟩, ?_, hblock'⟩
    · grind
    · grind
    · grind

instance (name : String) : Leads m (Resting blocks) (appendBlock g name)
    (fun b => Resting (b :: blocks)) fun m b => b ∉ blocks ∧ m.HasBlock g b where
  run h hm hrest := by
    obtain ⟨p, hopen⟩ := hrest
    obtain ⟨hm', hopen', hb⟩ := Leads.run h hm hopen
    exact ⟨hm', ⟨p, hopen'⟩, hb⟩

theorem positionAtEnd_leads [m.HasBlock f b]
    (hmem : ∀ c, c ∈ blocks ↔ c = b ∨ c ∈ blocks') (hb : b ∉ blocks') :
    Leads m (Resting blocks) (positionAtEnd b) (fun _ => Writing f blocks') fun _ _ => True where
  run {m₁ _ m₂} h hm hrest := by
    obtain ⟨p, hopen⟩ := hrest
    cases h
    have hblock : m₁.HasBlock f b := inferInstance
    refine ⟨(grows_withPosition m₁ (some b)).extends, ⟨b, hb, ⟨hblock.block⟩, ?_⟩, trivial⟩
    refine (hopen.withPosition (some b)).of_mem_iff fun c => ?_
    rw [hmem, List.mem_cons]

/-- Another block is taken up, and what follows is written there. -/
theorem takeUp {k : Unit → Build α} {Q : α → Module → Prop} {H : Module → α → Prop}
    (f : FunctionId) [m.HasBlock f b] (blocks' : List BlockId)
    (hmem : ∀ c, c ∈ blocks ↔ c = b ∨ c ∈ blocks') (hb : b ∉ blocks')
    (hk : ∀ m₁, m.Extends m₁ → Leads m₁ (Writing f blocks') (k ()) Q H) :
    Leads m (Resting blocks) (positionAtEnd b >>= k) Q H :=
  .seq (positionAtEnd_leads hmem hb) fun _ m₁ hm _ => hk m₁ hm

instance : Leads m (Open p blocks) (positionAtEnd b) (fun _ => Open (some b) blocks)
    fun _ _ => True where
  run {m₁ _ m₂} h hm hopen := by
    cases h
    exact ⟨(grows_withPosition m₁ (some b)).extends, hopen.withPosition (some b), trivial⟩

instance : Leads m (Resting blocks) (positionAtEnd b) (fun _ => Open (some b) blocks)
    fun _ _ => True where
  run {m₁ _ m₂} h hm hrest := by
    obtain ⟨p, hopen⟩ := hrest
    cases h
    exact ⟨(grows_withPosition m₁ (some b)).extends, hopen.withPosition (some b), trivial⟩

/-- Code that has come to rest goes on where a position kept from before says. -/
instance : Leads m (Resting blocks) (restorePosition p) (fun _ => Open p blocks)
    fun _ _ => True where
  run {m₁ _ m₂} h hm hrest := by
    obtain ⟨q, hopen⟩ := hrest
    cases h
    exact ⟨(grows_withPosition m₁ p).extends, hopen.withPosition p, trivial⟩

/-! ### Terminators -/

/-- The current block ends in a way that stays inside the function. -/
theorem setTerminator_leads {t : Terminator} (hsuccessors : ∀ c ∈ t.successors, m.HasBlock f c)
    (huses : m.AllAvail (some f) t.operands) :
    Leads m (Writing f blocks) (setTerminator t) (fun _ => Resting blocks) fun m _ =>
      ∀ v, t.result? = some v → m.Avail (some f) v where
  run {m₁ _ m₂} h hm hwriting := by
    obtain ⟨b, hfresh, hblock, hopen⟩ := hwriting
    obtain ⟨d, hd, hnone⟩ := hopen.isOpen.2 List.mem_cons_self
    obtain ⟨d', hd', hfunction⟩ := hblock.block
    obtain rfl : d = d' := Except.ok.inj (hd.symm.trans hd')
    have hfalse : m₁.currentBlockTerminated = .ok false :=
      currentBlockTerminated_eq_false_iff.2 ⟨b, hopen.position, d, hd, hnone⟩
    unfold setTerminator at h
    rw [bind_of_ok (ask_of_ok hfalse)] at h
    simp only [Bool.false_eq_true, if_false] at h
    rw [bind_of_ok (get_apply m₁), hopen.position] at h
    cases h
    refine ⟨extends_withTerminator hd hnone t, ⟨_, hopen.withTerminator hd hfresh ?_ ?_⟩, ?_⟩
    · intro c hc
      have := hsuccessors c hc
      rw [hfunction]
      infer_instance
    · intro v hv
      rw [hfunction]
      exact ((huses.all v hv).usable rfl).mono hm
    · intro v hv
      refine ⟨fun hf => ?_⟩
      cases hf
      refine .inr (.inr ⟨b, _, block_modify hd b, ?_⟩)
      rw [if_pos rfl]
      exact ⟨hfunction, .inr ⟨t, rfl, hv⟩⟩

section

variable {cond v : ValueId} {target thenTo elseTo : BlockId} [m.Avail (some f) cond]
  [m.Avail (some f) v] [m.HasBlock f target] [m.HasBlock f thenTo] [m.HasBlock f elseTo]

instance : Leads m (Writing f blocks) (br target) (fun _ => Resting blocks) fun _ _ => True := by
  unfold br
  refine (setTerminator_leads (f := f) ?_ (inferInstanceAs (AllAvail _ _ []))).imp id id
    fun _ _ => trivial
  intro c hc
  obtain rfl := List.mem_singleton.1 hc
  infer_instance

instance : Leads m (Writing f blocks) (condBr cond thenTo elseTo) (fun _ => Resting blocks)
    fun _ _ => True := by
  unfold condBr
  refine .bind fun _ _ _ _ => .bind fun _ _ _ _ => ?_
  split
  · refine (setTerminator_leads (f := f) ?_ (inferInstanceAs (AllAvail _ _ [cond]))).imp id id
      fun _ _ => trivial
    intro c hc
    rcases List.mem_cons.1 hc with rfl | hc
    · infer_instance
    · obtain rfl := List.mem_singleton.1 hc
      infer_instance
  · refine .bind fun _ _ _ _ => ?_
    exact inferInstanceAs (Leads _ (Writing f blocks) (br elseTo) _ _)

instance : Leads m (Writing f blocks) (ret none) (fun _ => Resting blocks) fun _ _ => True := by
  unfold ret
  exact (setTerminator_leads (f := f) (fun c hc => absurd hc List.not_mem_nil)
    (inferInstanceAs (AllAvail _ _ []))).imp id id fun _ _ => trivial

instance : Leads m (Writing f blocks) (ret (some v)) (fun _ => Resting blocks) fun _ _ => True := by
  unfold ret
  exact (setTerminator_leads (f := f) (fun c hc => absurd hc List.not_mem_nil)
    (inferInstanceAs (AllAvail _ _ [v]))).imp id id fun _ _ => trivial

instance : Leads m (Writing f blocks) (resume v) (fun _ => Resting blocks) fun _ _ => True := by
  unfold resume
  exact (setTerminator_leads (f := f) (fun c hc => absurd hc List.not_mem_nil)
    (inferInstanceAs (AllAvail _ _ [v]))).imp id id fun _ _ => trivial

instance : Leads m (Writing f blocks) unreachable (fun _ => Resting blocks) fun _ _ => True := by
  unfold unreachable
  exact (setTerminator_leads (f := f) (fun c hc => absurd hc List.not_mem_nil)
    (inferInstanceAs (AllAvail _ _ []))).imp id id fun _ _ => trivial

/-- What a call that ends the block hands on is available in the function. -/
instance (callee : FunctionId) (args : List ValueId) [m.AllAvail (some f) args] :
    Leads m (Writing f blocks) (invoke callee args thenTo elseTo) (fun _ => Resting blocks)
      (OnSome fun m v => m.Avail (some f) v) := by
  have hinvoke (m₁ : Module) (result : Option ValueId) [m₁.HasBlock f thenTo]
      [m₁.HasBlock f elseTo] [m₁.AllAvail (some f) args] : Leads m₁ (Writing f blocks)
      (do
        setTerminator (.invoke callee args thenTo elseTo result)
        return result) (fun _ => Resting blocks) (OnSome fun m v => m.Avail (some f) v) := by
    refine .seq (setTerminator_leads (f := f) ?_ (inferInstanceAs (AllAvail _ _ args))) ?_
    · intro c hc
      rcases List.mem_cons.1 hc with rfl | hc
      · infer_instance
      · obtain rfl := List.mem_singleton.1 hc
        infer_instance
    · intro _ m₂ _ hresult
      refine .pure id fun _ v hv => ?_
      have := hresult v hv
      infer_instance
  unfold invoke
  refine .bind fun _ _ _ _ => .bind fun _ _ _ _ => ?_
  dsimp only
  split
  · exact .bind fun result m₁ _ _ => hinvoke m₁ result
  · refine .bind fun _ _ _ _ => ?_
    exact .bind fun result m₁ _ _ => hinvoke m₁ result

end

end Build

end SsaCompiler
