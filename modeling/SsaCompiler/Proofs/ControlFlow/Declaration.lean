/-
# Functions are written on their own

Declaring a callable adds to the tables and to the functions of the module. Defining one writes
its body: a block that makes room for variables and a block where the body starts, of which the
first ends last. Inside, only globals are visible and no loop or `try` is around; afterwards the
place where code was being written, the variables, the loops and the tries are those from before.
So a callable may be defined in the middle of another one.
-/

import SsaCompiler.Proofs.ControlFlow.Exception

namespace SsaCompiler

open Lower

variable {α β : Type} {m : Module} {scope : Option FunctionId} {f : FunctionState}
  {blocks : List BlockId} {g : FunctionId} {r : Recur} [r.Sound]

/-! ### Signatures -/

instance (p : ParamSig) : Build.Quiet m (paramType p) fun _ _ => True := by
  unfold paramType
  exact .ite inferInstance (.pure fun _ => trivial)

instance (params : List ParamSig) : Build.Quiet m (paramTypes params) fun _ _ => True := by
  induction params generalizing m with
  | nil =>
      unfold paramTypes
      exact .pure fun _ => trivial
  | cons p rest ih =>
      unfold paramTypes
      exact .bind fun _ _ _ _ => .bind fun _ _ _ _ => .pure fun _ => trivial

instance (thisTy : Option TypeId) (sig : CallableSig) :
    Build.Quiet m (callableType thisTy sig) fun _ _ => True := by
  have hrest (m : Module) (receiver : List TypeId) : Build.Quiet m (do
      let params ← paramTypes sig.params
      let ret ← paramType ⟨sig.ret, sig.retRef⟩
      Build.functionType (receiver ++ params) ret false) fun _ _ => True :=
    .bind fun _ _ _ _ => .bind fun _ _ _ _ => inferInstance
  unfold callableType
  split
  · exact .bind fun _ _ _ _ => hrest _ _
  · exact hrest _ _

instance (base : String) (params : List ParamSig) : Quiet m (mangle base params) fun _ _ => True := by
  unfold mangle
  exact .bind fun _ _ _ _ => .bind fun _ _ _ _ => .pure fun _ => trivial

instance (ty : TypeExpr) (span : Span) :
    Quiet m (r.paramSig ty span).run (OnSome fun _ _ => True) := by
  unfold Recur.paramSig
  refine .andThen fun _ _ _ _ => .andThen fun _ _ _ _ => ?_
  dsimp only
  exact .either (.refuse inferInstance) (.some fun _ => trivial)

instance (span : Span) (fields : List Field) :
    Quiet m (r.paramSigs span fields) fun _ _ => True := by
  induction fields generalizing m with
  | nil =>
      unfold Recur.paramSigs
      exact .pure fun _ => trivial
  | cons field rest ih =>
      unfold Recur.paramSigs
      exact .bind fun _ _ _ _ => .bind fun _ _ _ _ => .pure fun _ => trivial

instance (params : List Field) (ret : TypeExpr) (span : Span) :
    Quiet m (r.signature params ret span).run (OnSome fun _ _ => True) := by
  unfold Recur.signature
  exact .andThen fun _ _ _ _ => .andThen fun _ _ _ _ => .andThen fun _ _ _ _ =>
    .some fun _ => trivial

/-! ### Declarations -/

instance (node : Nat) : Quiet m (markDeclared node) fun _ _ => True := by
  have (m : Module) : Quiet m (modifyPass fun p => { p with declared := node :: p.declared })
      fun _ _ => True :=
    .modifyPass (fun h => ⟨h.inScope, h.entry, h.loops, h.tries, h.pending⟩) fun _ => rfl
  unfold markDeclared
  refine .bind fun _ _ _ _ => ?_
  exact .ite (.pure fun _ => trivial) (.bind fun _ _ _ _ => .pure fun _ => trivial)

instance (node : Nat) (pending : PendingCallable) [hbody : Linked pending.body] :
    Quiet m (postpone node pending) fun _ _ => True :=
  .modifyPass (fun h => ⟨h.inScope, h.entry, h.loops, h.tries, h.pending.insert hbody⟩) fun _ => rfl

instance (node : Nat) (callee : Callee) (symbol : String) (sig : CallableSig)
    (thisTy : Option TypeId) (body : Option Node) (span : Span) [Linked body] :
    Quiet m (declareCallee node callee symbol sig thisTy body span) fun _ _ => True := by
  unfold declareCallee
  refine .bind fun _ _ _ _ => .bind fun _ _ _ _ => ?_
  refine Quiet.of_leads fun func bindings p blocks => .seq symbols_leads ?_
  rintro t m₁ _ rfl
  refine .seq (setSymbols_leads (callee.bindings_declare t _)) fun _ m₂ _ _ => ?_
  split
  · infer_instance
  · infer_instance
  · exact .bind fun _ _ _ _ => inferInstance
  · exact .pure id fun _ => trivial

instance (key : OperatorKey) (symbol : String) (sig : CallableSig) (span : Span) :
    Quiet m (enterOperator key symbol sig span).run (OnSome fun _ _ => True) := by
  have (m : Module) (table : OperatorTable) :
      Quiet m (modifyContext fun c => { c with operators := table }) fun _ _ => True :=
    .modifyContext (fun _ h => ⟨h.descriptors, h.templates⟩) fun _ => rfl
  unfold enterOperator
  refine .andThen fun _ _ _ _ => .andThen fun _ _ _ _ => .andThen fun _ _ _ _ => ?_
  split
  · exact .andThen fun _ _ _ _ => .some fun _ => trivial
  · exact .refuse inferInstance

section

variable (node : Nat) (span : Span)

instance (decl : FunctionDecl Node) [Linked decl.body] :
    Quiet m (r.declareFunction node decl span).run (OnSome fun _ _ => True) := by
  unfold Recur.declareFunction
  refine .andThen fun _ _ _ _ => ?_
  split
  · refine .andThen fun _ _ _ _ => .andThen fun _ _ _ _ => .andThen fun _ _ _ _ => ?_
    dsimp only
    split
    · exact .andThen fun _ _ _ _ => inferInstance
    · exact .andThen fun _ _ _ _ => inferInstance
  · exact .some fun _ => trivial

instance (object : TypeId) (decl : FunctionDecl Node) [Linked decl.body] :
    Quiet m (r.declareMethod node object decl span).run (OnSome fun _ _ => True) := by
  unfold Recur.declareMethod
  refine .andThen fun _ _ _ _ => ?_
  split
  · exact .andThen fun _ _ _ _ => .andThen fun _ _ _ _ => .andThen fun _ _ _ _ =>
      .andThen fun _ _ _ _ => inferInstance
  · exact .some fun _ => trivial

instance (object : TypeId) (decl : ConstructorDecl Node) [Linked decl.body] :
    Quiet m (r.declareConstructor node object decl span).run (OnSome fun _ _ => True) := by
  unfold Recur.declareConstructor
  refine .andThen fun _ _ _ _ => ?_
  split
  · exact .andThen fun _ _ _ _ => .andThen fun _ _ _ _ => .andThen fun _ _ _ _ => inferInstance
  · exact .some fun _ => trivial

instance (field : Option Field) :
    Quiet m (r.operandSig field span).run (OnSome fun _ _ => True) := by
  unfold Recur.operandSig
  split
  · exact .andThen fun _ _ _ _ => .some fun _ => trivial
  · exact .some fun _ => trivial

instance (decl : OperatorDecl Node) [Linked decl.body] :
    Quiet m (r.declareOperator node decl span).run (OnSome fun _ _ => True) := by
  unfold Recur.declareOperator
  refine .andThen fun _ _ _ _ => ?_
  split
  · refine .andThen fun _ _ _ _ => .andThen fun _ _ _ _ => .andThen fun _ _ _ _ =>
      .andThen fun _ _ _ _ => .andThen fun _ _ _ _ => ?_
    split
    · exact .refuse inferInstance
    · exact .andThen fun _ _ _ _ => .andThen fun _ _ _ _ => inferInstance
  · exact .some fun _ => trivial

end

instance (pending : PendingCallable) (throws : ThrowSet) :
    Quiet m (recordThrows pending throws) fun _ _ => True := by
  unfold recordThrows
  dsimp only
  split
  · refine .bind fun _ _ _ _ => ?_
    split
    · exact Quiet.modifySymbols fun t => Callee.bindings_modify _ t _
    · infer_instance
  · refine .bind fun _ _ _ _ => ?_
    split
    · exact Quiet.modifyContext (fun _ h => ⟨h.descriptors, h.templates⟩) fun _ => rfl
    · infer_instance

/-! ### Bodies -/

/-- Code is being written to the block that makes room for variables. -/
abbrev Lower.Opening (f : FunctionState) (blocks : List BlockId) : Lowering → Prop :=
  Lowering.Within (some f) (Module.Open (some f.allocaBlock) blocks)

instance {b : Build α} {G : Module → α → Prop} [hreserved : Reserved f blocks]
    [m.HasBlock f.id f.allocaBlock] [hb : Build.Steady m (some f.id) b G] :
    Leads m (Opening f blocks) (liftM b : Lower α) (fun _ => Opening f blocks) G :=
  have := hb.leads_open hreserved.mem
  inferInstance

section

variable [Reserved f blocks] [m.HasBlock f.id f.allocaBlock]

instance (name : Name) (storage : ValueId) (ty : TypeId) (isReference : Bool)
    [hstorage : m.Avail (some f.id) storage] :
    Leads m (Opening f blocks) (bindVariable name storage ty isReference)
      (fun _ => Opening f blocks) fun _ _ => True :=
  setVariable_leads name hstorage

instance (object : TypeId) :
    Leads m (Opening f blocks) (bindThis f.id object) (fun _ => Opening f blocks)
      fun _ _ => True := by
  unfold bindThis
  refine .bind ?_
  intro this m₁ _ hthis
  refine .bind fun _ _ _ _ => .bind ?_
  intro slot m₂ _ hslot
  exact .bind fun _ _ _ _ => .bind fun _ _ _ _ => inferInstance

instance (index : Nat) (params : List (Name × ParamSig)) :
    Leads m (Opening f blocks) (bindParams f.id index params) (fun _ => Opening f blocks)
      fun _ _ => True := by
  induction params generalizing m index with
  | nil =>
      unfold bindParams
      exact .pure id fun _ => trivial
  | cons first rest ih =>
      obtain ⟨name, p⟩ := first
      unfold bindParams
      refine .bind ?_
      intro value m₁ _ hvalue
      dsimp only
      split
      · exact .bind fun _ _ _ _ => ih (index + 1)
      · refine .bind ?_
        intro slot m₂ _ hslot
        exact .bind fun _ _ _ _ => .bind fun _ _ _ _ => ih (index + 1)

/-- What a callable receives is stored and bound in the block that makes room for variables. -/
theorem Lower.bindReceived_leads {pending : PendingCallable} (hf : pending.function = f.id) :
    Leads m (Opening f blocks) (bindReceived pending) (fun _ => Opening f blocks)
      fun _ _ => True := by
  unfold bindReceived
  rw [hf]
  split
  · exact .bind fun _ _ _ _ => inferInstance
  · infer_instance

end

/-- A global is known without running anything. -/
theorem Lower.known_of_isGlobalBinding {b : VarBinding} (h : isGlobalBinding m b = true) :
    m.Known b.storage := by
  unfold isGlobalBinding Module.isGlobal at h
  cases hv : m.value b.storage with
  | error e =>
      rw [hv] at h
      cases h
  | ok d =>
      rw [hv] at h
      obtain ⟨ty, origin⟩ := d
      cases origin with
      | global id => exact ⟨Module.isConstant_of_value hv⟩
      | const _ | function _ | param _ _ | instr _ | invokeResult => cases h

section

variable {func : Option FunctionState} {bindings : Table Name VarBinding} {p : Option BlockId}

/-- Inside the body of a function only globals are visible, and no loop and no `try` is
around. -/
theorem Lower.enter_leads {inner : SymbolTable} {k : Lower α} {Q : α → Lowering → Prop}
    {G : Module → α → Prop} [m.HasBlock f.id f.allocaBlock]
    (hinner : inner.bindings.All fun b => m.Known b.storage)
    (hk : Leads m (Idle f blocks) k Q G) :
    Leads m (Lowering.Holding func bindings (Module.Open p blocks)) (do
      modifySymbols fun _ => inner
      modifyPass fun p => { p with func := some f, loops := [], tries := [] }
      k) Q G where
  run {s a s'} h hm hs := by
    obtain ⟨⟨hfunc, hsound, hopen⟩, hbindings⟩ := hs
    obtain ⟨⟨⟩, s₁, hsymbols, h⟩ := bind_eq_ok_iff.1 h
    cases hsymbols
    obtain ⟨⟨⟩, s₂, hpass, h⟩ := bind_eq_ok_iff.1 h
    cases hpass
    have hm₁ : m.Extends s.module := hm
    have hentry : s.module.HasBlock f.id f.allocaBlock := inferInstance
    have hvariables : inner.bindings.All fun b => s.module.Avail (some f.id) b.storage :=
      hinner.imp fun _ => inferInstance
    have hresult := hk.run h hm ⟨rfl, ⟨⟨hsound.context.descriptors, hsound.context.templates⟩,
      hvariables, ⟨rfl, fun hf => by cases hf; exact hentry, fun _ ht => absurd ht List.not_mem_nil,
        fun _ ht => absurd ht List.not_mem_nil, hsound.pass.pending⟩⟩, p, hopen⟩
    exact hresult

/-- Behind the body of a function everything that it has hidden is put back. -/
theorem Lower.comeBack_leads {outer : Pass} (throws : ThrowSet) (hfunc : outer.func = func)
    (hpass : outer.Sound m (func.map (·.id)))
    (hbindings : bindings.All fun b => m.Avail (func.map (·.id)) b.storage) :
    Leads m (Idle f blocks) (do
      modifySymbols (·.exitFunction ⟨bindings⟩)
      modifyPass fun p => { p with
        func := outer.func, loops := outer.loops, tries := outer.tries }
      (Build.restorePosition p : Build Unit)
      return throws : Lower ThrowSet)
      (fun _ => Lowering.Holding func bindings (Module.Open p blocks)) fun _ _ => True where
  run {s a s'} h hm hs := by
    obtain ⟨-, hsound, q, hopen⟩ := hs
    cases h
    have hm₁ : m.Extends s.module := hm
    have hm₂ : s.module.Extends (s.module.withPosition p) :=
      (Module.grows_withPosition s.module p).extends
    have hcontext : s.context.Sound (s.module.withPosition p) := hsound.context.mono
    have hm₃ : m.Extends (s.module.withPosition p) := hm₁.trans hm₂
    have houter : outer.Sound (s.module.withPosition p) (func.map (·.id)) := hpass.mono
    have hvariables : bindings.All fun b =>
        (s.module.withPosition p).Avail (func.map (·.id)) b.storage :=
      hbindings.imp fun _ => inferInstance
    exact ⟨hm₂, ⟨⟨hfunc, ⟨⟨hcontext.descriptors, hcontext.templates⟩, hvariables,
      ⟨houter.inScope, houter.entry, houter.loops, houter.tries, hsound.pass.pending⟩⟩,
      hopen.withPosition p⟩, rfl⟩, trivial⟩

/-- The body of a function leaves the place, the variables, the loops and the tries from outside
alone, whatever it does to its own. -/
theorem Lower.inFunction_leads {blocks' : List BlockId} {body : Lower ThrowSet}
    [m.HasBlock f.id f.allocaBlock]
    (hbody : Leads m (Idle f blocks) body (fun _ => Idle f blocks') fun _ _ => True) :
    Leads m (Lowering.Holding func bindings (Module.Open p blocks)) (inFunction f body)
      (fun _ => Lowering.Holding func bindings (Module.Open p blocks')) fun _ _ => True := by
  unfold inFunction
  refine .seq get_leads ?_
  rintro s m₁ hm₁ ⟨⟨⟨hfunc, hsound, -⟩, hbindings⟩, rfl⟩
  refine .seq position_leads ?_
  rintro p m₂ hm₂ rfl
  refine .seq get_leads ?_
  rintro s₁ m₃ hm₃ ⟨-, rfl⟩
  refine .seq symbols_leads ?_
  rintro t m₄ hm₄ ht
  subst hbindings
  dsimp only [SymbolTable.enterFunction]
  refine enter_leads (Table.all_filter fun hkeep => ?_) ?_
  · have := known_of_isGlobalBinding hkeep
    infer_instance
  · have hm := (hm₂.trans hm₃).trans hm₄
    refine .seq (hbody.mono (hm₁.trans hm)) fun throws m₅ hm₅ _ => .bind fun _ m₆ hm₆ _ => ?_
    have hcomeBack (m₇ : Module) (hm₇ : m₆.Extends m₇) : Leads m₇ (Idle f blocks') _
        (fun _ => Lowering.Holding func s.context.symbols.bindings (Module.Open p blocks'))
        fun _ _ => True :=
      have : s.module.Extends m₇ := ((hm.trans hm₅).trans hm₆).trans hm₇
      comeBack_leads throws hfunc hsound.pass.mono
        (hsound.bindings.imp fun _ => inferInstance)
    rw [ht]
    split
    · exact .bind fun _ m₇ hm₇ _ => hcomeBack m₇ hm₇
    · exact hcomeBack m₆ (.refl _)

end

/-! ### Definitions -/

/-- What stands inside a function: the block that makes room for variables is written first and
ended last. -/
theorem Recur.inside_leads {pending : PendingCallable} {stmt : Node} {bodyBlock : BlockId}
    [Linked (some stmt)] [m.HasBlock f.id f.allocaBlock] [m.HasBlock f.id bodyBlock]
    (hf : pending.function = f.id) (halloca : f.allocaBlock ∉ blocks)
    (hbody : bodyBlock ∉ f.allocaBlock :: blocks) :
    Leads m (Idle f (bodyBlock :: f.allocaBlock :: blocks)) (do
      (Build.positionAtEnd f.allocaBlock : Build Unit)
      bindReceived pending
      (Build.positionAtEnd bodyBlock : Build Unit)
      pushThrowFrame
      r.statement (some stmt)
      let throws ← popThrowFrame
      unless ← (Build.ask Module.currentBlockTerminated : Build Bool) do
        (defaultReturn f : Build Unit)
      (Build.positionAtEnd f.allocaBlock : Build Unit)
      (Build.br bodyBlock : Build Unit)
      return throws) (fun _ => Idle f blocks) fun _ _ => True := by
  refine .bind fun _ m₁ _ _ => .seq (bindReceived_leads hf) fun _ m₂ _ _ => ?_
  refine .imp (.takeUp (f.allocaBlock :: blocks) (fun c => List.mem_cons) hbody fun m₃ _ => ?_)
    (fun hs => hs.imp fun hopen => ⟨_, hopen⟩) id fun _ h => h
  refine .bind fun _ _ _ _ => .bind fun _ _ _ _ => .bind fun _ _ _ _ => .seq .notEnded ?_
  rintro _ m₄ _ rfl
  refine .bind fun _ m₅ _ _ => ?_
  refine .takeUp blocks (fun c => List.mem_cons) halloca fun m₆ _ => ?_
  exact .bind fun _ _ _ _ => .pure id fun _ => trivial

/-- A body ends both of its blocks. -/
instance (pending : PendingCallable) (stmt : Node) [Linked (some stmt)] :
    Quiet m (r.body pending stmt) fun _ _ => True := by
  refine Quiet.of_leads fun func bindings p blocks => ?_
  unfold Recur.body
  refine .bind ?_
  rintro allocaBlock m₁ _ ⟨halloca, _⟩
  refine .bind ?_
  rintro bodyBlock m₂ _ ⟨hbody, _⟩
  exact inFunction_leads (Recur.inside_leads rfl halloca hbody)

instance (node : Nat) : Quiet m (r.define node) fun _ _ => True := by
  have hforget (m : Module) : Quiet m (modifyPass fun p =>
      { p with pending := p.pending.erase node }) fun _ _ => True :=
    .modifyPass (fun h => ⟨h.inScope, h.entry, h.loops, h.tries, h.pending.erase⟩) fun _ => rfl
  unfold Recur.define
  refine .bind ?_
  rintro s m₁ _ ⟨scope, hs⟩
  split
  · exact .pure fun _ => trivial
  · rename_i pending hpending
    have hbody := hs.pass.pending.get? hpending
    refine .bind fun _ _ _ _ => ?_
    split
    · exact .pure fun _ => trivial
    · rename_i stmt hstmt
      have : Linked (some stmt) := hstmt ▸ hbody
      exact .bind fun _ _ _ _ => inferInstance

instance (node : Nat) (decl : FunctionDecl Node) (span : Span) [Linked decl.body] :
    Quiet m (r.function node decl span) fun _ _ => True := by
  unfold Recur.function
  refine .bind fun _ _ _ _ => ?_
  split
  · infer_instance
  · exact .bind fun _ _ _ _ => inferInstance

instance (node : Nat) (decl : OperatorDecl Node) (span : Span) [Linked decl.body] :
    Quiet m (r.operator node decl span) fun _ _ => True := by
  unfold Recur.operator
  refine .bind fun _ _ _ _ => ?_
  split
  · infer_instance
  · exact .bind fun _ _ _ _ => inferInstance

/-! ### Objects -/

instance (ty : TypeId) (members : List (Name × TypeId)) :
    Quiet m (completeObject ty members) fun _ _ => True := by
  unfold completeObject
  refine .bind fun _ _ _ _ => .bind fun _ _ _ _ => ?_
  split
  · exact Quiet.modifySymbols fun t => t.bindings_modifyByType ty _
  · exact .bind fun _ _ _ _ => inferInstance

instance (owner : TypeId) (known : List (Name × TypeId)) (field : Field) (span : Span) :
    Quiet m (r.memberType owner known field span).run (OnSome fun _ _ => True) := by
  unfold Recur.memberType
  refine .andThen fun _ _ _ _ => .andThen fun _ _ _ _ => ?_
  exact .either (.refuse inferInstance) (.either (.refuse inferInstance) (.some fun _ => trivial))

instance (owner : TypeId) (span : Span) (known : List (Name × TypeId)) (fields : List Field) :
    Quiet m (r.memberTypes owner span known fields) fun _ _ => True := by
  induction fields generalizing m known with
  | nil =>
      unfold Recur.memberTypes
      exact .pure fun _ => trivial
  | cons field rest ih =>
      unfold Recur.memberTypes
      refine .bind fun _ _ _ _ => ?_
      split <;> exact ih _

instance (ty : TypeId) (members : List Field) (span : Span) :
    Quiet m (r.layout ty members span) fun _ _ => True := by
  unfold Recur.layout
  exact .bind fun _ _ _ _ => inferInstance

instance (object : TypeId) (node : Node) [hnode : Linked (some node)] :
    Quiet m (r.declareMember object node) fun _ _ => True := by
  have hchained := hnode.chained rfl
  unfold Recur.declareMember
  split
  · rename_i decl hkind
    have : Linked decl.body := (hchained.children hkind).cons.1
    exact .bind fun _ _ _ _ => .pure fun _ => trivial
  · rename_i decl hkind
    have : Linked decl.body := (hchained.children hkind).cons.1
    exact .bind fun _ _ _ _ => .pure fun _ => trivial
  · rename_i decl hkind
    have : Linked decl.body := (hchained.children hkind).cons.1
    exact .bind fun _ _ _ _ => .pure fun _ => trivial
  · infer_instance

instance (object : TypeId) (methods : List (Option Node)) [hmethods : AllLinked methods] :
    Quiet m (r.declareMembers object methods) fun _ _ => True := by
  induction methods generalizing m hmethods with
  | nil =>
      unfold Recur.declareMembers
      exact .pure fun _ => trivial
  | cons method rest ih =>
      obtain ⟨hmethod, hrest⟩ := hmethods.cons
      cases method with
      | none =>
          unfold Recur.declareMembers
          exact Keeps.imp inferInstance fun _ h => h.elim
      | some node =>
          unfold Recur.declareMembers
          exact .bind fun _ _ _ _ => ih

instance (methods : List (Option Node)) : Quiet m (r.defineMembers methods) fun _ _ => True := by
  induction methods generalizing m with
  | nil =>
      unfold Recur.defineMembers
      exact .pure fun _ => trivial
  | cons method rest ih =>
      unfold Recur.defineMembers
      refine .bind fun _ _ _ _ => .ite (.pure fun _ => trivial) ?_
      cases method with
      | none => exact ih
      | some node => exact .bind fun _ _ _ _ => ih

instance (node : Nat) (decl : ObjectDecl Node) (span : Span) [AllLinked decl.methods] :
    Quiet m (r.declareObject node decl span).run (OnSome fun _ _ => True) := by
  unfold Recur.declareObject
  refine .andThen fun _ _ _ _ => ?_
  split
  · refine .andThen fun _ _ _ _ => .andThen fun _ _ _ _ => ?_
    dsimp only
    exact .either (.refuse inferInstance) (.andThen fun _ _ _ _ => inferInstance)
  · exact .some fun _ => trivial

instance (node : Nat) (decl : ObjectDecl Node) (span : Span) [AllLinked decl.methods] :
    Quiet m (r.object node decl span) fun _ _ => True := by
  unfold Recur.object
  refine .bind fun _ _ _ _ => ?_
  split
  · infer_instance
  · exact .bind fun _ _ _ _ => inferInstance

end SsaCompiler
