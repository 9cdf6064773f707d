/-
# Operands and calls go straight on

Lowering of the parts of a node keeps the state sound. Under this assumption, reading a place,
converting a value and calling a function write code that only uses what is available in the
current function, and their answers are available. A call inside a `try` ends the current block.
-/

import SsaCompiler.Proofs.ControlFlow.Lowering

namespace SsaCompiler

open Lower

variable {α : Type} {m : Module} {scope : Option FunctionId}

/-- Lowering of parts that keeps the state sound. -/
class Recur.Sound (r : Recur) : Prop where
  operand : ∀ (m : Module) (scope : Option FunctionId) (node : Node) [Linked (some node)],
    Straight m scope (r.operand node) (OnSome fun m op => m.Avail scope op.value)
  condition : ∀ (m : Module) (f : FunctionState) (blocks : List BlockId) (cond : Option Node)
    (thenTo elseTo : BlockId) [Linked cond] [Reserved f blocks] [m.HasBlock f.id thenTo]
    [m.HasBlock f.id elseTo], Leads m (Busy f blocks) (r.condition cond thenTo elseTo)
      (fun _ => Idle f blocks) fun _ _ => True
  instantiate : ∀ (m : Module) (name : Name) (args : List TypeId) (span : Span),
    Quiet m (r.instantiate name args span) (OnSome fun _ _ => True)

attribute [instance] Recur.Sound.operand Recur.Sound.condition Recur.Sound.instantiate

variable {r : Recur} [r.Sound]

/-! ### Parts -/

instance (c : Option Node) [Linked c] :
    Straight m scope (r.child c) (OnSome fun m op => m.Avail scope op.value) := by
  unfold Recur.child
  cases c with
  | none => exact .pure fun _ a ha => by cases ha
  | some node => infer_instance

instance (c : Option Node) [Linked c] : Straight m scope (r.statement c) fun _ _ => True := by
  unfold Recur.statement
  exact .bind fun _ _ _ _ => .pure fun _ => trivial

instance (c : Option Node) [Linked c] :
    Straight m scope (r.required c).run (OnSome fun m op => m.Avail scope op.value) := by
  unfold Recur.required
  refine .andThen fun _ _ _ _ => ?_
  refine .andThen ?_
  intro o m₁ _ ho
  cases o with
  | some op =>
      have := ho op rfl
      exact .some fun _ => inferInstance
  | none =>
      refine .andThen fun _ _ _ _ => .andThen fun _ _ _ _ => ?_
      dsimp only
      split <;> exact .refuse inferInstance

/-! ### Places -/

instance (ty : TypeId) : Build.Quiet m (pointee? ty) fun _ _ => True := by
  unfold pointee?
  exact .bind fun _ _ _ _ => .pure fun _ => trivial

instance : Build.Quiet m bytePointer fun _ _ => True := by
  unfold bytePointer
  exact .bind fun _ _ _ _ => inferInstance

instance (value : Int64) : Build.Quiet m (constLong value) fun m v => m.Known v := by
  unfold constLong
  exact .bind fun _ _ _ _ => inferInstance

instance (value : Int64) : Build.Quiet m (constWord value) fun m v => m.Known v := by
  unfold constWord
  exact .bind fun _ _ _ _ => inferInstance

instance (ty : TypeId) : Build.Quiet m (allocationSize ty) fun _ _ => True := by
  unfold allocationSize
  exact .bind fun _ _ _ _ => .pure fun _ => trivial

instance (op : Operand) : Build.Quiet m op.ty fun _ _ => True := by
  unfold Operand.ty
  refine .bind fun _ _ _ _ => ?_
  split
  · exact .bind fun _ _ _ _ => .pure fun _ => trivial
  · exact .pure fun _ => trivial

section

variable (op : Operand) [m.Avail scope op.value]

instance : Straight m scope op.load fun m v => m.Avail scope v := by
  unfold Operand.load
  split
  · refine .bind fun _ _ _ _ => ?_
    split
    · infer_instance
    · refine .bind fun _ _ _ _ => .bind fun _ _ _ _ => .bind fun _ _ _ _ => ?_
      exact Keeps.imp inferInstance fun _ hv => inferInstance
  · exact .pure fun _ => inferInstance

instance : Straight m scope op.address fun m v => m.Avail scope v := by
  unfold Operand.address
  split
  · exact .pure fun _ => inferInstance
  · refine .bind fun _ _ _ _ => .bind ?_
    intro slot m₁ _ hslot
    refine .bind fun _ _ _ _ => ?_
    exact .pure fun _ => inferInstance

end

instance (c : Option Node) [Linked c] :
    Straight m scope (r.value c).run (OnSome fun m v => m.Avail scope v) := by
  unfold Recur.value
  refine .andThen ?_
  intro op m₁ _ hop
  infer_instance

/-! ### Conversions -/

instance (value : ValueId) : Build.Quiet m (isNullConstant value) fun _ _ => True := by
  unfold isNullConstant
  exact .bind fun _ _ _ _ => .bind fun _ _ _ _ => .bind fun _ _ _ _ => .bind fun _ _ _ _ =>
    .pure fun _ => trivial

instance (value : ValueId) (source target : IrType) :
    Build.Quiet m (isImplicit value source target) fun _ _ => True := by
  unfold isImplicit
  refine .ite (.pure fun _ => trivial) (.bind fun _ _ _ _ => ?_)
  refine .ite (.pure fun _ => trivial) (.bind fun _ _ _ _ => ?_)
  exact .ite (.pure fun _ => trivial) (.pure fun _ => trivial)

/-- A request whose answer is handed on. -/
theorem Build.Steady.someAvail {x : Build ValueId} [Build.Steady m scope x fun m v => m.Avail scope v] :
    Build.Steady m scope (do return some (← x)) (OnSome fun m v => m.Avail scope v) := by
  refine .bind ?_
  intro v m₁ _ hv
  refine .pure fun hm w hw => ?_
  cases hw
  infer_instance

instance (value : ValueId) (dest : TypeId) [m.Avail scope value] :
    Build.Steady m scope (convert value dest) (OnSome fun m v => m.Avail scope v) := by
  unfold convert
  refine .bind fun _ _ _ _ => ?_
  split
  · refine .pure fun _ w hw => ?_
    cases hw
    infer_instance
  · refine .bind fun _ _ _ _ => .bind fun _ _ _ _ => ?_
    split
    · refine .bind ?_
      intro zero m₁ _ hzero
      exact Build.Steady.someAvail
    · exact Build.Steady.someAvail
    · exact Build.Steady.someAvail
    · refine .bind fun _ _ _ _ => .bind ?_
      intro wide m₁ _ hwide
      exact Build.Steady.someAvail
    · exact Build.Steady.someAvail
    · refine .bind ?_
      intro zero m₁ _ hzero
      exact Build.Steady.someAvail
    · exact Build.Steady.someAvail
    · exact Build.Steady.someAvail
    · refine .bind fun _ _ _ _ => .bind ?_
      intro address m₁ _ haddress
      refine .bind ?_
      intro zero m₂ _ hzero
      exact Build.Steady.someAvail
    · exact Build.Steady.someAvail
    · exact Build.Steady.someAvail
    · exact Build.Steady.someAvail
    · exact .pure fun _ w hw => by cases hw

instance (value : ValueId) (dest : TypeId) (span : Span) [m.Avail scope value] :
    Straight m scope (coerce value dest span).run (OnSome fun m v => m.Avail scope v) := by
  unfold coerce
  refine .andThen fun _ _ _ _ => ?_
  split
  · exact .some fun _ => inferInstance
  · refine .andThen fun _ _ _ _ => .andThen fun _ _ _ _ => .andThen fun _ _ _ _ => ?_
    dsimp only
    split
    · refine .andThen ?_
      intro o m₁ _ ho
      cases o with
      | none => exact .refuse inferInstance
      | some v =>
          have := ho v rfl
          exact .some fun _ => inferInstance
    · exact .refuse inferInstance

instance (value : ValueId) (span : Span) [m.Avail scope value] :
    Straight m scope (toBool value span).run (OnSome fun m v => m.Avail scope v) := by
  have hconvert (m₁ : Module) (truth : TypeId) [m₁.Avail scope value] :
      Straight m₁ scope (do
        match ← (convert value truth : Build (Option ValueId)) with
        | some t => return t
        | none => failure : Attempt ValueId).run (OnSome fun m v => m.Avail scope v) := by
    refine .andThen ?_
    intro o m₂ _ ho
    cases o with
    | none => exact .refuse inferInstance
    | some t =>
        have := ho t rfl
        exact .some fun _ => inferInstance
  unfold Lower.toBool
  refine .andThen fun _ _ _ _ => .andThen fun truth m₁ _ _ => .andThen fun _ m₂ _ _ => ?_
  split
  · exact hconvert m₂ truth
  · exact hconvert m₂ truth
  · exact hconvert m₂ truth
  · exact .refuse inferInstance

/-! ### Calls -/

/-- A call inside a `try` ends the current block and goes on in a new one. -/
instance (f : FunctionId) (args : List ValueId) [m.AllAvail scope args] :
    Straight m scope (emitCall f args) (OnSome fun m v => m.Avail scope v) := by
  unfold emitCall
  refine .bind fun _ _ _ _ => .bind ?_
  intro s m₁ _ hs
  cases htries : s.pass.tries with
  | nil => infer_instance
  | cons frame _ =>
      obtain ⟨g, rfl, hlanding, -⟩ := hs.pass.tries frame (htries ▸ List.mem_cons_self)
      refine .ite (Straight.of_leads ?_) inferInstance
      rintro fs blocks rfl hreserved
      refine .bind ?_
      rintro normal m₂ _ ⟨hfresh, hnormal⟩
      refine .bind ?_
      intro result m₃ _ hresult
      refine .seq (takeUp_leads (fun c => List.mem_cons) hfresh) fun _ m₄ _ _ => ?_
      refine .pure id fun _ v hv => ?_
      have := hresult v hv
      infer_instance

instance (f : SupportFunction) : Build.Quiet m f.signature fun _ _ => True := by
  unfold SupportFunction.signature
  refine .bind fun _ _ _ _ => .bind fun _ _ _ _ => .bind fun _ _ _ _ => .bind fun _ _ _ _ =>
    .bind fun _ _ _ _ => .bind fun _ _ _ _ => ?_
  cases f <;> infer_instance

instance (t : SupportTable) (f : SupportFunction) : Build.Quiet m (t.get f) fun _ _ => True := by
  unfold SupportTable.get
  split
  · exact .pure fun _ => trivial
  · exact .bind fun _ _ _ _ => .bind fun _ _ _ _ => .pure fun _ => trivial

instance (f : SupportFunction) : Quiet m (support f) fun _ _ => True := by
  have (m : Module) (table : SupportTable) :
      Quiet m (modifyContext fun c => { c with support := table }) fun _ _ => True :=
    .modifyContext (fun _ h => ⟨h.descriptors, h.templates⟩) fun _ => rfl
  unfold support
  exact .bind fun _ _ _ _ => .bind fun _ _ _ _ => .bind fun _ _ _ _ => .pure fun _ => trivial

instance (f : SupportFunction) (args : List ValueId) [m.AllAvail scope args] :
    Straight m scope (callSupport f args) (OnSome fun m v => m.Avail scope v) := by
  unfold callSupport
  exact .bind fun _ _ _ _ => inferInstance

/-! ### Arguments -/

/-- Operands that are available. -/
class Module.AvailOperands (m : Module) (scope : Option FunctionId) (ops : List Operand) : Prop where
  all : ∀ op ∈ ops, m.Avail scope op.value

instance : m.AvailOperands scope [] where
  all _ h := absurd h List.not_mem_nil

instance {op : Operand} {ops : List Operand} [hop : m.Avail scope op.value]
    [hops : m.AvailOperands scope ops] : m.AvailOperands scope (op :: ops) where
  all op' h := by
    rcases List.mem_cons.1 h with rfl | h
    · exact hop
    · exact hops.all op' h

instance (priority := low) {m' : Module} {ops : List Operand} [m.Extends m']
    [hops : m.AvailOperands scope ops] : m'.AvailOperands scope ops where
  all op h := by
    have := hops.all op h
    infer_instance

/-- The first of several operands and the others. -/
theorem Module.AvailOperands.cons {op : Operand} {ops : List Operand}
    (h : m.AvailOperands scope (op :: ops)) :
    m.Avail scope op.value ∧ m.AvailOperands scope ops :=
  ⟨h.all op List.mem_cons_self, ⟨fun op' h' => h.all op' (List.mem_cons_of_mem _ h')⟩⟩

instance (arg : Operand) (param : ParamSig) (span : Span) [m.Avail scope arg.value] :
    Straight m scope (adaptArg arg param span).run (OnSome fun m v => m.Avail scope v) := by
  unfold adaptArg
  refine .andThen fun _ _ _ _ => .andThen fun _ _ _ _ => ?_
  split
  · split <;> infer_instance
  · split
    · infer_instance
    · split
      · refine .andThen ?_
        intro address m₁ _ haddress
        infer_instance
      · refine .andThen fun _ _ _ _ => ?_
        split
        · infer_instance
        · refine .andThen ?_
          intro value m₁ _ hvalue
          infer_instance

instance (args : List Operand) (params : List ParamSig) (span : Span)
    [hargs : m.AvailOperands scope args] :
    Straight m scope (adaptEach args params span).run (OnSome fun m vs => m.AllAvail scope vs) := by
  induction args generalizing m params with
  | nil =>
      unfold adaptEach
      exact .some fun _ => inferInstance
  | cons arg args ih =>
      cases params with
      | nil =>
          unfold adaptEach
          exact .some fun _ => inferInstance
      | cons param params =>
          obtain ⟨harg, hrest⟩ := hargs.cons
          unfold adaptEach
          refine .andThen ?_
          intro v m₁ _ hv
          refine .andThen ?_
          intro vs m₂ _ hvs
          exact .some fun _ => inferInstance

instance (args : List Operand) (params : List ParamSig) (span : Span)
    [m.AvailOperands scope args] :
    Straight m scope (adaptArgs args params span).run (OnSome fun m vs => m.AllAvail scope vs) := by
  unfold adaptArgs
  split
  · infer_instance
  · exact .refuse inferInstance

instance (callee : Callee) : Quiet m (calleeLabel callee) fun _ _ => True := by
  unfold calleeLabel
  split
  · exact .bind fun _ _ _ _ => .pure fun _ => trivial
  · exact .bind fun _ _ _ _ => .bind fun _ _ _ _ => .pure fun _ => trivial
  · exact .bind fun _ _ _ _ => .pure fun _ => trivial

instance (ops : List Operand) : Build.Quiet m (operandTypes ops) fun _ _ => True := by
  induction ops generalizing m with
  | nil =>
      unfold operandTypes
      exact .pure fun _ => trivial
  | cons op rest ih =>
      unfold operandTypes
      exact .bind fun _ _ _ _ => .bind fun _ _ _ _ => .pure fun _ => trivial

instance (callee : Callee) (args : List Operand) (span : Span) :
    Quiet m (resolve callee args span).run (OnSome fun _ _ => True) := by
  unfold resolve
  refine .andThen fun _ _ _ _ => .andThen fun _ _ _ _ => .andThen fun _ _ _ _ => ?_
  split
  · split
    · exact .some fun _ => trivial
    · exact .refuse inferInstance
  · exact .refuse inferInstance
  · exact .refuse inferInstance

instance {v : ValueId} [hv : m.Avail scope v] : m.Avail scope (Operand.ofValue v).value := hv

instance {v : ValueId} [hv : m.Avail scope v] : m.Avail scope (Operand.ofPlace v).value := hv

/-- The result of a call as an operand is available when the result is. -/
theorem OnSome.callResult {result : Option ValueId} {retRef : Bool}
    (h : OnSome (fun m v => m.Avail scope v) m result) :
    OnSome (fun m op => m.Avail scope op.value) m (callResult result retRef) := by
  intro op hop
  obtain ⟨v, hv, rfl⟩ := Option.map_eq_some_iff.1 hop
  exact h v hv

instance (callee : Callee) (receiver : List ValueId) (args : List Operand) (span : Span)
    [m.AllAvail scope receiver] [m.AvailOperands scope args] :
    Straight m scope (invokeResolved callee receiver args span).run
      (OnSome fun m o => OnSome (fun m op => m.Avail scope op.value) m o) := by
  unfold invokeResolved
  refine .andThen fun _ _ _ _ => .andThen ?_
  intro values m₁ _ hvalues
  refine .andThen ?_
  intro result m₂ _ hresult
  refine .andThen fun _ m₃ _ _ => .some fun _ => OnSome.callResult fun v hv => ?_
  have := hresult v hv
  infer_instance

instance (object : TypeId) (name : Name) : Quiet m (hasMethod object name) fun _ _ => True := by
  unfold hasMethod
  exact .bind fun _ _ _ _ => .pure fun _ => trivial

section

variable (this : ValueId) (object : TypeId) (args : List Operand) (span : Span)
  [m.Avail scope this] [m.AvailOperands scope args]

instance (name : Name) : Straight m scope (callMethod this object name args span).run
    (OnSome fun m op => m.Avail scope op.value) := by
  unfold callMethod
  refine .andThen fun _ _ _ _ => ?_
  split
  · exact .unwrapped
  · exact .refuse inferInstance

instance : Straight m scope (callConstructor this object args span).run
    (OnSome fun _ _ => True) := by
  unfold callConstructor
  exact .andThen fun _ _ _ _ => .some fun _ => trivial

end

/-- The address of an object is available when the object is. -/
instance (op : Operand) (span : Span) [m.Avail scope op.value] :
    Straight m scope (objectAddress op span).run (OnSome fun m a => m.Avail scope a.1) := by
  unfold objectAddress
  refine .andThen fun _ _ _ _ => .andThen fun _ _ _ _ => ?_
  split
  · refine .andThen ?_
    intro address m₁ _ haddress
    exact .some fun _ => inferInstance
  · dsimp only
    split
    · refine .andThen fun _ _ _ _ => ?_
      split
      · refine .andThen ?_
        intro address m₁ _ haddress
        exact .some fun _ => inferInstance
      · exact .refuse inferInstance
    · exact .refuse inferInstance

/-! ### Operators of the program -/

instance (key : OperatorKey) (span : Span) :
    Quiet m (findOperator key span).run (OnSome fun _ _ => True) := by
  unfold findOperator
  refine .andThen fun _ _ _ _ => ?_
  dsimp only
  split
  · exact .some fun _ => trivial
  · refine .andThen fun _ _ _ _ => ?_
    split
    · exact .some fun _ => trivial
    · exact .some fun _ => trivial
    · exact .refuse inferInstance

instance (index : Nat) (args : List Operand) (span : Span) [m.AvailOperands scope args] :
    Straight m scope (callOperator index args span).run
      (OnSome fun m op => m.Avail scope op.value) := by
  unfold callOperator
  refine .andThen fun _ _ _ _ => ?_
  split
  · exact .refuse inferInstance
  · refine .andThen ?_
    intro values m₁ _ hvalues
    refine .andThen ?_
    intro result m₂ _ hresult
    refine .andThen fun _ m₃ _ _ => ?_
    refine Keeps.imp inferInstance fun _ hop op hsome => ?_
    obtain ⟨v, hv, rfl⟩ := Option.map_eq_some_iff.1 (hop op hsome)
    have := hresult v hv
    infer_instance

/-- All arguments are lowered, and if there are answers for all of them they are available. -/
instance (cs : List (Option Node)) [hcs : AllLinked cs] : Straight m scope (r.arguments cs)
    (OnSome fun m ops => m.AvailOperands scope ops) := by
  induction cs generalizing m hcs with
  | nil =>
      unfold Recur.arguments
      refine .pure fun _ ops hops => ?_
      cases hops
      infer_instance
  | cons c rest ih =>
      obtain ⟨hc, hrest⟩ := hcs.cons
      unfold Recur.arguments
      refine .bind ?_
      intro first m₁ _ hfirst
      refine .bind ?_
      intro others m₂ _ hothers
      refine .pure fun _ ops hops => ?_
      obtain ⟨op, hop, rest, hrest, rfl⟩ : ∃ op, first = some op ∧ ∃ rest, others = some rest ∧
          op :: rest = ops := by
        simpa [Option.bind_eq_some_iff] using hops
      have := hfirst op hop
      have := hothers rest hrest
      infer_instance

end SsaCompiler
