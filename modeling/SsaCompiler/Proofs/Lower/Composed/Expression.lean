/-
# Expressions and statements are put together from the steps of lowering

One instance for each function that lowers expressions, statements and variables. Where a function
asks about the state, what follows must not depend on the reports; it never does, and that is true
by definition.
-/

import SsaCompiler.Proofs.Lower.Composed
import SsaCompiler.Proofs.Symbols.Resolution

namespace SsaCompiler

open Lower

-- One computation may consist of a good many steps.
set_option synthInstance.maxSize 4096

variable {α : Type} {P : Parts} [HasSteps P] {L : Leeway} {r : Recur}

section

variable [L.Writes]

/-! ### Places -/

instance (op : Operand) : Composed P L (Operand.load op) := by
  unfold Operand.load
  split
  · refine .bind fun _ => ?_
    split
    · infer_instance
    · exact .get (fun _ _ => rfl) fun _ => inferInstance
  · infer_instance

instance (op : Operand) : Composed P L (Operand.address op) := by
  unfold Operand.address
  infer_instance

instance (c : Option Node) [Composed P L (r.child c)] : Composed P L (r.value c).run := by
  unfold Recur.value
  infer_instance

/-! ### Conversions -/

instance (value : ValueId) (dest : TypeId) (span : Span) :
    Composed P L (coerce value dest span).run := by
  unfold coerce
  refine .andThen fun _ => ?_
  split
  · infer_instance
  · refine .andThen fun _ => .andThen fun _ => .andThen fun _ => ?_
    split
    · refine .andThen fun _ => ?_
      split <;> infer_instance
    · infer_instance

instance (value : ValueId) (span : Span) : Composed P L (toBool value span).run := by
  unfold Lower.toBool
  refine .andThen fun _ => .andThen fun _ => .andThen fun _ => ?_
  split
  · refine .andThen fun _ => ?_
    split <;> infer_instance
  · refine .andThen fun _ => ?_
    split <;> infer_instance
  · refine .andThen fun _ => ?_
    split <;> infer_instance
  · infer_instance

/-! ### Invocations -/

instance (f : FunctionId) (args : List ValueId) : Composed P L (emitCall f args) := by
  have (L : Leeway) [L.IsCode] (frame : TryFrame) [L.Targets frame.landing] : Composed P L (do
      let normal ← appendBlock "invoke.cont"
      let result ← Build.invoke f args normal frame.landing
      Build.positionAtEnd normal
      return result : Lower (Option ValueId)) := .fresh _ (by decide) fun _ => inferInstance
  unfold emitCall
  refine .get (fun _ _ => rfl) fun _ => .outer (fun _ _ => rfl) fun s => ?_
  split
  · rename_i frame _ htries
    have := Leeway.isCode_toward (L := L) htries
    have : (L.toward s.pass).Targets frame.landing :=
      Leeway.targets_toward (Pass.mem_aims_of_tries htries).1
    infer_instance
  · infer_instance

instance (f : SupportFunction) (args : List ValueId) : Composed P L (callSupport f args) := by
  unfold callSupport
  infer_instance

instance (arg : Operand) (param : ParamSig) (span : Span) :
    Composed P L (adaptArg arg param span).run := by
  unfold adaptArg
  infer_instance

instance (args : List Operand) (params : List ParamSig) (span : Span) :
    Composed P L (adaptEach args params span).run := by
  induction args generalizing params with
  | nil =>
      unfold adaptEach
      infer_instance
  | cons arg args ih =>
      cases params with
      | nil =>
          unfold adaptEach
          infer_instance
      | cons param params =>
          have := ih params
          unfold adaptEach
          infer_instance

instance (args : List Operand) (params : List ParamSig) (span : Span) :
    Composed P L (adaptArgs args params span).run := by
  unfold adaptArgs
  infer_instance

instance (x0 : Callee) : Composed P L (calleeLabel x0) := by
  unfold calleeLabel
  split <;> infer_instance

instance (callee : Callee) (args : List Operand) (span : Span) :
    Composed P L (resolve callee args span).run := by
  unfold resolve
  refine .andThen fun _ => .andThen fun _ => .andThen fun _ => ?_
  split
  · rename_i hfound
    obtain ⟨overload, ho⟩ := OverloadSet.exists_get?_of_resolve hfound
    rw [ho]
    infer_instance
  · infer_instance
  · infer_instance

instance (callee : Callee) (receiver : List ValueId) (args : List Operand) (span : Span) :
    Composed P L (invokeResolved callee receiver args span).run := by
  unfold invokeResolved
  infer_instance

instance (object : TypeId) (name : Name) : Composed P L (hasMethod object name) := by
  unfold hasMethod
  infer_instance

instance (this : ValueId) (object : TypeId) (name : Name) (args : List Operand) (span : Span) :
    Composed P L (callMethod this object name args span).run := by
  unfold callMethod
  infer_instance

instance (this : ValueId) (object : TypeId) (args : List Operand) (span : Span) :
    Composed P L (callConstructor this object args span).run := by
  unfold callConstructor
  infer_instance

instance (op : Operand) (span : Span) : Composed P L (objectAddress op span).run := by
  unfold objectAddress
  refine .andThen fun _ => .andThen fun _ => ?_
  split
  · infer_instance
  · split <;> infer_instance

instance (index : Nat) [L.Calls index] (args : List Operand) (span : Span) :
    Composed P L (callOperator index args span).run :=
  HasSteps.operator index _ fun _ => inferInstance

section

variable [r.HasParts P]

instance (children : List (Option Node)) : Composed P L (r.arguments children) := by
  induction children with
  | nil =>
      unfold Recur.arguments
      infer_instance
  | cons c rest ih =>
      unfold Recur.arguments
      infer_instance

/-! ### Operators -/

instance (op : BinaryOp) (lty rty : TypeId) (span : Span) :
    Composed P L (rejectOperands op lty rty span : Attempt α).run := by
  unfold rejectOperands
  infer_instance

instance (l r : ValueId) : Composed P L (power l r).run := by
  unfold power
  infer_instance

instance (op : BinaryOp) (l r : ValueId) (span : Span) :
    Composed P L (intBinary op l r span).run := by
  unfold intBinary
  split <;> infer_instance

instance (op : BinaryOp) (l r : ValueId) (span : Span) :
    Composed P L (floatBinary op l r span).run := by
  unfold floatBinary
  split <;> infer_instance

instance (pointer offset : ValueId) (backward : Bool) :
    Composed P L (pointerOffset pointer offset backward).run := by
  unfold pointerOffset
  infer_instance

instance (op : BinaryOp) (l r : ValueId) (span : Span) :
    Composed P L (builtinBinary op l r span).run := by
  unfold builtinBinary
  refine .andThen fun _ => .andThen fun _ => .andThen fun _ => .andThen fun _ => ?_
  split <;> infer_instance

instance (op : BinaryOp) (l r : Operand) (span : Span) :
    Composed P L (applyBinary op l r span).run := by
  unfold applyBinary
  exact .andThen fun _ => .andThen fun _ => HasSteps.found _ _ inferInstance fun _ => inferInstance

instance (op : UnaryOp) (ty : TypeId) (span : Span) :
    Composed P L (rejectOperand op ty span : Attempt α).run := by
  unfold rejectOperand
  infer_instance

instance (inner : Operand) (ty : TypeId) (span : Span) : Composed P L (negate inner ty span).run := by
  unfold negate
  refine .andThen fun _ => .andThen fun _ => ?_
  split <;> infer_instance

instance (inner : Operand) (span : Span) : Composed P L (negateTruth inner span).run := by
  unfold negateTruth
  infer_instance

instance (inner : Operand) (ty : TypeId) (span : Span) :
    Composed P L (negateBits inner ty span).run := by
  unfold negateBits
  infer_instance

instance (op : UnaryOp) (inner : Operand) (ty : TypeId) (span : Span) :
    Composed P L (builtinUnary op inner ty span).run := by
  unfold builtinUnary
  split <;> infer_instance

instance (op : UnaryOp) (inner : Operand) (span : Span) :
    Composed P L (applyUnary op inner span).run := by
  unfold applyUnary
  exact .andThen fun _ => HasSteps.found _ _ inferInstance fun _ => inferInstance

/-! ### Literals and names -/

instance (text : Name) : Composed P L (stringLiteral text) := by
  unfold stringLiteral
  infer_instance

instance : Composed P L (thisPointer) := by
  unfold thisPointer
  refine .bind fun _ => .get (fun _ _ => rfl) fun _ => ?_
  split <;> infer_instance

instance (name : Name) : Composed P L (implicitMember name) := by
  unfold implicitMember
  refine .bind fun _ => ?_
  split
  · infer_instance
  · refine .bind fun _ => ?_
    split
    · infer_instance
    · refine .bind fun _ => ?_
      split <;> infer_instance

instance (name : Name) (span : Span) : Composed P L (identifier name span).run := by
  unfold identifier
  refine .andThen fun _ => ?_
  split
  · infer_instance
  · refine .andThen fun _ => ?_
    split <;> infer_instance

instance (span : Span) : Composed P L (thisOperand span).run := by
  unfold thisOperand
  refine .andThen fun _ => .andThen fun _ => ?_
  split <;> infer_instance

/-! ### Sequences -/

omit [HasSteps P] [L.Writes] [r.HasParts P] in
theorem composed_sequence {stmts : List (Option Node)}
    (h : ∀ stmt ∈ stmts, Composed P L (r.child stmt)) : Composed P L (r.sequence stmts) := by
  induction stmts with
  | nil =>
      unfold Recur.sequence
      infer_instance
  | cons stmt rest ih =>
      obtain ⟨_, hrest⟩ := List.forall_mem_cons.1 h
      have := ih hrest
      unfold Recur.sequence
      infer_instance

instance (stmts : List (Option Node)) : Composed P L (r.sequence stmts) :=
  composed_sequence fun _ _ => inferInstance

end

end

section

variable [L.IsCode] [r.HasParts P] {thenTo elseTo : BlockId}

/-! ### Conditions -/

instance (op : LogicalOp) [L.Targets thenTo] [L.Targets elseTo] (terms : List (Option Node)) :
    Composed P L (r.logicalCondition op thenTo elseTo terms) := by
  induction terms generalizing L with
  | nil =>
      unfold Recur.logicalCondition
      infer_instance
  | cons term rest ih =>
      cases rest with
      | nil =>
          unfold Recur.logicalCondition
          infer_instance
      | cons next rest =>
          unfold Recur.logicalCondition
          refine .fresh _ (by cases op <;> decide) fun _ => ?_
          cases op <;> infer_instance

instance (op : BinaryOp) (previous : Operand) (term : Option Node) :
    Composed P L (r.compareStep op previous term).run := by
  unfold Recur.compareStep
  infer_instance

instance [L.Targets thenTo] [L.Targets elseTo] (previous : Operand)
    (links : List (BinaryOp × Option Node)) : Composed P L (r.compareChain thenTo elseTo previous links) := by
  induction links generalizing L previous with
  | nil =>
      unfold Recur.compareChain
      infer_instance
  | cons link rest ih =>
      unfold Recur.compareChain
      refine .bind fun _ => ?_
      split
      · infer_instance
      · split
        · infer_instance
        · exact .fresh _ (by decide) fun _ => inferInstance

instance (cond : Option Node) [L.Targets thenTo] [L.Targets elseTo] :
    Composed P L (r.conditionOf cond thenTo elseTo) := by
  unfold Recur.conditionOf
  split
  · infer_instance
  · refine .bind fun _ => ?_
    split <;> infer_instance
  · refine .bind fun _ => ?_
    split <;> infer_instance

instance (node : Node) : Composed P L (r.boolChain node).run := by
  unfold Recur.boolChain
  refine .getThen (fun _ _ => rfl) fun _ => ?_
  split
  · refine .andThen fun _ => .freshThen (by decide) fun _ => .freshThen (by decide) fun _ =>
      .freshThen (by decide) fun _ => .andThen fun _ => .andThen fun _ => .andThen fun _ =>
        .andThen fun _ => .andThen fun _ => .andThen fun _ => .andThen fun _ => .andThen fun _ => .chooseThen fun _ => ?_
    infer_instance
  · refine .freshThen (by decide) fun _ => .freshThen (by decide) fun _ =>
      .freshThen (by decide) fun _ => .andThen fun _ =>
      .andThen fun _ => .andThen fun _ => .andThen fun _ => .andThen fun _ => .andThen fun _ =>
        .andThen fun _ => .andThen fun _ => .chooseThen fun _ => ?_
    infer_instance

/-! ### Statements -/

instance (block : BlockId) [L.Offers block] (stmt : Option Node) (next : BlockId)
    [L.Targets next] :
    Composed P L (r.armAt block stmt next) := by
  unfold Recur.armAt
  infer_instance

instance (cond thenBranch elseBranch : Option Node) :
    Composed P L (r.ifElse cond thenBranch elseBranch) := by
  unfold Recur.ifElse
  refine .fresh _ (by decide) fun _ => ?_
  split
  · exact .fresh _ (by decide) fun _ => .fresh _ (by decide) fun _ => inferInstance
  · exact .fresh _ (by decide) fun _ => inferInstance

instance (cond body : Option Node) : Composed P L (r.whileLoop cond body) := by
  unfold Recur.whileLoop
  refine .fresh _ (by decide) fun _ => .fresh _ (by decide) fun _ =>
    .fresh _ (by decide) fun _ => ?_
  infer_instance

instance (init cond step body : Option Node) : Composed P L (r.forLoop init cond step body) := by
  unfold Recur.forLoop
  refine .bind fun _ => .fresh _ (by decide) fun _ => .fresh _ (by decide) fun _ =>
    .fresh _ (by decide) fun _ => .fresh _ (by decide) fun _ => .bind fun _ => .bind fun _ => ?_
  split <;> infer_instance

omit [HasSteps P] in
/-- Behind the blocks of the cases code may go on in each of them, and wherever it might before. -/
theorem composed_caseBlocks {cases : List (SwitchCase Node)}
    {f : List (SwitchCase Node × BlockId) → Lower α}
    (hf : ∀ {L' : Leeway} [L'.IsCode] arms, L.IsWithin L' →
      (∀ arm ∈ arms, L'.Offers arm.2 ∧ L'.Targets arm.2) → Composed P L' (f arms)) :
    Composed P L (Recur.caseBlocks cases >>= f) := by
  induction cases generalizing L f with
  | nil =>
      rw [Recur.caseBlocks, pure_bind]
      exact hf [] (.refl L) fun _ harm => absurd harm List.not_mem_nil
  | cons c rest ih =>
      simp only [Recur.caseBlocks, bind_assoc, pure_bind]
      refine .fresh _ (by decide) fun b => ih fun arms hwithin harms => ?_
      have := hwithin.offers b
      have := hwithin.targets b
      refine hf ((c, b) :: arms) (.trans (.offering L b) hwithin) ?_
      exact List.forall_mem_cons.2 ⟨⟨inferInstance, inferInstance⟩, harms⟩

/-- The tests of the cases lead to their blocks. -/
theorem composed_caseTests {value : ValueId} {ty : TypeId}
    {arms : List (SwitchCase Node × BlockId)} (harms : ∀ arm ∈ arms, L.Targets arm.2) :
    Composed P L (r.caseTests value ty arms) := by
  induction arms generalizing L with
  | nil =>
      unfold Recur.caseTests
      infer_instance
  | cons arm rest ih =>
      obtain ⟨_, hrest⟩ := List.forall_mem_cons.1 harms
      unfold Recur.caseTests
      refine .fresh _ (by decide) fun next => .bind fun _ => ?_
      have : Composed P (L.offering next) (r.caseTests value ty rest) := ih fun arm harm => by
        have := hrest arm harm
        infer_instance
      split <;> infer_instance

/-- The bodies of the cases are lowered in their blocks. -/
theorem composed_caseBodies {autoBreak : Bool} {endBlock defaultBlock : BlockId}
    [L.Targets endBlock] [L.Targets defaultBlock] {arms : List (SwitchCase Node × BlockId)}
    (harms : ∀ arm ∈ arms, L.Offers arm.2 ∧ L.Targets arm.2) :
    Composed P L (r.caseBodies autoBreak endBlock defaultBlock arms) := by
  induction arms with
  | nil =>
      unfold Recur.caseBodies
      infer_instance
  | cons arm rest ih =>
      obtain ⟨⟨_, _⟩, hrest⟩ := List.forall_mem_cons.1 harms
      have := ih hrest
      unfold Recur.caseBodies
      dsimp only
      split
      · infer_instance
      · split
        · rename_i following _ _
          have := (hrest _ List.mem_cons_self).2
          infer_instance
        · infer_instance

instance (scrutinee : Option Node) (cases : List (SwitchCase Node)) (default : Option Node)
    (autoBreak : Bool) (span : Span) :
    Composed P L (r.switch scrutinee cases default autoBreak span).run := by
  unfold Recur.switch
  refine .andThen fun value => .andThen fun ty => .andThen fun _ => ?_
  have harms (L : Leeway) [L.IsCode] (endBlock defaultBlock : BlockId) [L.Offers endBlock]
      [L.Targets endBlock] [L.Targets defaultBlock] (last : Lower Unit)
      (hlast : ∀ {L' : Leeway} [L'.IsCode], L.IsWithin L' → Composed P L' last) : Composed P L (do
        let arms ← (liftM (Recur.caseBlocks cases) : Attempt (List (SwitchCase Node × BlockId)))
        r.caseTests value ty arms
        Build.br defaultBlock
        withTargets ⟨endBlock, none⟩ do
          r.caseBodies autoBreak endBlock defaultBlock arms
          last
        Build.positionAtEnd endBlock : Attempt Unit).run := by
    rw [Attempt.run_bind_lift]
    refine composed_caseBlocks fun {L'} _ arms hwithin harms => ?_
    have := hwithin.offers endBlock
    have := hwithin.targets endBlock
    have := hwithin.targets defaultBlock
    have : Composed P L' (r.caseTests value ty arms) :=
      composed_caseTests fun arm harm => (harms arm harm).2
    have : Composed P L' (r.caseBodies autoBreak endBlock defaultBlock arms) :=
      composed_caseBodies harms
    have := hlast hwithin
    infer_instance
  have hdefault (L : Leeway) [L.IsCode] (endBlock : BlockId) [L.Offers endBlock]
      [L.Targets endBlock] :
      Composed P L (do
        let defaultBlock ← if default.isSome then
            liftM (appendBlock "switch.default")
          else pure endBlock
        let arms ← (liftM (Recur.caseBlocks cases) : Attempt (List (SwitchCase Node × BlockId)))
        r.caseTests value ty arms
        Build.br defaultBlock
        withTargets ⟨endBlock, none⟩ do
          r.caseBodies autoBreak endBlock defaultBlock arms
          if default.isSome then r.armAt defaultBlock default endBlock
        Build.positionAtEnd endBlock : Attempt Unit).run := by
    split
    · refine .freshThen (by decide) fun defaultBlock =>
        harms _ endBlock defaultBlock _ fun hwithin => ?_
      have := hwithin.offers defaultBlock
      have := hwithin.targets endBlock
      infer_instance
    · rw [pure_bind]
      exact harms _ endBlock endBlock _ fun _ => .pure ()
  dsimp only
  split
  · exact .andThen fun _ => .andThen fun _ => .freshThen (by decide) fun endBlock =>
      hdefault _ endBlock
  · exact .freshThen (by decide) fun endBlock => hdefault _ endBlock

instance (span : Span) : Composed P L (breakOut span) := by
  unfold breakOut
  refine .outer (fun _ _ => rfl) fun s => ?_
  split
  · rename_i targets _ hloops
    have : (L.toward s.pass).Targets targets.breakTo :=
      Leeway.targets_toward (Pass.breakTo_mem_aims hloops)
    infer_instance
  · infer_instance

instance (span : Span) : Composed P L (continueLoop span) := by
  unfold continueLoop
  refine .outer (fun _ _ => rfl) fun s => ?_
  split
  · rename_i target htarget
    have : (L.toward s.pass).Targets target :=
      Leeway.targets_toward (Pass.continueTo_mem_aims htarget)
    infer_instance
  · infer_instance

instance (f : FunctionState) (value : Node) (span : Span) :
    Composed P L (r.returnedValue f value span).run := by
  unfold Recur.returnedValue
  infer_instance

instance (value : Option Node) (span : Span) : Composed P L (r.returnFrom value span).run := by
  unfold Recur.returnFrom
  refine .getThen (fun _ _ => rfl) fun _ => .andThen fun _ => .andThen fun _ => ?_
  split <;> infer_instance

end

/-! ### Variables -/

instance [L.Binds] (name : Name) (storage : ValueId) (ty : TypeId) (isReference : Bool) :
    Composed P L (bindVariable name storage ty isReference) := by
  unfold bindVariable
  infer_instance

section

variable [L.Writes]

instance (init : Option Node) [Composed P L (r.child init)] (ty : TypeId) :
    Composed P L (r.initialValue init ty) := by
  unfold Recur.initialValue
  split <;> infer_instance

instance (var : VarInit Node) [Composed P L (r.child var.init)] (ty : TypeId) :
    Composed P L (r.declareLocal var ty) := by
  unfold Recur.declareLocal
  refine .bind fun _ => .bind fun _ => ?_
  split <;> infer_instance

instance (init : Option Node) [Composed P L (r.child init)] (ty : TypeId) :
    Composed P L (r.constantInitializer init ty).run := by
  unfold Recur.constantInitializer
  infer_instance

instance (var : VarInit Node) [hinit : Composed P L (r.child var.init)] (ty : TypeId) :
    Composed P L (r.declareGlobal var ty) := by
  unfold Recur.declareGlobal
  refine .bind fun _ => .bind fun _ => .bind fun _ => ?_
  split
  · infer_instance
  · rename_i heq
    rw [heq] at hinit
    refine .bind fun _ => ?_
    split <;> infer_instance

instance (var : VarInit Node) [Composed P L (r.child var.init)] (ty : TypeId) (span : Span) :
    Composed P L (r.bindReference var ty span).run := by
  unfold Recur.bindReference
  split
  · infer_instance
  · infer_instance

instance (isReference : Bool) (ty : TypeId) (span : Span) (var : VarInit Node)
    [Composed P L (r.child var.init)] :
    Composed P L (r.declareVariable isReference ty span var) := by
  unfold Recur.declareVariable
  split
  · infer_instance
  · refine .bind fun _ => ?_
    split <;> infer_instance

theorem composed_declareVariables [r.HasTypes P] (ty : TypeExpr) {vars : List (VarInit Node)}
    (h : ∀ var ∈ vars, Composed P L (r.child var.init)) (span : Span) :
    Composed P L (r.declareVariables ty vars span).run := by
  have (valueTy : TypeId) : Composed P L (forIn vars PUnit.unit fun var _ => do
      r.declareVariable ty.isReference valueTy span var
      return ForInStep.yield PUnit.unit : Attempt PUnit).run :=
    .forIn fun var hvar _ => by
      have := h var hvar
      infer_instance
  unfold Recur.declareVariables
  infer_instance

instance [r.HasParts P] (ty : TypeExpr) (vars : List (VarInit Node)) (span : Span) :
    Composed P L (r.declareVariables ty vars span).run :=
  composed_declareVariables ty (fun _ _ => inferInstance) span

/-! ### Expressions -/

instance (op : BinaryOp) (lhs rhs : Option Node) [Composed P L (r.child lhs)]
    [Composed P L (r.child rhs)] (span : Span) : Composed P L (r.binary op lhs rhs span).run := by
  unfold Recur.binary
  infer_instance

instance (op : UnaryOp) (operand : Option Node) [Composed P L (r.child operand)] (span : Span) :
    Composed P L (r.unary op operand span).run := by
  unfold Recur.unary
  infer_instance

instance (op : Option BinaryOp) (place : Operand) (value : Option Node)
    [Composed P L (r.child value)] (span : Span) :
    Composed P L (r.assignedValue op place value span).run := by
  unfold Recur.assignedValue
  split <;> infer_instance

instance (op : Option BinaryOp) (target value : Option Node) [Composed P L (r.child target)]
    [Composed P L (r.child value)] (span : Span) :
    Composed P L (r.assign op target value span).run := by
  unfold Recur.assign
  refine .andThen fun _ => ?_
  split
  · infer_instance
  · refine .andThen fun _ => .getThen (fun _ _ => rfl) fun _ => ?_
    split <;> infer_instance

instance [r.HasTypes P] (expr : Option Node) [Composed P L (r.child expr)] (ty : TypeExpr)
    (span : Span) : Composed P L (r.cast expr ty span).run := by
  unfold Recur.cast
  refine .andThen fun _ => .andThen fun _ => .andThen fun _ =>
    HasSteps.found _ _ (.andThen fun _ => .andThen fun _ => ?_) fun _ => inferInstance
  split <;> infer_instance

instance [r.HasTypes P] (ty : TypeExpr) (span : Span) : Composed P L (r.sizeOf ty span).run := by
  unfold Recur.sizeOf
  infer_instance

section

variable [r.HasParts P]

instance (callee : Name) (args : List (Option Node)) (span : Span) :
    Composed P L (r.call callee args span).run := by
  unfold Recur.call
  refine .andThen fun _ => .andThen fun _ => ?_
  split
  · infer_instance
  · refine .getThen (fun _ _ => rfl) fun _ => ?_
    split <;> infer_instance

instance (receiver : Option Node) (method : Name) (args : List (Option Node)) (span : Span) :
    Composed P L (r.methodCall receiver method args span).run := by
  unfold Recur.methodCall
  infer_instance

/-! ### Objects in expressions -/

instance (ty : TypeId) : Composed P L (heapAlloc ty) := by
  unfold heapAlloc
  refine .bind fun _ => .bind fun _ => .bind fun _ => .bind fun _ => .bind fun _ =>
    .bind fun _ => ?_
  split <;> infer_instance

instance (ty : TypeId) : Composed P L (stackAlloc ty) := by
  unfold stackAlloc
  infer_instance

instance (storage : ValueId) (object : TypeId) (span : Span) (i : Nat) (args : List Operand) :
    Composed P L (storeMembers storage object span i args).run := by
  induction args generalizing i with
  | nil =>
      unfold storeMembers
      infer_instance
  | cons arg rest ih =>
      unfold storeMembers
      infer_instance

instance (storage : ValueId) (object : TypeId) (args : List Operand) (span : Span) :
    Composed P L (initMembers storage object args span).run := by
  unfold initMembers
  infer_instance

instance (storage : ValueId) (object : TypeId) (args : List Operand) (span : Span) :
    Composed P L (construct storage object args span).run := by
  unfold construct
  refine .andThen fun _ => ?_
  split
  · infer_instance
  · split <;> infer_instance

instance (object : Option Node) (name : Name) (span : Span) :
    Composed P L (r.member object name span).run := by
  unfold Recur.member
  refine .andThen fun _ => .andThen fun _ => .andThen fun _ => ?_
  split <;> infer_instance

omit [L.Writes] in
/-- The operator that is found for an index may be called. -/
theorem composed_indexOperator {base offset : TypeId} {span : Span} {k : Option Nat → Attempt α}
    (hnone : Composed P L (k none).run)
    (hsome : ∀ index, Composed P (L.calling index) (k (some index)).run) :
    Composed P L (Recur.indexOperator base offset span >>= k).run := by
  unfold Recur.indexOperator
  rw [bind_assoc]
  refine HasSteps.found _ _ ?_ fun index => ?_
  · simp only [bind_assoc]
    refine .andThen fun long => ?_
    refine .andThen fun _ => .andThen fun _ => ?_
    split
    · exact HasSteps.found _ _ hnone hsome
    · rwa [pure_bind]
  · rw [pure_bind]
    exact hsome index

instance (object offset : Option Node) (span : Span) :
    Composed P L (r.index object offset span).run := by
  unfold Recur.index
  refine .andThen fun _ => .andThen fun _ => .andThen fun _ => .andThen fun _ =>
    composed_indexOperator (.andThen fun _ => ?_) fun _ => inferInstance
  infer_instance

instance (children : List (Option Node)) : Composed P L (r.initializers children).run := by
  induction children with
  | nil =>
      unfold Recur.initializers
      infer_instance
  | cons c rest ih =>
      unfold Recur.initializers
      infer_instance

instance (ty : TypeExpr) (args : List (Option Node)) (heap : Bool) (span : Span) :
    Composed P L (r.construct ty args heap span).run := by
  unfold Recur.construct
  infer_instance

instance (operand : Option Node) (span : Span) : Composed P L (r.delete operand span).run := by
  unfold Recur.delete
  refine .andThen fun _ => .andThen fun _ => HasSteps.found _ _ ?_ fun index => ?_
  · refine .andThen fun _ => ?_
    dsimp only
    infer_instance
  · refine .andThen fun _ => ?_
    dsimp only
    infer_instance

/-! ### Output -/

instance (value : ValueId) (span : Span) : Composed P L (printfArg value span).run := by
  unfold printfArg
  refine .andThen fun _ => .andThen fun _ => .andThen fun _ => ?_
  split <;> infer_instance

instance (format : String) (args : List ValueId) : Composed P L (emitPrintf format args) := by
  unfold emitPrintf
  infer_instance

instance (span : Span) (children : List (Option Node)) :
    Composed P L (r.printArgs span children).run := by
  induction children with
  | nil =>
      unfold Recur.printArgs
      infer_instance
  | cons c rest ih =>
      unfold Recur.printArgs
      infer_instance

instance (args : List (Option Node)) (span : Span) : Composed P L (r.print args span).run := by
  unfold Recur.print
  infer_instance

instance (expr : Option Node) (span : Span) : Composed P L (r.debugPrint expr span).run := by
  unfold Recur.debugPrint
  exact .andThen fun _ => .getThen (fun _ _ => rfl) fun _ => inferInstance

instance (text : Name) : Composed P L (asm text) := by
  unfold asm
  infer_instance

end

end

end SsaCompiler
