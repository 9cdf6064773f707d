/-
# The parts of every node are lowered once

One lemma for each function that lowers children, about the nodes that it lowers, in their order.
Which of their exceptions are stopped is left open, but for a `try` and for the bodies of callables.
-/

import Mathlib.Data.List.Flatten
import SsaCompiler.Proofs.Lower.Exceptions

namespace SsaCompiler

open Lower

-- One computation may consist of a good many steps.
set_option synthInstance.maxSize 4096

variable {bodies : Nat → Option Node} {c : Compilation} {stops : Node → TypeId → Prop} {r : Recur}

/-- Children are lowered with their exceptions. -/
class Recur.IsCollecting (r : Recur) (bodies : Nat → Option Node) (c : Compilation) : Prop
    extends r.HasTypes (IsCalm bodies) where
  operand : ∀ stops node, Collects bodies c stops [node] (r.operand node)
  condition : ∀ stops cond thenTo elseTo,
    Collects bodies c stops (Node.tested cond) (r.condition cond thenTo elseTo)

namespace Recur

variable [hr : r.IsCollecting bodies c]

/-! ### Children -/

theorem collects_child (child : Option Node) :
    Collects bodies c stops child.toList (r.child child) := by
  cases child with
  | none => exact .quiet (x := pure none)
  | some node => exact hr.operand stops node

theorem collects_statement (stmt : Option Node) :
    Collects bodies c stops stmt.toList (r.statement stmt) :=
  (collects_child stmt).first (f := fun _ => pure PUnit.unit) fun _ => .quiet

theorem collects_required (child : Option Node) :
    Collects bodies c stops child.toList (r.required child).run := by
  rw [required_run]
  exact (collects_child child).demand (childSpan child)

theorem collects_value (child : Option Node) :
    Collects bodies c stops child.toList (r.value child).run :=
  (collects_required child).andFirst fun _ => .quiet

theorem collects_arguments (args : List (Option Node)) :
    Collects bodies c stops (args.flatMap Option.toList) (r.arguments args) := by
  induction args with
  | nil => exact .quiet (x := pure (some []))
  | cons arg rest ih =>
      rw [List.flatMap_cons]
      exact (collects_required arg).seq fun _ => ih.first fun _ => .quiet

theorem collects_initializers (args : List (Option Node)) :
    Collects bodies c stops (args.flatMap Option.toList) (r.initializers args).run := by
  induction args with
  | nil => exact .quiet (x := pure (some []))
  | cons arg rest ih =>
      rw [List.flatMap_cons]
      exact (collects_required arg).andThen fun _ => ih.andFirst fun _ => .quiet

theorem collects_sequence (stmts : List (Option Node)) :
    Collects bodies c stops (stmts.flatMap Option.toList) (r.sequence stmts) := by
  induction stmts with
  | nil => exact .quiet (x := pure ())
  | cons stmt rest ih =>
      rw [List.flatMap_cons]
      unfold sequence
      refine .skip fun ended => ?_
      split
      · exact .quiet
      · exact (collects_statement stmt).seq fun _ => ih

/-! ### Operators, assignments and casts -/

theorem collects_binary (op : BinaryOp) (lhs rhs : Option Node) (span : Span) :
    Collects bodies c stops (lhs.toList ++ rhs.toList) (r.binary op lhs rhs span).run :=
  (collects_required lhs).andThen fun _ => (collects_required rhs).andFirst fun _ => .quiet

theorem collects_unary (op : UnaryOp) (operand : Option Node) (span : Span) :
    Collects bodies c stops operand.toList (r.unary op operand span).run :=
  (collects_required operand).andFirst fun _ => .quiet

theorem collects_assignedValue (op : Option BinaryOp) (place : Operand) (value : Option Node)
    (span : Span) :
    Collects bodies c stops value.toList (r.assignedValue op place value span).run := by
  unfold assignedValue
  cases op with
  | none => exact collects_value value
  | some op => exact (collects_required value).andFirst fun _ => .quiet

theorem collects_constantInitializer (init : Option Node) (ty : TypeId) :
    Collects bodies c stops init.toList (r.constantInitializer init ty).run :=
  (collects_required init).andFirst fun _ => .quiet

theorem collects_assign (op : Option BinaryOp) (target value : Option Node) (span : Span) :
    Collects bodies c stops (target.toList ++ value.toList)
      (r.assign op target value span).run := by
  unfold assign
  refine (collects_required target).andThen fun place => ?_
  split
  · exact .quiet
  · refine .andSkip fun ty => .getThen fun s => ?_
    split
    · refine .andSkip fun known => ?_
      split
      · exact (collects_constantInitializer value ty).andFirst fun _ => .quiet
      · exact .quiet
    · exact (collects_assignedValue op place value span).andFirst fun _ => .quiet

/-! ### Calls and places -/

theorem collects_call (callee : Name) (args : List (Option Node)) (span : Span) :
    Collects bodies c stops (args.flatMap Option.toList) (r.call callee args span).run := by
  unfold call
  refine Collects.andFirst (x := OptionT.mk (r.arguments args)) (collects_arguments args) fun _ =>
    .andSkip fun _ => ?_
  split
  · exact .quiet
  · refine .getThen fun _ => ?_
    split <;> exact .quiet

theorem collects_methodCall (receiver : Option Node) (method : Name) (args : List (Option Node))
    (span : Span) : Collects bodies c stops (receiver.toList ++ args.flatMap Option.toList)
      (r.methodCall receiver method args span).run := by
  unfold methodCall
  refine (collects_required receiver).andThen fun op => .andSkip fun entry => ?_
  exact Collects.andFirst (x := OptionT.mk (r.arguments args)) (collects_arguments args)
    fun _ => .quiet

theorem collects_member (base : Option Node) (name : Name) (span : Span) :
    Collects bodies c stops base.toList (r.member base name span).run := by
  unfold member
  refine (collects_required base).andFirst fun _ => .andSkip fun _ => .andSkip fun _ => ?_
  split <;> exact .quiet

theorem collects_index (base offset : Option Node) (span : Span) :
    Collects bodies c stops (base.toList ++ offset.toList) (r.index base offset span).run := by
  unfold index
  refine (collects_required base).andThen fun base => (collects_required offset).andFirst
    fun offset => .andSkip fun baseTy => .andSkip fun offsetTy => .tail fun {P} => ?_
  refine composed_indexOperator ?_ fun _ => inferInstance
  infer_instance

theorem collects_delete (operand : Option Node) (span : Span) :
    Collects bodies c stops operand.toList (r.delete operand span).run := by
  unfold delete
  refine (collects_required operand).andFirst fun op => .andSkip fun ty => .tail fun {P} => ?_
  refine HasSteps.found _ _ (.andThen fun _ => ?_) fun index => .andThen fun _ => ?_
  · dsimp only
    infer_instance
  · dsimp only
    infer_instance

/-! ### Output and exceptions -/

theorem collects_printArgs (span : Span) (args : List (Option Node)) :
    Collects bodies c stops (args.flatMap Option.toList) (r.printArgs span args).run := by
  induction args with
  | nil => exact .quiet (x := pure (some []))
  | cons arg rest ih =>
      rw [List.flatMap_cons]
      exact (collects_value arg).andThen fun _ => .andSkip fun _ => ih.andFirst fun _ => .quiet

theorem collects_print (args : List (Option Node)) (span : Span) :
    Collects bodies c stops (args.flatMap Option.toList) (r.print args span).run :=
  (collects_printArgs span args).andFirst fun _ => .quiet

theorem collects_debugPrint (expr : Option Node) (span : Span) :
    Collects bodies c stops expr.toList (r.debugPrint expr span).run :=
  (collects_required expr).andFirst fun _ => .getThen fun _ => .quiet

theorem collects_throwValue (value : Option Node) (span : Span) :
    Collects bodies c stops value.toList (r.throwValue value span).run :=
  (collects_required value).andFirst fun _ => .quiet

/-! ### Conditions -/

theorem collects_logicalCondition (op : LogicalOp) (thenTo elseTo : BlockId)
    (terms : List (Option Node)) : Collects bodies c stops (Node.testedTerms terms)
      (r.logicalCondition op thenTo elseTo terms) := by
  induction terms with
  | nil => exact .quiet (x := brIfOpen elseTo)
  | cons term rest ih =>
      rw [Node.testedTerms]
      cases rest with
      | nil =>
          rw [Node.testedTerms, List.append_nil]
          exact hr.condition stops term thenTo elseTo
      | cons next rest =>
          unfold logicalCondition
          refine .skip fun block => ?_
          cases op with
          | and => exact (hr.condition stops term block elseTo).seq fun _ => .skip fun _ => ih
          | or => exact (hr.condition stops term thenTo block).seq fun _ => .skip fun _ => ih

theorem collects_compareStep (op : BinaryOp) (previous : Operand) (term : Option Node) :
    Collects bodies c stops term.toList (r.compareStep op previous term).run :=
  (collects_required term).andFirst fun _ => .quiet

theorem collects_compareChain (thenTo elseTo : BlockId) (previous : Operand)
    (links : List (BinaryOp × Option Node)) :
    Collects bodies c stops (links.flatMap fun step => step.2.toList)
      (r.compareChain thenTo elseTo previous links) := by
  induction links generalizing previous with
  | nil => exact .quiet (x := pure ())
  | cons link rest ih =>
      rw [List.flatMap_cons]
      unfold compareChain
      refine (collects_compareStep link.1 previous link.2).seq fun found => ?_
      split
      · exact .quiet
      · split
        · exact .quiet
        · exact .skip fun _ => .skip fun _ => .skip fun _ => ih _

theorem collects_conditionOf (cond : Option Node) (thenTo elseTo : BlockId) :
    Collects bodies c stops (Node.tested cond) (r.conditionOf cond thenTo elseTo) := by
  have hvalue (after : Option ValueId → Lower Unit)
      (hafter : ∀ truth, Collects bodies c stops [] (after truth)) :
      Collects bodies c stops cond.toList (do
        let truth ← OptionT.run do
          let value ← r.value cond
          Lower.toBool value (childSpan cond)
        after truth) :=
    Collects.first ((collects_value cond).andFirst fun _ => .quiet) hafter
  unfold conditionOf
  cases cond with
  | none => exact hvalue _ fun truth => by cases truth <;> exact .quiet
  | some node =>
      obtain ⟨id, span, kind⟩ := node
      cases kind with
      | logical op terms => exact collects_logicalCondition op thenTo elseTo terms
      | comparison first rest =>
          refine (collects_required first).seq fun previous => ?_
          cases previous with
          | none => exact .quiet
          | some previous => exact collects_compareChain thenTo elseTo previous rest
      | _ => exact hvalue _ fun truth => by cases truth <;> exact .quiet

theorem collects_boolChain (node : Node) :
    Collects bodies c stops (Node.tested (some node)) (r.boolChain node).run := by
  have hblocks : Collects bodies c stops (Node.tested (some node)) (do
      let trueBlock ← Lower.appendBlock "bool.true"
      let falseBlock ← Lower.appendBlock "bool.false"
      let join ← Lower.appendBlock "bool.end"
      r.condition (some node) trueBlock falseBlock
      let truth ← Build.intType 1
      Build.positionAtEnd trueBlock
      let yes ← Build.constInt truth 1
      Build.br join
      Build.positionAtEnd falseBlock
      let no ← Build.constInt truth 0
      Build.br join
      Build.positionAtEnd join
      return .ofValue (← Build.phi truth [(yes, trueBlock), (no, falseBlock)]) :
        Attempt Operand).run := by
    refine .andSkip fun _ => .andSkip fun _ => .andSkip fun _ =>
      (hr.condition stops (some node) _ _).lift.andFirst fun _ => .tail fun {P} => ?_
    refine .andThen fun _ => .andThen fun _ => .andThen fun _ => .andThen fun _ => .andThen fun _ =>
      .andThen fun _ => .andThen fun _ => .chooseThen fun _ => ?_
    infer_instance
  unfold boolChain
  refine .getThen fun _ => ?_
  split
  · exact .andSkip fun _ => hblocks
  · exact hblocks

/-! ### Statements -/

theorem collects_armAt (block : BlockId) (stmt : Option Node) (next : BlockId) :
    Collects bodies c stops stmt.toList (r.armAt block stmt next) :=
  .skip fun _ => (collects_statement stmt).first fun _ => .quiet

theorem collects_ifElse (cond thenBranch elseBranch : Option Node) :
    Collects bodies c stops (Node.tested cond ++ (thenBranch.toList ++ elseBranch.toList))
      (r.ifElse cond thenBranch elseBranch) := by
  unfold ifElse
  refine .skip fun thenBlock => ?_
  cases elseBranch with
  | some stmt =>
      refine .skip fun elseBlock => .skip fun endBlock => ?_
      exact (hr.condition stops cond _ _).seq fun _ => (collects_armAt _ thenBranch _).seq fun _ =>
        (collects_armAt _ (some stmt) _).first fun _ => .quiet
  | none =>
      refine .skip fun endBlock => (hr.condition stops cond _ _).seq fun _ => ?_
      exact (collects_armAt _ thenBranch _).seq fun _ => .quiet

theorem collects_whileLoop (cond body : Option Node) :
    Collects bodies c stops (Node.tested cond ++ body.toList) (r.whileLoop cond body) := by
  unfold whileLoop
  refine .skip fun _ => .skip fun _ => .skip fun _ => .skip fun _ => .skip fun _ => ?_
  refine (hr.condition stops cond _ _).seq fun _ => .skip fun _ => ?_
  exact ((collects_statement body).withTargets _).first fun _ => .quiet

theorem collects_forLoop (init cond step body : Option Node) :
    Collects bodies c stops
      (init.toList ++ (Node.tested cond ++ (body.toList ++ step.toList)))
      (r.forLoop init cond step body) := by
  unfold forLoop
  refine (collects_statement init).seq fun _ => .skip fun _ => .skip fun _ => .skip fun _ =>
    .skip fun _ => .skip fun _ => .skip fun _ => ?_
  have hround (condBlock bodyBlock stepBlock endBlock : BlockId) :
      Collects bodies c stops (body.toList ++ step.toList) (do
        Build.positionAtEnd bodyBlock
        Lower.withTargets ⟨endBlock, some stepBlock⟩ (r.statement body)
        Lower.brIfOpen stepBlock
        Build.positionAtEnd stepBlock
        r.statement step
        Lower.brIfOpen condBlock
        Build.positionAtEnd endBlock) :=
    .skip fun _ => ((collects_statement body).withTargets _).seq fun _ => .skip fun _ =>
      .skip fun _ => (collects_statement step).first fun _ => .quiet
  cases cond with
  | none => exact .skip fun _ => hround _ _ _ _
  | some node => exact (hr.condition stops (some node) _ _).seq fun _ => hround _ _ _ _

/-! ### Switches -/

theorem collects_caseTests (value : ValueId) (ty : TypeId)
    (arms : List (SwitchCase Node × BlockId)) :
    Collects bodies c stops (arms.flatMap fun arm => arm.1.value.toList)
      (r.caseTests value ty arms) := by
  induction arms with
  | nil => exact .quiet (x := pure ())
  | cons arm rest ih =>
      rw [List.flatMap_cons]
      unfold caseTests
      refine .skip fun _ => Collects.seq ((collects_value arm.1.value).andFirst fun _ => .quiet)
        fun wanted => ?_
      cases wanted with
      | none => exact .skip fun _ => .skip fun _ => ih
      | some v => exact .skip fun _ => .skip fun _ => .skip fun _ => ih

theorem collects_caseBodies (autoBreak : Bool) (endBlock defaultBlock : BlockId)
    (arms : List (SwitchCase Node × BlockId)) :
    Collects bodies c stops (arms.flatMap fun arm => arm.1.body.toList)
      (r.caseBodies autoBreak endBlock defaultBlock arms) := by
  induction arms with
  | nil => exact .quiet (x := pure ())
  | cons arm rest ih =>
      rw [List.flatMap_cons]
      exact (collects_armAt arm.2 arm.1.body _).seq fun _ => ih

omit hr in
/-- Each case gets one block. -/
theorem map_fst_caseBlocks {cases : List (SwitchCase Node)}
    {arms : List (SwitchCase Node × BlockId)} {s s' : Lowering}
    (h : caseBlocks cases s = .ok (arms, s')) : arms.map Prod.fst = cases := by
  induction cases generalizing arms s with
  | nil =>
      cases h
      rfl
  | cons one rest ih =>
      obtain ⟨b, s₁, -, h⟩ := bind_eq_ok_iff.1 h
      obtain ⟨others, s₂, hrest, h⟩ := bind_eq_ok_iff.1 h
      cases h
      rw [List.map_cons, ih hrest]

theorem collects_switch (scrutinee : Option Node) (cases : List (SwitchCase Node))
    (default : Option Node) (autoBreak : Bool) (span : Span) :
    Collects bodies c stops (scrutinee.toList ++ ((cases.flatMap fun one => one.value.toList) ++
        ((cases.flatMap fun one => one.body.toList) ++ default.toList)))
      (r.switch scrutinee cases default autoBreak span).run := by
  have hblocks {P : Parts} : Composed P .anywhere (caseBlocks cases) := by
    rw [← bind_pure (caseBlocks cases)]
    exact composed_caseBlocks fun _ _ _ => .pure _
  have harms (value : ValueId) (ty : TypeId) (endBlock defaultBlock : BlockId) (last : Lower Unit)
      (hlast : ∀ stops, Collects bodies c stops default.toList last) :
      Collects bodies c stops ((cases.flatMap fun one => one.value.toList) ++
        ((cases.flatMap fun one => one.body.toList) ++ default.toList)) (do
          let arms ← (liftM (caseBlocks cases) : Attempt (List (SwitchCase Node × BlockId)))
          r.caseTests value ty arms
          Build.br defaultBlock
          withTargets ⟨endBlock, none⟩ do
            r.caseBodies autoBreak endBlock defaultBlock arms
            last
          Build.positionAtEnd endBlock : Attempt Unit).run := by
    rw [Attempt.run_bind_lift]
    refine .skipKnowing (Q := fun _ arms => arms.map Prod.fst = cases) map_fst_caseBlocks
      (fun _ h _ => map_fst_caseBlocks h) fun stops arms harms => ?_
    subst harms
    simp only [List.flatMap_map]
    refine (collects_caseTests value ty arms).lift.andThen fun _ => .andSkip fun _ =>
      Collects.andFirst (Collects.lift (.withTargets ?_ _)) fun _ => .quiet
    exact (collects_caseBodies autoBreak endBlock defaultBlock arms).seq fun _ => hlast stops
  unfold switch
  refine (collects_value scrutinee).andThen fun value => .andSkip fun ty => .andSkip fun kind => ?_
  have hdefault (endBlock : BlockId) :
      Collects bodies c stops ((cases.flatMap fun one => one.value.toList) ++
        ((cases.flatMap fun one => one.body.toList) ++ default.toList)) (do
        let defaultBlock ← if default.isSome then
            liftM (appendBlock "switch.default")
          else pure endBlock
        let arms ← (liftM (caseBlocks cases) : Attempt (List (SwitchCase Node × BlockId)))
        r.caseTests value ty arms
        Build.br defaultBlock
        withTargets ⟨endBlock, none⟩ do
          r.caseBodies autoBreak endBlock defaultBlock arms
          if default.isSome then r.armAt defaultBlock default endBlock
        Build.positionAtEnd endBlock : Attempt Unit).run := by
    split
    · exact .andSkip fun defaultBlock => harms value ty endBlock defaultBlock _ fun _ =>
        collects_armAt defaultBlock default endBlock
    · exact harms value ty endBlock endBlock _ fun _ => .quiet
  dsimp only
  split
  · exact .andSkip fun _ => .andSkip fun _ => .andSkip fun endBlock => hdefault endBlock
  · exact .andSkip fun endBlock => hdefault endBlock

theorem collects_returnFrom (value : Option Node) (span : Span) :
    Collects bodies c stops value.toList (r.returnFrom value span).run := by
  unfold returnFrom
  refine .getThen fun _ => .andSkip fun f => .andSkip fun kind => ?_
  cases value with
  | none => cases decide (kind = .void) <;> exact .quiet
  | some node =>
      have hvalue : Collects bodies c stops [node] (r.returnedValue f node span).run := by
        unfold returnedValue
        split
        · exact (collects_required (some node)).andFirst fun _ => .quiet
        · exact (collects_value (some node)).andFirst fun _ => .quiet
      cases decide (kind = .void) with
      | true => exact .quiet
      | false => exact hvalue.andFirst fun _ => .quiet

/-! ### Variables -/

theorem collects_initialValue (init : Option Node) (ty : TypeId) :
    Collects bodies c stops init.toList (r.initialValue init ty) := by
  cases init with
  | none => exact .quiet (x := pure none)
  | some node =>
      unfold initialValue
      exact (collects_value (some node)).andFirst fun _ => .quiet

theorem collects_declareLocal (var : VarInit Node) (ty : TypeId) :
    Collects bodies c stops var.init.toList (r.declareLocal var ty) := by
  unfold declareLocal
  refine .skip fun slot => (collects_initialValue var.init ty).first fun init => ?_
  cases init <;> exact .quiet

theorem collects_declareGlobal (var : VarInit Node) (ty : TypeId) :
    Collects bodies c stops var.init.toList (r.declareGlobal var ty) := by
  unfold declareGlobal
  refine .skip fun _ => .skip fun _ => .skip fun _ => ?_
  cases var.init with
  | none => exact .quiet
  | some node =>
      refine (collects_constantInitializer (some node) ty).first fun init => ?_
      cases init <;> exact .quiet

theorem collects_bindReference (var : VarInit Node) (ty : TypeId) (span : Span) :
    Collects bodies c stops var.init.toList (r.bindReference var ty span).run := by
  have hbound : Collects bodies c stops var.init.toList (do
      let op ← r.required var.init
      let found ← op.ty
      if found = ty then Lower.bindVariable var.name (← op.address) ty true
      else if (← Lower.pointee? found) = some ty then
        Lower.bindVariable var.name (← op.load) ty true
      else
        let wanted ← Lower.describe ty
        let found ← Lower.describe found
        Attempt.reject .typeMismatch s!"cannot bind '{wanted}&' to a value of type '{found}'" span :
          Attempt Unit).run :=
    (collects_required var.init).andFirst fun _ => .quiet
  unfold bindReference
  split
  · exact .andSkip fun _ => .andSkip fun _ => hbound
  · exact hbound

theorem collects_declareVariable (isReference : Bool) (ty : TypeId) (span : Span)
    (var : VarInit Node) :
    Collects bodies c stops var.init.toList (r.declareVariable isReference ty span var) := by
  unfold declareVariable
  split
  · exact (collects_bindReference var ty span).first (f := fun _ => pure PUnit.unit) fun _ => .quiet
  · refine .skip fun f => ?_
    cases f with
    | none => exact collects_declareGlobal var ty
    | some f => exact collects_declareLocal var ty

section

variable [r.IsSecure]

theorem collects_declareVariables (ty : TypeExpr) (vars : List (VarInit Node)) (span : Span) :
    Collects bodies c stops (vars.flatMap fun var => var.init.toList)
      (r.declareVariables ty vars span).run := by
  have heach (valueTy : TypeId) : Collects bodies c stops (vars.flatMap fun var => var.init.toList)
      (forIn vars PUnit.unit fun var _ => do
        r.declareVariable ty.isReference valueTy span var
        return ForInStep.yield PUnit.unit : Attempt PUnit).run := by
    induction vars with
    | nil => exact .quiet (x := pure (some PUnit.unit))
    | cons var rest ih =>
        rw [List.forIn_cons, List.flatMap_cons]
        refine Collects.andThen
          ((collects_declareVariable _ valueTy span var).lift.andFirst fun _ => .quiet)
          fun step => ?_
        cases step with
        | done => exact .quiet
        | yield => exact ih
  unfold declareVariables
  refine .andSkip fun valueTy => .andSkip fun kind => ?_
  split
  · exact .andSkip fun _ => (heach valueTy).andFirst fun _ => .quiet
  · exact (heach valueTy).andFirst fun _ => .quiet

/-! ### Expressions with types -/

theorem collects_cast (expr : Option Node) (ty : TypeExpr) (span : Span) :
    Collects bodies c stops expr.toList (r.cast expr ty span).run := by
  unfold cast
  refine .andSkip fun target => (collects_required expr).andFirst fun op => .andSkip fun source =>
    .tail fun {P} => HasSteps.found _ _ (.andThen fun _ => .andThen fun _ => ?_)
      fun _ => inferInstance
  split <;> infer_instance

theorem collects_construct (ty : TypeExpr) (args : List (Option Node)) (heap : Bool) (span : Span) :
    Collects bodies c stops (args.flatMap Option.toList) (r.construct ty args heap span).run := by
  unfold construct
  exact .andSkip fun object => (collects_initializers args).andFirst fun _ => .quiet

/-! ### Handlers -/

omit [r.IsSecure] in
theorem collects_catchBody (clause : CatchClause Node) (ty : TypeId) (payload : ValueId)
    (endBlock : BlockId) :
    Collects bodies c stops clause.body.toList (r.catchBody clause ty payload endBlock) := by
  unfold catchBody
  refine .skip fun _ => .skip fun _ => .skip fun _ => .skip fun _ => .skip fun _ =>
    (collects_statement clause.body).first fun _ => .skip fun _ => ?_
  split <;> exact .quiet

omit [r.IsSecure] in
theorem collects_dispatchClauses (pad payload selector : ValueId) (endBlock : BlockId)
    (clauses : List (CatchClause Node × TypeId)) :
    Collects bodies c stops (clauses.flatMap fun entry => entry.1.body.toList)
      (r.dispatchClauses pad payload selector endBlock clauses) := by
  induction clauses with
  | nil => exact .quiet (x := forwardException pad)
  | cons entry rest ih =>
      rw [List.flatMap_cons]
      unfold dispatchClauses
      exact .skip fun _ => .skip fun _ => .skip fun _ => .skip fun _ => .skip fun _ =>
        (collects_catchBody entry.1 entry.2 payload endBlock).seq fun _ => .skip fun _ => ih

omit [r.IsSecure] in
/-- Behind the body of a `try` some of its exceptions are noted, and the others are stopped. -/
theorem collects_tryThen {frame : TryFrame} {body : Option Node} {α β : Type} {ps : List Node}
    {k : ThrowSet → Lower β} (note : ThrowSet → Lower α) {f : ThrowSet → α → Lower β}
    (hk : ∀ thrown, k thrown = note thrown >>= f thrown)
    [∀ thrown, Composed (IsCalm bodies) .anywhere (note thrown)]
    [∀ thrown, Composed IsSecured .anywhere (note thrown)]
    (hnote : ∀ {thrown s a s'}, note thrown s = .ok (a, s') → s.pass.throwStack ≠ [] →
      ∀ ty ∈ thrown, ty ∈ s'.pass.thrown ∨ ∀ p ∈ body, stops p ty)
    (hf : ∀ thrown a, Collects bodies c stops ps (f thrown a)) :
    Collects bodies c stops (body.toList ++ ps) (r.tryBody frame body >>= k) := by
  have hbody : Collects bodies c (fun _ _ => False) body.toList (r.statement body) :=
    collects_statement body
  have hquiet (thrown : ThrowSet) : Collects bodies c stops [] (note thrown) := .quiet
  have hnoted : Collects bodies c stops body.toList (do
      let thrown ← r.tryBody frame body
      let a ← note thrown
      return (thrown, a)) := by
    constructor
    · intro s answer s' hs hrun
      obtain ⟨thrown, s₁, htry, hrun⟩ := bind_eq_ok_iff.1 hrun
      obtain ⟨a, s₂, hrun, hend⟩ := bind_eq_ok_iff.1 hrun
      cases hend
      have hnext := hbody.proceeds_withTry hs htry
      exact hnext.trans ((hquiet thrown).proceeds hnext.intact hrun)
    · intro s answer s' hs hrun hend
      obtain ⟨thrown, s₁, htry, hrun⟩ := bind_eq_ok_iff.1 hrun
      obtain ⟨a, s₂, hrun, hanswer⟩ := bind_eq_ok_iff.1 hrun
      cases hanswer
      have hnext := hbody.proceeds_withTry hs.intact htry
      have hend₁ := ((hquiet thrown).proceeds hnext.intact hrun).leadsTo hend
      have hnodes := hbody.gathers_withTry hs htry hend₁
      have hcalm : Composed (IsCalm bodies) .anywhere (note thrown) := inferInstance
      refine hnodes.noted (hcalm.staysCalm hrun) fun hframe p hp ty hty => ?_
      have hty : ty ∈ thrown := hty.resolve_right id
      exact (hnote hrun hframe ty hty).imp_right fun hstop => hstop p (Option.mem_toList.1 hp)
  have hsame : r.tryBody frame body >>= k = (do
      let thrown ← r.tryBody frame body
      let a ← note thrown
      return (thrown, a)) >>= fun answer => f answer.1 answer.2 := by
    simp only [funext hk, bind_assoc, pure_bind]
  rw [hsame]
  exact hnoted.seq fun answer => hf answer.1 answer.2

end

/-! ### Tries -/

section

variable {n : Nat} {span : Span} {known clauses : List (CatchClause Node × TypeId)}
  {catches : List (CatchClause Node)} {s s' : Lowering}

omit hr in
/-- The handlers of a `try` are some of those that are written down, in their order. -/
theorem sublist_of_catchClauses (h : r.catchClauses span known catches s = .ok (clauses, s')) :
    ∃ found, clauses = known ++ found ∧ (found.map Prod.fst).Sublist catches := by
  induction catches generalizing known s with
  | nil =>
      cases h
      exact ⟨[], (List.append_nil _).symm, .slnil⟩
  | cons clause rest ih =>
      obtain ⟨found, s₁, -, h⟩ := bind_eq_ok_iff.1 h
      cases found with
      | none =>
          obtain ⟨found, hfound, hsub⟩ := ih h
          exact ⟨found, hfound, hsub.cons _⟩
      | some ty =>
          dsimp only at h
          split at h
          · obtain ⟨text, s₂, -, h⟩ := bind_eq_ok_iff.1 h
            obtain ⟨⟨⟩, s₃, -, h⟩ := bind_eq_ok_iff.1 h
            obtain ⟨found, hfound, hsub⟩ := ih h
            exact ⟨found, hfound, hsub.cons _⟩
          · obtain ⟨found, rfl, hsub⟩ := ih h
            exact ⟨(clause, ty) :: found, by simp, hsub.cons_cons _⟩

omit hr in
theorem catches_of_catchClauses (hs : s.IsIntact)
    (h : (within n).catchClauses span known catches s = .ok (clauses, s')) (hend : s'.LeadsTo c) :
    ∀ entry ∈ clauses, entry ∈ known ∨ entry.1.Catches c entry.2 := by
  have hquiet (known : List (CatchClause Node × TypeId)) (rest : List (CatchClause Node)) :
      Collects (fun _ => none) c (fun _ _ => True) [] ((within n).catchClauses span known rest) :=
    .quiet
  induction catches generalizing known s with
  | nil =>
      cases h
      exact fun entry hentry => .inl hentry
  | cons clause rest ih =>
      have htype : Collects (fun _ => none) c (fun _ _ => True) []
        ((within n).type span clause.ty.stripReference).run := .quiet
      obtain ⟨found, s₁, hfound, h⟩ := bind_eq_ok_iff.1 h
      have hs₁ := (htype.proceeds hs hfound).intact
      cases found with
      | none => exact ih hs₁ h
      | some ty =>
          dsimp only at h
          split at h
          · obtain ⟨text, s₂, htext, h⟩ := bind_eq_ok_iff.1 h
            obtain ⟨⟨⟩, s₃, hreport, h⟩ := bind_eq_ok_iff.1 h
            have hdescribed : Collects (fun _ => none) c (fun _ _ => True) [] (describe ty) :=
              .quiet
            have hs₂ := (hdescribed.proceeds hs₁ htext).intact
            have hreported := (Secures.report _ _ span).run hs₂ hreport
            exact ih hreported.2.1 h
          · have hend₁ := ((hquiet _ rest).proceeds hs₁ h).leadsTo hend
            intro entry hentry
            rcases ih hs₁ h entry hentry with hknown | hcatches
            · rcases List.mem_append.1 hknown with hknown | hnew
              · exact .inl hknown
              · cases List.mem_singleton.1 hnew
                exact .inr ⟨n, span, s, s₁, hs, hfound, hend₁⟩
            · exact .inr hcatches

omit hr in
/-- The exceptions of its body for which a `try` has no handler are noted for the node around it. -/
theorem mem_thrown_of_unhandled {endBlock : BlockId} {thrown handled : ThrowSet} {ty : TypeId}
    {u : Unit}
    (h : (brIfOpen endBlock >>= fun _ =>
      noteThrows (thrown.filter fun ty => !handled.contains ty)) s = .ok (u, s'))
    (hframe : s.pass.throwStack ≠ []) (hty : ty ∈ thrown) (hhandled : ty ∉ handled) :
    ty ∈ s'.pass.thrown := by
  obtain ⟨⟨⟩, s₁, hopen, hnote⟩ := bind_eq_ok_iff.1 h
  have hcalm : Composed (IsCalm fun _ => none) .anywhere (brIfOpen endBlock) := inferInstance
  have hdepth := (hcalm.staysCalm hopen).depth
  have hframe₁ : s₁.pass.throwStack ≠ [] := fun hnil => hframe (List.length_eq_zero_iff.1
    (hdepth.symm.trans (congrArg List.length hnil)))
  refine subset_thrown_of_noteThrows hnote hframe₁ ?_
  simp [List.mem_filter, hty, hhandled]

variable [(within n).IsCollecting bodies c]

theorem collects_tryCatch {body : Option Node}
    (hstops : ∀ p ∈ body, ∀ ty,
      (catches = [] ∨ ∃ clause ∈ catches, clause.Catches c ty) → stops p ty) :
    Collects bodies c stops (body.toList ++ catches.flatMap fun clause => clause.body.toList)
      ((within n).tryCatch body catches span) := by
  unfold tryCatch
  refine .skip fun f => ?_
  cases f with
  | none => exact .quiet
  | some f =>
      refine .skip fun personality => .skip fun _ => ?_
      refine .skipKnowing
        (Q := fun stops clauses => (clauses.map Prod.fst).Sublist catches ∧
          ∀ p ∈ body, ∀ ty, (catches = [] ∨ ∃ entry ∈ clauses, entry.2 = ty) → stops p ty)
        (fun h => ?_) (fun hs h hend => ?_) fun stops clauses hclauses => ?_
      · obtain ⟨found, rfl, hsub⟩ := sublist_of_catchClauses h
        exact ⟨hsub, fun _ _ _ _ => trivial⟩
      · obtain ⟨found, rfl, hsub⟩ := sublist_of_catchClauses h
        refine ⟨hsub, fun p hp ty hty => hstops p hp ty (hty.imp_right ?_)⟩
        rintro ⟨entry, hentry, rfl⟩
        have hcatches := catches_of_catchClauses hs h hend entry hentry
        exact ⟨entry.1, hsub.subset (List.mem_map_of_mem hentry),
          hcatches.resolve_left List.not_mem_nil⟩
      · obtain ⟨hsub, hstops⟩ := hclauses
        refine .skip fun landing => .skip fun dispatch => .skip fun endBlock => .skip fun bytes =>
          .skip fun word => .skip fun padTy => .skip fun padSlot => ?_
        cases catches with
        | nil =>
            refine collects_tryThen (fun _ => brIfOpen endBlock) (fun thrown => rfl)
              (fun _ _ ty _ => .inr fun p hp => hstops p hp ty (.inl rfl)) fun thrown _ => ?_
            have hdispatch (payload selector : ValueId) :
                Collects bodies c stops [] (do
                  dispatchImplicit thrown payload selector endBlock
                  Build.positionAtEnd endBlock) := .quiet
            exact .skip fun _ => .skip fun _ => .skip fun _ => .skip fun _ => .skip fun _ =>
              .skip fun _ => .skip fun payload => .skip fun selector => hdispatch payload selector
        | cons first rest =>
            refine collects_tryThen
              (fun thrown => brIfOpen endBlock >>= fun _ =>
                noteThrows (thrown.filter fun ty => !(clauses.map Prod.snd).contains ty))
              (fun thrown => (bind_assoc _ _ _).symm) (fun hrun hframe ty hty => ?_)
              fun thrown _ => ?_
            · by_cases hcaught : ty ∈ clauses.map Prod.snd
              · obtain ⟨entry, hentry, rfl⟩ := List.mem_map.1 hcaught
                exact .inr fun p hp => hstops p hp entry.2 (.inr ⟨entry, hentry, rfl⟩)
              · exact .inl (mem_thrown_of_unhandled hrun hframe hty hcaught)
            · have hdispatch (pad payload selector : ValueId) :
                  Collects bodies c stops
                    ((first :: rest).flatMap fun clause => clause.body.toList) (do
                      (within n).dispatchClauses pad payload selector endBlock clauses
                      Build.positionAtEnd endBlock) := by
                have hbodies := hsub.flatMap fun clause => clause.body.toList
                rw [List.flatMap_map] at hbodies
                exact ((collects_dispatchClauses pad payload selector endBlock clauses).of_sublist
                  hbodies).first fun _ => .quiet
              exact .skip fun _ => .skip fun _ => .skip fun _ => .skip fun _ => .skip fun _ =>
                .skip fun pad => .skip fun payload => .skip fun selector =>
                  hdispatch pad payload selector

end

/-! ### Callables -/

/-- The body of a callable. All of its exceptions are kept back: they come out of its calls. -/
theorem gathers_body {pending : PendingCallable} {stmt : Node} {throws : ThrowSet}
    {s s' : Lowering} (hs : s.IsReady bodies [stmt]) (h : r.body pending stmt s = .ok (throws, s'))
    (hend : s'.LeadsTo c) : s.Gathers bodies c (fun _ _ => True) [stmt] s' := by
  obtain ⟨entry, s₁, hentry, h⟩ := bind_eq_ok_iff.1 h
  obtain ⟨start, s₂, hstart, h⟩ := bind_eq_ok_iff.1 h
  obtain ⟨-, hs₁, -⟩ :=
    (Secures.build (Build.appendBlock pending.function "entry")).run hs.intact hentry
  obtain ⟨-, hs₂, -⟩ := (Secures.build (Build.appendBlock pending.function "body")).run hs₁ hstart
  have hcalm : s.StaysCalm bodies s₂ :=
    (staysCalm_of_build hentry).trans (staysCalm_of_build hstart)
  have hstmt : Collects bodies c (fun _ _ => True) [stmt] (r.statement (some stmt)) :=
    collects_statement (some stmt)
  have : Composed (IsCalm bodies) .anywhere (bindReceived pending) := .part fun _ _ _ =>
    Composed.staysCalm (L := Leeway.anywhere.makingRoom) inferInstance
  have : Composed IsSecured .anywhere (bindReceived pending) := .part fun _ =>
    Composed.isSecure (L := Leeway.anywhere.makingRoom) inferInstance
  refine .of_calm hs hcalm (Collects.gathers_inFunction ?_ (hs.of_calm hs₂ hcalm) h hend)
  exact .skip fun _ => .skip fun _ => .skip fun _ => hstmt.framed fun _ _ => .quiet

theorem collects_define [r.IsComposed] [r.IsSecure] (node : Nat) :
    Collects bodies c (fun _ _ => True) (bodies node).toList (r.define node) where
  proceeds {s u s'} hs hrun := by
    obtain ⟨hretains, hs', -⟩ := (isSecure_define node s).run hs hrun
    have hlater : Composed Elementary .anywhere (r.define node) := inferInstance
    exact ⟨hs', hretains.tables, (hlater.later_of hrun).module⟩
  gathers {s u s'} hs hrun hend := by
    unfold define at hrun
    rw [bind_of_ok (get_apply s)] at hrun
    cases hpending : s.pass.pending.get? node with
    | none =>
        rw [hpending] at hrun
        cases hrun
        exact ((Lowering.StaysCalm.refl s).gathers hs.expects).of_sublist hs (List.nil_sublist _)
    | some pending =>
        rw [hpending] at hrun
        obtain ⟨⟨⟩, s₁, herase, hrun⟩ := bind_eq_ok_iff.1 hrun
        -- The callable waits no longer for its body.
        have hcalm : s.StaysCalm bodies s₁ := by
          cases herase
          exact .of_stack (.refl _) rfl rfl fun hs _ _ _ hp => hs (Table.get?_of_get?_erase hp)
        have hs₁ : s₁.IsIntact := by
          cases herase
          exact ⟨hs.intact.tables, fun hp => hs.intact.pending (Table.get?_of_get?_erase hp),
            hs.intact.fatal⟩
        have hfinds : s₁.context.Finds pending.function pending.owner := by
          cases herase
          exact hs.intact.pending hpending
        cases hbody : pending.body with
        | none =>
            rw [hbody] at hrun
            cases hrun
            exact (hcalm.gathers hs.expects).of_sublist hs (List.nil_sublist _)
        | some stmt =>
            rw [hbody] at hrun
            obtain ⟨throws, s₂, hlowered, hrecord⟩ := bind_eq_ok_iff.1 hrun
            rw [hs.expects hpending hbody] at hs ⊢
            have hsecured : Composed IsSecured .anywhere (r.body pending stmt) := inferInstance
            obtain ⟨hretains₂, hs₂⟩ := hsecured.retains hlowered (fun _ hindex => hindex.elim) hs₁
            obtain ⟨hretains', -, -⟩ :=
              (isSecure_recordThrows (hfinds.mono hretains₂.tables)).run hs₂ hrecord
            have hrecorded : Composed (IsCalm bodies) .anywhere (recordThrows pending throws) :=
              inferInstance
            have hcalm' := hrecorded.staysCalm hrecord
            have hend₂ : s₂.LeadsTo c :=
              ⟨hretains'.tables.trans hend.retains, hcalm'.module.trans hend.module⟩
            refine .of_calm hs hcalm ?_
            exact (gathers_body (hs.of_calm hs₁ hcalm) hlowered hend₂).noted hcalm'
              fun _ _ _ _ _ => .inr trivial

/-! ### Declarations -/

section

variable [r.IsComposed] [r.IsSecure]

theorem collects_function {node : Nat} {decl : FunctionDecl Node} {span : Span}
    (hbody : bodies node = decl.body) :
    Collects bodies c (fun _ _ => True) decl.body.toList (r.function node decl span) := by
  have := Postpones.of_bodies hbody
  have : Composed IsSecured .anywhere (r.declareFunction node decl span).run :=
    .part fun s _ => (grants_declareFunction node decl span s).unit
  unfold function
  refine .skip fun f => ?_
  cases f with
  | some f => exact .quiet
  | none =>
      rw [← hbody]
      exact .skip fun _ => collects_define node

theorem collects_operator {node : Nat} {decl : OperatorDecl Node} {span : Span}
    (hbody : bodies node = decl.body) :
    Collects bodies c (fun _ _ => True) decl.body.toList (r.operator node decl span) := by
  have := Postpones.of_bodies hbody
  have : Composed IsSecured .anywhere (r.declareOperator node decl span).run :=
    .part fun s _ => (grants_declareOperator node decl span s).unit
  unfold operator
  refine .skip fun f => ?_
  cases f with
  | some f => exact .quiet
  | none =>
      rw [← hbody]
      exact .skip fun _ => collects_define node

theorem collects_defineMembers {methods : List (Option Node)}
    (hbodies : ∀ f, some f ∈ methods → bodies f.id = f.body?) :
    Collects bodies c (fun _ _ => True)
      (methods.flatMap fun method => (method.bind Node.body?).toList)
      (r.defineMembers methods) := by
  induction methods with
  | nil => exact .quiet (x := pure ())
  | cons method rest ih =>
      rw [List.flatMap_cons]
      unfold defineMembers
      refine .skip fun ended => ?_
      split
      · exact .quiet
      · have hrest := ih fun f hf => hbodies f (.tail _ hf)
        cases method with
        | none => exact .skip (x := pure ()) fun _ => hrest
        | some f =>
            change Collects bodies c (fun _ _ => True) (f.body?.toList ++ _) _
            rw [← hbodies f (.head _)]
            exact (collects_define f.id).seq fun _ => hrest

theorem collects_object {node : Nat} {decl : ObjectDecl Node} {span : Span}
    (hbodies : ∀ f, some f ∈ decl.methods → bodies f.id = f.body?) :
    Collects bodies c (fun _ _ => True)
      (decl.methods.flatMap fun method => (method.bind Node.body?).toList)
      (r.object node decl span) := by
  have (L : Leeway) (object : TypeId) :
      Composed (IsCalm bodies) L (r.declareMembers object decl.methods) :=
    composed_declareMembers object fun f hf => .of_bodies (hbodies f hf)
  have : Composed IsSecured .anywhere (r.declareObject node decl span).run :=
    .part fun s _ => (grants_declareObject node decl span s).unit
  unfold object
  refine .skip fun f => ?_
  cases f with
  | some f => exact .quiet
  | none => exact .skip fun _ => collects_defineMembers hbodies

end

/-! ### Nodes -/

section

variable {n : Nat} [(within n).IsCollecting bodies c]

theorem collects_lowerKind {node : Node}
    (hbodies : ∀ f ∈ node.callables, bodies f.id = f.body?) :
    Collects bodies c (node.Stops c) node.parts ((within n).lowerKind node) := by
  have hnoValue {x : Attempt Unit} {stops : Node → TypeId → Prop} {ps : List Node}
      (hx : Collects bodies c stops ps x.run) : Collects bodies c stops ps x.noValue :=
    (hx.first (f := fun _ => pure PUnit.unit) fun _ => .quiet).noValue
  have hchain (node : Node) : Collects bodies c (node.Stops c) (Node.tested (some node))
      ((within n).boolChain node).run := collects_boolChain node
  obtain ⟨id, span, kind⟩ := node
  unfold lowerKind
  cases kind with
  | binary op lhs rhs => exact collects_binary op lhs rhs span
  | logical op terms => exact hchain ⟨id, span, .logical op terms⟩
  | comparison first rest => exact hchain ⟨id, span, .comparison first rest⟩
  | unary op operand => exact collects_unary op operand span
  | assign op target value => exact collects_assign op target value span
  | call callee args => exact collects_call callee args span
  | methodCall receiver method args => exact collects_methodCall receiver method args span
  | member base name => exact collects_member base name span
  | index base offset => exact collects_index base offset span
  | cast expr ty => exact collects_cast expr ty span
  | construct ty args heap => exact collects_construct ty args heap span
  | delete operand => exact hnoValue (collects_delete operand span)
  | debugPrint expr => exact collects_debugPrint expr span
  | print args => exact hnoValue (collects_print args span)
  | throw value => exact hnoValue (collects_throwValue value span)
  | tryCatch body catches =>
      refine (collects_tryCatch fun p hp ty hty => ?_).noValue
      cases Option.mem_def.1 hp
      rcases hty with rfl | ⟨clause, hclause, hty⟩
      · exact .dropped rfl
      · exact .caught rfl hclause hty
  | varDecl ty vars => exact hnoValue (collects_declareVariables ty vars span)
  | ifElse cond thenBranch elseBranch =>
      exact (collects_ifElse cond thenBranch elseBranch).noValue
  | whileLoop cond body => exact (collects_whileLoop cond body).noValue
  | forLoop init cond step body => exact (collects_forLoop init cond step body).noValue
  | switch scrutinee cases default autoBreak =>
      exact hnoValue (collects_switch scrutinee cases default autoBreak span)
  | returnStmt value => exact hnoValue (collects_returnFrom value span)
  | block stmts => exact (collects_sequence stmts).noValue
  | function decl =>
      refine (Collects.noValue (collects_function ?_)).imp fun _ _ _ _ => .declared (.function decl)
      exact hbodies _ (.head _)
  | object decl =>
      refine (Collects.noValue (collects_object fun f hf => ?_)).imp
        fun _ _ _ _ => .declared (.object decl)
      exact hbodies f (List.mem_flatMap.2 ⟨some f, hf, by simp⟩)
  | operator decl =>
      refine (Collects.noValue (collects_operator ?_)).imp fun _ _ _ _ => .declared (.operator decl)
      exact hbodies _ (.head _)
  | module items => exact (collects_sequence items).noValue
  | _ => exact .quiet

theorem collects_lowerHere {node : Node}
    (hbodies : ∀ f ∈ node.callables, bodies f.id = f.body?) :
    Collects bodies c (node.Stops c) node.parts ((within n).lowerHere node) := by
  have (P : Parts) : Composed P .anywhere (modifyPass fun p => { p with span := node.span }) :=
    .note _ (.of_same (fun _ => ⟨rfl, rfl, rfl, rfl, rfl, rfl⟩) (fun _ => rfl) fun _ => rfl)
  unfold lowerHere
  refine .skip fun _ => .skip fun f => ?_
  split
  · exact .quiet
  · exact collects_lowerKind hbodies

end

end Recur

end SsaCompiler
