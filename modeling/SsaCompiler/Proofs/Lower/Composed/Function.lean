/-
# Handlers and functions are put together from the steps of lowering

One instance for each function that lowers exceptions, and for each one that writes the body of a
function.
-/

import SsaCompiler.Proofs.Lower.Composed.Expression

namespace SsaCompiler

open Lower

-- One computation may consist of a good many steps.
set_option synthInstance.maxSize 4096

variable {P : Parts} [HasSteps P] {L : Leeway} {r : Recur}

instance [r.HasTypes P] (span : Span) (known : List (CatchClause Node × TypeId))
    (clauses : List (CatchClause Node)) : Composed P L (r.catchClauses span known clauses) := by
  induction clauses generalizing known with
  | nil =>
      unfold Recur.catchClauses
      infer_instance
  | cons clause rest ih =>
      unfold Recur.catchClauses
      refine .bind fun _ => ?_
      split <;> infer_instance

section

variable [L.IsCode] [r.HasParts P]

/-! ### Exceptions -/

instance (ty : TypeId) : Composed P L (typeDescriptor ty) := by
  have (table : ThrowableTable) :
      Composed P L (modifyContext fun c => { c with throwables := table }) :=
    HasSteps.entries (fun _ => ⟨rfl, rfl, rfl, rfl, rfl, rfl, rfl⟩) (fun _ => rfl)
      ⟨fun _ => rfl, fun _ _ => rfl⟩
  unfold typeDescriptor
  exact .bind fun _ => .get (fun _ _ => rfl) fun _ => inferInstance

omit [L.IsCode] in
instance [L.IsApart] (thunk : FunctionId) (ty : TypeId) (entry : OperatorEntry) :
    Composed P L (liftM (destructorBody thunk ty entry) : Lower Unit) := by
  have (byAddress : Bool) : Composed P L (liftM (do
      Build.positionAtEnd (← Build.appendBlock thunk "entry")
      let raw ← Build.param thunk 0
      let typed ← Build.cast .bitcast raw (← Build.pointerType ty)
      let arg ← if byAddress then pure typed else Build.load typed
      let _ ← Build.call entry.function [arg]
      Build.ret none : Build Unit) : Lower Unit) := .entryBuild fun _ => inferInstance
  unfold destructorBody
  split <;> infer_instance

instance (ty : TypeId) (span : Span) : Composed P L (destructorThunk ty span).run := by
  unfold destructorThunk
  refine HasSteps.found _ _ inferInstance fun index => .andThen fun label => ?_
  refine HasSteps.operator index s!"operator delete({label})" fun entry => ?_
  refine .andThen fun _ => .andThen fun _ => .andThen fun _ => .andThen fun _ => ?_
  exact .comingBackThen inferInstance

instance (ty : TypeId) (span : Span) : Composed P L (throwDestructor ty span).run := by
  have (f : FunctionId) : Composed P L (modifyContext fun c =>
      { c with throwables := c.throwables.setDestructor ty f }) :=
    HasSteps.entries (fun _ => ⟨rfl, rfl, rfl, rfl, rfl, rfl, rfl⟩) (fun _ => rfl)
      ⟨fun _ => rfl, fun _ _ => rfl⟩
  unfold throwDestructor
  refine .andThen fun _ => .andThen fun _ => ?_
  split
  · infer_instance
  · refine .getThen (fun _ _ => rfl) fun _ => ?_
    split <;> infer_instance

instance (op : Operand) (span : Span) : Composed P L (throwOperand op span).run := by
  unfold throwOperand
  refine .andThen fun _ => .andThen fun _ => .andThen fun _ => .andThen fun _ =>
    .andThen fun _ => .andThen fun _ => .andThen fun _ => .andThen fun _ => ?_
  infer_instance

instance (handled : List TypeId) (catchAll : Bool) :
    Composed P L (emitLandingPad handled catchAll) := by
  unfold emitLandingPad
  exact .get (fun _ _ => rfl) fun _ => inferInstance

instance (selector : ValueId) (ty : TypeId) : Composed P L (selectorIs selector ty) := by
  unfold selectorIs
  infer_instance

instance (selector : ValueId) (ty : TypeId) (catchBlock : BlockId) [L.Targets catchBlock] :
    Composed P L (catchTest selector ty catchBlock) := by
  unfold catchTest
  exact .bind fun _ => .fresh _ (by decide) fun _ => inferInstance

instance (pad : ValueId) : Composed P L (forwardException pad) := by
  unfold forwardException
  refine .outer (fun _ _ => rfl) fun s => ?_
  split
  · rename_i frame _ htries
    have : (L.toward s.pass).Targets frame.dispatch :=
      Leeway.targets_toward (Pass.mem_aims_of_tries htries).2
    infer_instance
  · infer_instance

instance (payload : ValueId) : Composed P L (beginCatch payload) := by
  unfold beginCatch
  infer_instance

instance (endBlock : BlockId) [L.Targets endBlock] : Composed P L (endCatch endBlock) := by
  unfold endCatch
  infer_instance

instance (handled : List TypeId) (payload selector : ValueId) (endBlock : BlockId)
    [L.Targets endBlock] : Composed P L (dispatchImplicit handled payload selector endBlock) := by
  unfold dispatchImplicit
  exact .fresh _ (by decide) fun _ => inferInstance

instance (value : Option Node) (span : Span) : Composed P L (r.throwValue value span).run := by
  unfold Recur.throwValue
  infer_instance

instance (clause : CatchClause Node) (ty : TypeId) (payload : ValueId) (endBlock : BlockId)
    [L.Targets endBlock] : Composed P L (r.catchBody clause ty payload endBlock) := by
  unfold Recur.catchBody
  refine .bind fun _ => .bind fun _ => .bind fun _ => .bind fun _ => .bind fun _ =>
    .bind fun _ => .bind fun _ => ?_
  split <;> infer_instance

instance (pad payload selector : ValueId) (endBlock : BlockId) [L.Targets endBlock]
    (clauses : List (CatchClause Node × TypeId)) :
    Composed P L (r.dispatchClauses pad payload selector endBlock clauses) := by
  induction clauses generalizing L with
  | nil =>
      unfold Recur.dispatchClauses
      infer_instance
  | cons clause rest ih =>
      unfold Recur.dispatchClauses
      exact .bind fun _ => .fresh _ (by decide) fun _ => .fresh _ (by decide) fun _ => inferInstance

instance (frame : TryFrame) [L.Targets frame.landing] [L.Targets frame.dispatch]
    (body : Option Node) : Composed P L (r.tryBody frame body) :=
  inferInstanceAs (Composed P L (withTry frame (r.statement body)))

instance [∀ (L : Leeway) (fields : List TypeId),
      Composed P L (liftM (Build.recordType fields) : Lower TypeId)] (body : Option Node)
      (catches : List (CatchClause Node)) (span : Span) :
    Composed P L (r.tryCatch body catches span) := by
  unfold Recur.tryCatch
  refine .bind fun _ => ?_
  split
  · infer_instance
  · refine .bind fun _ => .bind fun _ => .bind fun _ => .fresh _ (by decide) fun _ =>
      .fresh _ (by decide) fun _ => .fresh _ (by decide) fun _ => .bind fun _ => .bind fun _ =>
        .bind fun _ => .bind fun _ => .bind fun _ => .bind fun _ => ?_
    dsimp only
    split
    · refine .bind fun _ => .bind fun _ => .bind fun _ => .bind fun _ => ?_
      infer_instance
    · refine .bind fun _ => .bind fun _ => .bind fun _ => .bind fun _ => .bind fun _ => ?_
      infer_instance

/-! ### Bodies -/

instance (node : Nat) : Composed P L (markDeclared node) := by
  have : Composed P L (modifyPass fun p => { p with declared := node :: p.declared }) :=
    .note _ (.of_same (fun _ => ⟨rfl, rfl, rfl, rfl, rfl, rfl⟩) (fun _ => rfl) fun _ => rfl)
  unfold markDeclared
  exact .get (fun _ _ => rfl) fun _ => inferInstance

end

section

variable [L.Binds] [L.MakesRoom]

instance (function : FunctionId) (object : TypeId) : Composed P L (bindThis function object) := by
  unfold bindThis
  exact .bind fun _ => .bind fun _ => .bind fun _ => .bind fun _ =>
    .get (fun _ _ => rfl) fun _ => inferInstance

instance (function : FunctionId) (index : Nat) (params : List (Name × ParamSig)) :
    Composed P L (bindParams function index params) := by
  induction params generalizing index with
  | nil =>
      unfold bindParams
      infer_instance
  | cons param rest ih =>
      unfold bindParams
      infer_instance

instance (pending : PendingCallable) : Composed P L (bindReceived pending) := by
  unfold bindReceived
  split <;> infer_instance

end

instance [r.HasParts P] (pending : PendingCallable) (stmt : Node) :
    Composed P L (r.body pending stmt) := by
  refine .withBody pending.function (fun _ => rfl) fun allocaBlock bodyBlock => ?_
  exact .enterThen inferInstance fun _ => .bind fun _ => .framed fun _ _ => inferInstance

/-! ### The operators of a dynamic array -/

instance (buffer : ValueId) : Composed P L (DynamicArray.freeBuffer buffer) := by
  unfold DynamicArray.freeBuffer
  infer_instance

instance [L.IsApart] (f : FunctionId) : Composed P L (DynamicArray.indexBody f) := by
  unfold DynamicArray.indexBody
  refine .bind fun _ => .entryIn inferInstance _ fun _ =>
    .freshIn inferInstance _ _ (by decide) fun _ => .freshIn inferInstance _ _ (by decide) fun _ =>
      .bind fun _ => .bind fun _ => .bind fun _ => .bind fun _ => .bind fun _ => .bind fun _ =>
        .bind fun _ => .bind fun _ => .bind fun _ => .bind fun _ => .bind fun _ => ?_
  infer_instance

section

variable (b : DynamicArray.AppendBlocks) (v : DynamicArray.AppendValues)

instance (f : FunctionId) (long : TypeId) [hentry : L.Offers b.entry] [hroom : L.Enters b.entry]
    [L.Targets b.grow] [L.Targets b.push] :
    Composed P L (liftM (DynamicArray.appendEntry f long b) : Lower DynamicArray.AppendValues) := by
  unfold DynamicArray.appendEntry
  rw [build_bind]
  exact .enter b.entry hentry hroom inferInstance

instance (long : TypeId) [L.Offers b.grow] [L.Offers b.first] [L.Offers b.double]
    [L.Offers b.alloc] [L.Targets b.first] [L.Targets b.double] [L.Targets b.alloc] :
    Composed P L (liftM (DynamicArray.newCapacity long b v) : Lower ValueId) := by
  have (four doubled : ValueId) : Composed P L (liftM (do
      Build.positionAtEnd b.alloc
      Build.phi long [(four, b.first), (doubled, b.double)] : Build ValueId) : Lower ValueId) :=
    HasSteps.choose b.alloc _ _
  unfold DynamicArray.newCapacity
  infer_instance

instance (elemPtr long : TypeId) (elemSize : Int64) (capacity : ValueId) :
    Composed P L (DynamicArray.newBuffer elemPtr long elemSize capacity) := by
  unfold DynamicArray.newBuffer
  refine .bind fun _ => .bind fun _ => .bind fun _ => ?_
  split <;> infer_instance

variable (newData oldData capacity : ValueId)

instance [L.Offers b.copyCond] [L.Offers b.copyBody] [L.Targets b.copyCond]
    [L.Targets b.copyBody] [L.Targets b.copyDone] :
    Composed P L (liftM (DynamicArray.copyElements b v newData oldData) : Lower Unit) := by
  unfold DynamicArray.copyElements
  simp only [build_bind]
  refine .bind fun _ => .bind fun _ => .bind fun _ => .bind fun _ => .bind fun _ => .bind fun _ =>
    .bind fun _ => ?_
  infer_instance

instance [L.Offers b.copyDone] [L.Offers b.freeOld] [L.Offers b.commit] [L.Targets b.freeOld]
    [L.Targets b.commit] [L.Targets b.push] :
    Composed P L (DynamicArray.replaceBuffer b v newData oldData capacity) := by
  unfold DynamicArray.replaceBuffer
  refine .bind fun _ => .bind fun _ => .bind fun _ => .bind fun _ => .bind fun _ => ?_
  infer_instance

instance [L.Offers b.push] : Composed P L (liftM (DynamicArray.storeElement b v) : Lower Unit) := by
  unfold DynamicArray.storeElement
  infer_instance

end

instance [L.IsApart] (f : FunctionId) (elem : TypeId) :
    Composed P L (DynamicArray.appendBody f elem) := by
  unfold DynamicArray.appendBody DynamicArray.appendBlocks
  simp only [build_bind, bind_assoc, build_pure, pure_bind]
  refine .bind fun _ => .bind fun _ => .bind fun _ => ?_
  refine .entryIn inferInstance _ fun _ => ?_
  iterate 10 refine .freshIn inferInstance _ _ (by decide) fun _ => ?_
  infer_instance

instance [L.IsApart] (f : FunctionId) : Composed P L (DynamicArray.deleteBody f) := by
  unfold DynamicArray.deleteBody
  refine .bind fun _ => .entryIn inferInstance _ fun _ =>
    .freshIn inferInstance _ _ (by decide) fun _ => .freshIn inferInstance _ _ (by decide) fun _ =>
      .bind fun _ => .bind fun _ => .bind fun _ => .bind fun _ => .bind fun _ => .bind fun _ =>
        .bind fun _ => .bind fun _ => .bind fun _ => .bind fun _ => .bind fun _ => .bind fun _ =>
          .bind fun _ => ?_
  infer_instance

end SsaCompiler
