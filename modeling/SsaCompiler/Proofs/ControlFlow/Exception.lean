/-
# Exceptions stay inside their function

A `try` opens three blocks: the one where exceptions arrive, the one where the search for a
handler starts, and the one behind the `try`. The body is lowered while the first two are known
to every call in it. Afterwards they are taken up in turn: each test of the search ends in a
handler or in the next test, and the last one in the search of the `try` around it, which lies in
the same function, or in the end of the function. The function that disposes of a thrown object
is made on the way, without touching the code that is being written.
-/

import SsaCompiler.Proofs.ControlFlow.Statement

namespace SsaCompiler

open Lower

variable {α : Type} {m : Module} {scope : Option FunctionId} {f : FunctionState}
  {blocks : List BlockId} {g : FunctionId} {r : Recur} [r.Sound]

/-! ### Descriptors -/

/-- A descriptor is known, and so are all others in the table afterwards. -/
theorem ThrowableTable.descriptor_quiet {t : ThrowableTable} (ty : TypeId) (label : String)
    (ht : t.descriptors.All fun v => m.Known v) :
    Build.Quiet m (t.descriptor ty label) fun m p =>
      m.Known p.1 ∧ p.2.descriptors.All fun v => m.Known v := by
  unfold ThrowableTable.descriptor
  split
  · rename_i d hd
    have := ht.get? hd
    exact .pure fun _ => ⟨inferInstance, ht.imp fun _ => inferInstance⟩
  · refine .bind fun _ _ _ _ => .bind fun _ _ _ _ => .bind fun _ _ _ _ => .bind fun _ _ _ _ => ?_
    refine .bind ?_
    intro global m₁ _ hglobal
    refine .bind fun _ m₂ _ _ => .bind fun _ m₃ _ _ => .bind fun _ m₄ _ _ =>
      .bind fun _ m₅ _ _ => ?_
    refine .pure fun _ => ⟨inferInstance, Table.All.insert (ht.imp fun _ => ?_) inferInstance⟩
    infer_instance

instance (ty : TypeId) : Straight m scope (typeDescriptor ty) fun m v => m.Avail scope v := by
  unfold typeDescriptor
  refine .bind fun _ m₁ _ _ => .bind ?_
  intro s m₂ _ hs
  have := ThrowableTable.descriptor_quiet ty ‹_› hs.context.descriptors
  refine .bind ?_
  rintro ⟨global, table⟩ m₃ _ ⟨hglobal, htable⟩
  have : Quiet m₃ (modifyContext fun c => { c with throwables := table }) fun _ _ => True :=
    .modifyContext (fun _ h => ⟨htable.imp fun _ => inferInstance, h.templates⟩) fun _ => rfl
  refine .bind fun _ m₄ _ _ => .bind fun _ m₅ _ _ => ?_
  infer_instance

/-! ### Throwing -/

/-- The function that disposes of a thrown object is one block that ends. -/
instance (thunk : FunctionId) (ty : TypeId) (entry : OperatorEntry) :
    Leads m (Module.Resting blocks) (destructorBody thunk ty entry)
      (fun _ => Module.Resting blocks) fun _ _ => True := by
  have hrest (m₁ : Module) (byAddress : Bool) : Leads m₁ (Module.Resting blocks) (do
      Build.positionAtEnd (← Build.appendBlock thunk "entry")
      let raw ← Build.param thunk 0
      let typed ← Build.cast .bitcast raw (← Build.pointerType ty)
      let arg ← if byAddress then pure typed else Build.load typed
      let _ ← Build.call entry.function [arg]
      Build.ret none) (fun _ => Module.Resting blocks) fun _ _ => True := by
    refine .bind ?_
    rintro entryBlock m₂ _ ⟨hfresh, _⟩
    refine Build.takeUp thunk blocks (fun c => List.mem_cons) hfresh fun m₃ _ => .bind ?_
    intro raw m₄ _ hraw
    refine .bind fun _ _ _ _ => .bind ?_
    intro typed m₅ _ htyped
    have hend (m₆ : Module) (arg : ValueId) [m₆.Avail (some thunk) arg] :
        Leads m₆ (Module.Writing thunk blocks) (do
          let _ ← Build.call entry.function [arg]
          Build.ret none) (fun _ => Module.Resting blocks) fun _ _ => True :=
      .bind fun _ _ _ _ => inferInstance
    dsimp only
    split
    · exact hend m₅ typed
    · refine .bind ?_
      intro arg m₆ _ harg
      exact hend m₆ arg
  unfold destructorBody
  split
  · exact .bind fun _ _ _ _ => hrest _ _
  · exact hrest _ _

instance (ty : TypeId) (span : Span) :
    Quiet m (destructorThunk ty span).run (OnSome fun _ _ => True) := by
  unfold destructorThunk
  refine .andThen fun _ _ _ _ => ?_
  split
  · exact .refuse inferInstance
  · refine .andThen fun _ _ _ _ => .andThen fun _ _ _ _ => ?_
    split
    · exact .refuse inferInstance
    · refine .andThen fun _ _ _ _ => .andThen fun _ _ _ _ => .andThen fun _ _ _ _ =>
        .andThen fun _ m₁ _ _ => ?_
      refine Quiet.of_leads fun func bindings p blocks => ?_
      have hget : Leads m₁ (Lowering.Holding func bindings (Module.Open p blocks)) get _ _ :=
        get_leads
      refine .andSeq (.lift (x := get)) ?_
      rintro s m₂ _ ⟨hs, -⟩
      obtain rfl : s.module.position = p := hs.1.2.2.position
      refine .fromRest (.andThen fun _ m₃ _ _ => .andThen fun _ m₄ _ _ => ?_)
      exact .pure id fun _ _ _ => trivial

instance (ty : TypeId) (span : Span) :
    Straight m scope (throwDestructor ty span).run (OnSome fun m v => m.Avail scope v) := by
  have hsetDestructor (m : Module) (thunk : FunctionId) : Quiet m
      (modifyContext fun c => { c with throwables := c.throwables.setDestructor ty thunk })
      fun _ _ => True :=
    .modifyContext (fun _ h => ⟨h.descriptors, h.templates⟩) fun _ => rfl
  have hptr (m : Module) (thunk : FunctionId) (bytes : TypeId) : Straight m scope (do
      let ptr ← (Build.functionPtr thunk : Build ValueId)
      (Build.cast .bitcast ptr bytes : Build ValueId) : Attempt ValueId).run
      (OnSome fun m v => m.Avail scope v) := by
    refine .andThen ?_
    intro ptr m₁ _ hptr
    infer_instance
  unfold throwDestructor
  refine .andThen fun _ _ _ _ => .andThen fun _ _ _ _ => ?_
  split
  · exact Keeps.imp inferInstance fun _ hv v heq => have := hv v heq; inferInstance
  · refine .andThen fun _ _ _ _ => ?_
    dsimp only
    split
    · exact hptr _ _ _
    · exact .andThen fun _ _ _ _ => .andThen fun _ _ _ _ => hptr _ _ _

instance (op : Operand) (span : Span) [m.Avail (some g) op.value] :
    Straight m (some g) (throwOperand op span).run (OnSome fun _ _ => True) := by
  unfold throwOperand
  refine .andThen fun _ _ _ _ => .andThen ?_
  intro destructor m₁ _ hdestructor
  refine .andThen ?_
  intro value m₂ _ hvalue
  refine .andThen fun _ _ _ _ => .andThen fun _ _ _ _ => .andThen ?_
  intro size m₃ _ hsize
  refine .andThen ?_
  intro raw m₄ _ hraw
  refine .andThen fun _ _ _ _ => .andThen ?_
  intro slot m₅ _ hslot
  refine .andThen fun _ m₆ _ _ => .andThen ?_
  intro descriptor m₇ _ hdescriptor
  refine .andThen fun _ m₈ _ _ => .andThen fun _ m₉ _ _ => ?_
  refine Straight.of_leads ?_
  rintro fs blocks rfl hreserved
  exact .andThen fun _ _ _ _ => .last inferInstance

instance (value : Option Node) (span : Span) [Linked value] :
    Straight m (some g) (r.throwValue value span).run (OnSome fun _ _ => True) := by
  unfold Recur.throwValue
  refine .andThen ?_
  intro op m₁ _ hop
  infer_instance

/-! ### Landing pads -/

/-- The descriptors of several types. -/
instance (tys : List TypeId) :
    Straight m scope (tys.mapM typeDescriptor) fun m vs => m.AllAvail scope vs := by
  induction tys generalizing m with
  | nil =>
      rw [List.mapM_nil]
      exact .pure fun _ => inferInstance
  | cons ty rest ih =>
      rw [List.mapM_cons]
      refine .bind ?_
      intro v m₁ _ hv
      refine .bind ?_
      intro vs m₂ _ hvs
      exact .pure fun _ => inferInstance

instance (handled : List TypeId) (catchAll : Bool) :
    Straight m scope (emitLandingPad handled catchAll) fun m v => m.Avail scope v := by
  unfold emitLandingPad
  refine .bind fun _ _ _ _ => .bind ?_
  intro clauses m₁ _ hclauses
  infer_instance

instance (selector : ValueId) (ty : TypeId) [m.Avail scope selector] :
    Straight m scope (selectorIs selector ty) fun m v => m.Avail scope v := by
  unfold selectorIs
  refine .bind ?_
  intro descriptor m₁ _ hdescriptor
  refine .bind ?_
  intro id m₂ _ hid
  infer_instance

/-- A test ends the current block and goes on in a new one. -/
instance (selector : ValueId) (ty : TypeId) (catchBlock : BlockId) [m.Avail (some g) selector]
    [m.HasBlock g catchBlock] : Straight m (some g) (catchTest selector ty catchBlock)
      fun _ _ => True := by
  refine Straight.of_leads ?_
  rintro fs blocks rfl hreserved
  unfold catchTest
  refine .bind ?_
  intro hit m₁ _ hhit
  refine .bind ?_
  rintro next m₂ _ ⟨hfresh, hnext⟩
  refine .bind fun _ m₃ _ _ => ?_
  exact takeUp_leads (fun c => List.mem_cons) hfresh

section

variable {selector payload pad : ValueId} [m.Avail (some f.id) selector]
  [m.Avail (some f.id) payload] [m.Avail (some f.id) pad] {endBlock : BlockId}
  [m.HasBlock f.id endBlock]

/-- The `try` around the current one lies in the same function. -/
instance [Reserved f blocks] : Leads m (Busy f blocks) (forwardException pad)
    (fun _ => Idle f blocks) fun _ _ => True := by
  unfold forwardException
  refine .bind ?_
  intro s m₁ _ hs
  split
  · rename_i outer _ htries
    obtain ⟨_, ⟨rfl⟩, -, hdispatch, hslot⟩ := hs.pass.tries outer (htries ▸ List.mem_cons_self)
    exact .bind fun _ _ _ _ => inferInstance
  · infer_instance

instance : Straight m (some f.id) (beginCatch payload) fun m v => m.Avail (some f.id) v := by
  unfold beginCatch
  refine .bind ?_
  intro o m₁ _ ho
  have : m₁.Avail (some f.id) (o.getD payload) := ho.getD
  exact .pure fun _ => inferInstance

instance [Reserved f blocks] : Leads m (Busy f blocks) (endCatch endBlock)
    (fun _ => Idle f blocks) fun _ _ => True := by
  unfold endCatch
  refine .seq .notEnded ?_
  rintro _ m₁ _ rfl
  exact .bind fun _ _ _ _ => inferInstance

instance (handled : List TypeId) [Reserved f blocks] :
    Leads m (Busy f blocks) (dispatchImplicit handled payload selector endBlock)
      (fun _ => Idle f blocks) fun _ _ => True := by
  unfold dispatchImplicit
  refine .bind ?_
  rintro catchBlock m₁ _ ⟨hfresh, hcatch⟩
  have htests : Straight m₁ (some f.id) (forIn handled PUnit.unit fun ty _ => do
      catchTest selector ty catchBlock
      pure (ForInStep.yield PUnit.unit)) fun _ _ => True :=
    .forIn fun ty _ _ m₂ _ => .bind fun _ _ _ _ => .pure fun _ => trivial
  refine .bind fun _ m₂ _ _ => .bind fun _ m₃ _ _ => .bind fun _ m₄ _ _ => ?_
  refine .takeUp blocks (fun c => List.mem_cons) hfresh fun m₅ _ => ?_
  exact .bind fun _ _ _ _ => inferInstance

end


/-! ### Handlers -/

/-- Handlers whose bodies belong to the tree. -/
class ClausesLinked (clauses : List (CatchClause Node × TypeId)) : Prop where
  all : ∀ c ∈ clauses, Linked c.1.body

instance (span : Span) (known : List (CatchClause Node × TypeId))
    (catches : List (CatchClause Node)) [hknown : ClausesLinked known]
    [hcatches : AllLinked (catches.map (·.body))] :
    Quiet m (r.catchClauses span known catches) fun _ clauses => ClausesLinked clauses := by
  induction catches generalizing m known hknown hcatches with
  | nil =>
      unfold Recur.catchClauses
      exact .pure fun _ => hknown
  | cons clause rest ih =>
      obtain ⟨hclause, hrest⟩ := hcatches.cons
      unfold Recur.catchClauses
      refine .bind fun _ _ _ _ => ?_
      split
      · exact ih known
      · split
        · exact .bind fun _ _ _ _ => .bind fun _ _ _ _ => ih known
        · rename_i ty _ _
          have : ClausesLinked (known ++ [(clause, ty)]) := by
            refine ⟨fun c hc => ?_⟩
            rcases List.mem_append.1 hc with hc | hc
            · exact hknown.all c hc
            · rw [List.mem_singleton.1 hc]
              exact hclause
          exact ih _

/-- A handler: the name of the exception hides another variable only while the body is
lowered. -/
instance (clause : CatchClause Node) (ty : TypeId) (payload : ValueId) (endBlock : BlockId)
    [Linked clause.body] [m.Avail (some f.id) payload] [m.HasBlock f.id endBlock]
    [Reserved f blocks] : Leads m (Busy f blocks) (r.catchBody clause ty payload endBlock)
      (fun _ => Idle f blocks) fun _ _ => True := by
  unfold Recur.catchBody
  refine .bind ?_
  intro raw m₁ _ hraw
  refine .bind fun _ _ _ _ => .bind ?_
  intro typed m₂ _ htyped
  refine .bind ?_
  intro t m₃ _ ht
  refine .bind fun _ m₄ _ _ => .bind fun _ m₅ _ _ => .bind fun _ m₆ _ _ => ?_
  split
  · rename_i hidden
    have := SymbolTable.avail_of_binding ht hidden
    exact setVariable_leads _ (inferInstanceAs (Module.Avail _ (some f.id) _))
  · exact removeVariable_leads _

instance (pad payload selector : ValueId) (endBlock : BlockId)
    (clauses : List (CatchClause Node × TypeId)) [m.Avail (some f.id) pad]
    [m.Avail (some f.id) payload] [m.Avail (some f.id) selector] [m.HasBlock f.id endBlock]
    [hclauses : ClausesLinked clauses] [Reserved f blocks] :
    Leads m (Busy f blocks) (r.dispatchClauses pad payload selector endBlock clauses)
      (fun _ => Idle f blocks) fun _ _ => True := by
  induction clauses generalizing m hclauses with
  | nil =>
      unfold Recur.dispatchClauses
      infer_instance
  | cons first rest ih =>
      obtain ⟨clause, ty⟩ := first
      have hclause : Linked clause.body := hclauses.all _ List.mem_cons_self
      have hrest : ClausesLinked rest := ⟨fun c hc => hclauses.all c (List.mem_cons_of_mem _ hc)⟩
      unfold Recur.dispatchClauses
      refine .bind ?_
      intro hit m₁ _ hhit
      refine .bind ?_
      rintro catchBlock m₂ _ ⟨hcatch, _⟩
      refine .bind ?_
      rintro next m₃ _ ⟨hnext, _⟩
      refine .bind fun _ m₄ _ _ => ?_
      refine .takeUp (next :: blocks) (by grind) (by grind) fun m₅ _ => ?_
      refine .bind fun _ m₆ _ _ => ?_
      exact .takeUp blocks (by grind) (by grind) fun m₇ _ => ih

/-- The tries around belong to the current function, also when some are put around or taken away. -/
theorem Lower.modifyTries_leads {P : Module → Prop} {g : List TryFrame → List TryFrame}
    (hg : ∀ {tries}, ∀ frame ∈ g tries, frame ∈ tries ∨ frame.In m (some f.id)) :
    Leads m (Lowering.Within (some f) P) (modifyPass fun p => { p with tries := g p.tries })
      (fun _ => Lowering.Within (some f) P) fun _ _ => True :=
  modifyPass_leads (fun _ h => ⟨h.inScope, h.entry, h.loops, fun frame hframe =>
    (hg frame hframe).elim (h.tries frame) fun h => h.mono, h.pending⟩) fun _ => rfl

/-- Inside the body of a `try` its blocks are known, and afterwards those of the tries around. -/
theorem Recur.tryBody_leads {frame : TryFrame} {body : Option Node} [Linked body]
    [Reserved f blocks] (hframe : frame.In m (some f.id)) :
    Leads m (Busy f blocks) (r.tryBody frame body) (fun _ => Busy f blocks) fun _ _ => True := by
  unfold Recur.tryBody
  refine .seq (modifyTries_leads fun outer houter => ?_) fun _ _ _ _ => ?_
  · rcases List.mem_cons.1 houter with rfl | houter
    · exact .inr hframe
    · exact .inl houter
  · refine .bind fun _ _ _ _ => .bind fun _ _ _ _ => .bind fun _ _ _ _ => ?_
    refine .seq (modifyTries_leads fun _ houter => .inl (List.mem_of_mem_tail houter)) ?_
    exact fun _ _ _ _ => .pure id fun _ => trivial

/-- Where exceptions arrive and the search for a handler, with all blocks of a `try` open in
front of it and none behind it. -/
theorem Recur.search_leads {landing dispatch endBlock : BlockId} {padSlot : ValueId}
    {handled : List TypeId} {implicit : Bool} {clauses : List (CatchClause Node × TypeId)}
    [m.HasBlock f.id landing] [m.HasBlock f.id dispatch] [m.HasBlock f.id endBlock]
    [m.Avail (some f.id) padSlot] [ClausesLinked clauses] [Reserved f blocks]
    (hlanding : landing ∉ blocks) (hdispatch : dispatch ∉ landing :: blocks)
    (hend : endBlock ∉ dispatch :: landing :: blocks) :
    Leads m (Idle f (endBlock :: dispatch :: landing :: blocks)) (do
      (Build.positionAtEnd landing : Build Unit)
      let pad ← emitLandingPad handled implicit
      (Build.store pad padSlot : Build Unit)
      (Build.br dispatch : Build Unit)
      (Build.positionAtEnd dispatch : Build Unit)
      let pad ← (Build.load padSlot : Build ValueId)
      let payload ← (Build.extractValue pad 0 : Build ValueId)
      let selector ← (Build.extractValue pad 1 : Build ValueId)
      if implicit then dispatchImplicit handled payload selector endBlock
      else r.dispatchClauses pad payload selector endBlock clauses
      (Build.positionAtEnd endBlock : Build Unit)) (fun _ => Busy f blocks) fun _ _ => True := by
  refine .takeUp (endBlock :: dispatch :: blocks) (by grind) (by grind) fun m₁ _ => ?_
  refine .bind ?_
  intro pad m₂ _ hpad
  refine .bind fun _ m₃ _ _ => .bind fun _ m₄ _ _ => ?_
  refine .takeUp (endBlock :: blocks) (by grind) (by grind) fun m₅ _ => ?_
  refine .bind ?_
  intro pad m₆ _ hpad
  refine .bind ?_
  intro payload m₇ _ hpayload
  refine .bind ?_
  intro selector m₈ _ hselector
  have hleave (m₉ : Module) [m₉.HasBlock f.id endBlock] : Leads m₉ (Idle f (endBlock :: blocks))
      (liftM (Build.positionAtEnd endBlock) : Lower Unit) (fun _ => Busy f blocks)
      fun _ _ => True :=
    takeUp_leads (fun c => List.mem_cons) (by grind)
  dsimp only
  split
  · exact .bind fun _ m₉ _ _ => hleave m₉
  · exact .bind fun _ m₉ _ _ => hleave m₉

/-- A `try` ends its three blocks and goes on behind them. -/
instance (body : Option Node) (catches : List (CatchClause Node)) (span : Span) [Linked body]
    [AllLinked (catches.map (·.body))] :
    Straight m (some g) (r.tryCatch body catches span) fun _ _ => True := by
  unfold Recur.tryCatch
  refine .bind ?_
  intro func m₁ _ hfunc
  split
  · exact .pure fun _ => trivial
  · refine Straight.of_leads ?_
    rintro fs blocks rfl hreserved
    refine .bind fun _ _ _ _ => .bind fun _ _ _ _ => ?_
    have : ClausesLinked ([] : List (CatchClause Node × TypeId)) :=
      ⟨fun _ hc => absurd hc List.not_mem_nil⟩
    refine .bind ?_
    intro clauses m₂ _ hclauses
    refine .bind ?_
    rintro landing m₃ _ ⟨hlanding, _⟩
    refine .bind ?_
    rintro dispatch m₄ _ ⟨hdispatch, _⟩
    refine .bind ?_
    rintro endBlock m₅ _ ⟨hend, _⟩
    refine .bind fun _ _ _ _ => .bind fun _ _ _ _ => .bind fun _ _ _ _ => .bind ?_
    intro padSlot m₆ _ hslot
    refine .seq (Recur.tryBody_leads ⟨fs.id, rfl, inferInstance, inferInstance, inferInstance⟩) ?_
    intro thrown m₇ _ _
    refine .bind fun _ m₈ _ _ => ?_
    dsimp only
    by_cases hempty : catches.isEmpty
    · rw [if_pos hempty]
      exact Recur.search_leads hlanding hdispatch hend
    · rw [if_neg hempty]
      exact .bind fun _ m₉ _ _ => Recur.search_leads hlanding hdispatch hend

end SsaCompiler
