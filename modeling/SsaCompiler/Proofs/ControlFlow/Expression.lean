/-
# Expressions go straight on

One instance for each function that lowers expressions and variables: in a sound state it writes
code that only uses what is available in the current function, ends in a sound state, and its
answer is available.
-/

import SsaCompiler.Proofs.ControlFlow.Invocation

namespace SsaCompiler

open Lower

variable {α : Type} {m : Module} {scope : Option FunctionId}

/-! ### Operators -/

instance (op : BinaryOp) (lty rty : TypeId) (span : Span) :
    Quiet m (rejectOperands op lty rty span : Attempt α).run (OnSome fun _ _ => False) := by
  unfold rejectOperands
  infer_instance

instance (op : UnaryOp) (ty : TypeId) (span : Span) :
    Quiet m (rejectOperand op ty span : Attempt α).run (OnSome fun _ _ => False) := by
  unfold rejectOperand
  infer_instance

instance (lty rty : TypeId) : Build.Quiet m (commonType lty rty) fun _ _ => True := by
  unfold commonType
  refine .bind fun _ _ _ _ => .bind fun _ _ _ _ => ?_
  split <;> exact .pure fun _ => trivial

/-- An answer, or what is used in its place. -/
theorem OnSome.getD {v : ValueId} {o : Option ValueId} [hv : m.Avail scope v]
    (ho : OnSome (fun m v => m.Avail scope v) m o) : m.Avail scope (o.getD v) := by
  cases o with
  | none => exact hv
  | some w => exact ho w rfl

section

variable (l r : ValueId) [m.Avail scope l] [m.Avail scope r]

instance : Build.Steady m scope (unifyNumeric l r)
    fun m p => m.Avail scope p.1 ∧ m.Avail scope p.2 := by
  unfold unifyNumeric
  refine .bind fun _ _ _ _ => .bind fun _ _ _ _ => ?_
  split
  · exact .pure fun _ => ⟨inferInstance, inferInstance⟩
  · refine .bind fun _ _ _ _ => .bind ?_
    intro l' m₁ _ hl
    have : m₁.Avail scope (l'.getD l) := hl.getD
    refine .bind ?_
    intro r' m₂ _ hr
    have : m₂.Avail scope (r'.getD r) := hr.getD
    exact .pure fun _ => ⟨inferInstance, inferInstance⟩

instance : Straight m scope (power l r).run (OnSome fun m v => m.Avail scope v) := by
  unfold power
  refine .andThen fun _ _ _ _ => .andThen fun _ _ _ _ => .unwrap ?_
  intro base m₁ _ hbase
  refine .unwrap ?_
  intro exponent m₂ _ hexponent
  refine .unwrap ?_
  intro result m₃ _ hresult
  exact .unwrapped

instance (op : BinaryOp) (span : Span) :
    Straight m scope (intBinary op l r span).run (OnSome fun m v => m.Avail scope v) := by
  unfold intBinary
  split
  · infer_instance
  · infer_instance
  · split
    · infer_instance
    · exact .andThen fun _ _ _ _ => .refuse inferInstance

instance (op : BinaryOp) (span : Span) :
    Straight m scope (floatBinary op l r span).run (OnSome fun m v => m.Avail scope v) := by
  unfold floatBinary
  split
  · infer_instance
  · infer_instance
  · split
    · infer_instance
    · exact .andThen fun _ _ _ _ => .refuse inferInstance

instance (backward : Bool) :
    Straight m scope (pointerOffset l r backward).run (OnSome fun m v => m.Avail scope v) := by
  unfold pointerOffset
  refine .andThen fun _ _ _ _ => .unwrap ?_
  intro distance m₁ _ hdistance
  split
  · refine .andThen ?_
    intro zero m₂ _ hzero
    refine .andThen ?_
    intro back m₃ _ hback
    infer_instance
  · infer_instance

instance (pred : IntPredicate) :
    Build.Steady m scope (pointerCompare pred l r) fun m v => m.Avail scope v := by
  unfold pointerCompare
  refine .bind fun _ _ _ _ => .bind ?_
  intro left m₁ _ hleft
  refine .bind ?_
  intro right m₂ _ hright
  infer_instance

instance (op : BinaryOp) (span : Span) :
    Straight m scope (builtinBinary op l r span).run (OnSome fun m v => m.Avail scope v) := by
  have hfloat (m₁ : Module) [m₁.Avail scope l] [m₁.Avail scope r] : Straight m₁ scope (do
      let (l, r) ← (unifyNumeric l r : Build (ValueId × ValueId))
      floatBinary op l r span : Attempt ValueId).run (OnSome fun m v => m.Avail scope v) := by
    refine .andThen ?_
    rintro ⟨l', r'⟩ m₂ _ ⟨hl, hr⟩
    infer_instance
  unfold builtinBinary
  refine .andThen fun _ _ _ _ => .andThen fun _ _ _ _ => .andThen fun _ _ _ _ =>
    .andThen fun _ m₁ _ _ => ?_
  split
  · refine .andThen ?_
    rintro ⟨l', r'⟩ m₂ _ ⟨hl, hr⟩
    infer_instance
  · exact hfloat m₁
  · exact hfloat m₁
  · exact hfloat m₁
  · split
    · infer_instance
    · split
      · infer_instance
      · exact .refuse inferInstance
  · split
    · infer_instance
    · split
      · infer_instance
      · exact .refuse inferInstance
  · exact .refuse inferInstance

end

section

variable (l r : Operand) [m.Avail scope l.value] [m.Avail scope r.value]

instance (op : BinaryOp) (span : Span) :
    Straight m scope (applyBinary op l r span).run (OnSome fun m op => m.Avail scope op.value) := by
  unfold applyBinary
  refine .andThen fun _ _ _ _ => .andThen fun _ _ _ _ => .andThen fun _ _ _ _ => ?_
  split
  · infer_instance
  · refine .andThen ?_
    intro lv m₁ _ hlv
    refine .andThen ?_
    intro rv m₂ _ hrv
    refine .andThen ?_
    intro v m₃ _ hv
    exact .some fun _ => inferInstance

end

section

variable (inner : Operand) (ty : TypeId) (span : Span) [m.Avail scope inner.value]

instance : Straight m scope (negate inner ty span).run (OnSome fun m v => m.Avail scope v) := by
  unfold negate
  refine .andThen ?_
  intro v m₁ _ hv
  refine .andThen fun _ _ _ _ => ?_
  split
  · split
    · refine .andThen ?_
      intro zero m₂ _ hzero
      infer_instance
    · exact .refuse inferInstance
  · refine .andThen ?_
    intro zero m₂ _ hzero
    infer_instance
  · exact .refuse inferInstance

instance : Straight m scope (negateTruth inner span).run (OnSome fun m v => m.Avail scope v) := by
  unfold negateTruth
  refine .andThen ?_
  intro v m₁ _ hv
  refine .andThen ?_
  intro truth m₂ _ htruth
  refine .andThen fun _ _ _ _ => .andThen ?_
  intro one m₃ _ hone
  infer_instance

instance : Straight m scope (negateBits inner ty span).run (OnSome fun m v => m.Avail scope v) := by
  unfold negateBits
  refine .andThen ?_
  intro v m₁ _ hv
  refine .andThen fun _ _ _ _ => ?_
  split
  · refine .andThen ?_
    intro ones m₂ _ hones
    infer_instance
  · exact .refuse inferInstance

instance (op : UnaryOp) : Straight m scope (builtinUnary op inner ty span).run
    (OnSome fun m op => m.Avail scope op.value) := by
  unfold builtinUnary
  cases op with
  | addressOf =>
      exact .either (.some fun _ => inferInstance) (.refuse inferInstance)
  | deref =>
      refine .andThen fun _ _ _ _ => ?_
      split
      · refine .andThen ?_
        intro v m₁ _ hv
        exact .some fun _ => inferInstance
      · exact .refuse inferInstance
  | neg | not | bitNot =>
      refine .andThen ?_
      intro v m₁ _ hv
      exact .some fun _ => inferInstance

instance (op : UnaryOp) : Straight m scope (applyUnary op inner span).run
    (OnSome fun m op => m.Avail scope op.value) := by
  unfold applyUnary
  refine .andThen fun _ _ _ _ => .andThen fun _ _ _ _ => ?_
  split <;> infer_instance

end

variable {r : Recur} [r.Sound]

/-! ### Literals and names -/

instance (value : Int64) : Build.Quiet m (intLiteral value) fun m op => m.Known op.value := by
  unfold intLiteral
  refine .bind fun _ _ _ _ => .bind ?_
  intro v m₁ _ hv
  exact .pure fun _ => inferInstanceAs (Module.Known _ v)

instance (value : Double) : Build.Quiet m (floatLiteral value) fun m op => m.Known op.value := by
  unfold floatLiteral
  refine .bind fun _ _ _ _ => .bind ?_
  intro v m₁ _ hv
  exact .pure fun _ => inferInstanceAs (Module.Known _ v)

instance (value : Bool) : Build.Quiet m (boolLiteral value) fun m op => m.Known op.value := by
  unfold boolLiteral
  refine .bind fun _ _ _ _ => .bind ?_
  intro v m₁ _ hv
  exact .pure fun _ => inferInstanceAs (Module.Known _ v)

instance (value : UInt8) : Build.Quiet m (charLiteral value) fun m op => m.Known op.value := by
  unfold charLiteral
  refine .bind fun _ _ _ _ => .bind ?_
  intro v m₁ _ hv
  exact .pure fun _ => inferInstanceAs (Module.Known _ v)

instance : Build.Quiet m nullLiteral fun m op => m.Known op.value := by
  unfold nullLiteral
  refine .bind fun _ _ _ _ => .bind ?_
  intro v m₁ _ hv
  exact .pure fun _ => inferInstanceAs (Module.Known _ v)

instance (text : Name) : Quiet m (stringLiteral text) fun m op => m.Known op.value := by
  unfold stringLiteral
  refine .bind fun _ _ _ _ => .bind ?_
  intro v m₁ _ hv
  exact .pure fun _ => inferInstanceAs (Module.Known _ v)

/-- A name stands for a place that is available. -/
theorem SymbolTable.avail_of_binding {t : SymbolTable} {name : Name} {binding : VarBinding}
    (ht : t.bindings.All fun b => m.Avail scope b.storage) (h : t.binding? name = some binding) :
    m.Avail scope binding.storage := ht.get? h

instance : Straight m scope thisPointer (OnSome fun m v => m.Avail scope v) := by
  unfold thisPointer
  refine .bind ?_
  intro t m₁ _ ht
  refine .bind fun _ m₂ _ _ => ?_
  split
  · rename_i hbinding
    have := SymbolTable.avail_of_binding ht hbinding
    refine .bind ?_
    intro v m₃ _ hv
    refine .pure fun _ w hw => ?_
    cases hw
    infer_instance
  · exact .pure fun _ w hw => by cases hw

instance (name : Name) :
    Straight m scope (implicitMember name) (OnSome fun m op => m.Avail scope op.value) := by
  unfold implicitMember
  refine .bind fun _ _ _ _ => ?_
  split
  · exact .pure fun _ w hw => by cases hw
  · refine .bind fun _ _ _ _ => ?_
    split
    · exact .pure fun _ w hw => by cases hw
    · refine .bind ?_
      intro this m₁ _ hthis
      cases this with
      | none => exact .pure fun _ w hw => by cases hw
      | some this =>
          have := hthis this rfl
          refine .bind ?_
          intro place m₂ _ hplace
          refine .pure fun _ w hw => ?_
          cases hw
          infer_instance

instance (name : Name) (span : Span) :
    Straight m scope (identifier name span).run (OnSome fun m op => m.Avail scope op.value) := by
  unfold identifier
  refine .andThen ?_
  intro t m₁ _ ht
  split
  · rename_i hbinding
    have := SymbolTable.avail_of_binding ht hbinding
    exact .some fun _ => inferInstance
  · refine .andThen ?_
    intro o m₂ _ ho
    cases o with
    | none => exact .refuse inferInstance
    | some place =>
        have := ho place rfl
        exact .some fun _ => inferInstance

instance (span : Span) :
    Straight m scope (thisOperand span).run (OnSome fun m op => m.Avail scope op.value) := by
  unfold thisOperand
  refine .andThen ?_
  intro this m₁ _ hthis
  refine .andThen fun _ m₂ _ _ => ?_
  split
  · rename_i this _
    have := hthis this rfl
    exact .some fun _ => inferInstance
  · exact .refuse inferInstance

/-! ### Types -/

instance (p : PrimType) : Build.Quiet m p.lower fun _ _ => True := by
  unfold PrimType.lower
  split <;> infer_instance

instance (name : Name) (declaring : Bool) (span : Span) :
    Quiet m (namedType name declaring span).run (OnSome fun _ _ => True) := by
  have (m : Module) (o : ObjectInfo) : Quiet m (modifySymbols (·.declareObject o)) fun _ _ => True :=
    .modifySymbols fun _ => rfl
  unfold namedType
  refine .andThen fun _ _ _ _ => ?_
  split
  · exact .some fun _ => trivial
  · refine .andThen fun _ _ _ _ => .andThen fun _ _ _ _ => ?_
    split
    · exact .refuse inferInstance
    · split
      · exact .andThen fun _ _ _ _ => .andThen fun _ _ _ _ => .some fun _ => trivial
      · exact .refuse inferInstance

mutual

/-- The types that are looked up or made for an annotation leave the current code alone. -/
theorem Lower.Quiet.type (r : Recur) [r.Sound] (m : Module) (span : Span) (ty : TypeExpr) :
    Quiet m (r.type span ty).run (OnSome fun _ _ => True) := by
  unfold Recur.type
  split
  case h_1 => infer_instance
  case h_2 => infer_instance
  case h_3 => infer_instance
  case h_4 ty _ => exact .andSeq (Quiet.type r m span ty) fun _ _ _ _ => inferInstance
  case h_5 ty _ => exact .andSeq (Quiet.type r m span ty) fun _ _ _ _ => inferInstance
  case h_6 => infer_instance
  case h_7 args => exact .andSeq (Quiet.types r m span args) fun _ _ _ _ => inferInstance
  case h_8 elem =>
      refine .andSeq (Quiet.type r m span elem) fun _ _ _ _ => ?_
      exact .andThen fun _ _ _ _ => inferInstance

theorem Lower.Quiet.types (r : Recur) [r.Sound] (m : Module) (span : Span) (tys : List TypeExpr) :
    Quiet m (r.types span tys).run (OnSome fun _ _ => True) := by
  unfold Recur.types
  split
  case h_1 => exact .some fun _ => trivial
  case h_2 ty rest =>
      refine .andSeq (Quiet.type r m span ty) fun _ m₁ _ _ => ?_
      refine .andSeq (Quiet.types r m₁ span rest) fun _ _ _ _ => ?_
      exact .some fun _ => trivial

end

instance (span : Span) (ty : TypeExpr) : Quiet m (r.type span ty).run (OnSome fun _ _ => True) :=
  .type r m span ty

/-! ### Variables -/

instance (name : Name) (storage : ValueId) (ty : TypeId) (isReference : Bool)
    [hstorage : m.Avail scope storage] :
    Straight m scope (bindVariable name storage ty isReference) fun _ _ => True where
  leads i := setVariable_leads name (i.inScope.symm ▸ hstorage)

instance (init : Option Node) (ty : TypeId) [Linked init] :
    Straight m scope (r.initialValue init ty) (OnSome fun m v => m.Avail scope v) := by
  unfold Recur.initialValue
  split
  · exact .pure fun _ w hw => by cases hw
  · refine .andThen ?_
    intro v m₁ _ hv
    infer_instance

instance (var : VarInit Node) (ty : TypeId) [Linked var.init] :
    Straight m scope (r.declareLocal var ty) fun _ _ => True := by
  unfold Recur.declareLocal
  refine .bind ?_
  intro slot m₁ _ hslot
  refine .bind ?_
  intro init m₂ _ hinit
  have hrest (m₃ : Module) (v : ValueId) [m₃.Avail scope slot] [m₃.Avail scope v] :
      Straight m₃ scope (do
        (Build.store v slot : Build Unit)
        Lower.bindVariable var.name slot ty false) fun _ _ => True :=
    .bind fun _ _ _ _ => inferInstance
  cases init with
  | none =>
      refine .bind ?_
      intro zero m₃ _ hzero
      exact hrest m₃ zero
  | some v =>
      have := hinit v rfl
      exact hrest m₂ v

instance (init : Option Node) (ty : TypeId) [Linked init] :
    Straight m scope (r.constantInitializer init ty).run (OnSome fun _ _ => True) := by
  unfold Recur.constantInitializer
  refine .andThen ?_
  intro op m₁ _ hop
  split
  · exact .refuse inferInstance
  · refine .andThen fun _ _ _ _ => .andThen fun _ _ _ _ => ?_
    split
    · exact .some fun _ => trivial
    · exact .refuse inferInstance

instance (var : VarInit Node) (ty : TypeId) [hvar : Linked var.init] :
    Straight m scope (r.declareGlobal var ty) fun _ _ => True := by
  unfold Recur.declareGlobal
  refine .bind fun _ _ _ _ => .bind ?_
  intro global m₁ _ hglobal
  refine .bind fun _ _ _ _ => ?_
  split
  · exact .pure fun _ => trivial
  · rename_i node hinit
    have : Linked (some node) := hinit ▸ hvar
    refine .bind fun _ _ _ _ => ?_
    split
    · exact .bind fun _ _ _ _ => .pure fun _ => trivial
    · exact .pure fun _ => trivial

instance (var : VarInit Node) (ty : TypeId) (span : Span) [Linked var.init] :
    Straight m scope (r.bindReference var ty span).run (OnSome fun _ _ => True) := by
  unfold Recur.bindReference
  dsimp only
  split
  · exact .refuse inferInstance
  · refine .andThen ?_
    intro op m₁ _ hop
    refine .andThen fun _ _ _ _ => ?_
    split
    · refine .andThen ?_
      intro address m₂ _ haddress
      infer_instance
    · refine .andThen fun _ _ _ _ => ?_
      split
      · refine .andThen ?_
        intro address m₂ _ haddress
        infer_instance
      · exact .refuse inferInstance

instance (isReference : Bool) (ty : TypeId) (span : Span) (var : VarInit Node) [Linked var.init] :
    Straight m scope (r.declareVariable isReference ty span var) fun _ _ => True := by
  unfold Recur.declareVariable
  split
  · exact .bind fun _ _ _ _ => .pure fun _ => trivial
  · refine .bind fun _ _ _ _ => ?_
    split <;> infer_instance

instance (ty : TypeExpr) (vars : List (VarInit Node)) (span : Span)
    [hvars : AllLinked (vars.map (·.init))] :
    Straight m scope (r.declareVariables ty vars span).run (OnSome fun _ _ => True) := by
  unfold Recur.declareVariables
  refine .andThen fun _ _ _ _ => .andThen fun _ _ _ _ => ?_
  dsimp only
  split
  · exact .refuse inferInstance
  · refine .andSeq (.forAttempt fun var hvar _ m₁ _ => ?_) fun _ _ _ _ => .some fun _ => trivial
    have : Linked var.init := hvars.all _ (List.mem_map_of_mem hvar)
    exact .andThen fun _ _ _ _ => .some fun _ => trivial

/-! ### Expressions of several parts -/

instance (op : BinaryOp) (lhs rhs : Option Node) (span : Span) [Linked lhs] [Linked rhs] :
    Straight m scope (r.binary op lhs rhs span).run (OnSome fun m op => m.Avail scope op.value) := by
  unfold Recur.binary
  refine .andThen ?_
  intro l m₁ _ hl
  refine .andThen ?_
  intro rr m₂ _ hr
  infer_instance

instance (op : UnaryOp) (operand : Option Node) (span : Span) [Linked operand] :
    Straight m scope (r.unary op operand span).run (OnSome fun m op => m.Avail scope op.value) := by
  unfold Recur.unary
  refine .andThen ?_
  intro inner m₁ _ hinner
  infer_instance

instance (op : Option BinaryOp) (place : Operand) (value : Option Node) (span : Span)
    [Linked value] [m.Avail scope place.value] :
    Straight m scope (r.assignedValue op place value span).run
      (OnSome fun m v => m.Avail scope v) := by
  unfold Recur.assignedValue
  split
  · infer_instance
  · refine .andThen ?_
    intro rhs m₁ _ hrhs
    refine .andThen ?_
    intro combined m₂ _ hcombined
    infer_instance

instance (op : Option BinaryOp) (target value : Option Node) (span : Span) [Linked target]
    [Linked value] : Straight m scope (r.assign op target value span).run
      (OnSome fun m op => m.Avail scope op.value) := by
  unfold Recur.assign
  refine .andThen ?_
  intro place m₁ _ hplace
  split
  · exact .refuse inferInstance
  · refine .andThen fun _ _ _ _ => .andThen fun _ _ _ _ => ?_
    split
    · refine .andThen fun _ _ _ _ => ?_
      split
      · exact .andThen fun _ _ _ _ => .andThen fun _ _ _ _ => .some fun _ => inferInstance
      · exact .refuse inferInstance
    · refine .andThen ?_
      intro assigned m₂ _ hassigned
      refine .andThen ?_
      intro converted m₃ _ hconverted
      exact .andThen fun _ _ _ _ => .some fun _ => inferInstance

instance (expr : Option Node) (ty : TypeExpr) (span : Span) [Linked expr] :
    Straight m scope (r.cast expr ty span).run (OnSome fun m op => m.Avail scope op.value) := by
  unfold Recur.cast
  refine .andThen fun _ _ _ _ => .andThen ?_
  intro op m₁ _ hop
  refine .andThen fun _ _ _ _ => .andThen fun _ _ _ _ => ?_
  split
  · infer_instance
  · refine .andThen ?_
    intro value m₂ _ hvalue
    refine .andThen ?_
    intro o m₃ _ ho
    cases o with
    | none => exact .refuse inferInstance
    | some converted =>
        have := ho converted rfl
        exact .some fun _ => inferInstance

instance (callee : Name) (args : List (Option Node)) (span : Span) [AllLinked args] :
    Straight m scope (r.call callee args span).run (OnSome fun m op => m.Avail scope op.value) := by
  unfold Recur.call
  refine .andThen ?_
  intro args m₁ _ hargs
  refine .andThen fun _ _ _ _ => ?_
  split
  · exact .unwrapped
  · refine .andThen fun _ _ _ _ => ?_
    dsimp only
    split
    · refine .andThen fun _ _ _ _ => ?_
      split
      · refine .andThen ?_
        intro this m₂ _ hthis
        infer_instance
      · exact .refuse inferInstance
    · exact .refuse inferInstance

instance (receiver : Option Node) (method : Name) (args : List (Option Node)) (span : Span)
    [Linked receiver] [AllLinked args] :
    Straight m scope (r.methodCall receiver method args span).run
      (OnSome fun m op => m.Avail scope op.value) := by
  unfold Recur.methodCall
  refine .andThen ?_
  intro op m₁ _ hop
  refine .andThen ?_
  rintro ⟨this, object⟩ m₂ _ hthis
  refine .andThen ?_
  intro args m₃ _ hargs
  infer_instance

/-! ### Objects and elements -/

instance (ty : TypeId) : Straight m scope (heapAlloc ty) fun m v => m.Avail scope v := by
  unfold heapAlloc
  refine .bind fun _ _ _ _ => .bind ?_
  intro count m₁ _ hcount
  refine .bind fun _ _ _ _ => .bind ?_
  intro size m₂ _ hsize
  refine .bind ?_
  intro raw m₃ _ hraw
  refine .bind fun _ _ _ _ => ?_
  cases raw with
  | none => exact Keeps.imp inferInstance fun _ hv => inferInstance
  | some raw =>
      have := hraw raw rfl
      infer_instance

instance (ty : TypeId) : Straight m scope (stackAlloc ty) fun m v => m.Avail scope v := by
  unfold stackAlloc
  refine .bind ?_
  intro slot m₁ _ hslot
  refine .bind ?_
  intro zero m₂ _ hzero
  exact .bind fun _ _ _ _ => .pure fun _ => inferInstance

section

variable (storage : ValueId) (object : TypeId) (args : List Operand) (span : Span)
  [m.Avail scope storage] [hargs : m.AvailOperands scope args]

instance (i : Nat) :
    Straight m scope (storeMembers storage object span i args).run (OnSome fun _ _ => True) := by
  induction args generalizing m i with
  | nil =>
      unfold storeMembers
      exact .some fun _ => trivial
  | cons arg rest ih =>
      obtain ⟨harg, hrest⟩ := hargs.cons
      unfold storeMembers
      refine .andThen fun _ _ _ _ => .andThen fun _ _ _ _ => .andThen ?_
      intro value m₁ _ hvalue
      refine .andThen ?_
      intro value m₂ _ hvalue
      refine .andThen ?_
      intro field m₃ _ hfield
      exact .andThen fun _ _ _ _ => ih (i + 1)

instance : Straight m scope (initMembers storage object args span).run
    (OnSome fun _ _ => True) := by
  unfold initMembers
  refine .andThen fun _ _ _ _ => ?_
  exact .either (.refuse inferInstance) inferInstance

instance : Straight m scope (construct storage object args span).run
    (OnSome fun _ _ => True) := by
  unfold construct
  refine .andThen fun _ _ _ _ => ?_
  split
  · refine .andThen fun _ _ _ _ => ?_
    dsimp only
    split
    · infer_instance
    · split
      · exact .some fun _ => trivial
      · infer_instance
  · split
    · exact .some fun _ => trivial
    · obtain ⟨harg, -⟩ := hargs.cons
      refine .andThen ?_
      intro value m₁ _ hvalue
      refine .andThen ?_
      intro value m₂ _ hvalue
      infer_instance
    · exact .refuse inferInstance

end

instance (object : Option Node) (name : Name) (span : Span) [Linked object] :
    Straight m scope (r.member object name span).run (OnSome fun m op => m.Avail scope op.value) := by
  unfold Recur.member
  refine .andThen ?_
  intro op m₁ _ hop
  refine .andThen ?_
  rintro ⟨base, ty⟩ m₂ _ hbase
  refine .andThen fun _ _ _ _ => ?_
  split
  · refine .andThen ?_
    intro place m₃ _ hplace
    exact .some fun _ => inferInstance
  · exact .refuse inferInstance

instance (base offset : TypeId) (span : Span) :
    Quiet m (Recur.indexOperator base offset span).run (OnSome fun _ _ => True) := by
  unfold Recur.indexOperator
  refine .andThen fun _ _ _ _ => ?_
  split
  · exact .some fun _ => trivial
  · refine .andThen fun _ _ _ _ => .andThen fun _ _ _ _ => .andThen fun _ _ _ _ => ?_
    split
    · infer_instance
    · exact .some fun _ => trivial

instance (object offset : Option Node) (span : Span) [Linked object] [Linked offset] :
    Straight m scope (r.index object offset span).run
      (OnSome fun m op => m.Avail scope op.value) := by
  unfold Recur.index
  refine .andThen ?_
  intro base m₁ _ hbase
  refine .andThen ?_
  intro offset m₂ _ hoffset
  refine .andThen fun _ _ _ _ => .andThen fun _ _ _ _ => .andThen fun _ _ _ _ => ?_
  split
  · infer_instance
  · refine .andThen fun _ _ _ _ => .andThen fun _ _ _ _ => .andThen fun _ _ _ _ => ?_
    split
    · refine .andThen ?_
      intro pointer m₃ _ hpointer
      refine .andThen ?_
      intro distance m₄ _ hdistance
      refine .unwrap ?_
      intro distance m₅ _ hdistance
      refine .andThen ?_
      intro place m₆ _ hplace
      exact .some fun _ => inferInstance
    · exact .refuse inferInstance

instance (cs : List (Option Node)) [hcs : AllLinked cs] :
    Straight m scope (r.initializers cs).run (OnSome fun m ops => m.AvailOperands scope ops) := by
  induction cs generalizing m hcs with
  | nil =>
      unfold Recur.initializers
      exact .some fun _ => inferInstance
  | cons c rest ih =>
      obtain ⟨hc, hrest⟩ := hcs.cons
      unfold Recur.initializers
      refine .andThen ?_
      intro op m₁ _ hop
      refine .andThen ?_
      intro ops m₂ _ hops
      exact .some fun _ => inferInstance

instance (ty : TypeExpr) (args : List (Option Node)) (heap : Bool) (span : Span)
    [AllLinked args] : Straight m scope (r.construct ty args heap span).run
      (OnSome fun m op => m.Avail scope op.value) := by
  unfold Recur.construct
  refine .andThen fun _ _ _ _ => .andThen ?_
  intro args m₁ _ hargs
  dsimp only
  split
  · refine .andThen ?_
    intro storage m₂ _ hstorage
    exact .andThen fun _ _ _ _ => .some fun _ => inferInstance
  · refine .andThen ?_
    intro storage m₂ _ hstorage
    exact .andThen fun _ _ _ _ => .some fun _ => inferInstance

instance (operand : Option Node) (span : Span) [Linked operand] :
    Straight m scope (r.delete operand span).run (OnSome fun _ _ => True) := by
  have hfree (m₁ : Module) (op : Operand) (isPointer : Bool) [m₁.Avail scope op.value] :
      Straight m₁ scope (do
        if isPointer then
          let pointer ← op.load
          let raw ← (Build.cast .bitcast pointer (← (bytePointer : Build TypeId)) : Build ValueId)
          let _ ← OptionT.lift (callSupport .free [raw]) : Attempt Unit).run
        (OnSome fun _ _ => True) := by
    split
    · refine .andThen ?_
      intro pointer m₂ _ hpointer
      refine .andThen fun _ _ _ _ => .andThen ?_
      intro raw m₃ _ hraw
      exact .andThen fun _ _ _ _ => .some fun _ => trivial
    · exact .some fun _ => trivial
  unfold Recur.delete
  refine .andThen ?_
  intro op m₁ _ hop
  refine .andThen fun _ _ _ _ => .andThen fun user _ _ _ => .andThen fun _ m₂ _ _ => ?_
  dsimp only
  split
  · exact .refuse inferInstance
  · cases user with
    | none => exact hfree m₂ op _
    | some index =>
        refine .andThen fun _ m₃ _ _ => ?_
        exact hfree m₃ op _

/-! ### Output -/

instance (value : ValueId) (span : Span) [m.Avail scope value] :
    Straight m scope (printfArg value span).run (OnSome fun m a => m.Avail scope a.2) := by
  unfold printfArg
  refine .andThen fun _ _ _ _ => .andThen fun _ _ _ _ => .andThen fun _ m₁ _ _ => ?_
  have hcast (m₁ : Module) [m₁.Avail scope value] (directive : String) (op : CastOp)
      (dest : TypeId) : Straight m₁ scope (do
        return (directive, ← (Build.cast op value dest : Build ValueId)) :
          Attempt (String × ValueId)).run (OnSome fun m a => m.Avail scope a.2) := by
    refine .andThen ?_
    intro v m₂ _ hv
    exact .some fun _ => inferInstance
  split
  · refine .either (hcast m₁ _ _ _) (.either (hcast m₁ _ _ _) (.either (hcast m₁ _ _ _) ?_))
    exact .either (.some fun _ => inferInstance) (.some fun _ => inferInstance)
  · refine .either (.some fun _ => inferInstance) (.andThen fun _ m₂ _ _ => ?_)
    exact hcast m₂ _ _ _
  · refine .andThen fun _ _ _ _ => ?_
    exact .either (.some fun _ => inferInstance) (.some fun _ => inferInstance)
  · exact .refuse inferInstance

instance (format : String) (args : List ValueId) [m.AllAvail scope args] :
    Straight m scope (emitPrintf format args) fun _ _ => True := by
  unfold emitPrintf
  refine .bind fun _ _ _ _ => .bind ?_
  intro text m₁ _ htext
  exact .bind fun _ _ _ _ => .pure fun _ => trivial

instance (span : Span) (cs : List (Option Node)) [hcs : AllLinked cs] :
    Straight m scope (r.printArgs span cs).run
      (OnSome fun m args => m.AllAvail scope (args.map Prod.snd)) := by
  induction cs generalizing m hcs with
  | nil =>
      unfold Recur.printArgs
      exact .some fun _ => inferInstanceAs (Module.AllAvail _ _ [])
  | cons c rest ih =>
      obtain ⟨hc, hrest⟩ := hcs.cons
      unfold Recur.printArgs
      refine .andThen ?_
      intro value m₁ _ hvalue
      refine .andThen ?_
      intro arg m₂ _ harg
      refine .andThen ?_
      intro args m₃ _ hargs
      exact .some fun _ => inferInstanceAs (Module.AllAvail _ _ (arg.2 :: args.map Prod.snd))

instance (cs : List (Option Node)) (span : Span) [AllLinked cs] :
    Straight m scope (r.print cs span).run (OnSome fun _ _ => True) := by
  unfold Recur.print
  refine .andThen ?_
  intro args m₁ _ hargs
  infer_instance

instance (expr : Option Node) (span : Span) [Linked expr] :
    Straight m scope (r.debugPrint expr span).run (OnSome fun m op => m.Avail scope op.value) := by
  unfold Recur.debugPrint
  refine .andThen ?_
  intro op m₁ _ hop
  refine .andThen fun _ _ _ _ => ?_
  split
  · refine .andThen ?_
    intro value m₂ _ hvalue
    refine .andThen ?_
    rintro ⟨directive, arg⟩ m₃ _ harg
    refine .andThen ?_
    intro line m₄ _ hline
    exact .andThen fun _ _ _ _ => .some fun _ => inferInstance
  · exact .some fun _ => inferInstance

instance (ty : TypeExpr) (span : Span) :
    Quiet m (r.sizeOf ty span).run (OnSome fun m op => m.Known op.value) := by
  unfold Recur.sizeOf
  refine .andThen fun _ _ _ _ => .andThen fun _ _ _ _ => .andThen ?_
  intro size m₁ _ hsize
  exact .some fun _ => inferInstanceAs (Module.Known _ size)

instance (text : Name) : Straight m scope (asm text) fun _ _ => True := by
  unfold asm
  exact .bind fun _ _ _ _ => inferInstance

end SsaCompiler
