/-
# Nodes are put together from the steps of lowering

One instance for each function that lowers type annotations, declarations and templates. Annotations
and signatures only look for types, and what they are put together from is left open here as well.
Declarations add to the tables and leave the variables alone, and they write a function only as a
whole.

With any requests and any changes of the tables as parts the lowering of every node is put together
so, however deep its calls nest.
-/

import SsaCompiler.Proofs.Lower.Composed.Function
import SsaCompiler.Proofs.Symbols.Outline

namespace SsaCompiler

open Lower

-- One computation may consist of a good many steps.
set_option synthInstance.maxSize 4096

variable {P : Parts} {L : Leeway} {r : Recur}

/-! ### Tables -/

/-- What declarations do to the tables may be a part of other computations. No variable changes by
it, and of an object only what belongs to its methods and constructors. -/
class Lower.HasTables (P : Parts) : Prop extends HasSteps P where
  abandon : ∀ {L : Leeway} (e : InternalError), Composed P L (abandon e)
  tables : ∀ {L : Leeway} {f : Context → Context}, KeepsReports f →
    (∀ c, (f c).symbols.bindings = c.symbols.bindings) → (∀ c : Context, c.SameLayouts (f c)) →
      Composed P L (modifyContext f)

/-- What declarations do to the walk may be a part of other computations as well. -/
class Lower.HasWalk (P : Parts) : Prop extends HasTables P where
  walk : ∀ {L : Leeway} {f : Pass → Pass}, Pass.KeepsPlace f → Composed P L (modifyPass f)

/-- So may any change of the tables, but for the variables, and any request that writes no code. -/
class Lower.HasUpdates (P : Parts) : Prop extends HasTables P where
  request : ∀ {L : Leeway} {α : Type} (b : Build α) [b.GrowsLoosely]
    [b.Preserves Module.surroundings] [b.SendsTo L.targets], Composed P L (liftM b)
  update : ∀ {L : Leeway} {f : Context → Context}, KeepsReports f →
    (∀ c, (f c).symbols.bindings = c.symbols.bindings) → Composed P L (modifyContext f)

/-- A body may be left for later as a part of other computations. -/
class Lower.Postpones (P : Parts) (node : Nat) (body : Option Node) : Prop where
  postpone : ∀ {L : Leeway} {pending : PendingCallable}, pending.body = body →
    Composed P L (postpone node pending)

attribute [instance] HasTables.abandon HasUpdates.request

instance : HasWalk Elementary where
  abandon _ := inferInstance
  tables hf hbinds _ := Elementary.modifyTables hf hbinds
  walk hf := .part (.modifyPass hf)

instance : HasUpdates Elementary where
  request _ := inferInstance
  update hf hbinds := Elementary.modifyTables hf hbinds

instance [HasWalk P] (node : Nat) (body : Option Node) : Postpones P node body where
  postpone _ := HasWalk.walk (.of_same fun _ => ⟨rfl, rfl, rfl, rfl, rfl, rfl⟩)

/-- A change of the symbols that declarations make. -/
theorem Lower.Composed.modifyCallables [HasTables P] {f : SymbolTable → SymbolTable}
    (hbinds : ∀ t, (f t).bindings = t.bindings) (hf : ∀ t : SymbolTable, t.SameOutlines (f t)) :
    Composed P L (Lower.modifySymbols f) :=
  HasTables.tables ⟨fun _ => rfl, fun _ _ => rfl⟩ (fun _ => hbinds _) fun _ => ⟨hf _, rfl⟩

/-- Any change of the symbols other than the variables. -/
theorem Lower.Composed.updateSymbols [HasUpdates P] {f : SymbolTable → SymbolTable}
    (hf : ∀ t, (f t).bindings = t.bindings) : Composed P L (Lower.modifySymbols f) :=
  HasUpdates.update ⟨fun _ => rfl, fun _ _ => rfl⟩ fun c => hf c.symbols

/-! ### Type annotations -/

instance [HasUpdates P] (name : Name) (declaring : Bool) (span : Span) :
    Composed P L (namedType name declaring span).run := by
  have (ty : TypeId) : Composed P L (modifySymbols (·.declareObject (.new name ty))) :=
    .updateSymbols fun _ => rfl
  unfold namedType
  refine .andThen fun _ => ?_
  split
  · infer_instance
  · exact .andThen fun _ => .getThen (fun _ _ => rfl) fun _ => inferInstance

mutual

/-- The search for the type that a type expression stands for. -/
theorem composed_type [HasSteps P] (r : Recur)
    [∀ (L : Leeway) name declaring span, Composed P L (namedType name declaring span).run]
    [∀ (L : Leeway) name args span, Composed P L (r.instantiate name args span)] (span : Span)
    (ty : TypeExpr) : Composed P L (r.type span ty).run := by
  unfold Recur.type
  split
  case h_1 => infer_instance
  case h_2 => infer_instance
  case h_3 => infer_instance
  case h_4 ty _ =>
      have := composed_type r span ty
      infer_instance
  case h_5 ty _ =>
      have := composed_type r span ty
      infer_instance
  case h_6 => infer_instance
  case h_7 args =>
      have := composed_types r span args
      infer_instance
  case h_8 elem =>
      have := composed_type r span elem
      exact .andThen fun _ => .getThen (fun _ _ => rfl) fun _ => inferInstance

theorem composed_types [HasSteps P] (r : Recur)
    [∀ (L : Leeway) name declaring span, Composed P L (namedType name declaring span).run]
    [∀ (L : Leeway) name args span, Composed P L (r.instantiate name args span)] (span : Span)
    (tys : List TypeExpr) : Composed P L (r.types span tys).run := by
  unfold Recur.types
  split
  case h_1 => infer_instance
  case h_2 ty rest =>
      have := composed_type r span ty
      have := composed_types r span rest
      infer_instance

end

instance [r.IsComposed] : r.HasParts Elementary where
  operand := Recur.IsComposed.operand
  condition := Recur.IsComposed.condition
  type := composed_type r

/-! ### Signatures and members -/

instance (base : String) (params : List ParamSig) : Composed P L (mangle base params) := by
  unfold mangle
  exact .get (fun _ _ => rfl) fun _ => inferInstance

section

variable [HasSteps P] [r.HasTypes P]

instance (ty : TypeExpr) (span : Span) : Composed P L (r.paramSig ty span).run := by
  unfold Recur.paramSig
  infer_instance

instance (span : Span) (fields : List Field) : Composed P L (r.paramSigs span fields) := by
  induction fields with
  | nil =>
      unfold Recur.paramSigs
      infer_instance
  | cons field rest ih =>
      unfold Recur.paramSigs
      infer_instance

instance (params : List Field) (ret : TypeExpr) (span : Span) :
    Composed P L (r.signature params ret span).run := by
  unfold Recur.signature
  infer_instance

instance (field : Option Field) (span : Span) : Composed P L (r.operandSig field span).run := by
  unfold Recur.operandSig
  split <;> infer_instance

instance (owner : TypeId) (known : List (Name × TypeId)) (field : Field) (span : Span) :
    Composed P L (r.memberType owner known field span).run := by
  unfold Recur.memberType
  infer_instance

instance (owner : TypeId) (span : Span) (known : List (Name × TypeId)) (fields : List Field) :
    Composed P L (r.memberTypes owner span known fields) := by
  induction fields generalizing known with
  | nil =>
      unfold Recur.memberTypes
      infer_instance
  | cons field rest ih =>
      unfold Recur.memberTypes
      refine .bind fun _ => ?_
      split <;> infer_instance

end

section

variable [HasTables P]

/-! ### Callables -/

instance (node : Nat) (callee : Callee) (symbol : String) (sig : CallableSig)
    (thisTy : Option TypeId) (body : Option Node) [hbody : Postpones P node body] (span : Span) :
    Composed P L (declareCallee node callee symbol sig thisTy body span) := by
  have (function : FunctionId) :
      Composed P L (postpone node ⟨function, symbol, sig, thisTy, .overload callee, body⟩) :=
    hbody.postpone rfl
  unfold declareCallee
  refine .bind fun _ => .bind fun function => ?_
  refine .symbolsThen (.modifyCallables (fun t => callee.bindings_declare t _) fun t =>
    callee.sameOutlines_declare t _) fun _ => ?_
  split <;> infer_instance

instance (key : OperatorKey) (symbol : String) (sig : CallableSig) (span : Span) :
    Composed P L (enterOperator key symbol sig span).run := by
  have (table : OperatorTable) :
      Composed P L (modifyContext fun c => { c with operators := table }) :=
    HasTables.tables ⟨fun _ => rfl, fun _ _ => rfl⟩ (fun _ => rfl) fun _ => ⟨.refl _, rfl⟩
  unfold enterOperator
  refine .andThen fun _ => .andThen fun _ => .getThen (fun _ _ => rfl) fun _ => ?_
  split <;> infer_instance

instance (pending : PendingCallable) (throws : ThrowSet) :
    Composed P L (recordThrows pending throws) := by
  have (index : Nat) : Composed P L (modifyContext fun c => { c with
      operators := c.operators.modify index fun e => { e with throws := throws } }) :=
    HasTables.tables ⟨fun _ => rfl, fun _ _ => rfl⟩ (fun _ => rfl) fun _ => ⟨.refl _, rfl⟩
  have (callee : Callee) (g : OverloadSet → OverloadSet) :
      Composed P L (modifySymbols (callee.modify · g)) :=
    .modifyCallables (fun t => callee.bindings_modify t g) fun t => callee.sameOutlines_modify t g
  unfold recordThrows
  split
  · refine .bind fun _ => ?_
    split <;> infer_instance
  · refine .get (fun _ _ => rfl) fun _ => ?_
    split <;> infer_instance

variable [r.HasTypes P]

instance (node : Nat) (decl : FunctionDecl Node) [Postpones P node decl.body] (span : Span) :
    Composed P L (r.declareFunction node decl span).run := by
  unfold Recur.declareFunction
  refine .andThen fun isNew => ?_
  split
  · exact .andThen fun _ => .andThen fun _ => .getThen (fun _ _ => rfl) fun _ => inferInstance
  · infer_instance

instance (node : Nat) (object : TypeId) (decl : FunctionDecl Node) [Postpones P node decl.body]
    (span : Span) : Composed P L (r.declareMethod node object decl span).run := by
  unfold Recur.declareMethod
  infer_instance

instance (node : Nat) (object : TypeId) (decl : ConstructorDecl Node) [Postpones P node decl.body]
    (span : Span) : Composed P L (r.declareConstructor node object decl span).run := by
  unfold Recur.declareConstructor
  infer_instance

instance (node : Nat) (decl : OperatorDecl Node) [hbody : Postpones P node decl.body]
    (span : Span) : Composed P L (r.declareOperator node decl span).run := by
  have (function : FunctionId) (symbol : String) (sig : CallableSig) (index : Nat) :
      Composed P L (postpone node ⟨function, symbol, sig, none, .operator index, decl.body⟩) :=
    hbody.postpone rfl
  unfold Recur.declareOperator
  refine .andThen fun _ => ?_
  split
  · refine .andThen fun _ => .andThen fun _ => .andThen fun _ => .andThen fun _ =>
    .andThen fun _ => ?_
    split <;> infer_instance
  · infer_instance

/-- The body of a callable. -/
def Node.body? (node : Node) : Option Node :=
  match node.kind with
  | .function decl => decl.body
  | .constructor decl => decl.body
  | .operator decl => decl.body
  | _ => none

instance (object : TypeId) (node : Node) [hbody : Postpones P node.id node.body?] :
    Composed P L (r.declareMember object node) := by
  obtain ⟨id, span, kind⟩ := node
  unfold Recur.declareMember
  cases kind with
  | function decl | constructor decl | operator decl =>
      have : Postpones P id decl.body := hbody
      infer_instance
  | _ => infer_instance

theorem composed_declareMembers (object : TypeId) {nodes : List (Option Node)}
    (h : ∀ node, some node ∈ nodes → Postpones P node.id node.body?) :
    Composed P L (r.declareMembers object nodes) := by
  induction nodes with
  | nil =>
      unfold Recur.declareMembers
      infer_instance
  | cons node rest ih =>
      have := ih fun node hnode => h node (.tail _ hnode)
      cases node with
      | none =>
          unfold Recur.declareMembers
          infer_instance
      | some node =>
          have := h node (.head _)
          unfold Recur.declareMembers
          infer_instance

end

section

variable [HasWalk P] [r.HasTypes P]

instance (object : TypeId) (nodes : List (Option Node)) :
    Composed P L (r.declareMembers object nodes) :=
  composed_declareMembers object fun _ _ => inferInstance

end

section

variable [HasWalk P] [r.HasParts P]

instance (node : Nat) : Composed P L (r.define node) := by
  have : Composed P L (modifyPass fun p => { p with pending := p.pending.erase node }) :=
    HasWalk.walk (.of_same fun _ => ⟨rfl, rfl, rfl, rfl, rfl, rfl⟩)
  unfold Recur.define
  refine .get (fun _ _ => rfl) fun _ => ?_
  split
  · infer_instance
  · refine .bind fun _ => ?_
    split <;> infer_instance

instance (node : Nat) (decl : FunctionDecl Node) (span : Span) :
    Composed P L (r.function node decl span) := by
  unfold Recur.function
  refine .bind fun _ => ?_
  split <;> infer_instance

instance (node : Nat) (decl : OperatorDecl Node) (span : Span) :
    Composed P L (r.operator node decl span) := by
  unfold Recur.operator
  refine .bind fun _ => ?_
  split <;> infer_instance

instance (methods : List (Option Node)) : Composed P L (r.defineMembers methods) := by
  induction methods with
  | nil =>
      unfold Recur.defineMembers
      infer_instance
  | cons method rest ih =>
      unfold Recur.defineMembers
      refine .bind fun _ => ?_
      split
      · infer_instance
      · cases method <;> infer_instance

end

/-! ### Objects -/

section

variable [HasUpdates P]

instance (ty : TypeId) (members : List (Name × TypeId)) :
    Composed P L (completeObject ty members) := by
  have : Composed P L (modifySymbols (·.modifyByType ty fun info =>
      { info with members := members, complete := true })) :=
    .updateSymbols fun t => t.bindings_modifyByType ty _
  unfold completeObject
  refine .bind fun _ => .bind fun _ => ?_
  split <;> infer_instance

variable [r.HasTypes P]

instance (ty : TypeId) (members : List Field) (span : Span) :
    Composed P L (r.layout ty members span) := by
  unfold Recur.layout
  infer_instance

instance (node : Nat) (decl : ObjectDecl Node)
    [∀ (L : Leeway) object, Composed P L (r.declareMembers object decl.methods)] (span : Span) :
    Composed P L (r.declareObject node decl span).run := by
  unfold Recur.declareObject
  infer_instance

end

instance [r.IsComposed] (node : Nat) (decl : ObjectDecl Node) (span : Span) :
    Composed Elementary L (r.object node decl span) := by
  unfold Recur.object
  refine .bind fun _ => ?_
  split <;> infer_instance

/-! ### The dynamic array -/

section

variable [HasSteps P] [∀ (L : Leeway) key symbol sig span,
  Composed P L (enterOperator key symbol sig span).run]

instance (key : OperatorKey) (params : List ParamSig) (ret : TypeId) (retRef : Bool) :
    Composed P L (DynamicArray.declareOperator key params ret retRef).run := by
  unfold DynamicArray.declareOperator
  infer_instance

variable [L.IsApart]

instance (ty elem : TypeId) : Composed P L (DynamicArray.buildIndex ty elem).run := by
  unfold DynamicArray.buildIndex
  infer_instance

instance (ty elem : TypeId) : Composed P L (DynamicArray.buildAppend ty elem).run := by
  unfold DynamicArray.buildAppend
  infer_instance

instance (ty : TypeId) : Composed P L (DynamicArray.buildDelete ty).run := by
  unfold DynamicArray.buildDelete
  infer_instance

end

/-- The operators of an array type are written apart from the code around them. -/
theorem composed_buildOperators [HasSteps P] [∀ (L : Leeway) key symbol sig span,
    Composed P L (enterOperator key symbol sig span).run] (ty elem : TypeId) :
    Composed P L (do
      let here ← position
      let _ ← (DynamicArray.buildIndex ty elem).run
      let _ ← (DynamicArray.buildAppend ty elem).run
      let _ ← (DynamicArray.buildDelete ty).run
      Build.restorePosition here : Lower Unit) := by
  have : Composed P L (comingBack do
      let _ ← (DynamicArray.buildIndex ty elem).run
      let _ ← (DynamicArray.buildAppend ty elem).run
      let _ ← (DynamicArray.buildDelete ty).run
      return ()) := inferInstance
  simpa only [comingBack, bind_assoc, pure_bind] using this

instance [HasUpdates P] (ty elem : TypeId) : Composed P L (DynamicArray.build ty elem) := by
  have := composed_buildOperators (P := P) (L := L) ty elem
  unfold DynamicArray.build
  refine .bind fun _ => ?_
  split <;> infer_instance

/-! ### Instances of templates -/

section

variable [HasUpdates P]

instance (params : List (Name × TypeId)) : Composed P L (bindPlaceholders params) := by
  induction params with
  | nil =>
      unfold bindPlaceholders
      infer_instance
  | cons param rest ih =>
      unfold bindPlaceholders
      exact .symbolsThen (.updateSymbols fun _ => rfl) fun _ => inferInstance

instance (shadowed : List (Name × Shadowed)) : Composed P L (unbindPlaceholders shadowed) := by
  induction shadowed with
  | nil =>
      unfold unbindPlaceholders
      infer_instance
  | cons entry rest ih =>
      have : Composed P L (modifySymbols (·.unbindPlaceholder entry.1 entry.2)) :=
        .updateSymbols fun t => t.bindings_unbindPlaceholder _ _
      unfold unbindPlaceholders
      infer_instance

instance (decl : TemplateDecl Node) (span : Span) : Composed P L (registerTemplate decl span) := by
  have (table : TemplateTable) :
      Composed P L (modifyContext fun c => { c with templates := table }) :=
    HasUpdates.update ⟨fun _ => rfl, fun _ _ => rfl⟩ fun _ => rfl
  unfold registerTemplate
  refine .bind fun _ => ?_
  split
  · infer_instance
  · refine .get (fun _ _ => rfl) fun _ => ?_
    split <;> infer_instance

instance (name : Name) (args : List TypeId) (ty : TypeId) :
    Composed P L (recordInstance name args ty) :=
  HasUpdates.update ⟨fun _ => rfl, fun _ _ => rfl⟩ fun _ => rfl

end

/-- The walk through an instance of a template may be a part of other computations. -/
class Recur.HasInstances (r : Recur) (P : Parts) : Prop where
  walk : ∀ {L : Leeway} (ty : TypeId) (members : List Field) (methods : List (Option Node))
    (span : Span), Composed P L (asNewPass do
      r.layout ty members span
      r.declareMembers ty methods
      r.defineMembers methods)

attribute [instance] Recur.HasInstances.walk

instance [r.IsComposed] : r.HasInstances Elementary where
  walk _ _ _ _ := inferInstance

section

variable [HasUpdates P] [r.HasInstances P]

instance (ty : TypeId) (template : Template) (members : List Field) (methods : List (Option Node))
    (args : List TypeId) (span : Span) :
    Composed P L (r.fillDeclared ty template members methods args span) := by
  have (shadowed : List (Name × Shadowed)) : Composed P L (comingBack do
      asNewPass do
        r.layout ty members span
        r.declareMembers ty methods
        r.defineMembers methods
      unbindPlaceholders shadowed) := inferInstance
  simp only [comingBack, bind_assoc] at this
  unfold Recur.fillDeclared
  exact .bind this

instance (ty : TypeId) (canonical : String) (template : Template) (args : List TypeId)
    (span : Span) : Composed P L (r.fillInstance ty canonical template args span) := by
  unfold Recur.fillInstance
  split
  · split <;> infer_instance
  · infer_instance

instance (name : Name) (args : List TypeId) (template : Template) (span : Span) :
    Composed P L (r.newInstance name args template span) := by
  have (canonical : Name) (ty : TypeId) :
      Composed P L (modifySymbols (·.declareObject (.new canonical ty))) :=
    .updateSymbols fun _ => rfl
  unfold Recur.newInstance
  refine .bind fun _ => .bind fun _ => .bind fun _ => .bind fun _ => ?_
  split <;> infer_instance

instance (name : Name) (args : List TypeId) (span : Span) :
    Composed P L (r.instanceOf name args span).run := by
  unfold Recur.instanceOf
  refine .getThen (fun _ _ => rfl) fun _ => ?_
  dsimp only
  split
  · infer_instance
  · refine .andThen fun _ => ?_
    split <;> infer_instance

end

/-! ### Nodes -/

instance (stmt : Lower Unit) [Composed P L stmt] : Composed P L (noValue stmt) := by
  unfold noValue
  infer_instance

instance (stmt : Attempt Unit) [Composed P L stmt.run] : Composed P L stmt.noValue := by
  unfold Attempt.noValue
  infer_instance

instance (expr : Lower Operand) [Composed P L expr] : Composed P L (someValue expr) := by
  unfold someValue
  infer_instance

instance (node : Node) [Composed P L (r.lowerKind node)] : Composed P L (r.lowerHere node) := by
  have : Composed P L (modifyPass fun p => { p with span := node.span }) :=
    .note _ (.of_same (fun _ => ⟨rfl, rfl, rfl, rfl, rfl, rfl⟩) (fun _ => rfl) fun _ => rfl)
  unfold Recur.lowerHere
  infer_instance

/-- What a node may let out may be recorded along with other computations. -/
class Lower.HasRecords (P : Parts) : Prop where
  record : ∀ {L : Leeway} (node : Nat) (throws : ThrowSet),
    Composed P L (modifyPass fun p => { p with nodeThrows := p.nodeThrows.insert node throws })

instance [HasWalk P] : HasRecords P where
  record _ _ := HasWalk.walk (.of_same fun _ => ⟨rfl, rfl, rfl, rfl, rfl, rfl⟩)

instance [HasRecords P] (node : Nat) (throws : ThrowSet) :
    Composed P L (Recur.recordNodeThrows node throws) := by
  have : Composed P L (modifyPass fun p =>
      { p with nodeThrows := p.nodeThrows.insert node throws }) := HasRecords.record node throws
  unfold Recur.recordNodeThrows
  infer_instance

instance [HasRecords P] (node : Node) [Composed P L (r.lowerHere node)] :
    Composed P L (r.lowerNode node) := by
  unfold Recur.lowerNode
  refine .bind fun _ => ?_
  split
  · infer_instance
  · exact .framed fun _ _ => inferInstance

/-- A node is put together from the steps of lowering where it stands if it is so in the body of a
function, and at module scope, too, if it may stand there. -/
theorem composed_lowerHere {node : Node}
    (hallowed : node.kind.allowedAtModuleScope = true → Composed P L (r.lowerKind node))
    (hinside : Composed P L.ofBody (r.lowerKind node)) : Composed P L (r.lowerHere node) := by
  cases hkind : node.kind.allowedAtModuleScope with
  | true =>
      have := hallowed hkind
      infer_instance
  | false =>
      have : Composed P L (modifyPass fun p => { p with span := node.span }) :=
        .note _ (.of_same (fun _ => ⟨rfl, rfl, rfl, rfl, rfl, rfl⟩) (fun _ => rfl) fun _ => rfl)
      unfold Recur.lowerHere
      simp only [hkind, Bool.not_false, Bool.and_true]
      exact .bind fun _ => .within inferInstance hinside

/-- What a node is lowered to by its kind. Only what may stand at module scope may be put together
outside a function. -/
theorem composed_lowerKind [r.IsComposed] [L.Writes] {node : Node}
    (h : node.kind.allowedAtModuleScope = false → L.IsCode) :
    Composed Elementary L (r.lowerKind node) := by
  obtain ⟨id, span, kind⟩ := node
  unfold Recur.lowerKind
  cases kind with
  | logical | comparison | call | methodCall | member | index | construct | delete | this
  | debugPrint | print | asm | throw | tryCatch | ifElse | whileLoop | forLoop | switch
  | breakStmt | continueStmt | returnStmt | block | constructor =>
      have := h rfl
      infer_instance
  | _ => infer_instance

instance [r.IsComposed] [L.Writes] (node : Node) : Composed Elementary L (r.lowerHere node) := by
  apply composed_lowerHere
  · intro hallowed
    exact composed_lowerKind fun hnot => absurd (hallowed.symm.trans hnot) nofun
  · exact composed_lowerKind fun _ => inferInstance

instance [r.IsComposed] [L.IsCode] (node : Node) : Composed Elementary L (r.lowerKind node) :=
  composed_lowerKind fun _ => inferInstance

/-- So is all of lowering, however deep its calls nest. -/
instance Recur.isComposed_within (n : Nat) : (within n).IsComposed := by
  induction n with
  | zero =>
      constructor
      · intro L _ _
        exact inferInstanceAs (Composed Elementary L (throw Crash.endless))
      · intro L _ _ _ _ _ _
        exact inferInstanceAs (Composed Elementary L (throw Crash.endless))
      · intro L _ _ _
        exact inferInstanceAs (Composed Elementary L (throw Crash.endless))
  | succ n ih =>
      constructor
      · intro L _ node
        exact inferInstanceAs (Composed Elementary L ((within n).lowerNode node))
      · intro L _ cond thenTo elseTo _ _
        exact inferInstanceAs (Composed Elementary L ((within n).conditionOf cond thenTo elseTo))
      · intro L name args span
        exact inferInstanceAs (Composed Elementary L ((within n).instanceOf name args span).run)

end SsaCompiler
