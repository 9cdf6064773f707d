/-
# Compilations close their modules

Making a template concrete is a walk of its own, in the middle of the walk that asks for it, and
leaves that walk as it was. Lowering of a node by its kind, and with it lowering to any depth,
keeps the state sound. A whole compilation starts with nothing written and no block open, so it
ends that way: whatever is reported on the way, the control flow of the module is closed.
-/

import SsaCompiler.Lower.Compilation
import SsaCompiler.Proofs.ControlFlow.DynamicArray

namespace SsaCompiler

open Lower

variable {α : Type} {m : Module} {scope : Option FunctionId} {g : FunctionId} {r : Recur}
  [r.Sound]

/-! ### Templates -/

instance (params : List (Name × TypeId)) : Quiet m (bindPlaceholders params) fun _ _ => True := by
  induction params generalizing m with
  | nil =>
      unfold bindPlaceholders
      exact .pure fun _ => trivial
  | cons first rest ih =>
      obtain ⟨name, ty⟩ := first
      unfold bindPlaceholders
      refine Quiet.of_leads fun func bindings p blocks => .seq symbols_leads ?_
      rintro t m₁ _ rfl
      exact .seq (setSymbols_leads rfl) fun _ _ _ _ => .bind fun _ _ _ _ =>
        .pure id fun _ => trivial

instance (shadowed : List (Name × Shadowed)) :
    Quiet m (unbindPlaceholders shadowed) fun _ _ => True := by
  induction shadowed generalizing m with
  | nil =>
      unfold unbindPlaceholders
      exact .pure fun _ => trivial
  | cons first rest ih =>
      obtain ⟨name, hidden⟩ := first
      unfold unbindPlaceholders
      exact .bind fun _ _ _ _ =>
        Quiet.modifySymbols fun t => t.bindings_unbindPlaceholder name hidden

/-- A walk that has not started. -/
theorem Pass.sound_new (thisName : Name) : (Pass.new thisName).Sound m none where
  inScope := rfl
  entry hf := by cases hf
  loops _ ht := absurd ht List.not_mem_nil
  tries _ ht := absurd ht List.not_mem_nil
  pending := Table.all_empty

/-- Another walk takes over, with the same variables. -/
theorem Lower.setPass_leads {func func' : Option FunctionState}
    {bindings : Table Name VarBinding} {P : Module → Prop} {pass : Pass}
    (hfunc : pass.func = func') (hpass : pass.Sound m (func'.map (·.id)))
    (hbindings : bindings.All fun b => m.Avail (func'.map (·.id)) b.storage) :
    Leads m (Lowering.Holding func bindings P) (modifyPass fun _ => pass)
      (fun _ => Lowering.Holding func' bindings P) fun _ _ => True where
  run {s a s'} h hm hs := by
    cases h
    obtain ⟨⟨-, hsound, hP⟩, rfl⟩ := hs
    have : m.Extends s.module := hm
    exact ⟨.refl _, ⟨⟨hfunc, ⟨hsound.context, hbindings.imp fun _ => inferInstance, hpass.mono⟩,
      hP⟩, rfl⟩, trivial⟩

/-- A walk in the middle of another one leaves that one as it was. -/
theorem Lower.Quiet.asNewPass {body : Lower Unit} (hbody : Quiet m body fun _ _ => True) :
    Quiet m (Lower.asNewPass body) fun _ _ => True := by
  refine Quiet.of_leads fun func bindings p blocks => ?_
  unfold Lower.asNewPass
  refine .seq get_leads ?_
  rintro s m₁ hm₁ ⟨⟨⟨hfunc, hsound, -⟩, rfl⟩, rfl⟩
  refine .bind fun thisName m₂ hm₂ _ => .seq (setPass_leads rfl (Pass.sound_new _) ?_) ?_
  · exact hsound.bindings.imp fun _ => ⟨fun h => by cases h⟩
  · intro _ m₃ hm₃ _
    have hinner : Leads m (Lowering.Holding none s.context.symbols.bindings (Module.Open p blocks))
        body (fun _ => Lowering.Holding none s.context.symbols.bindings (Module.Open p blocks))
        fun _ _ => True := hbody.leads ⟨none, _, p, blocks⟩
    refine .seq (hinner.mono ((hm₁.trans hm₂).trans hm₃)) fun _ m₄ hm₄ _ => ?_
    refine .bind fun _ m₅ hm₅ _ => ?_
    have : s.module.Extends m₅ := ((hm₂.trans hm₃).trans hm₄).trans hm₅
    refine .seq (setPass_leads hfunc hsound.pass.mono ?_) fun _ _ _ _ => ?_
    · exact hsound.bindings.imp fun _ => inferInstance
    · split
      · infer_instance
      · exact .pure id fun _ => trivial

/-- What holds of a template and of all others holds when it is added. -/
theorem TemplateTable.all_insert {t table : TemplateTable} {template : Template}
    (h : t.insert template = some table) (ht : t.templates.All Template.Linked)
    (htemplate : template.Linked) : table.templates.All Template.Linked := by
  unfold TemplateTable.insert at h
  split at h
  · cases h
  · cases h
    exact ht.insert htemplate

/-- A template of the program keeps its methods for later. -/
instance (decl : TemplateDecl Node) (span : Span) [hmethods : AllLinked decl.methods] :
    Quiet m (registerTemplate decl span) fun _ _ => True := by
  unfold registerTemplate
  refine .bind fun _ _ _ _ => ?_
  split
  · infer_instance
  · refine .bind ?_
    rintro s m₁ _ ⟨scope, hs⟩
    dsimp only
    split
    · rename_i table htable
      refine Quiet.modifyContext (fun _ h => ⟨h.descriptors, ?_⟩) fun _ => rfl
      refine TemplateTable.all_insert htable hs.context.templates fun members methods hbody => ?_
      cases hbody
      exact hmethods
    · exact .bind fun _ _ _ _ => inferInstance

instance (name : Name) (args : List TypeId) (ty : TypeId) :
    Quiet m (recordInstance name args ty) fun _ _ => True :=
  .modifyContext (fun _ h => ⟨h.descriptors, h.templates⟩) fun _ => rfl

instance (ty : TypeId) (template : Template) (members : List Field)
    (methods : List (Option Node)) (args : List TypeId) (span : Span) [AllLinked methods] :
    Quiet m (r.fillDeclared ty template members methods args span) fun _ _ => True := by
  have hfill (m : Module) : Quiet m (Lower.asNewPass do
      r.layout ty members span
      r.declareMembers ty methods
      r.defineMembers methods) fun _ _ => True :=
    Quiet.asNewPass (.bind fun _ _ _ _ => .bind fun _ _ _ _ => inferInstance)
  unfold Recur.fillDeclared
  refine .bind fun _ m₁ _ _ => Quiet.of_leads fun func bindings p blocks => ?_
  refine .seq position_leads ?_
  rintro here m₂ _ rfl
  refine .fromRest (.bind fun _ _ _ _ => .bind fun _ _ _ _ => ?_)
  infer_instance

theorem Lower.Quiet.fillInstance {template : Template} (htemplate : template.Linked)
    (ty : TypeId) (canonical : String) (args : List TypeId) (span : Span) :
    Quiet m (r.fillInstance ty canonical template args span) fun _ _ => True := by
  unfold Recur.fillInstance
  split
  · split <;> infer_instance
  · rename_i hbody
    have := htemplate _ _ hbody
    infer_instance

instance (args : List TypeId) : Quiet m (args.mapM describe) fun _ _ => True := by
  induction args generalizing m with
  | nil =>
      rw [List.mapM_nil]
      exact .pure fun _ => trivial
  | cons ty rest ih =>
      rw [List.mapM_cons]
      exact .bind fun _ _ _ _ => .bind fun _ _ _ _ => .pure fun _ => trivial

theorem Lower.Quiet.newInstance {template : Template} (htemplate : template.Linked)
    (name : Name) (args : List TypeId) (span : Span) :
    Quiet m (r.newInstance name args template span) fun _ _ => True := by
  have hobject (m : Module) (o : ObjectInfo) :
      Quiet m (Lower.modifySymbols (·.declareObject o)) fun _ _ => True :=
    .modifySymbols fun _ => rfl
  unfold Recur.newInstance
  refine .bind fun _ _ _ _ => .bind fun _ _ _ _ => .bind fun _ _ _ _ => .bind fun _ _ _ _ => ?_
  split
  · exact .bind fun _ _ _ _ => .pure fun _ => trivial
  · refine .bind fun _ _ _ _ => .bind fun _ _ _ _ => .bind fun _ _ _ _ => ?_
    exact .seq (Quiet.fillInstance htemplate _ _ _ _) fun _ _ _ _ => .pure fun _ => trivial

/-- Instances of templates are made without touching the code that is being written. -/
instance (name : Name) (args : List TypeId) (span : Span) :
    Quiet m (r.instanceOf name args span).run (OnSome fun _ _ => True) := by
  unfold Recur.instanceOf
  refine .andThen ?_
  rintro s m₁ _ ⟨scope, hs⟩
  dsimp only
  split
  · exact .some fun _ => trivial
  · refine .andThen fun _ m₂ _ _ => ?_
    split
    · rename_i template htemplate
      have hlinked : template.Linked := hs.context.templates.get? htemplate
      have := Quiet.newInstance (m := m₂) (r := r) hlinked name args span
      infer_instance
    · exact .either (.refuse inferInstance) (.refuse inferInstance)

/-! ### Nodes by their kind -/

instance {x : Lower Unit} [Straight m scope x fun _ _ => True] :
    Straight m scope (Lower.noValue x) (OnSome fun m op => m.Avail scope op.value) := by
  unfold Lower.noValue
  exact .bind fun _ _ _ _ => .pure fun _ _ hop => by cases hop

instance {x : Attempt Unit} [Straight m scope x.run (OnSome fun _ _ => True)] :
    Straight m scope x.noValue (OnSome fun m op => m.Avail scope op.value) := by
  unfold Attempt.noValue
  infer_instance

instance {x : Lower Operand} [Straight m scope x fun m op => m.Known op.value] :
    Straight m scope (Lower.someValue x) (OnSome fun m op => m.Avail scope op.value) := by
  unfold Lower.someValue
  refine .bind ?_
  intro op m₁ _ hop
  refine .pure fun hm op' hop' => ?_
  cases hop'
  infer_instance

theorem CasesLinked.of_parts {cases : List (SwitchCase Node)}
    (h : AllLinked (cases.flatMap fun c => [c.value, c.body])) : CasesLinked cases where
  all c hc := by
    refine ⟨h.all _ (List.mem_flatMap.2 ⟨c, hc, ?_⟩), h.all _ (List.mem_flatMap.2 ⟨c, hc, ?_⟩)⟩
    · exact List.mem_cons_self
    · exact List.mem_cons_of_mem _ List.mem_cons_self

/-- A node is lowered by its kind. Outside all functions it has to be of a kind that may stand
there. -/
theorem Recur.lowerKind_straight {node : Node} (hnode : node.Chained)
    (hallowed : scope = none → node.kind.allowedAtModuleScope = true) :
    Straight m scope (r.lowerKind node) (OnSome fun m op => m.Avail scope op.value) := by
  have hparts : AllLinked node.kind.children := hnode.children rfl
  have hinside (h : node.kind.allowedAtModuleScope = false) : ∃ g, scope = some g := by
    cases scope with
    | none => exact absurd (hallowed rfl) (by simp [h])
    | some g => exact ⟨g, rfl⟩
  have hlinked : Linked (some node) := ⟨fun h => by cases h; exact hnode⟩
  unfold Recur.lowerKind
  obtain ⟨id, span, kind⟩ := node
  dsimp only
  cases kind with
  | intLit v => infer_instance
  | floatLit v => infer_instance
  | boolLit v => infer_instance
  | charLit v => infer_instance
  | strLit text => infer_instance
  | null => infer_instance
  | ident name => infer_instance
  | this => infer_instance
  | binary op lhs rhs =>
      obtain ⟨hlhs, hparts⟩ := hparts.cons
      obtain ⟨hrhs, -⟩ := hparts.cons
      infer_instance
  | logical op terms => infer_instance
  | comparison first rest => infer_instance
  | unary op operand =>
      obtain ⟨hoperand, -⟩ := hparts.cons
      infer_instance
  | assign op target value =>
      obtain ⟨htarget, hparts⟩ := hparts.cons
      obtain ⟨hvalue, -⟩ := hparts.cons
      infer_instance
  | call callee args =>
      have : AllLinked args := hparts
      infer_instance
  | methodCall receiver method args =>
      obtain ⟨hreceiver, hargs⟩ := hparts.cons
      infer_instance
  | member object name =>
      obtain ⟨hobject, -⟩ := hparts.cons
      infer_instance
  | index object offset =>
      obtain ⟨hobject, hparts⟩ := hparts.cons
      obtain ⟨hoffset, -⟩ := hparts.cons
      infer_instance
  | cast expr ty =>
      obtain ⟨hexpr, -⟩ := hparts.cons
      infer_instance
  | construct ty args heap =>
      have : AllLinked args := hparts
      infer_instance
  | delete operand =>
      obtain ⟨hoperand, -⟩ := hparts.cons
      infer_instance
  | sizeOf ty =>
      refine Keeps.imp inferInstance fun _ hknown op hop => ?_
      have := hknown op hop
      infer_instance
  | debugPrint expr =>
      obtain ⟨hexpr, -⟩ := hparts.cons
      infer_instance
  | print args =>
      have : AllLinked args := hparts
      infer_instance
  | asm text => infer_instance
  | throw value =>
      obtain ⟨g, rfl⟩ := hinside rfl
      obtain ⟨hvalue, -⟩ := hparts.cons
      infer_instance
  | tryCatch body catches =>
      obtain ⟨g, rfl⟩ := hinside rfl
      obtain ⟨hbody, hcatches⟩ := hparts.cons
      infer_instance
  | varDecl ty vars =>
      have : AllLinked (vars.map (·.init)) := hparts
      infer_instance
  | ifElse cond thenBranch elseBranch =>
      obtain ⟨g, rfl⟩ := hinside rfl
      obtain ⟨hcond, hparts⟩ := hparts.cons
      obtain ⟨hthen, hparts⟩ := hparts.cons
      obtain ⟨helse, -⟩ := hparts.cons
      infer_instance
  | whileLoop cond body =>
      obtain ⟨g, rfl⟩ := hinside rfl
      obtain ⟨hcond, hparts⟩ := hparts.cons
      obtain ⟨hbody, -⟩ := hparts.cons
      infer_instance
  | forLoop init cond step body =>
      obtain ⟨g, rfl⟩ := hinside rfl
      obtain ⟨hinit, hparts⟩ := hparts.cons
      obtain ⟨hcond, hparts⟩ := hparts.cons
      obtain ⟨hstep, hparts⟩ := hparts.cons
      obtain ⟨hbody, -⟩ := hparts.cons
      infer_instance
  | switch scrutinee cases default autoBreak =>
      obtain ⟨g, rfl⟩ := hinside rfl
      obtain ⟨hscrutinee, hparts⟩ := hparts.cons
      obtain ⟨hdefault, hparts⟩ := hparts.cons
      have := CasesLinked.of_parts hparts
      infer_instance
  | breakStmt =>
      obtain ⟨g, rfl⟩ := hinside rfl
      infer_instance
  | continueStmt =>
      obtain ⟨g, rfl⟩ := hinside rfl
      infer_instance
  | returnStmt value =>
      obtain ⟨g, rfl⟩ := hinside rfl
      obtain ⟨hvalue, -⟩ := hparts.cons
      infer_instance
  | block stmts =>
      have : AllLinked stmts := hparts
      infer_instance
  | function decl =>
      obtain ⟨hbody, -⟩ := hparts.cons
      infer_instance
  | constructor decl => infer_instance
  | object decl =>
      have : AllLinked decl.methods := hparts
      infer_instance
  | template decl =>
      have : AllLinked decl.methods := hparts
      infer_instance
  | operator decl =>
      obtain ⟨hbody, -⟩ := hparts.cons
      infer_instance
  | module items =>
      have : AllLinked items := hparts
      infer_instance

instance (node : Node) [hnode : Linked (some node)] :
    Straight m scope (r.lowerHere node) (OnSome fun m op => m.Avail scope op.value) := by
  have hspan (m : Module) : Quiet m (modifyPass fun p => { p with span := node.span })
      fun _ _ => True :=
    .modifyPass (fun h => ⟨h.inScope, h.entry, h.loops, h.tries, h.pending⟩) fun _ => rfl
  unfold Recur.lowerHere
  refine .bind fun _ _ _ _ => .bind ?_
  rintro f m₁ _ rfl
  split
  · exact .bind fun _ _ _ _ => .pure fun _ _ hop => by cases hop
  · rename_i hallowed
    refine Recur.lowerKind_straight (hnode.chained rfl) fun hnone => ?_
    simpa [Option.map_eq_none_iff.1 hnone] using hallowed

instance (node : Nat) (throws : ThrowSet) :
    Quiet m (Recur.recordNodeThrows node throws) fun _ _ => True := by
  have hrecord (m : Module) : Quiet m
      (modifyPass fun p => { p with nodeThrows := p.nodeThrows.insert node throws })
      fun _ _ => True :=
    .modifyPass (fun h => ⟨h.inScope, h.entry, h.loops, h.tries, h.pending⟩) fun _ => rfl
  unfold Recur.recordNodeThrows
  exact .ite (.pure fun _ => trivial) (.bind fun _ _ _ _ => inferInstance)

instance (node : Node) [Linked (some node)] :
    Straight m scope (r.lowerNode node) (OnSome fun m op => m.Avail scope op.value) := by
  unfold Recur.lowerNode
  refine .bind fun _ _ _ _ => .ite (.pure fun _ _ hop => by cases hop) ?_
  refine .bind fun _ _ _ _ => .bind ?_
  intro result m₁ _ hresult
  refine .bind fun _ _ _ _ => .bind fun _ _ _ _ => .pure fun _ op hop => ?_
  have := hresult op hop
  infer_instance

/-- Lowering is sound to any depth. -/
instance Recur.Sound.within (n : Nat) : (Recur.within n).Sound := by
  induction n with
  | zero =>
      exact {
        operand _ _ _ := ⟨fun _ => ⟨fun h => by cases h⟩⟩
        condition _ _ _ _ _ _ := ⟨fun h => by cases h⟩
        instantiate _ _ _ _ := ⟨fun _ => ⟨fun h => by cases h⟩⟩ }
  | succ n ih =>
      exact {
        operand m scope node := inferInstanceAs
          (Straight m scope ((Recur.within n).lowerNode node) _)
        condition m f blocks cond thenTo elseTo := inferInstanceAs
          (Leads m (Busy f blocks) ((Recur.within n).conditionOf cond thenTo elseTo) _ _)
        instantiate m name args span := inferInstanceAs
          (Quiet m ((Recur.within n).instanceOf name args span).run _) }

/-! ### Whole compilations -/

instance (node : Option Node) [Linked node] : Straight m scope (root r node) fun _ _ => True := by
  unfold root
  split <;> infer_instance

namespace Compilation

/-- What holds between two trees: the tables only name what is there, nothing is being written,
and no block is open. -/
structure Sound (c : Compilation) : Prop where
  context : c.context.Sound c.module
  module : c.module.Open none []

/-- A module with nothing in it. -/
theorem open_new (name : String) : (Module.new name).Open none [] where
  admitted h := by cases h
  listed h := by cases h
  addresses h := by cases h
  position := rfl
  isOpen := by
    refine ⟨?_, fun hb => absurd hb List.not_mem_nil⟩
    rintro ⟨d, hb, -⟩
    cases hb

theorem sound_new (options : LowerOptions) (moduleName : String) :
    (new options moduleName).Sound where
  context := {
    descriptors := Table.all_empty
    templates := Table.all_empty.insert fun _ _ h => by cases h }
  module := open_new moduleName

variable {c c' : Compilation}

/-- A walk that goes straight on leaves a sound compilation behind. -/
theorem Sound.walk {body : Lower α} {G : Module → α → Prop} {a : α}
    {result : Except InternalError (Table Nat ThrowSet)} (hc : c.Sound)
    (hbody : Straight c.module none body G) (h : c.walk body = .ok (a, result, c')) :
    c'.Sound := by
  let start : Lowering :=
    ⟨c.context, (c.names.intern "this").2, c.module, .new (c.names.intern "this").1⟩
  have hstart : start.Within none (Module.Open none []) := by
    refine ⟨rfl, ⟨hc.context, fun _ _ => ⟨fun h => by cases h⟩, Pass.sound_new _⟩, hc.module⟩
  change (body start >>= _) = _ at h
  cases hrun : body start with
  | error e =>
      rw [hrun] at h
      cases h
  | ok p =>
      obtain ⟨a', s⟩ := p
      rw [hrun] at h
      cases h
      have hplace : Leads c.module (Lowering.Within none (Module.Open none [])) body _ G :=
        hbody.leads ⟨none, [], rfl, fun h => by cases h⟩
      obtain ⟨-, ⟨-, hsound, hopen⟩, -⟩ := hplace.run hrun (.refl _) hstart
      exact ⟨hsound.context, hopen⟩

/-- Lowering of one more tree leaves a sound compilation behind, whatever it reports. -/
theorem Sound.lowerWithin {bound : Nat} {root : Option Node} [Linked root]
    {result : Except InternalError LowerOutcome} (hc : c.Sound)
    (h : c.lowerWithin bound root = .ok (result, c')) : c'.Sound := by
  unfold Compilation.lowerWithin at h
  cases hwalk : c.walk (Lower.root (.within bound) root) with
  | error e =>
      rw [hwalk] at h
      cases h
  | ok p =>
      obtain ⟨⟨⟩, nodeThrows, c₁⟩ := p
      have hc₁ : c₁.Sound := hc.walk inferInstance hwalk
      rw [hwalk] at h
      cases nodeThrows with
      | error e =>
          cases h
          exact hc₁
      | ok throws =>
          cases h
          exact ⟨⟨hc₁.context.descriptors, hc₁.context.templates⟩, hc₁.module⟩

/-- A compilation after any number of trees, in each of which all chains of comparisons have
at least one operator. Reading a tree may add names. -/
inductive IsReachable : Compilation → Prop where
  | new (options : LowerOptions) (moduleName : String) : IsReachable (new options moduleName)
  | read {c : Compilation} (before : IsReachable c) (names : Names) :
      IsReachable { c with names := names }
  | lower {c c' : Compilation} {bound : Nat} {root : Node}
      {result : Except InternalError LowerOutcome} (before : IsReachable c) (chained : root.Chained)
      (step : c.lowerWithin bound (some root) = .ok (result, c')) : IsReachable c'

/-- Every compilation that can come about is sound. -/
theorem IsReachable.sound (h : c.IsReachable) : c.Sound := by
  induction h with
  | new options moduleName => exact sound_new options moduleName
  | read _ names ih => exact ⟨ih.context, ih.module⟩
  | lower _ chained step ih =>
      have : Linked (some _) := ⟨fun h => Option.some.inj h ▸ chained⟩
      exact ih.lowerWithin step

/-- However many trees were lowered before, however deep, and whatever was reported on the way, the
control flow of the module is closed behind every tree: each block ends, goes on in blocks of its
own function only, and uses only what is known there or made there. -/
theorem isClosed_of_lower {bound : Nat} {root : Node} {result : Except InternalError LowerOutcome}
    (hc : c.IsReachable) (hroot : root.Chained)
    (h : c.lowerWithin bound (some root) = .ok (result, c')) : c'.module.IsClosed :=
  (IsReachable.lower hc hroot h).sound.module.isClosed

/-- A function with a loop that has a comparison in front and a jump out of it inside. -/
def loopProgram : Node :=
  let node (id : Nat) (kind : NodeKind Node) : Node := ⟨id, .unknown, kind⟩
  let test := node 0 (.comparison (node 1 (.intLit 1)) [(.lt, node 2 (.intLit 2))])
  let loop := node 3 (.whileLoop test (node 4 .breakStmt))
  node 5 (.module [node 6 (.function ⟨⟨3⟩, [], .prim .int, node 7 (.block [loop])⟩)])

/-- The loop leaves six blocks behind, all of them closed. -/
theorem isClosed_of_lower_loopProgram : ∃ result c',
    { new .standard "loop" with names := ⟨#["", "Array", "T", "main"]⟩ }.lower (some loopProgram) =
      .ok (result, c') ∧ c'.module.blocks.size = 6 ∧ c'.module.IsClosed := by
  have hreachable := (IsReachable.new .standard "loop").read ⟨#["", "Array", "T", "main"]⟩
  have hchained : loopProgram.Chained := by
    simp [loopProgram, Node.chained_mk_iff, NodeKind.children]
  have hsize : (match { new .standard "loop" with names := ⟨#["", "Array", "T", "main"]⟩ }.lower
      (some loopProgram) with
      | .ok (_, c') => c'.module.blocks.size
      | .error _ => 0) = 6 := by decide +kernel
  split at hsize
  · rename_i result c' hrun
    exact ⟨result, c', hrun, hsize, isClosed_of_lower hreachable hchained hrun⟩
  · cases hsize

end Compilation

end SsaCompiler
