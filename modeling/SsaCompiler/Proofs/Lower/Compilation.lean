/-
# Compilations go from a state to later ones

One instance for each function that enters something in a table of its own or puts a type together,
and from all instances the result for every node, however deep its calls nest. So however many trees
are lowered one after the other, and whatever is reported on the way, the module goes through the
changes of requests only, and the tables know what they have entered.
-/

import SsaCompiler.Proofs.Ir.Integrity
import SsaCompiler.Proofs.Lower.Stepwise.Object

namespace SsaCompiler

section

open Lower

variable {r : Recur} [r.IsStepwise]

/-! ### Exceptions -/

/-- What a landing pad brings is a record of types that are there. -/
theorem proceeds_recordType {fields : List TypeId} {s : Lowering}
    (hfields : ∀ f ∈ fields, s.module.types.Has f) :
    Proceeds (liftM (Build.recordType fields) : Lower TypeId) s where
  run h := by
    obtain ⟨m, hrun, rfl⟩ := Lower.build_eq_ok_iff.1 h
    exact ⟨Lowering.evolves_module (Build.moves_of_internType hrun hfields), trivial⟩

instance (body : Option Node) (catches : List (CatchClause Node)) (span : Span) :
    Stepwise (r.tryCatch body catches span) where
  later {s a s'} hs h := by
    have hgives : Proceeds (r.tryCatch body catches span) s := by
      unfold Recur.tryCatch
      refine Gives.step hs fun f s₁ _ hs₁ => ?_
      split
      · exact .of_stepwise hs₁
      · refine Gives.step hs₁ fun _ s₂ _ hs₂ => Gives.step hs₂ fun _ s₃ _ hs₃ =>
          Gives.step hs₃ fun _ s₄ _ hs₄ => Gives.step hs₄ fun _ s₅ _ hs₅ =>
          Gives.step hs₅ fun _ s₆ _ hs₆ => Gives.step hs₆ fun _ s₇ _ hs₇ => ?_
        refine (gives_bytePointer s₇).bind hs₇ fun bytes s₈ _ hs₈ hbytes => ?_
        refine (PrimType.gives_lower .int s₈).bind hs₈ fun word s₉ h₉ hs₉ hword => ?_
        refine (proceeds_recordType fun f hf => ?_).bind hs₉ fun padTy s₁₀ _ hs₁₀ _ => ?_
        · rcases List.mem_pair.1 hf with rfl | rfl
          · exact h₉.module.types.has hbytes.has
          · exact hword.has
        · refine Gives.step hs₁₀ fun _ s₁₁ _ hs₁₁ => Gives.step hs₁₁ fun _ s₁₂ _ hs₁₂ =>
            Gives.step hs₁₂ fun _ s₁₃ _ hs₁₃ => ?_
          split
          · refine Gives.step hs₁₃ fun _ s₁₄ _ hs₁₄ => Gives.step hs₁₄ fun _ s₁₅ _ hs₁₅ =>
              Gives.step hs₁₅ fun _ s₁₆ _ hs₁₆ => .of_stepwise hs₁₆
          · refine Gives.step hs₁₃ fun _ s₁₄ _ hs₁₄ => Gives.step hs₁₄ fun _ s₁₅ _ hs₁₅ =>
              Gives.step hs₁₅ fun _ s₁₆ _ hs₁₆ => Gives.step hs₁₆ fun _ s₁₇ _ hs₁₇ =>
              .of_stepwise hs₁₇
    exact (hgives.run h).1

/-! ### Nodes -/

/-- A new template has no instances yet. -/
theorem TemplateTable.instances_of_insert {t table : TemplateTable} {template : Template}
    (h : t.insert template = some table) : table.instances = t.instances := by
  unfold TemplateTable.insert at h
  split at h <;> cases h
  rfl

instance (decl : TemplateDecl Node) (span : Span) : Stepwise (registerTemplate decl span) where
  later {s a s'} hs h := by
    have hgives : Proceeds (registerTemplate decl span) s := by
      unfold registerTemplate
      refine Gives.step hs fun f s₁ _ hs₁ => ?_
      split
      · exact .of_stepwise hs₁
      · refine (gives_get s₁).bind hs₁ fun state s₂ _ hs₂ hsame => ?_
        obtain ⟨rfl, rfl⟩ := hsame
        split
        · rename_i table hinsert
          constructor
          intro _ s' h
          cases h
          have hsame : state.context.SameEntries { state.context with templates := table } :=
            ⟨rfl, rfl, rfl, TemplateTable.instances_of_insert hinsert, rfl, rfl, rfl⟩
          exact ⟨Lowering.evolves_context rfl (.refl _) hsame.known, trivial⟩
        · exact .of_stepwise hs₂
    exact (hgives.run h).1

instance (stmt : Lower Unit) [Stepwise stmt] : Stepwise (noValue stmt) := by
  unfold noValue
  infer_instance

instance (stmt : Attempt Unit) [Stepwise stmt.run] : Stepwise stmt.noValue := by
  unfold Attempt.noValue
  infer_instance

instance (expr : Lower Operand) [Stepwise expr] : Stepwise (someValue expr) := by
  unfold someValue
  infer_instance

instance (node : Node) : Stepwise (r.lowerKind node) := by
  unfold Recur.lowerKind
  split <;> infer_instance

instance (node : Node) : Stepwise (r.lowerHere node) := by
  unfold Recur.lowerHere
  infer_instance

instance (node : Nat) (throws : ThrowSet) : Stepwise (Recur.recordNodeThrows node throws) := by
  unfold Recur.recordNodeThrows
  infer_instance

instance (node : Node) : Stepwise (r.lowerNode node) := by
  unfold Recur.lowerNode
  refine .bind fun _ => ?_
  split <;> infer_instance

/-- Lowering goes to later states, however deep its calls nest. -/
instance Recur.isStepwise_within (n : Nat) : (within n).IsStepwise := by
  induction n with
  | zero =>
      constructor
      · intro _
        exact inferInstanceAs (Stepwise (throw Crash.endless))
      · intro _ _ _
        exact inferInstanceAs (Stepwise (throw Crash.endless))
      · intro _ _ _ _ _ _ _ _ h
        cases h
  | succ n ih =>
      constructor
      · intro node
        exact inferInstanceAs (Stepwise ((within n).lowerNode node))
      · intro cond thenTo elseTo
        exact inferInstanceAs (Stepwise ((within n).conditionOf cond thenTo elseTo))
      · intro name args span s o s' hs hargs h
        exact (yields_instanceOf name span hs hargs).run h

end

namespace Compilation

variable {c c' : Compilation}

/-- What the tables know between two trees. -/
def Known (c : Compilation) : Prop := c.context.Known c.names c.module

/-- Nothing is known at the beginning. -/
theorem known_new (options : LowerOptions) (moduleName : String) :
    (new options moduleName).Known where
  objects h := by cases h
  structures h := by cases h
  instances h := by cases h
  functions h := by cases h
  operators _ h := absurd h List.not_mem_nil
  keys := OperatorTable.isIndexed_empty
  support h := by cases h
  supported := .nil

/-- A walk goes to a later module. -/
theorem Known.walk {α : Type} {body : Lower α} [Stepwise body] {a : α}
    {result : Except InternalError (Table Nat ThrowSet)} (hc : c.Known)
    (h : c.walk body = .ok (a, result, c')) : c.module.Progresses c'.module ∧ c'.Known := by
  let start : Lowering :=
    ⟨c.context, (c.names.intern "this").2, c.module, .new (c.names.intern "this").1⟩
  have hstart : start.Known := hc.mono (c.names.grow_intern "this") (.refl _)
  change (body start >>= _) = _ at h
  obtain ⟨⟨a', s⟩, hrun, hend⟩ := answer_bind_eq_ok_iff.1 h
  cases hend
  have hlater := Stepwise.later hstart hrun
  exact ⟨⟨hlater.module, hlater.continues⟩, hlater.known hstart⟩

/-- A module is lowered like a statement. -/
theorem root_of_module {r : Recur} {node : Node} {items : List (Option Node)}
    (hnode : node.kind = .module items) : Lower.root r (some node) = r.statement (some node) := by
  unfold Lower.root
  rw [Option.map_some, hnode]

/-- A tree that is no module is not lowered. -/
theorem root_of_not_module {r : Recur} {root : Option Node}
    (hroot : ∀ items, root.map Node.kind ≠ some (.module items)) :
    Lower.root r root = Lower.abandon .rootNotModule := by
  unfold Lower.root
  split
  · rename_i hmodule
    exact (hroot _ hmodule).elim
  · rfl

instance (r : Recur) [r.IsStepwise] (node : Option Node) : Stepwise (Lower.root r node) := by
  unfold Lower.root
  split <;> infer_instance

theorem Known.lowerWithin {bound : Nat} {root : Option Node}
    {result : Except InternalError LowerOutcome} (hc : c.Known)
    (h : c.lowerWithin bound root = .ok (result, c')) :
    c.module.Progresses c'.module ∧ c'.Known := by
  obtain ⟨⟨⟨⟩, nodeThrows, c₁⟩, hwalk, hend⟩ := answer_bind_eq_ok_iff.1 h
  obtain ⟨hmodule, hc₁⟩ := hc.walk hwalk
  cases nodeThrows with
  | error e =>
      cases hend
      exact ⟨hmodule, hc₁⟩
  | ok throws =>
      cases hend
      have hsame : c₁.context.SameEntries
          { c₁.context with diagnostics := c₁.context.diagnostics.flush.2 } :=
        ⟨rfl, rfl, rfl, rfl, rfl, rfl, rfl⟩
      exact ⟨hmodule, hsame.known hc₁⟩

/-- A compilation after any number of trees, each lowered as deep as it takes. Reading a tree may
add names. -/
inductive IsBuilt : Compilation → Prop where
  | new (options : LowerOptions) (moduleName : String) : IsBuilt (new options moduleName)
  | read {c : Compilation} {names : Names} (before : IsBuilt c) (hgrow : c.names.Grow names) :
      IsBuilt { c with names := names }
  | lower {c c' : Compilation} {bound : Nat} {root : Option Node}
      {result : Except InternalError LowerOutcome} (before : IsBuilt c)
      (step : c.lowerWithin bound root = .ok (result, c')) : IsBuilt c'

/-- A compilation in which some names have been read. -/
def reading (moduleName : String) (texts : Array String) : Compilation :=
  { new .standard moduleName with names := ⟨(new .standard moduleName).names.texts ++ texts⟩ }

/-- Reading names is a way to begin. -/
theorem isBuilt_reading (moduleName : String) (texts : Array String) :
    (reading moduleName texts).IsBuilt :=
  (IsBuilt.new .standard moduleName).read (Names.grow_append _ texts)

/-- What a compilation has come from, and what its tables know. -/
theorem IsBuilt.progresses (h : c.IsBuilt) :
    (∃ moduleName, (Module.new moduleName).Progresses c.module) ∧ c.Known := by
  induction h with
  | new options moduleName => exact ⟨⟨moduleName, .refl _⟩, known_new options moduleName⟩
  | read _ hgrow ih => exact ⟨ih.1, ih.2.mono hgrow (.refl _)⟩
  | lower _ step ih =>
      obtain ⟨⟨moduleName, hbefore⟩, hc⟩ := ih
      obtain ⟨hmodule, hc'⟩ := hc.lowerWithin step
      exact ⟨⟨moduleName, hbefore.trans hmodule⟩, hc'⟩

/-- The types of a compilation have entered its table one after the other. -/
theorem IsBuilt.develops (h : c.IsBuilt) : TypeTable.empty.Develops c.module.types := by
  obtain ⟨moduleName, hprogresses⟩ := h.progresses.1
  exact hprogresses.evolves.types

/-- Everything in the module of a compilation has its place. -/
theorem IsBuilt.isOrderly (h : c.IsBuilt) : c.module.IsOrderly := by
  obtain ⟨moduleName, hprogresses⟩ := h.progresses.1
  exact hprogresses.continues.invariant (Module.isOrderly_new moduleName) Module.Alters.isOrderly

/-- As long as no request has been counted as an error, the code of a compilation fits. -/
theorem IsBuilt.isFitting (h : c.IsBuilt) (hzero : c.module.codegenErrors = 0) :
    c.module.IsFitting := by
  obtain ⟨moduleName, hprogresses⟩ := h.progresses.1
  exact hprogresses.continues.isFitting hzero

/-- Whether a tree is lowered and leaves something behind that passes a test. -/
def leaves (c : Compilation) (root : Option Node) (test : LowerOutcome → Compilation → Bool) :
    Bool :=
  match c.lower root with
  | .ok (.ok outcome, c') => test outcome c'
  | _ => false

/-- What a tree leaves behind can be tested. -/
theorem exists_of_leaves {root : Option Node} {P : LowerOutcome → Compilation → Prop}
    [∀ outcome c', Decidable (P outcome c')]
    (h : c.leaves root (fun outcome c' => P outcome c') = true) :
    ∃ outcome c', c.lower root = .ok (.ok outcome, c') ∧ P outcome c' := by
  unfold leaves at h
  split at h
  · rename_i outcome c' hlower
    exact ⟨outcome, c', hlower, of_decide_eq_true h⟩
  · cases h

end Compilation

end SsaCompiler
