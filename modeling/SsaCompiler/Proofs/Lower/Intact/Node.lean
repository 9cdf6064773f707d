/-
# Walks do not end early

An object has a type from the moment of its declaration, so it is found when it gets its members and
when its methods are declared. The same holds of an instance of a template, although a placeholder
may hide the object of that name while the instance gets its members: the type leads to the
placeholder then, and behind it to the object again.

One instance for each function of lowering that enters something in the tables, and from all of them
the result for every node, however deep its calls nest. The tables are intact before the first tree,
so they are between any two trees, and no module that is lowered ends early, whatever is reported on
the way.
-/

import SsaCompiler.Proofs.Lower.Compilation
import SsaCompiler.Proofs.Lower.Intact.Callable

namespace SsaCompiler

section

open Lower

variable {s : Lowering} {r : Recur}

/-! ### Members -/

/-- An object that is there gets its members. -/
theorem isSecure_completeObject {ty : TypeId} (members : List (Name × TypeId))
    (hty : s.context.symbols.HasType ty) : IsSecure (completeObject ty members) s := by
  unfold completeObject
  refine (Secures.build (Build.setStructBody ty (members.map Prod.snd))).bind fun _ s₁ h₁ _ _ => ?_
  have hty₁ := hty.mono h₁.tables.symbols
  refine Maintains.symbols.bind fun table s₂ _ _ hsame => ?_
  obtain ⟨rfl, rfl⟩ := hsame
  obtain ⟨info, hinfo⟩ := Option.isSome_iff_exists.1 hty₁
  rw [hinfo]
  have hinto (old : ObjectInfo) :
      old.Retains { old with members := members, complete := true } :=
    ⟨rfl, rfl, fun _ => rfl, .refl OverloadSet.Retains.refl _, .refl _⟩
  exact (secures_modifySymbols (SymbolTable.retains_modifyByType fun old _ => hinto old)
    (fun ht => ht.modifyByType fun old _ => hinto old)
    (SymbolTable.byType_modifyByType _ _ _)).unit

section

variable [hr : r.IsSecure]

theorem isSecure_layout {ty : TypeId} (members : List Field) (span : Span)
    (hty : s.context.symbols.HasType ty) : IsSecure (r.layout ty members span) s := by
  unfold Recur.layout
  exact Secures.step fun known s₁ h₁ _ =>
    isSecure_completeObject known (hty.mono h₁.tables.symbols)

/-- What stands in the body of an object is declared. -/
theorem isSecure_declareMember {object : TypeId} (node : Node)
    (hobject : s.context.symbols.HasType object) : IsSecure (r.declareMember object node) s := by
  unfold Recur.declareMember
  split
  · exact (grants_declareMethod node.id _ node.span hobject).unit.bind
      fun _ _ _ _ _ => .pure trivial
  · exact (grants_declareConstructor node.id _ node.span hobject).unit.bind
      fun _ _ _ _ _ => .pure trivial
  · exact (grants_declareOperator node.id _ node.span s).unit.bind
      fun _ _ _ _ _ => .pure trivial
  · exact Secures.report ..

theorem isSecure_declareMembers {object : TypeId} (nodes : List (Option Node)) {s : Lowering}
    (hobject : s.context.symbols.HasType object) : IsSecure (r.declareMembers object nodes) s := by
  induction nodes generalizing s with
  | nil => exact .pure trivial
  | cons node rest ih =>
      cases node with
      | none => exact ⟨fun _ h => by cases h⟩
      | some node =>
          unfold Recur.declareMembers
          exact (isSecure_declareMember node hobject).bind fun _ s₁ h₁ _ _ =>
            ih (hobject.mono h₁.tables.symbols)

theorem isSecure_defineMembers (methods : List (Option Node)) (s : Lowering) :
    IsSecure (r.defineMembers methods) s := by
  induction methods generalizing s with
  | nil => exact .pure trivial
  | cons method rest ih =>
      unfold Recur.defineMembers
      refine Secures.step fun abandoned s₁ _ _ => ?_
      split
      · exact .pure trivial
      · cases method with
        | none => exact ih s₁
        | some node => exact (isSecure_define node.id s₁).bind fun _ s₂ _ _ _ => ih s₂

/-- An object of the program is declared. A name that stands for something complete, as
placeholders do, is rejected; any other has a type that leads to an object. -/
theorem grants_declareObject (node : Nat) (decl : ObjectDecl Node) (span : Span) (s : Lowering) :
    Grants (fun _ _ => True) (r.declareObject node decl span) s := by
  unfold Recur.declareObject
  refine Grants.step fun isNew s₁ _ _ => ?_
  split
  · refine (grants_namedType decl.name true span s₁).bind fun ty s₂ _ hs₂ hty => ?_
    obtain ⟨info, hinfo, rfl⟩ := hty
    refine (Attempt.Maintains.lift .symbols).bind fun table s₃ _ hs₃ hsame => ?_
    obtain ⟨rfl, rfl⟩ := hsame
    have hobject : s₃.context.symbols.object? decl.name = some info := hinfo
    rw [hobject]
    dsimp only
    split
    · refine Grants.step fun text s₄ _ _ => ?_
      exact (Attempt.Maintains.reject (Q := fun _ _ => False) (Secures.report ..)).bind
        fun _ _ _ _ hfalse => hfalse.elim
    · rename_i hincomplete
      have hplain : info.placeholder = false := by
        by_contra hplaceholder
        exact hincomplete (hs₃.tables.symbols.complete hinfo (by simpa using hplaceholder))
      have hty : s₃.context.symbols.HasType info.ty :=
        hs₃.tables.symbols.hasType (hs₃.tables.symbols.types hinfo hplain)
      refine (Attempt.Maintains.lift (isSecure_layout decl.members span hty)).bind fun _ s₄ h₄ _ _ => ?_
      exact .lift (isSecure_declareMembers decl.methods (hty.mono h₄.tables.symbols))
  · exact .pure trivial

theorem isSecure_object (node : Nat) (decl : ObjectDecl Node) (span : Span) (s : Lowering) :
    IsSecure (r.object node decl span) s := by
  unfold Recur.object
  refine Secures.step fun f s₁ _ _ => ?_
  split
  · exact Secures.report ..
  · exact (grants_declareObject node decl span s₁).unit.bind
      fun _ s₂ _ _ _ => isSecure_defineMembers decl.methods s₂

end

/-! ### The dynamic array -/

instance {L : Leeway} (key : OperatorKey) (symbol : String) (sig : CallableSig) (span : Span) :
    Composed IsSecured L (enterOperator key symbol sig span).run :=
  .part fun s _ => (grants_enterOperator key symbol sig span s).unit

/-- An array type that is there gets its members and its operators. -/
theorem DynamicArray.isSecure_build {ty : TypeId} (elem : TypeId)
    (hty : s.context.symbols.HasType ty) : IsSecure (build ty elem) s := by
  unfold build
  refine Secures.step fun kind s₁ h₁ _ => ?_
  split
  · exact Secures.report ..
  · refine Secures.step fun elemPtr s₂ h₂ _ => Secures.step fun long s₃ h₃ _ =>
      Secures.step fun data s₄ h₄ _ => Secures.step fun length s₅ h₅ _ =>
      Secures.step fun capacity s₆ h₆ _ => ?_
    have hlater := h₁.trans (h₂.trans (h₃.trans (h₄.trans (h₅.trans h₆))))
    refine (isSecure_completeObject _ (hty.mono hlater.tables.symbols)).bind fun _ s₇ _ _ _ => ?_
    refine Secures.step fun table s₈ _ _ => ?_
    split
    · have := composed_buildOperators (P := IsSecured) (L := .free) ty elem
      exact IsSecure.of_composed
    · exact .pure trivial

/-! ### Instances -/

section

variable [hr : r.IsSecure]

/-- What is done for an instance while its parameters have a meaning. No callable waits for its body
there, so nothing has to be found that a placeholder may hide. -/
theorem retains_of_instance {params : List (Name × TypeId)} {ty : TypeId} {members : List Field}
    {methods : List (Option Node)} {span : Span} {s₂ : Lowering} (hs : s.IsIntact)
    (hty : s.context.symbols.HasType ty) (thisName : Name) (names : Names)
    (h : (do
      r.layout ty members span
      r.declareMembers ty methods
      r.defineMembers methods : Lower Unit)
        { s with
          context := { s.context with
            symbols := (SymbolTable.bindPlaceholders params s.context.symbols).2 }
          names := names
          pass := .new thisName } = .ok ((), s₂)) :
    (SymbolTable.bindPlaceholders params s.context.symbols).2.Retains s₂.context.symbols ∧
      s.context.operators.size ≤ s₂.context.operators.size ∧
      s.context.templates.instances.Grow s₂.context.templates.instances ∧
      s.module.types.size ≤ s₂.module.types.size ∧ s₂.IsIntact := by
  have hbyType := SymbolTable.byType_bindPlaceholders params s.context.symbols
  have hlinked := hs.tables.symbols.bindPlaceholders params
  have htype : (SymbolTable.bindPlaceholders params s.context.symbols).2.HasType ty := by
    refine hlinked.hasType (hbyType ▸ ?_)
    obtain ⟨info, hinfo⟩ := Option.isSome_iff_exists.1 hty
    obtain ⟨name, hname, -⟩ := Option.bind_eq_some_iff.1 hinfo
    exact Option.isSome_iff_exists.2 ⟨name, hname⟩
  have hbody : IsSecure (do
      r.layout ty members span
      r.declareMembers ty methods
      r.defineMembers methods : Lower Unit)
      { s with
        context := { s.context with
          symbols := (SymbolTable.bindPlaceholders params s.context.symbols).2 }
        names := names
        pass := .new thisName } :=
    (isSecure_layout members span htype).bind fun _ _ h₁ _ _ =>
      (isSecure_declareMembers methods (htype.mono h₁.tables.symbols)).bind
        fun _ _ _ _ _ => isSecure_defineMembers methods _
  obtain ⟨hretains, hs₂, -⟩ := hbody.run ⟨⟨hlinked, fun hname => hs.tables.types (hbyType ▸ hname),
    hs.tables.operators, hs.tables.templates⟩, (fun hp => by cases hp), rfl⟩ h
  exact ⟨hretains.tables.symbols, hretains.tables.operators, hretains.tables.instances,
    hretains.types, hs₂⟩

/-- Behind an instance there are the symbols that its placeholders hid, and the walk goes on. -/
theorem retains_behind_instance {s₂ : Lowering} {t : SymbolTable} (hs : s.IsIntact)
    (hs₂ : s₂.IsIntact) (hsymbols : s.context.symbols.Retains t) (hlinked : t.IsLinked)
    (hbyType : t.byType = s₂.context.symbols.byType)
    (hoperators : s.context.operators.size ≤ s₂.context.operators.size)
    (hinstances : s.context.templates.instances.Grow s₂.context.templates.instances)
    (htypes : s.module.types.size ≤ s₂.module.types.size) :
    s.Retains { s₂ with
        context := { s₂.context with symbols := t }
        pass := { s.pass with fatal := s.pass.fatal.or s₂.pass.fatal } } ∧
      ({ s₂ with
        context := { s₂.context with symbols := t }
        pass := { s.pass with fatal := s.pass.fatal.or s₂.pass.fatal } } : Lowering).IsIntact := by
  have hretains : s.context.Retains { s₂.context with symbols := t } :=
    ⟨hsymbols, hoperators, hinstances⟩
  refine ⟨⟨hretains, htypes, rfl⟩, hs.of_retains hretains ?_ rfl ?_⟩
  · exact ⟨hlinked, fun hname => hs₂.tables.types (hbyType ▸ hname), hs₂.tables.operators,
      hs₂.tables.templates⟩
  · change s.pass.fatal.or s₂.pass.fatal = s.pass.fatal
    rw [hs₂.fatal, Option.or_none]

/-- An instance gets the members and methods of its template. -/
theorem isSecure_fillDeclared {ty : TypeId} (template : Template) (members : List Field)
    (methods : List (Option Node)) (args : List TypeId) (span : Span)
    (hty : s.context.symbols.HasType ty) :
    IsSecure (r.fillDeclared ty template members methods args span) s where
  run {u s'} hs h := by
    unfold Recur.fillDeclared at h
    rw [bind_of_ok (bindPlaceholders_apply _ s), bind_of_ok (position_apply _)] at h
    obtain ⟨⟨⟩, s₁, hpass, h⟩ := bind_eq_ok_iff.1 h
    obtain ⟨s₂, hrun, rfl⟩ := asNewPass_eq_ok hpass
    obtain ⟨hsymbols, hoperators, hinstances, htypes, hs₂⟩ := retains_of_instance hs hty _ _ hrun
    rw [bind_of_ok (unbindPlaceholders_apply _ _)] at h
    obtain ⟨hbehind, hlinked⟩ := hsymbols.unbindPlaceholders hs.tables.symbols _ hs₂.tables.symbols
    obtain ⟨hretains, hs₃⟩ := retains_behind_instance hs hs₂ hbehind hlinked
      (SymbolTable.byType_unbindPlaceholders _ _) hoperators hinstances htypes
    obtain ⟨hlast, hs', -⟩ := (Secures.build (Build.restorePosition _)).run hs₃ h
    exact ⟨hretains.trans hlast, hs', trivial⟩

/-- The built-in array is filled when there is an argument for its parameter. -/
theorem isSecure_fillInstance {ty : TypeId} {canonical : String} {template : Template}
    {args : List TypeId} {span : Span} (hty : s.context.symbols.HasType ty)
    (hargs : template.isBuiltin = true → args.length = 1) :
    IsSecure (r.fillInstance ty canonical template args span) s := by
  unfold Recur.fillInstance
  split
  · rename_i hbody
    have hone : args.length = 1 := hargs (by rw [Template.isBuiltin, hbody])
    split
    · exact DynamicArray.isSecure_build _ hty
    · cases hone
  · exact isSecure_fillDeclared template _ _ args span hty

/-- The type of an instance is remembered where none was so far. -/
theorem secures_recordInstance {name : Name} {args : List TypeId} (ty : TypeId)
    (hnew : s.context.templates.instance? name args = none) :
    Secures (fun s' _ => s'.context.templates.instance? name args = some ty)
      (recordInstance name args ty) s where
  run hs h := by
    obtain ⟨hretains, hs', rfl⟩ := (Secures.modifyContext (f := fun c =>
      { c with templates := c.templates.recordInstance name args ty })
      ⟨.refl _, Nat.le_refl _, Table.grow_insert hnew⟩ fun hc =>
        ⟨hc.symbols, hc.types, hc.operators, hc.templates⟩).run hs h
    exact ⟨hretains, hs', Table.get?_insert.trans (if_pos rfl)⟩

/-- A new instance has a type that leads to it when it gets its members, and the type is remembered. -/
theorem secures_newInstance {name : Name} {args : List TypeId} {template : Template} {span : Span}
    (hnew : s.context.templates.instance? name args = none)
    (hargs : template.isBuiltin = true → args.length = 1) :
    Secures (fun s' ty => s'.context.templates.instance? name args = some ty)
      (r.newInstance name args template span) s := by
  unfold Recur.newInstance
  refine (Maintains.nameText name).bind fun text s₁ _ _ hsame => ?_
  obtain ⟨rfl, -⟩ := hsame
  refine (Maintains.mapM_describe args).bind fun argTexts s₂ _ _ hsame => ?_
  obtain rfl := hsame
  refine (Secures.intern _).bind fun canonicalName s₃ _ _ hsame => ?_
  rw [← hsame] at hnew
  refine Maintains.symbols.bind fun table s₄ _ hs₄ hsame => ?_
  obtain ⟨rfl, rfl⟩ := hsame
  split
  · exact (secures_recordInstance _ hnew).bind fun _ _ _ _ hty => .pure hty
  · rename_i hname
    refine (secures_namedStruct _ s₄).bind fun ty s₅ _ _ hmade => ?_
    obtain ⟨hcontext, hindex, hlt⟩ := hmade
    have hbyType := hs₄.byType_eq_none hindex
    rw [← hcontext] at hname hbyType hnew
    refine (secures_declareNew hname hbyType hlt).bind fun _ s₆ _ _ hsame => ?_
    have hty : s₆.context.symbols.HasType ty := by
      rw [hsame]
      exact SymbolTable.hasType_declareObject
    have hnew₆ : s₆.context.templates.instance? name args = none := by
      rw [hsame]
      exact hnew
    refine (secures_recordInstance ty hnew₆).bind fun _ s₇ h₇ _ hrecorded => ?_
    refine (isSecure_fillInstance (hty.mono h₇.tables.symbols) hargs).bind
      fun _ s₈ h₈ _ _ => .pure (h₈.tables.instances _ _ hrecorded)

/-- An instance that is asked for is the one that the table has for its template and arguments. -/
theorem grants_instanceOf (name : Name) (args : List TypeId) (span : Span) (s : Lowering) :
    Grants (fun s' ty => s'.context.templates.instance? name args = some ty)
      (r.instanceOf name args span) s := by
  unfold Recur.instanceOf
  refine (Attempt.Maintains.lift .get).bind fun a s₁ _ hs₁ hsame => ?_
  obtain ⟨rfl, rfl⟩ := hsame
  dsimp only
  split
  · rename_i hfound
    exact .pure hfound
  · rename_i hnew
    refine (Attempt.Maintains.lift (.nameText name)).bind fun text s₂ _ _ hsame => ?_
    obtain ⟨rfl, -⟩ := hsame
    split
    · rename_i template htemplate
      exact .lift (secures_newInstance hnew (hs₁.tables.templates htemplate))
    · split <;> exact .reject (Secures.report ..)

end

/-- A template of the program has a body of its own. -/
theorem isSecure_registerTemplate (decl : TemplateDecl Node) (span : Span) (s : Lowering) :
    IsSecure (registerTemplate decl span) s := by
  unfold registerTemplate
  refine Secures.step fun f s₁ _ _ => ?_
  split
  · exact Secures.report ..
  · refine Maintains.get.bind fun a s₂ _ hs₂ hsame => ?_
    obtain ⟨rfl, rfl⟩ := hsame
    split
    · rename_i table hinsert
      have hsame := TemplateTable.instances_of_insert hinsert
      refine (Secures.modifyContext ⟨.refl _, Nat.le_refl _, hsame ▸ .refl _⟩ fun hc => ⟨hc.symbols,
        hc.types, hc.operators, fun {key template} hget => ?_⟩).unit
      rcases TemplateTable.eq_or_get?_of_insert hinsert hget with rfl | hold
      · intro hbuiltin
        cases hbuiltin
      · exact hc.templates hold
    · exact Secures.step fun text s₃ _ _ => Secures.report ..

end

open Lower

variable {L : Leeway} {r : Recur}

/-! ### Nodes -/

instance [L.IsCode] [r.IsSecure] (node : Nat) (decl : FunctionDecl Node) (span : Span) :
    Composed IsSecured L (r.function node decl span) :=
  .part fun s _ => isSecure_function node decl span s

instance [L.IsCode] [r.IsSecure] (node : Nat) (decl : OperatorDecl Node) (span : Span) :
    Composed IsSecured L (r.operator node decl span) :=
  .part fun s _ => isSecure_operator node decl span s

instance [r.IsSecure] (node : Nat) (decl : ObjectDecl Node) (span : Span) :
    Composed IsSecured L (r.object node decl span) :=
  .part fun s _ => isSecure_object node decl span s

instance (decl : TemplateDecl Node) (span : Span) :
    Composed IsSecured L (registerTemplate decl span) :=
  .part fun s _ => isSecure_registerTemplate decl span s

instance (fields : List TypeId) :
    Composed IsSecured L (liftM (Build.recordType fields) : Lower TypeId) :=
  .part fun _ _ => Secures.build _

instance : HasRecords IsSecured where
  record _ _ := .part fun _ _ => Secures.modifyPass rfl rfl fun hs => hs.pending

instance [L.IsCode] [r.IsSecure] (node : Node) : Composed IsSecured L (r.lowerKind node) := by
  unfold Recur.lowerKind
  split <;> infer_instance

/-- Lowering is secure, however deep its calls nest. -/
instance Recur.isSecure_within (n : Nat) : (within n).IsSecure := by
  induction n with
  | zero =>
      constructor
      · intro _ _
        exact ⟨fun _ h => by cases h⟩
      · intro _ _ _ _
        exact ⟨fun _ h => by cases h⟩
      · intro _ _ _ _
        exact ⟨fun _ h => by cases h⟩
  | succ n ih =>
      constructor
      · intro node s
        exact IsSecure.of_composed (x := (within n).lowerNode node)
      · intro cond thenTo elseTo s
        exact IsSecure.of_composed (x := (within n).conditionOf cond thenTo elseTo)
      · intro name args span s
        exact (grants_instanceOf name args span s).unit

/-! ### Trees -/

namespace Compilation

variable {c c' : Compilation} {bound : Nat} {root : Option Node}

/-- Whatever the tables lead to is there between two trees. -/
def IsIntact (c : Compilation) : Prop := c.context.IsIntact c.module.types

/-- At the beginning the tables lead nowhere but to the array. -/
theorem isIntact_new (options : LowerOptions) (moduleName : String) :
    (new options moduleName).IsIntact where
  symbols := SymbolTable.isLinked_empty
  types h := by cases h
  operators := OperatorTable.isIndexed_empty
  templates h _ := congrArg Prod.snd (TemplateTable.eq_of_initial h).1

/-- A secure walk keeps the tables intact and does not end early. -/
theorem IsIntact.walk {α : Type} {body : Lower α} {a : α}
    {result : Except InternalError (Table Nat ThrowSet)} (hbody : ∀ s, IsSecure body s)
    (hc : c.IsIntact) (h : c.walk body = .ok (a, result, c')) :
    c'.IsIntact ∧ ∃ nodeThrows, result = .ok nodeThrows := by
  let start : Lowering :=
    ⟨c.context, (c.names.intern "this").2, c.module, .new (c.names.intern "this").1⟩
  have hstart : start.IsIntact := ⟨hc, (fun hp => by cases hp), rfl⟩
  change (body start >>= _) = _ at h
  obtain ⟨⟨a', s⟩, hrun, hend⟩ := answer_bind_eq_ok_iff.1 h
  obtain ⟨-, hs, -⟩ := (hbody start).run hstart hrun
  cases hend
  exact ⟨hs.tables, s.pass.nodeThrows, by rw [hs.fatal]⟩

/-- A tree that is no module is left alone. -/
theorem walk_of_not_module {a : Unit} {result : Except InternalError (Table Nat ThrowSet)}
    {r : Recur} (hroot : ∀ items, root.map Node.kind ≠ some (.module items))
    (h : c.walk (Lower.root r root) = .ok (a, result, c')) :
    c'.context = c.context ∧ c'.module = c.module := by
  rw [root_of_not_module hroot] at h
  cases h
  exact ⟨rfl, rfl⟩

/-- A module is lowered like a statement. -/
theorem isSecure_root {node : Node} {items : List (Option Node)} (hnode : node.kind = .module items)
    (s : Lowering) : IsSecure (Lower.root (.within bound) (some node)) s := by
  rw [root_of_module hnode]
  exact IsSecure.of_composed

/-- Lowering a tree keeps the tables intact. -/
theorem IsIntact.lowerWithin {result : Except InternalError LowerOutcome} (hc : c.IsIntact)
    (h : c.lowerWithin bound root = .ok (result, c')) : c'.IsIntact := by
  obtain ⟨⟨⟨⟩, nodeThrows, c₁⟩, hwalk, hend⟩ := answer_bind_eq_ok_iff.1 h
  have hc₁ : c₁.IsIntact := by
    by_cases hroot : ∀ items, root.map Node.kind ≠ some (.module items)
    · obtain ⟨hcontext, hmodule⟩ := walk_of_not_module hroot hwalk
      unfold IsIntact
      rw [hcontext, hmodule]
      exact hc
    · push Not at hroot
      obtain ⟨items, hitems⟩ := hroot
      obtain ⟨node, rfl, hnode⟩ := Option.map_eq_some_iff.1 hitems
      exact (hc.walk (isSecure_root hnode) hwalk).1
  cases nodeThrows with
  | error e =>
      cases hend
      exact hc₁
  | ok throws =>
      cases hend
      have hsame : c₁.context.SameEntries
          { c₁.context with diagnostics := c₁.context.diagnostics.flush.2 } :=
        ⟨rfl, rfl, rfl, rfl, rfl, rfl, rfl⟩
      exact hsame.isIntact rfl (Nat.le_refl _) hc₁

/-- Between any two trees the tables are intact. -/
theorem IsBuilt.isIntact (h : c.IsBuilt) : c.IsIntact := by
  induction h with
  | new options moduleName => exact isIntact_new options moduleName
  | read _ _ ih => exact ih
  | lower _ step ih => exact ih.lowerWithin step

/-- A module that is lowered to its end, whatever trees have been lowered before it, leaves its
reports and no internal error. -/
theorem no_internal_errors {root : Node} {items : List (Option Node)}
    {result : Except InternalError LowerOutcome} (hc : c.IsBuilt)
    (hroot : root.kind = .module items)
    (h : c.lowerWithin bound (some root) = .ok (result, c')) :
    ∃ outcome, result = .ok outcome := by
  obtain ⟨⟨⟨⟩, nodeThrows, c₁⟩, hwalk, hend⟩ := answer_bind_eq_ok_iff.1 h
  obtain ⟨-, throws, rfl⟩ := hc.isIntact.walk (isSecure_root hroot) hwalk
  cases hend
  exact ⟨_, rfl⟩

/-- An object declared twice, and a template with a member of an unknown type and a method in which
there is an unknown name. A third object has an instance of the template as a member. -/
def faultyProgram : Node :=
  let node (id : Nat) (kind : NodeKind Node) : Node := ⟨id, .unknown, kind⟩
  let first := node 0 (.object ⟨⟨3⟩, [⟨⟨4⟩, .prim .int⟩], []⟩)
  let twin := node 1 (.object ⟨⟨3⟩, [⟨⟨4⟩, .prim .long⟩], []⟩)
  let body := node 2 (.block [some (node 3 (.returnStmt (some (node 4 (.ident ⟨5⟩)))))])
  let method := node 5 (.function ⟨⟨6⟩, [], .prim .int, some body⟩)
  let template := node 6 (.template ⟨⟨7⟩, [⟨2⟩], [⟨⟨4⟩, .named ⟨8⟩⟩], [some method]⟩)
  let user := node 7 (.object ⟨⟨9⟩, [⟨⟨4⟩, .generic ⟨7⟩ [.prim .int]⟩], []⟩)
  node 8 (.module [some first, some twin, some template, some user])

/-- The compilation in which the program has been read. -/
def faultyCompilation : Compilation :=
  reading "faulty" #["Item", "value", "ghost", "get", "Box", "Missing", "User"]

/-- The program can be lowered twice, although its objects are declared and its template is known
when it is lowered again. -/
theorem no_internal_errors_faulty : ∃ outcome c₁ result c₂,
    faultyCompilation.lower (some faultyProgram) = .ok (.ok outcome, c₁) ∧
      outcome.errorCount = 3 ∧ c₁.lower (some faultyProgram) = .ok (result, c₂) ∧
      ∃ outcome, result = .ok outcome := by
  obtain ⟨outcome, c₁, hfirst, hcount, hagain⟩ : ∃ outcome c₁,
      faultyCompilation.lower (some faultyProgram) = .ok (.ok outcome, c₁) ∧
        outcome.errorCount = 3 ∧ (c₁.lower (some faultyProgram)).isOk = true :=
    exists_of_leaves (by decide +kernel)
  have hbuilt : c₁.IsBuilt := .lower (isBuilt_reading _ _) hfirst
  cases hsecond : c₁.lower (some faultyProgram) with
  | error crash =>
      rw [hsecond] at hagain
      cases hagain
  | ok answer =>
      obtain ⟨result, c₂⟩ := answer
      exact ⟨outcome, c₁, result, c₂, hfirst, hcount, hsecond,
        no_internal_errors hbuilt rfl hsecond⟩

end Compilation

end SsaCompiler
