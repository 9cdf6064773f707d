/-
# Templates that ask for larger instances of themselves

An instance of a template is made while its members are lowered, and a member may ask for an
instance of the same template. The same arguments lead to the same instance, so a template that
points to itself comes to an end. A template that points to an instance of itself whose argument is
an instance of itself does not: each argument is a type that was not there before, and its spelling
is longer than every other. However deep the calls may nest, they do not suffice.
-/

import SsaCompiler.Proofs.Lower.Compilation

namespace SsaCompiler

/-- A template whose first member points to an instance of the template with an instance of it as
the argument. -/
def Template.nesting (name param field : Name) (members : List Field)
    (methods : List (Option Node)) : Template :=
  ⟨name, [param], .declared
    (⟨field, .pointer (.generic name [.generic name [.named param]])⟩ :: members) methods⟩

/-- The spelling of an instance with one argument. -/
def Template.spelling (text argument : String) : String := text ++ "<" ++ argument ++ ">"

/-- The spelling of an instance is longer than that of its argument. -/
theorem Template.length_spelling (text argument : String) :
    (spelling text argument).length = text.length + argument.length + 2 := by
  unfold spelling
  simp only [String.length_append]
  change text.length + 1 + argument.length + 1 = _
  omega

variable (name param field : Name) (members : List Field) (methods : List (Option Node))

/-- The next instance of a nesting template has a longer spelling than all objects that are
there. -/
structure Lowering.Outgrows (s : Lowering) (text : String) (ty : TypeId) (argument : String) :
    Prop where
  template : s.context.templates.get? name 1 = some (.nesting name param field members methods)
  nameText : s.names.text name = .ok text
  describe : s.module.types.describe ty = .ok argument
  there : ty.index < s.module.types.size
  param : ∃ t, s.names.text param = .ok t ∧ t.length < (Template.spelling text argument).length
  objects : ∀ {n info}, s.context.symbols.object? n = some info →
    ∃ t, s.names.text n = .ok t ∧ t.length < (Template.spelling text argument).length
  instances : ∀ {args ty'}, s.context.templates.instance? name args = some ty' →
    ∀ a ∈ args, a.index < s.module.types.size
  fresh : s.context.templates.instance? name [ty] = none

variable {name param field members methods}

namespace Lowering

/-- The state in which an instance with one argument has been entered, under its spelling. -/
def enter (s : Lowering) (name : Name) (ty : TypeId) (spelling : String) : Lowering :=
  { s with
    context := { s.context with
      symbols := s.context.symbols.declareObject
        (.new (s.names.intern spelling).1 ⟨s.module.types.size⟩)
      templates := s.context.templates.recordInstance name [ty] ⟨s.module.types.size⟩ }
    names := (s.names.intern spelling).2
    module := s.module.withTypes (s.module.types.namedStruct spelling).2
      (s.module.typesIndexed.namedStruct spelling) }

/-- The state in which the members of an instance are lowered: the parameter stands for the
argument, and the walk is a new one. -/
def inside (s : Lowering) (param : Name) (ty : TypeId) : Lowering :=
  { s with
    context := { s.context with symbols := (s.context.symbols.bindPlaceholder param ty).2 }
    names := (s.names.intern "this").2
    pass := .new (s.names.intern "this").1 }

end Lowering

/-! ### From one instance to the next -/

section Members

variable {s : Lowering} {text argument : String} {ty ty' : TypeId} {span : Span} {r : Recur}
  {c : Crash}

/-- The spelling of a single argument. -/
theorem Lower.mapM_describe_of_ok (h : s.module.types.describe ty = .ok argument) :
    [ty].mapM describe s = .ok ([argument], s) := by
  have hone : describe ty s = .ok (argument, s) := by
    refine (bind_of_ok (get_apply s)).trans ?_
    rw [h]
    rfl
  rw [List.mapM_cons, List.mapM_nil]
  exact (bind_of_ok hone).trans rfl

namespace Recur

/-- A crash in the first member is one of the layout. -/
theorem layout_eq_error (hmember : (r.type span (.pointer (.generic name [.generic name
    [.named param]]))).run s = .error c) :
    r.layout ty' (⟨field, .pointer (.generic name [.generic name [.named param]])⟩ :: members)
      span s = .error c :=
  bind_of_error (bind_of_error (Attempt.bind_of_error hmember))

/-- A crash in the first member is one of the instance that is being filled. -/
theorem fillInstance_eq_error {canonical : String}
    (hmember : (r.type span (.pointer (.generic name [.generic name [.named param]]))).run
      (s.inside param ty) = .error c) :
    r.fillInstance ty' canonical (.nesting name param field members methods) [ty] span s =
      .error c := by
  refine (bind_of_ok (x := Lower.bindPlaceholders ([param].zip [ty])) rfl).trans ?_
  refine (bind_of_ok (Lower.position_apply _)).trans ?_
  refine bind_of_error ?_
  refine (bind_of_ok (get_apply _)).trans ?_
  refine (bind_of_ok (x := Lower.intern "this") rfl).trans ?_
  refine (bind_of_ok (Lower.modifyPass_apply _ _)).trans ?_
  exact bind_of_error (bind_of_error (layout_eq_error hmember))

/-- No object has the spelling of the next instance. -/
theorem object?_intern_eq_none (h : s.Outgrows name param field members methods text ty argument) :
    s.context.symbols.object? (s.names.intern (Template.spelling text argument)).1 = none := by
  cases hinfo : s.context.symbols.object? (s.names.intern (Template.spelling text argument)).1 with
  | none => rfl
  | some info =>
      obtain ⟨t, ht, hlt⟩ := h.objects hinfo
      cases (s.names.text_intern _).symm.trans (s.names.grow_intern _ _ _ ht)
      exact absurd hlt (Nat.lt_irrefl _)

/-- A crash in the first member is one of the next instance. -/
theorem instanceOf_eq_error (h : s.Outgrows name param field members methods text ty argument)
    (hmember : (r.type span (.pointer (.generic name [.generic name [.named param]]))).run
      ((s.enter name ty (Template.spelling text argument)).inside param ty) = .error c) :
    (r.instanceOf name [ty] span).run s = .error c := by
  refine (Attempt.bind_of_some (Attempt.lift_of_ok (get_apply s))).trans ?_
  dsimp only
  rw [h.fresh]
  refine (Attempt.bind_of_some (Attempt.lift_of_ok (Lower.nameText_of_ok h.nameText))).trans ?_
  dsimp only [List.length_singleton]
  rw [h.template]
  refine Attempt.lift_of_error ?_
  refine (bind_of_ok (Lower.nameText_of_ok h.nameText)).trans ?_
  refine (bind_of_ok (Lower.mapM_describe_of_ok h.describe)).trans ?_
  have hintern : Lower.intern (Template.spelling text argument) s =
      .ok ((s.names.intern (Template.spelling text argument)).1,
        { s with names := (s.names.intern (Template.spelling text argument)).2 }) := rfl
  refine (bind_of_ok hintern).trans ?_
  refine (bind_of_ok (Lower.symbols_apply _)).trans ?_
  dsimp only
  rw [object?_intern_eq_none h]
  refine (bind_of_ok (x := (liftM (Build.namedStruct _) : Lower TypeId)) rfl).trans ?_
  refine (bind_of_ok (Lower.modifyContext_apply _ _)).trans ?_
  refine (bind_of_ok (Lower.modifyContext_apply _ _)).trans ?_
  exact bind_of_error (fillInstance_eq_error hmember)

/-- The first member asks for the instance with the argument that the parameter stands for, and then
for the instance with that instance as argument. -/
theorem type_eq (hparam : s.context.symbols.object? param = some (.placeholderFor param ty)) :
    (r.type span (.pointer (.generic name [.generic name [.named param]]))).run s =
      ((do
        let inner ← OptionT.mk (r.instantiate name [ty] span)
        let outer ← OptionT.mk (r.instantiate name [inner] span)
        Build.pointerType outer) : Attempt TypeId).run s := by
  have hnamed : (Lower.namedType param false span : Attempt TypeId) s = .ok (some ty, s) := by
    refine (Attempt.bind_of_some (Attempt.lift_of_ok (Lower.symbols_apply s))).trans ?_
    simp only [hparam]
    rfl
  simp only [type, types, bind_assoc, pure_bind]
  exact Attempt.bind_of_some hnamed

/-- The spelling of a type that is entered last. -/
theorem describe_namedStruct {t : TypeTable} (ht : t.size ≠ noHandle) (spelling : String) :
    (t.namedStruct spelling).2.describe ⟨t.size⟩ = .ok spelling := by
  have hget : (t.namedStruct spelling).2.get ⟨t.size⟩ = .ok (.named spelling none) :=
    Checked.at_push_size _ _
  unfold TypeTable.describe TypeTable.describeWithin
  rw [if_neg ht, hget]
  rfl

/-- An instance is one more type. -/
theorem size_inside (s : Lowering) (spelling : String) :
    ((s.enter name ty spelling).inside param ty).module.types.size = s.module.types.size + 1 :=
  Array.size_push _

/-- The next instance outgrows the one before. -/
theorem outgrows_inside (h : s.Outgrows name param field members methods text ty argument)
    (hroom : s.module.types.size ≠ noHandle) :
    ((s.enter name ty (Template.spelling text argument)).inside param ty).Outgrows name param field
      members methods text ⟨s.module.types.size⟩ (Template.spelling text argument) := by
  have hnames :
      s.names.Grow ((s.names.intern (Template.spelling text argument)).2.intern "this").2 :=
    fun n t hn => Names.grow_intern _ _ n t (Names.grow_intern _ _ n t hn)
  have hlonger : (Template.spelling text argument).length <
      (Template.spelling text (Template.spelling text argument)).length := by
    rw [Template.length_spelling text (Template.spelling text argument)]
    omega
  refine ⟨h.template, hnames _ _ h.nameText, describe_namedStruct hroom _, ?_, ?_, ?_, ?_, ?_⟩
  · rw [size_inside]
    exact Nat.lt_succ_self _
  · obtain ⟨t, ht, hlt⟩ := h.param
    exact ⟨t, hnames _ _ ht, hlt.trans hlonger⟩
  · intro n info hn
    change ((s.context.symbols.objects.insert _ _).insert param _).get? n = some info at hn
    rw [Table.get?_insert, Table.get?_insert] at hn
    split at hn
    · rename_i hparam
      subst hparam
      obtain ⟨t, ht, hlt⟩ := h.param
      exact ⟨t, hnames _ _ ht, hlt.trans hlonger⟩
    · split at hn
      · rename_i hnew
        subst hnew
        exact ⟨_, Names.grow_intern _ _ _ _ (Names.text_intern _ _), hlonger⟩
      · obtain ⟨t, ht, hlt⟩ := h.objects hn
        exact ⟨t, hnames _ _ ht, hlt.trans hlonger⟩
  · intro args ty' hargs a ha
    rw [size_inside]
    change (s.context.templates.instances.insert (name, [ty]) _).get? (name, args) = some _ at hargs
    rw [Table.get?_insert] at hargs
    split at hargs
    · rename_i hkey
      cases hkey
      cases List.mem_singleton.1 ha
      exact Nat.lt_succ_of_lt h.there
    · exact Nat.lt_succ_of_lt (h.instances hargs a ha)
  · change (s.context.templates.instances.insert (name, [ty]) _).get? (name, [_]) = none
    rw [Table.get?_insert, if_neg]
    · cases hold : s.context.templates.instances.get? (name, [⟨s.module.types.size⟩]) with
      | none => rfl
      | some ty' => exact absurd (h.instances hold _ List.mem_cons_self) (Nat.lt_irrefl _)
    · rintro hkey
      cases hkey
      exact Nat.lt_irrefl _ h.there

/-- Inside an instance the parameter stands for the argument. -/
theorem object?_inside (s : Lowering) :
    (s.inside param ty).context.symbols.object? param = some (.placeholderFor param ty) :=
  Table.get?_insert.trans (if_pos rfl)

/-- An instance that has been entered is there. -/
theorem instanceOf_of_instance? {args : List TypeId}
    (h : s.context.templates.instance? name args = some ty') :
    (r.instanceOf name args span).run s = .ok (some ty', s) := by
  refine (Attempt.bind_of_some (Attempt.lift_of_ok (get_apply s))).trans ?_
  simp only [h]
  rfl

/-- However deep calls may nest, they do not suffice for an instance of a nesting template. -/
theorem instanceOf_eq_endless {n : Nat}
    (h : s.Outgrows name param field members methods text ty argument)
    (hroom : s.module.types.size + n < noHandle) :
    ((within n).instanceOf name [ty] span).run s = .error .endless := by
  induction n generalizing s ty argument with
  | zero =>
      refine instanceOf_eq_error h ?_
      rw [type_eq (object?_inside _)]
      exact Attempt.bind_of_error rfl
  | succ n ih =>
      refine instanceOf_eq_error h ?_
      rw [type_eq (object?_inside _)]
      -- the instance that is being made is its own argument's instance, so that is found
      have hthere : ((s.enter name ty (Template.spelling text argument)).inside param
          ty).context.templates.instance? name [ty] = some ⟨s.module.types.size⟩ :=
        Table.get?_insert.trans (if_pos rfl)
      refine (Attempt.bind_of_some (instanceOf_of_instance? hthere)).trans ?_
      refine Attempt.bind_of_error (ih (outgrows_inside h (by omega)) ?_)
      rw [size_inside]
      omega

/-! ### Nodes outside of functions -/

/-- A node of a kind that may stand everywhere is lowered by its kind. -/
theorem lowerHere_of_allowed {node : Node}
    (h : node.kind.allowedAtModuleScope = true) : r.lowerHere node s =
      r.lowerKind node { s with pass := { s.pass with span := node.span } } := by
  refine (bind_of_ok (Lower.modifyPass_apply _ s)).trans ?_
  refine (bind_of_ok (Lower.func_apply _)).trans ?_
  rw [h, Bool.not_true, Bool.and_false]
  rfl

/-- A crash in what a node is by its kind is one of the node. -/
theorem lowerNode_eq_error {node : Node} (hopen : s.pass.fatal = none)
    (hallowed : node.kind.allowedAtModuleScope = true)
    (hkind : r.lowerKind node { s with pass := { s.pass with
      throwStack := [] :: s.pass.throwStack, span := node.span } } = .error c) :
    r.lowerNode node s = .error c := by
  refine (bind_of_ok (Lower.isAbandoned_apply s)).trans ?_
  rw [hopen]
  refine (bind_of_ok (Lower.modifyPass_apply _ s)).trans ?_
  exact bind_of_error ((lowerHere_of_allowed hallowed).trans hkind)

/-- A template that is new is entered, and nothing else happens. -/
theorem registerTemplate_of_new {decl : TemplateDecl Node} {table : TemplateTable}
    (hfunc : s.pass.func = none) (hnew : s.context.templates.insert
      ⟨decl.name, decl.params, .declared decl.members decl.methods⟩ = some table) :
    Lower.registerTemplate decl span s =
      .ok ((), { s with context := { s.context with templates := table } }) := by
  refine (bind_of_ok (Lower.func_apply s)).trans ?_
  rw [hfunc]
  refine (bind_of_ok (get_apply s)).trans ?_
  simp only [hnew]
  rfl

theorem lowerNode_template {id : Nat} {decl : TemplateDecl Node} {table : TemplateTable}
    (hopen : s.pass.fatal = none) (hfunc : s.pass.func = none)
    (hnew : s.context.templates.insert
      ⟨decl.name, decl.params, .declared decl.members decl.methods⟩ = some table) :
    r.lowerNode ⟨id, span, .template decl⟩ s = .ok (none, { s with
      context := { s.context with templates := table }
      pass := { s.pass with span := span } }) := by
  have hhere : r.lowerHere ⟨id, span, .template decl⟩
      { s with pass := { s.pass with throwStack := [] :: s.pass.throwStack } } = .ok (none, { s with
        context := { s.context with templates := table }
        pass := { s.pass with throwStack := [] :: s.pass.throwStack, span := span } }) :=
    (lowerHere_of_allowed rfl).trans
      (bind_of_ok (f := fun _ => pure none) (registerTemplate_of_new hfunc hnew))
  refine (bind_of_ok (Lower.isAbandoned_apply s)).trans ?_
  rw [hopen]
  refine (bind_of_ok (Lower.modifyPass_apply _ s)).trans ?_
  exact (bind_of_ok hhere).trans ((bind_of_ok (x := Lower.popThrowFrame) rfl).trans rfl)

/-- A statement crashes where its node does. -/
theorem statement_eq_error {node : Node} {n : Nat}
    (h : (within n).lowerNode node s = .error c) :
    (within (n + 1)).statement (some node) s = .error c :=
  bind_of_error (f := fun _ => pure ()) h

/-- A statement answers where its node does. -/
theorem statement_of_ok {node : Node} {n : Nat} {s' : Lowering} {o : Option Operand}
    (h : (within n).lowerNode node s = .ok (o, s')) :
    (within (n + 1)).statement (some node) s = .ok ((), s') :=
  bind_of_ok (f := fun _ => pure ()) h

end Recur

end Members

/-! ### A program with such a template -/

namespace Compilation

/-- A program with a nesting template and a global that points to an instance of it. -/
def nestingProgram : Node :=
  let node (id : Nat) (kind : NodeKind Node) : Node := ⟨id, .unknown, kind⟩
  let next : Field := ⟨⟨4⟩, .pointer (.generic ⟨3⟩ [.generic ⟨3⟩ [.named ⟨2⟩]])⟩
  let box := node 0 (.template ⟨⟨3⟩, [⟨2⟩], [next], []⟩)
  let global := node 1 (.varDecl (.pointer (.generic ⟨3⟩ [.prim .int])) [⟨⟨5⟩, none⟩])
  node 2 (.module [box, global])

/-- The compilation in which the program has been read. -/
def nestingCompilation : Compilation := reading "nesting" #["Box", "next", "p"]

/-- The templates of the program. -/
def nestingTemplates : TemplateTable :=
  { nestingCompilation.context.templates with
    templates := nestingCompilation.context.templates.templates.insert (⟨3⟩, 1)
      (.nesting ⟨3⟩ ⟨2⟩ ⟨4⟩ [] []) }

/-- The template of the program is new. -/
theorem insert_nesting : nestingCompilation.context.templates.insert
    (.nesting ⟨3⟩ ⟨2⟩ ⟨4⟩ [] []) = some nestingTemplates := by
  have hnew : nestingCompilation.context.templates.templates.contains (⟨3⟩, 1) = false := by
    decide +kernel
  exact if_neg (by rw [Bool.not_eq_true]; exact hnew)

/-- When the program asks for the first instance, nothing is there but the argument. -/
theorem outgrows_int {s : Lowering}
    (hcontext : s.context = { nestingCompilation.context with templates := nestingTemplates })
    (hnames : s.names = (nestingCompilation.names.intern "this").2)
    (htypes : s.module.types = .ofTypes [.int 32]) :
    s.Outgrows ⟨3⟩ ⟨2⟩ ⟨4⟩ [] [] "Box" ⟨0⟩ "int" := by
  have hgrow : nestingCompilation.names.Grow s.names := hnames ▸ Names.grow_intern _ _
  refine ⟨?_, hgrow _ _ ?_, ?_, ?_, ⟨"T", hgrow _ _ ?_, ?_⟩, ?_, ?_, ?_⟩
  · rw [hcontext]
    exact Table.get?_insert.trans (if_pos rfl)
  · decide +kernel
  · rw [htypes]
    decide +kernel
  · rw [htypes]
    exact Nat.zero_lt_one
  · decide +kernel
  · decide +kernel
  · intro n info hinfo
    rw [hcontext] at hinfo
    cases hinfo
  · intro args ty' hargs
    rw [hcontext] at hargs
    change nestingCompilation.context.templates.instances.get? _ = _ at hargs
    cases hargs
  · rw [hcontext]
    change nestingCompilation.context.templates.instances.get? _ = _
    rfl

/-- The argument is the first type of the module. -/
theorem intType_apply : Build.intType 32 nestingCompilation.module =
    .ok (⟨0⟩, nestingCompilation.module.withType (.int 32)) := by
  decide +kernel

/-- However deep calls may nest, they do not suffice for the program. -/
theorem lowerWithin_nestingProgram {bound : Nat} (h : bound + 8 ≤ noHandle) :
    nestingCompilation.lowerWithin bound (some nestingProgram) = .error .endless := by
  match bound with
  | 0 => rfl
  | 1 => rfl
  | n + 2 =>
      let start : Lowering :=
        ⟨nestingCompilation.context, (nestingCompilation.names.intern "this").2,
          nestingCompilation.module, .new (nestingCompilation.names.intern "this").1⟩
      have hnode : (Recur.within (n + 1)).lowerNode nestingProgram start = .error .endless := by
        refine Recur.lowerNode_eq_error rfl rfl ?_
        refine bind_of_error ?_
        refine (bind_of_ok (Lower.isAbandoned_apply _)).trans ?_
        refine (bind_of_ok (Recur.statement_of_ok
          (Recur.lowerNode_template rfl rfl insert_nesting))).trans ?_
        refine (bind_of_ok (Lower.isAbandoned_apply _)).trans ?_
        refine bind_of_error (Recur.statement_eq_error ?_)
        refine Recur.lowerNode_eq_error rfl rfl ?_
        refine bind_of_error (f := fun _ => pure none) (bind_of_error (f := fun _ => pure ()) ?_)
        refine Attempt.bind_of_error ?_
        simp only [TypeExpr.stripReference, Recur.type, Recur.types, PrimType.lower, bind_assoc,
          pure_bind]
        refine (Attempt.bind_of_some
          (Attempt.lift_of_ok (Lower.build_of_ok intType_apply))).trans ?_
        refine Attempt.bind_of_error ?_
        cases n with
        | zero => rfl
        | succ n =>
            refine Recur.instanceOf_eq_endless (outgrows_int rfl rfl rfl) ?_
            exact (Nat.add_comm 1 n).trans_lt (by omega)
      have hroot : Lower.root (.within (n + 2)) (some nestingProgram) start = .error .endless :=
        Recur.statement_eq_error hnode
      unfold lowerWithin walk
      change (Lower.root (.within (n + 2)) (some nestingProgram) start >>= _) >>= _ = _
      rw [hroot]
      rfl

/-- The lowering of the program does not end: with as many calls nested as there are handles for
types, it has no answer. -/
theorem not_exists_lowerWithin_nestingProgram : ¬ ∃ (bound : Nat) (answer : _),
    bound + 8 ≤ noHandle ∧
      nestingCompilation.lowerWithin bound (some nestingProgram) = .ok answer := by
  rintro ⟨bound, answer, hroom, hanswer⟩
  cases (lowerWithin_nestingProgram hroom).symm.trans hanswer

end Compilation

end SsaCompiler
