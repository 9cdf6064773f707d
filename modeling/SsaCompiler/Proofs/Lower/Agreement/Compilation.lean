/-
# Objects agree with structures between any two items of a module

Inside a function every node respects layouts: the declarations that would change a type there are
rejected. At module scope objects and templates are declared, and when the parameters of templates
are identifiers this respects layouts as well, although types get their bodies by it. Only a few
kinds of nodes may stand there at all.

Trees are lowered one after the other, and each of them is a module of items, some of which are
modules again. At every point between two items, whatever has been reported so far, an object that
is complete has a structure with one field for each of its members, in the same order and of the
same types. No two of its members have the same name, and its type leads to it. So the position at
which a member is found is that of its field.
-/

import SsaCompiler.Proofs.ControlFlow.Lowering
import SsaCompiler.Proofs.Lower.Agreement.Object
import SsaCompiler.Proofs.Lower.Compilation

namespace SsaCompiler

section

open Lower

variable {ns : Names} {I : Lowering → Prop} {X : Set TypeId} {L : Leeway} {r : Recur} {s s' : Lowering}

/-! ### Inside functions -/

section

variable [Lowering.ConcernsLayouts I]

/-- An object is rejected inside a function. -/
theorem isRespectful_object_inside (node : Nat) (decl : ObjectDecl Node) (span : Span)
    (hfunc : s.pass.func.isSome) : IsRespectful I X (r.object node decl span) s := by
  unfold Recur.object
  refine (Maintains.state (·.pass.func)).bind fun f s₁ _ _ hsame => ?_
  obtain ⟨rfl, rfl⟩ := hsame
  obtain ⟨f, hf⟩ := Option.isSome_iff_exists.1 hfunc
  rw [hf]
  exact Respects.report ..

/-- So is a template. -/
theorem isRespectful_registerTemplate_inside (decl : TemplateDecl Node) (span : Span)
    (hfunc : s.pass.func.isSome) : IsRespectful I X (registerTemplate decl span) s := by
  unfold registerTemplate
  refine (Maintains.state (·.pass.func)).bind fun f s₁ _ _ hsame => ?_
  obtain ⟨rfl, rfl⟩ := hsame
  obtain ⟨f, hf⟩ := Option.isSome_iff_exists.1 hfunc
  rw [hf]
  exact Respects.report ..

instance [hL : L.IsCode] (node : Nat) (decl : ObjectDecl Node) (span : Span) :
    Composed (IsRespected I ∅) L (r.object node decl span) :=
  .part fun _ hs => isRespectful_object_inside node decl span (hs rfl hL.binds)

instance [hL : L.IsCode] (decl : TemplateDecl Node) (span : Span) :
    Composed (IsRespected I ∅) L (registerTemplate decl span) :=
  .part fun _ hs => isRespectful_registerTemplate_inside decl span (hs rfl hL.binds)

instance (fields : List TypeId) :
    Composed (IsRespected I X) L (liftM (Build.recordType fields) : Lower TypeId) :=
  .part fun _ _ => Respects.build _

instance [L.IsCode] [r.IsRespectful I] (node : Node) :
    Composed (IsRespected I ∅) L (r.lowerKind node) := by
  unfold Recur.lowerKind
  split <;> infer_instance

/-- Nodes respect layouts inside functions, one level of calls after the other, if types do. -/
theorem Recur.isRespectful_succ {n : Nat} (hn : (within n).IsRespectful I)
    (htype : ∀ span ty s, SsaCompiler.IsRespectful I ∅ ((within (n + 1)).type span ty).run s) :
    (within (n + 1)).IsRespectful I where
  operand node s hs := by
    have : Composed (IsRespected I ∅) .free ((within n).lowerNode node) := inferInstance
    exact this.isRespectful fun _ _ => hs
  condition cond thenTo elseTo s hs := by
    have : Composed (IsRespected I ∅) .free ((within n).conditionOf cond thenTo elseTo) :=
      inferInstance
    exact this.isRespectful fun _ _ => hs
  type := htype

end

/-- Without calls only types can be looked up. -/
theorem Recur.isRespectful_zero
    (htype : ∀ span ty s, SsaCompiler.IsRespectful I ∅ ((within 0).type span ty).run s) :
    (within 0).IsRespectful I where
  operand _ _ _ := ⟨fun _ h => by cases h⟩
  condition _ _ _ _ _ := ⟨fun _ h => by cases h⟩
  type := htype

/-- Objects and structures are kept in agreement, however deep the calls nest. -/
instance Recur.isRespectful_within (n : Nat) : (within n).IsRespectful (Lowering.Agrees ns) := by
  induction n with
  | zero => exact isRespectful_zero (isRespectful_type fun _ _ _ _ => ⟨fun _ h => by cases h⟩)
  | succ n ih => exact isRespectful_succ ih (isRespectful_type isRespectful_instanceOf)

/-! ### At module scope -/

/-- The kinds of all nodes in a tree have a property. -/
inductive Node.Everywhere (p : NodeKind Node → Prop) : Node → Prop where
  | mk {node : Node} (here : p node.kind)
      (below : ∀ child, some child ∈ node.kind.children → child.Everywhere p) : node.Everywhere p

/-- A tree is one of these when its root and its parts are. -/
theorem Node.everywhere_mk_iff {p : NodeKind Node → Prop} {id : Nat} {span : Span}
    {kind : NodeKind Node} : Node.Everywhere p ⟨id, span, kind⟩ ↔
      p kind ∧ ∀ child, some child ∈ kind.children → child.Everywhere p := by
  constructor
  · rintro ⟨here, below⟩
    exact ⟨here, below⟩
  · rintro ⟨here, below⟩
    exact ⟨here, below⟩

theorem Node.Everywhere.mono {p q : NodeKind Node → Prop} {node : Node} (h : node.Everywhere p)
    (hpq : ∀ kind, p kind → q kind) : node.Everywhere q := by
  induction h with
  | mk here _ ih => exact .mk (hpq _ here) ih

/-- The parameters of all templates in a tree have a property. -/
def Node.AllParams (p : Name → Prop) : Node → Prop :=
  Node.Everywhere fun kind => ∀ decl, kind = .template decl → ∀ param ∈ decl.params, p param

/-- Objects and templates with a property respect layouts where they are declared. -/
class Recur.RespectsDeclarations (r : Recur) (I : Lowering → Prop) (p : NodeKind Node → Prop) :
    Prop where
  object : ∀ id decl span (s : Lowering), p (.object decl) →
    SsaCompiler.IsRespectful I .univ (r.object id decl span) s
  template : ∀ decl span (s : Lowering), p (.template decl) →
    SsaCompiler.IsRespectful I .univ (registerTemplate decl span) s

instance [r.IsRespectful (Lowering.Agrees ns)] : r.RespectsDeclarations (Lowering.Agrees ns)
    fun kind => ∀ decl, kind = .template decl → ∀ param ∈ decl.params, ns.IsIdentifier param where
  object id decl span s _ := isRespectful_object id decl span s
  template decl span s hparams := respects_registerTemplate span
    (fun _ _ hs hinsert => hs.insertTemplate (hparams decl rfl) hinsert) s

section

variable {p : NodeKind Node → Prop} [Lowering.ConcernsLayouts I]

/-- What is put together apart from the code of a function respects layouts anywhere. -/
theorem Lower.Composed.anywhere {α : Type} {x : Lower α}
    [Composed (IsRespected I ∅) Leeway.free.nowhere x] : Composed (IsRespected I X) L x :=
  .part fun _ _ => Respects.of_composed

section

variable [r.IsRespectful I] [hdecl : r.RespectsDeclarations I p]

/-- What may stand at module scope respects layouts when its parts do. -/
theorem composed_atModuleScope {node : Node} (hnode : node.Everywhere p)
    (hallowed : node.kind.allowedAtModuleScope = true)
    (hchildren : ∀ c ∈ node.kind.children, Composed (IsRespected I .univ) .free (r.child c)) :
    Composed (IsRespected I .univ) .free (r.lowerKind node) := by
  obtain ⟨hhere, -⟩ := hnode
  obtain ⟨id, span, kind⟩ := node
  unfold Recur.lowerKind
  dsimp only at hhere hallowed hchildren ⊢
  cases kind with
  | intLit | floatLit | boolLit | charLit | strLit | null | ident | sizeOf => infer_instance
  | binary op lhs rhs =>
      have := hchildren lhs (.head _)
      have := hchildren rhs (.tail _ (.head _))
      infer_instance
  | unary op operand =>
      have := hchildren operand (.head _)
      infer_instance
  | assign op target value =>
      have := hchildren target (.head _)
      have := hchildren value (.tail _ (.head _))
      infer_instance
  | cast expr ty =>
      have := hchildren expr (.head _)
      infer_instance
  | varDecl ty vars =>
      have := composed_declareVariables ty
        (fun var hvar => hchildren var.init (List.mem_map_of_mem hvar)) span
      infer_instance
  | function decl =>
      have : Composed (IsRespected I .univ) .free (r.function id decl span) := .anywhere
      infer_instance
  | operator decl =>
      have : Composed (IsRespected I .univ) .free (r.operator id decl span) := .anywhere
      infer_instance
  | object decl =>
      have : Composed (IsRespected I .univ) .free (r.object id decl span) :=
        .part fun s _ => hdecl.object id decl span s hhere
      infer_instance
  | template decl =>
      have : Composed (IsRespected I .univ) .free (registerTemplate decl span) :=
        .part fun s _ => hdecl.template decl span s hhere
      infer_instance
  | module items =>
      have : Composed (IsRespected I .univ) .free (r.sequence items) := composed_sequence hchildren
      infer_instance
  | _ => cases hallowed

/-- A node respects layouts where it stands. At module scope it is rejected unless it may stand
there. -/
theorem isRespectful_lowerHere {node : Node} (hnode : node.Everywhere p)
    (hchildren : ∀ c ∈ node.kind.children, Composed (IsRespected I .univ) .free (r.child c)) :
    IsRespectful I .univ (r.lowerHere node) s := by
  unfold Recur.lowerHere
  refine (Respects.modifyPass rfl).bind fun _ s₁ _ _ _ => ?_
  refine (Maintains.state (·.pass.func)).bind fun f s₂ _ _ hsame => ?_
  obtain ⟨rfl, rfl⟩ := hsame
  split
  · exact (Respects.report ..).bind fun _ _ _ _ _ => .pure trivial
  · rename_i hallowed
    by_cases hfunc : s₂.pass.func.isSome
    · have : Composed (IsRespected I ∅) .free (r.lowerKind node) := inferInstance
      exact (this.isRespectful fun _ _ => hfunc).mono (Set.empty_subset _)
    · have hallowed : node.kind.allowedAtModuleScope = true := by
        simpa [Option.not_isSome_iff_eq_none.1 hfunc] using hallowed
      exact (composed_atModuleScope hnode hallowed hchildren).isRespectful_univ

theorem isRespectful_lowerNode {node : Node} (hnode : node.Everywhere p)
    (hchildren : ∀ c ∈ node.kind.children, Composed (IsRespected I .univ) .free (r.child c)) :
    IsRespectful I .univ (r.lowerNode node) s := by
  have : Composed (IsRespected I .univ) .free (r.lowerHere node) :=
    .part fun s _ => isRespectful_lowerHere hnode hchildren
  have : Composed (IsRespected I .univ) .free (r.lowerNode node) := inferInstance
  exact this.isRespectful_univ

end

variable [∀ n, (Recur.within n).IsRespectful I] [∀ n, (Recur.within n).RespectsDeclarations I p]

/-- Wherever a tree is lowered in which all declarations have a property that makes them respect
layouts, however deep its calls nest, it respects layouts. -/
theorem Recur.isRespectful_operand {n : Nat} {node : Node} (hnode : node.Everywhere p)
    (s : Lowering) : SsaCompiler.IsRespectful I .univ ((within n).operand node) s := by
  induction n generalizing node s with
  | zero => exact ⟨fun _ h => by cases h⟩
  | succ n ih =>
      refine isRespectful_lowerNode (r := within n) hnode fun c hc => ?_
      obtain ⟨-, hbelow⟩ := hnode
      cases c with
      | none => exact .pure none
      | some child => exact .part fun s _ => ih (hbelow child hc) s

theorem Recur.isRespectful_sequence {n : Nat} {items : List (Option Node)}
    (hitems : ∀ item, some item ∈ items → item.Everywhere p) (s : Lowering) :
    SsaCompiler.IsRespectful I .univ ((within n).sequence items) s := by
  have : Composed (IsRespected I .univ) .free ((within n).sequence items) :=
    composed_sequence fun c hc => by
      cases c with
      | none => exact .pure none
      | some item => exact .part fun s _ => isRespectful_operand (hitems item hc) s
  exact this.isRespectful_univ

end

end

open Lower

/-! ### Points between items -/

/-- The state in which the items of a module start to be lowered. -/
def Lowering.enterModule (s : Lowering) (node : Node) : Lowering :=
  { s with pass := { s.pass with throwStack := [] :: s.pass.throwStack, span := node.span } }

/-- The states between items that are lowered one after the other from some state, with calls nested
at most `n` deep. Before, between and behind the items of a module among them there are more. -/
inductive Recur.Visits : Nat → List (Option Node) → Lowering → Lowering → Prop where
  | between {n : Nat} {before after : List (Option Node)} {s s' : Lowering}
      (h : (within n).sequence before s = .ok ((), s')) : Visits n (before ++ after) s s'
  | inside {n : Nat} {before after items : List (Option Node)} {node : Node} {s s₁ s' : Lowering}
      (hbefore : (within (n + 1)).sequence before s = .ok ((), s₁)) (hfatal : s₁.pass.fatal = none)
      (hnode : node.kind = .module items) (h : Visits n items (s₁.enterModule node) s') :
      Visits (n + 1) (before ++ some node :: after) s s'

/-- What is true of layouts at one of these points is true at all of them. -/
theorem Recur.Visits.keeps {I : Lowering → Prop} {p : NodeKind Node → Prop}
    [Lowering.ConcernsLayouts I] [∀ n, (within n).IsRespectful I]
    [∀ n, (within n).RespectsDeclarations I p] {n : Nat} {items : List (Option Node)}
    {s s' : Lowering} (h : Visits n items s s') (hs : I s)
    (hitems : ∀ item, some item ∈ items → item.Everywhere p) : I s' := by
  -- The items before a point are lowered like those of a module.
  have hbefore {n : Nat} {before after : List (Option Node)} {s s' : Lowering} (hs : I s)
      (hitems : ∀ item, some item ∈ before ++ after → item.Everywhere p)
      (h : (within n).sequence before s = .ok ((), s')) : I s' :=
    ((isRespectful_sequence (fun item hitem =>
      hitems item (List.mem_append_left _ hitem)) s).run hs h).2.1
  induction h with
  | between h => exact hbefore hs hitems h
  | @inside _ _ _ _ node _ _ _ h _ hnode _ ih =>
      have hs₁ := hbefore hs hitems h
      obtain ⟨-, hbelow⟩ := hitems node (List.mem_append_right _ (.head _))
      rw [hnode] at hbelow
      exact ih (Lowering.ConcernsLayouts.of_pass hs₁ _) hbelow

namespace Compilation

variable {c c' : Compilation} {bound : Nat} {root : Node} {s : Lowering}

/-- The state between two trees. -/
def state (c : Compilation) : Lowering :=
  ⟨c.context, c.names, c.module, .new (c.names.intern "this").1⟩

/-- The state in which a tree starts to be lowered. -/
def start (c : Compilation) : Lowering :=
  ⟨c.context, (c.names.intern "this").2, c.module, .new (c.names.intern "this").1⟩

/-- The states before, between and behind the items of a tree and of the modules in it. -/
def Visits (c : Compilation) (bound : Nat) (root : Node) (s : Lowering) : Prop :=
  Recur.Visits bound [some root] c.start s

/-- The state that a module leaves behind is one of these. -/
theorem exists_visits {items : List (Option Node)} {u : Unit}
    {result : Except InternalError (Table Nat ThrowSet)} (hroot : root.kind = .module items)
    (h : c.walk (Lower.root (.within bound) (some root)) = .ok (u, result, c')) :
    ∃ s, c.Visits bound root s ∧ c' = ⟨s.context, s.names, s.module⟩ := by
  rw [root_of_module hroot] at h
  change ((Recur.within bound).statement (some root) c.start >>= _) = _ at h
  obtain ⟨⟨⟨⟩, s⟩, hrun, hend⟩ := answer_bind_eq_ok_iff.1 h
  cases hend
  have hitems : (Recur.within bound).sequence [some root] c.start = .ok ((), s) := by
    unfold Recur.sequence
    rw [bind_of_ok (isAbandoned_apply _)]
    exact (bind_of_ok hrun).trans rfl
  exact ⟨s, show Recur.Visits bound ([some root] ++ []) c.start s from .between hitems, rfl⟩

/-- What is true of layouts before a tree is true of the state that the tree leaves behind. -/
theorem exists_of_lowerWithin {I : Lowering → Prop} {p : NodeKind Node → Prop}
    [Lowering.ConcernsLayouts I] [∀ n, (Recur.within n).IsRespectful I]
    [∀ n, (Recur.within n).RespectsDeclarations I p] {root : Option Node}
    {result : Except InternalError LowerOutcome} (hstart : I c.start)
    (hroot : ∀ node ∈ root, node.Everywhere p) (h : c.lowerWithin bound root = .ok (result, c')) :
    ∃ s : Lowering, I s ∧ s.context.SameLayouts c'.context ∧ s.module = c'.module ∧
      s.names = c'.names := by
  obtain ⟨⟨⟨⟩, nodeThrows, c₁⟩, hwalk, hend⟩ := answer_bind_eq_ok_iff.1 h
  have hc₁ : ∃ s : Lowering, I s ∧ s.context.SameLayouts c₁.context ∧ s.module = c₁.module ∧
      s.names = c₁.names := by
    by_cases hmodule : ∀ items, root.map Node.kind ≠ some (.module items)
    · rw [root_of_not_module hmodule] at hwalk
      cases hwalk
      exact ⟨c.start, hstart, .refl _, rfl, rfl⟩
    · push Not at hmodule
      obtain ⟨items, hitems⟩ := hmodule
      obtain ⟨node, rfl, hnode⟩ := Option.map_eq_some_iff.1 hitems
      obtain ⟨s, hvisits, rfl⟩ := exists_visits hnode hwalk
      refine ⟨s, hvisits.keeps (p := p) hstart fun item hitem => ?_, .refl _, rfl, rfl⟩
      cases List.mem_singleton.1 hitem
      exact hroot node rfl
  cases nodeThrows with
  | error e =>
      cases hend
      exact hc₁
  | ok throws =>
      cases hend
      obtain ⟨s, hs, hlayouts, hmodule, hnames⟩ := hc₁
      exact ⟨s, hs, ⟨hlayouts.symbols, hlayouts.templates⟩, hmodule, hnames⟩

/-! ### Between trees -/

/-- A compilation after any number of trees whose nodes have a property. It may be about the names
that are there when the tree starts. -/
inductive IsMadeOf (p : Names → NodeKind Node → Prop) : Compilation → Prop where
  | new (options : LowerOptions) (moduleName : String) : IsMadeOf p (new options moduleName)
  | read {c : Compilation} {names : Names} (before : IsMadeOf p c) (hgrow : c.names.Grow names) :
      IsMadeOf p { c with names := names }
  | lower {c c' : Compilation} {bound : Nat} {root : Option Node}
      {result : Except InternalError LowerOutcome} (before : IsMadeOf p c)
      (hroot : ∀ node ∈ root, node.Everywhere (p c.names))
      (step : c.lowerWithin bound root = .ok (result, c')) : IsMadeOf p c'

theorem IsMadeOf.isBuilt {p : Names → NodeKind Node → Prop} (h : c.IsMadeOf p) : c.IsBuilt := by
  induction h with
  | new options moduleName => exact .new options moduleName
  | read _ hgrow ih => exact ih.read hgrow
  | lower _ _ step ih => exact ih.lower step

/-- A compilation after any number of trees in which the parameters of templates are identifiers. No
other names of a program matter here. -/
def IsSpelled : Compilation → Prop :=
  IsMadeOf fun ns kind => ∀ decl, kind = .template decl → ∀ param ∈ decl.params, ns.IsIdentifier param

/-- What is true of layouts in a new compilation is true between any two trees whose nodes have a
property that keeps it. What was said about the names of an earlier time has to be true of the names
of a later one. -/
theorem IsMadeOf.keeps {I : Names → Lowering → Prop} {p : Names → NodeKind Node → Prop}
    [∀ ns, Lowering.ConcernsLayouts (I ns)] [∀ ns n, (Recur.within n).IsRespectful (I ns)]
    [∀ ns n, (Recur.within n).RespectsDeclarations (I ns) (p ns)]
    (hnew : ∀ options moduleName, I (Compilation.new options moduleName).names
      (Compilation.new options moduleName).state)
    (hlater : ∀ ns s, I ns s → I s.names s) (h : c.IsMadeOf p) : I c.names c.state := by
  induction h with
  | new options moduleName => exact hnew options moduleName
  | read _ hgrow ih => exact hlater _ _ (Lowering.ConcernsLayouts.of_names ih hgrow _)
  | @lower c c' _ _ _ _ hroot step ih =>
      obtain ⟨s, hs, hlayouts, hmodule, hnames⟩ := exists_of_lowerWithin
        (Lowering.ConcernsLayouts.of_names ih (c.names.grow_intern "this") _) hroot step
      exact hlater _ c'.state (Lowering.ConcernsLayouts.of_same hs hlayouts
        (hmodule ▸ .refl _) (hnames ▸ .refl _))

/-- The only template at the beginning is the array, and its parameter is an identifier. -/
theorem agrees_new (options : LowerOptions) (moduleName : String) :
    (new options moduleName).state.Agrees (new options moduleName).names where
  symbols := SymbolTable.agrees_empty _
  templates {key template} h param hparam := by
    obtain ⟨-, rfl⟩ := TemplateTable.eq_of_initial h
    cases List.mem_singleton.1 hparam
    exact ⟨"T", Names.text_intern _ _, by decide, by decide, by decide⟩
  names := .refl _

/-- Between any two trees objects and structures agree. -/
theorem IsSpelled.agrees (h : c.IsSpelled) : c.state.Agrees c.names :=
  IsMadeOf.keeps agrees_new (fun _ _ => Lowering.Agrees.later) h

/-- At every point between items an object that is complete and no placeholder has a structure with
one field for each of its members, in the same order and of the same types. Its members have
different names and its type leads to it, so a member that is found by its name has the position of
its field. -/
theorem objects_agree_with_structures {name : Name} {info : ObjectInfo} (hc : c.IsSpelled)
    (hroot : root.AllParams c.names.IsIdentifier) (h : c.Visits bound root s)
    (hinfo : s.context.symbols.object? name = some info) (hcomplete : info.complete = true)
    (hplain : info.placeholder = false) :
    ∃ text fields, s.module.types.get info.ty = .ok (.named text (some fields)) ∧
      fields = info.members.map Prod.snd ∧ (info.members.map Prod.fst).Nodup ∧
      s.context.symbols.objectByType? info.ty = some info ∧
      ∀ member slot, s.context.symbols.member? info.ty member = some slot →
        info.members[slot.index]? = some (member, slot.ty) ∧ fields[slot.index]? = some slot.ty := by
  have hstart : c.start.Agrees c.names :=
    Lowering.ConcernsLayouts.of_names hc.agrees (c.names.grow_intern "this") _
  have hs : s.Agrees c.names := Recur.Visits.keeps h hstart fun item hitem => by
    cases List.mem_singleton.1 hitem
    exact hroot
  obtain ⟨⟨text, hget⟩, hnodup⟩ := hs.symbols.fits hinfo hplain
  have hfound := hs.symbols.objectByType? hinfo hplain
  rw [ObjectInfo.body?, if_pos hcomplete] at hget
  refine ⟨text, _, hget, rfl, hnodup, hfound, fun member slot hslot => ?_⟩
  rw [SymbolTable.member?, hfound, Option.bind_some,
    ObjectInfo.member?_eq_some_iff hnodup] at hslot
  exact ⟨hslot, by rw [List.getElem?_map, hslot]; rfl⟩

/-- An object that is declared twice, a template, a variable of an instance of it with the object,
and another object. -/
def pairItems : List (Option Node) :=
  let node (id : Nat) (kind : NodeKind Node) : Node := ⟨id, .unknown, kind⟩
  let pair (id : Nat) := node id (.object ⟨⟨3⟩, [⟨⟨4⟩, .prim .int⟩, ⟨⟨5⟩, .prim .long⟩], []⟩)
  let template := node 2 (.template ⟨⟨6⟩, [⟨2⟩], [⟨⟨4⟩, .named ⟨2⟩⟩,
    ⟨⟨7⟩, .pointer (.generic ⟨6⟩ [.named ⟨2⟩])⟩], []⟩)
  let list := node 3 (.varDecl (.generic ⟨6⟩ [.named ⟨3⟩]) [⟨⟨8⟩, none⟩])
  let user := node 4 (.object ⟨⟨9⟩, [⟨⟨4⟩, .named ⟨3⟩⟩], []⟩)
  [some (pair 0), some (pair 1), some template, some list, some user]

/-- The module with these items. -/
def pairProgram : Node := ⟨5, .unknown, .module pairItems⟩

/-- The compilation in which the program has been read. -/
def pairCompilation : Compilation :=
  reading "pairs" #["Pair", "first", "second", "List", "next", "pairs", "User"]

/-- Before the last object of the program the instance of the template is complete. It contains an
object and a pointer to itself, and the second declaration of the object has been reported. -/
theorem objects_agree_with_structures_pair : ∃ s info text fields,
    pairCompilation.Visits 20 pairProgram s ∧ s.context.errorCount = 1 ∧
      s.context.symbols.object? ⟨9⟩ = none ∧ s.context.symbols.object? ⟨11⟩ = some info ∧
      info.members = [(⟨4⟩, ⟨0⟩), (⟨7⟩, ⟨4⟩)] ∧
      s.module.types.get info.ty = .ok (.named text (some fields)) ∧ fields = [⟨0⟩, ⟨4⟩] := by
  obtain ⟨⟨⟨⟩, s⟩, hrun, hcount, hnone, info, hinfo, hcomplete, hplain, hmembers⟩ :
      ∃ run ∈ ((Recur.within 19).sequence (pairItems.take 4)
          (pairCompilation.start.enterModule pairProgram)).toOption,
        run.2.context.errorCount = 1 ∧ run.2.context.symbols.object? ⟨9⟩ = none ∧
          ∃ info ∈ run.2.context.symbols.object? ⟨11⟩, info.complete = true ∧
            info.placeholder = false ∧ info.members = [(⟨4⟩, ⟨0⟩), (⟨7⟩, ⟨4⟩)] := by
    decide +kernel
  have hinside : Recur.Visits 19 pairItems (pairCompilation.start.enterModule pairProgram) s :=
    List.take_append_drop 4 pairItems ▸ .between (mem_toOption_iff.1 hrun)
  have hvisits : pairCompilation.Visits 20 pairProgram s :=
    show Recur.Visits (19 + 1) ([] ++ some pairProgram :: []) pairCompilation.start s from
      .inside rfl rfl rfl hinside
  have hspelled : pairCompilation.IsSpelled :=
    (IsMadeOf.new .standard "pairs").read (Names.grow_append _ _)
  have hroot : pairProgram.AllParams pairCompilation.names.IsIdentifier := by
    have hparam : pairCompilation.names.IsIdentifier ⟨2⟩ :=
      ⟨"T", Checked.at_eq_ok_iff.2 (by decide +kernel), by decide, by decide, by decide⟩
    simp [pairProgram, pairItems, Node.AllParams, Node.everywhere_mk_iff, NodeKind.children, hparam]
  obtain ⟨text, fields, hget, hfields, -⟩ :=
    objects_agree_with_structures hspelled hroot hvisits hinfo hcomplete hplain
  exact ⟨s, info, text, fields, hvisits, hcount, hnone, hinfo, hmembers, hget,
    hfields.trans (by rw [hmembers]; rfl)⟩

end Compilation

end SsaCompiler
