/-
# Lowering keeps objects and structures in agreement

Wherever lowering is, the objects of the table fit the structures of the module. Most of what it
does has no part in this: names keep standing for objects of the same types, and types stay what
they are. Where objects are declared and completed a structure may get its body, so it is said which
types may change.

Inside a function none may. There an instance of a template hides objects behind its placeholders,
and they are found unchanged when the placeholders are taken away. A placeholder never hides the
object of an instance itself, whose name is no identifier.
-/

import Mathlib.Order.Defs.Unbundled
import SsaCompiler.Proofs.Lower.Around
import SsaCompiler.Proofs.Lower.Composed.Node
import SsaCompiler.Proofs.Lower.Upkeep
import SsaCompiler.Proofs.Symbols.Agreement

namespace SsaCompiler

/-! ### Modules and tables -/

/-- An edit leaves types what they are and gives no structure a body. -/
theorem Module.Edit.sameBodies {m m' : Module} {k : EditKind} (h : m.Edit k m') :
    m.types.SameBodies m'.types := by
  cases h with
  | types hchange htypes => exact hchange.sameBodies htypes
  | compound ty hty => exact TypeTable.sameBodies_intern (IrType.description?_eq_self_iff.1 hty)
  | _ => exact .refl _

theorem Module.Edits.sameBodies {m m' : Module} (h : m.Edits m') :
    m.types.SameBodies m'.types := by
  induction h with
  | refl => exact .refl _
  | tail _ hedit ih =>
      obtain ⟨k, hedit⟩ := hedit
      exact ih.trans hedit.sameBodies

/-- Tables with the same entries have the same layouts. -/
theorem Context.SameEntries.sameLayouts {c c' : Context} (h : c.SameEntries c')
    (htemplates : c'.templates = c.templates) : c.SameLayouts c' where
  symbols := ⟨fun name => by rw [h.objects], h.byType⟩
  templates := htemplates

theorem Context.SameLayouts.refl (c : Context) : c.SameLayouts c := ⟨.refl _, rfl⟩

namespace Names

variable {ns ns' ns'' : Names} {n : Name}

theorem Grow.refl (ns : Names) : ns.Grow ns := fun _ _ h => h

/-- Names go on keeping their texts. -/
theorem Grow.trans (h : ns.Grow ns') (h' : ns'.Grow ns'') : ns.Grow ns'' :=
  fun n text hn => h' n text (h n text hn)

/-- Names with different texts are different. -/
theorem ne_of_text {name : Name} {text text' : String} (h : ns.text n = .ok text)
    (h' : ns.text name = .ok text') (hne : text ≠ text') : n ≠ name := by
  rintro rfl
  exact hne (Except.ok.inj (h.symm.trans h'))

/-- A name whose text has none of the signs that the names of instances are made with. -/
def IsIdentifier (ns : Names) (n : Name) : Prop :=
  ∃ text, ns.text n = .ok text ∧ '<' ∉ text.toList ∧ '>' ∉ text.toList ∧ ',' ∉ text.toList

theorem IsIdentifier.mono (h : ns.IsIdentifier n) (hgrow : ns.Grow ns') : ns'.IsIdentifier n := by
  obtain ⟨text, htext, hsigns⟩ := h
  exact ⟨text, hgrow _ _ htext, hsigns⟩

/-- The name of an instance is no identifier. -/
theorem IsIdentifier.ne {name : Name} {text : String} (h : ns.IsIdentifier n)
    (hname : ns.text name = .ok text) (htext : '<' ∈ text.toList) : n ≠ name := by
  obtain ⟨text', htext', hsign, -⟩ := h
  exact ne_of_text htext' hname fun heq => hsign (heq ▸ htext)

end Names

/-! ### States of lowering -/

namespace Lowering

variable {s s' s'' t : Lowering} {ns : Names} {X : Set TypeId}

/-- Objects and structures agree. The parameters of templates are identifiers, which is said about
the names that there were at some time before. -/
structure Agrees (ns : Names) (s : Lowering) : Prop where
  symbols : s.context.symbols.Agrees s.module.types
  templates : ∀ {key template}, s.context.templates.templates.get? key = some template →
    ∀ param ∈ template.params, ns.IsIdentifier param
  names : ns.Grow s.names

/-- Names keep their texts and keep standing for what they stood for, and types stay what they are
but for some. -/
structure Settles (X : Set TypeId) (s s' : Lowering) : Prop where
  symbols : s.context.symbols.Persists s'.context.symbols
  types : s.module.types.KeepsBut X s'.module.types
  names : s.names.Grow s'.names
  func : s'.pass.func = s.pass.func

theorem Settles.refl (X : Set TypeId) (s : Lowering) : s.Settles X s := ⟨.refl _, .refl X _, .refl _, rfl⟩

theorem Settles.trans (h : s.Settles X s') (h' : s'.Settles X s'') : s.Settles X s'' :=
  ⟨h.symbols.trans h'.symbols, h.types.trans h'.types, h.names.trans h'.names, h'.func.trans h.func⟩

instance (X : Set TypeId) : IsPreorder Lowering (Settles X) where
  refl := .refl X
  trans _ _ _ := .trans

/-- What is said about a state that stays true while layouts stay the same: objects but for their
methods and constructors, templates and their instances, the bodies of structures, and the texts of
names. -/
class ConcernsLayouts (I : Lowering → Prop) : Prop where
  of_same : ∀ {s t : Lowering}, I s → s.context.SameLayouts t.context →
    s.module.types.SameBodies t.module.types → s.names.Grow t.names → I t

instance (ns : Names) : ConcernsLayouts (Agrees ns) where
  of_same hs hlayouts htypes hnames :=
    ⟨hs.symbols.of_sameOutlines hlayouts.symbols htypes.keepsBut,
      fun htemplate => hs.templates (hlayouts.templates ▸ htemplate), hs.names.trans hnames⟩

/-- What makes no difference to layouts. -/
theorem Settles.of_same (hlayouts : s.context.SameLayouts t.context)
    (htypes : s.module.types.SameBodies t.module.types) (hnames : s.names.Grow t.names)
    (hfunc : t.pass.func = s.pass.func) : s.Settles X t :=
  ⟨hlayouts.symbols.persists, htypes.keepsBut, hnames, hfunc⟩

section

variable {I : Lowering → Prop} [ConcernsLayouts I]

/-- Where the walk is makes no difference. -/
theorem ConcernsLayouts.of_pass (hs : I s) (p : Pass) : I { s with pass := p } :=
  of_same hs (.refl _) (.refl _) (.refl _)

/-- Nor does a name that is new. -/
theorem ConcernsLayouts.of_names {names : Names} (hs : I s) (hgrow : s.names.Grow names) (p : Pass) :
    I { s with names := names, pass := p } :=
  of_same hs (.refl _) (.refl _) hgrow

end

/-- A name stands for an object that waits for its members. -/
def Awaits (s : Lowering) (name : Name) (ty : TypeId) : Prop :=
  s.context.symbols.Awaits s.module.types name ty

/-- It still does in a state in which its type has not changed. -/
theorem Awaits.mono {name : Name} {ty : TypeId} (h : s.Awaits name ty) (hsettles : s.Settles X s')
    (hty : ty ∉ X) : s'.Awaits name ty :=
  SymbolTable.Awaits.mono h hsettles.symbols hsettles.types hty

/-- What was said about names of an earlier time is true of those that are there. -/
theorem Agrees.later (hs : s.Agrees ns) : s.Agrees s.names where
  symbols := hs.symbols
  templates htemplate param hparam := (hs.templates htemplate param hparam).mono hs.names
  names := .refl _

theorem Agrees.awaits {name : Name} {info : ObjectInfo} (hs : s.Agrees ns)
    (hinfo : s.context.symbols.objects.get? name = some info)
    (hincomplete : info.complete = false) : s.Awaits name info.ty :=
  hs.symbols.awaits hinfo hincomplete

end Lowering

/-! ### Computations that respect layouts -/

open Lower

variable {α β : Type} {I : Lowering → Prop} {X : Set TypeId} {s : Lowering}

/-- From a state of which something is true that concerns layouts a computation leads to another one
of which it is true, in which only some types may have changed, and something holds of its answer. -/
abbrev Respects (I : Lowering → Prop) (X : Set TypeId) {α : Type} (Q : Lowering → α → Prop)
    (x : Lower α) (s : Lowering) : Prop :=
  Maintains I (Lowering.Settles X) Q x s

/-- The same if nothing is said about the answer. -/
abbrev IsRespectful (I : Lowering → Prop) (X : Set TypeId) {α : Type} (x : Lower α) (s : Lowering) :
    Prop :=
  Respects I X (fun _ _ => True) x s

/-- The same for an attempt, if it has an answer. -/
abbrev Attempt.Respects (I : Lowering → Prop) (X : Set TypeId) {α : Type} (Q : Lowering → α → Prop)
    (x : Attempt α) (s : Lowering) : Prop :=
  x.Maintains I (Lowering.Settles X) Q s

namespace Respects

variable {Q : Lowering → α → Prop} {x : Lower α}

theorem mono {Y : Set TypeId} (hx : Respects I Y Q x s) (hYX : Y ⊆ X) : Respects I X Q x s where
  run hs h := by
    obtain ⟨hsettles, hs', ha⟩ := hx.run hs h
    exact ⟨⟨hsettles.symbols, hsettles.types.mono hYX, hsettles.names, hsettles.func⟩, hs', ha⟩

/-- A type that was not there before does not count. -/
theorem of_new {id : TypeId} (hx : Respects I {id} Q x s)
    (hid : ∀ ty, s.module.types.get id ≠ .ok ty) : Respects I X Q x s where
  run hs h := by
    obtain ⟨hsettles, hs', ha⟩ := hx.run hs h
    exact ⟨⟨hsettles.symbols, hsettles.types.of_new hid, hsettles.names, hsettles.func⟩, hs', ha⟩

variable [hI : Lowering.ConcernsLayouts I]

/-- A request to the module that is met by edits. -/
theorem build (b : Build α) [hb : b.Edits] : IsRespectful I X (liftM b : Lower α) s where
  run hs h := by
    obtain ⟨m, hrun, rfl⟩ := build_eq_ok_iff.1 h
    have htypes := (hb.run hrun).sameBodies
    exact ⟨.of_same (.refl _) htypes (.refl _) rfl, hI.of_same hs (.refl _) htypes (.refl _), trivial⟩

/-- A change of the tables that leaves the layouts alone. -/
theorem modifyContext {f : Context → Context} (hf : s.context.SameLayouts (f s.context)) :
    IsRespectful I X (Lower.modifyContext f) s where
  run hs h := by
    cases h
    exact ⟨.of_same hf (.refl _) (.refl _) rfl, hI.of_same hs hf (.refl _) (.refl _), trivial⟩

theorem modifyPass {f : Pass → Pass} (hf : (f s.pass).func = s.pass.func) :
    IsRespectful I X (Lower.modifyPass f) s where
  run hs h := by
    cases h
    exact ⟨.of_same (.refl _) (.refl _) (.refl _) hf, hI.of_pass hs _, trivial⟩

theorem report (kind : DiagnosticKind) (message : String) (span : Span) :
    IsRespectful I X (Lower.report kind message span) s :=
  modifyContext ⟨.refl _, rfl⟩

theorem intern (text : String) :
    Respects I X (fun s' n => s'.names.text n = .ok text) (Lower.intern text) s where
  run hs h := by
    cases h
    have hgrow := s.names.grow_intern text
    exact ⟨.of_same (.refl _) (.refl _) hgrow rfl, hI.of_names hs hgrow _, s.names.text_intern text⟩

end Respects

/-! ### What lowering is put together from -/

namespace Lower

variable {L : Leeway} [hI : Lowering.ConcernsLayouts I]

omit hI in
/-- Computations that respect layouts. Code that belongs to no function may do so only if types may
change. -/
def IsRespected (I : Lowering → Prop) (X : Set TypeId) : Parts := fun L _ x => ∀ s : Lowering,
  (X = ∅ → L.binds = true → s.pass.func.isSome) → IsRespectful I X x s

theorem isRespectful_appendBlock (name : String) (s : Lowering) :
    IsRespectful I X (appendBlock name) s := by
  unfold appendBlock
  refine (Maintains.state (·.pass.func)).bind fun f s₁ _ _ _ => ?_
  cases f with
  | some f => exact Respects.build (Build.appendBlock f.id name)
  | none =>
      refine (Respects.build (Build.ask Module.currentFunction)).bind fun f s₂ _ _ _ => ?_
      exact Respects.build (Build.appendBlock (f.getD ⟨noHandle⟩) name)

/-- What is put together from steps and from computations that respect layouts respects them. -/
theorem Composed.settles {x : Lower α} {a : α} {s' : Lowering}
    (hx : Composed (IsRespected I X) L x) (h : x s = .ok (a, s'))
    (hL : X = ∅ → L.binds = true → s.pass.func.isSome) (hs : I s) : s.Settles X s' ∧ I s' := by
  induction hx generalizing s s' with
  | part hx =>
      obtain ⟨hsettles, hs', -⟩ := (hx s hL).run hs h
      exact ⟨hsettles, hs'⟩
  | pure =>
      cases h
      exact ⟨.refl X _, hs⟩
  | seq _ _ ihx ihf =>
      obtain ⟨b, s₁, hfirst, hrest⟩ := bind_eq_ok_iff.1 h
      obtain ⟨h₁, hs₁⟩ := ihx hfirst hL hs
      obtain ⟨h₂, hs₂⟩ := ihf b hrest (h₁.func.symm ▸ hL) hs₁
      exact ⟨h₁.trans h₂, hs₂⟩
  | check c =>
      cases c with
      | error e => cases h
      | ok a =>
          cases h
          exact ⟨.refl X _, hs⟩
  | ask =>
      cases h
      exact ⟨.refl X _, hs⟩
  | outer _ _ ih => exact ih s (get_eq_ok h) hL hs
  | within _ _ ihx ihy =>
      rcases ifOutside_eq_ok h with ⟨-, h⟩ | ⟨-, h⟩
      · exact ihx h hL hs
      · exact ihy h hL hs
  | intern text =>
      obtain ⟨hsettles, hs', -⟩ := (Respects.intern text).run hs h
      exact ⟨hsettles, hs'⟩
  | report kind message span =>
      obtain ⟨hsettles, hs', -⟩ := (Respects.report kind message span).run hs h
      exact ⟨hsettles, hs'⟩
  | note f hf =>
      obtain ⟨hsettles, hs', -⟩ := (Respects.modifyPass (hf.func _)).run hs h
      exact ⟨hsettles, hs'⟩
  | goOn b =>
      obtain ⟨hsettles, hs', -⟩ := (Respects.build (Build.positionAtEnd b)).run hs h
      exact ⟨hsettles, hs'⟩
  | enter b _ _ _ ih =>
      obtain ⟨⟨⟩, s₁, hgo, hrest⟩ := bind_eq_ok_iff.1 h
      obtain ⟨h₁, hs₁, -⟩ := (Respects.build (Build.positionAtEnd b)).run hs hgo
      obtain ⟨h₂, hs₂⟩ := ih hrest (h₁.func.symm ▸ hL) hs₁
      exact ⟨h₁.trans h₂, hs₂⟩
  | fresh name _ _ ih =>
      obtain ⟨b, s₁, hblock, hrest⟩ := bind_eq_ok_iff.1 h
      obtain ⟨h₁, hs₁, -⟩ := (isRespectful_appendBlock name s).run hs hblock
      obtain ⟨h₂, hs₂⟩ := ih b hrest (h₁.func.symm ▸ hL) hs₁
      exact ⟨h₁.trans h₂, hs₂⟩
  | freshIn _ g name _ _ ih | entryIn _ g _ ih =>
      obtain ⟨b, s₁, hblock, hrest⟩ := bind_eq_ok_iff.1 h
      obtain ⟨h₁, hs₁, -⟩ := (Respects.build (Build.appendBlock g _)).run hs hblock
      obtain ⟨h₂, hs₂⟩ := ih b hrest (h₁.func.symm ▸ hL) hs₁
      exact ⟨h₁.trans h₂, hs₂⟩
  | comingBack _ ih =>
      obtain ⟨⟨⟩, s₁, hx, hback⟩ := bind_eq_ok_iff.1 (comingBack_apply _ s ▸ h)
      obtain ⟨h₁, hs₁⟩ := ih hx (fun _ hbinds => by cases hbinds) hs
      obtain ⟨h₂, hs₂, -⟩ :=
        (Respects.build (Build.restorePosition s.module.position)).run hs₁ hback
      exact ⟨h₁.trans h₂, hs₂⟩
  | demand _ span ih =>
      obtain ⟨s₁, hx, rfl | ⟨-, hreport⟩⟩ := demand_eq_ok h
      · exact ih hx hL hs
      · obtain ⟨h₁, hs₁⟩ := ih hx hL hs
        obtain ⟨h₂, hs₂, -⟩ := (Respects.report _ _ span).run hs₁ hreport
        exact ⟨h₁.trans h₂, hs₂⟩
  | collecting _ ih =>
      obtain ⟨s₁, hrun, -, rfl⟩ := collecting_eq_ok h
      obtain ⟨hsettles, hs₁⟩ := ih hrun hL (hI.of_pass hs _)
      exact ⟨⟨hsettles.symbols, hsettles.types, hsettles.names, hsettles.func⟩, hI.of_pass hs₁ _⟩
  | withTargets _ _ _ ih =>
      obtain ⟨s₁, hrun, rfl⟩ := withTargets_eq_ok h
      obtain ⟨hsettles, hs₁⟩ := ih hrun hL (hI.of_pass hs _)
      exact ⟨⟨hsettles.symbols, hsettles.types, hsettles.names, hsettles.func⟩, hI.of_pass hs₁ _⟩
  | withTry _ _ _ ih =>
      obtain ⟨s₁, hrun, -, rfl⟩ := withTry_eq_ok h
      obtain ⟨hsettles, hs₁⟩ := ih hrun hL (hI.of_pass hs _)
      exact ⟨⟨hsettles.symbols, hsettles.types, hsettles.names, hsettles.func⟩, hI.of_pass hs₁ _⟩
  | withBody g _ _ ih =>
      obtain ⟨a, s₁, ha, h⟩ := bind_eq_ok_iff.1 h
      obtain ⟨b, s₂, hb, h⟩ := bind_eq_ok_iff.1 h
      obtain ⟨h₁, hs₁, -⟩ := (Respects.build (Build.appendBlock g "entry")).run hs ha
      obtain ⟨h₂, hs₂, -⟩ := (Respects.build (Build.appendBlock g "body")).run hs₁ hb
      -- Variables are put aside, and they are no part of a layout.
      obtain ⟨s₃, fatal, hrun, rfl, -, -⟩ := inFunction_eq_ok h
      obtain ⟨hsettles, hs₃⟩ := ih a b hrun (fun _ _ => rfl)
        (hI.of_same hs₂ ⟨⟨fun _ => rfl, rfl⟩, rfl⟩ (.refl _) (.refl _))
      have hleft : s₃.context.symbols.SameOutlines
          (s₃.context.symbols.exitFunction ⟨s₂.context.symbols.bindings⟩) := ⟨fun _ => rfl, rfl⟩
      have hentered : s₂.context.symbols.SameOutlines
          (s₂.context.symbols.enterFunction (isGlobalBinding s₂.module)).2 := ⟨fun _ => rfl, rfl⟩
      have hpersists := (hentered.persists.trans hsettles.symbols).trans hleft.persists
      exact ⟨(h₁.trans h₂).trans ⟨hpersists, hsettles.types, hsettles.names, rfl⟩,
        hI.of_same hs₃ ⟨hleft, rfl⟩ (.refl _) (.refl _)⟩
  | asNewPass _ ih =>
      obtain ⟨s₁, hrun, rfl⟩ := asNewPass_eq_ok h
      have hgrow := s.names.grow_intern "this"
      obtain ⟨hsettles, hs₁⟩ := ih hrun (fun _ hbinds => by cases hbinds) (hI.of_names hs hgrow _)
      exact ⟨⟨hsettles.symbols, hsettles.types, hgrow.trans hsettles.names, rfl⟩,
        hI.of_pass hs₁ _⟩

theorem Composed.isRespectful {x : Lower α} (hx : Composed (IsRespected I X) L x)
    (hL : X = ∅ → L.binds = true → s.pass.func.isSome) : IsRespectful I X x s where
  run hs h := by
    obtain ⟨hsettles, hs'⟩ := hx.settles h hL hs
    exact ⟨hsettles, hs', trivial⟩

/-- Where any type may change it does so in every state. -/
theorem Composed.isRespectful_univ {x : Lower α} (hx : Composed (IsRespected I .univ) L x) :
    IsRespectful I .univ x s :=
  hx.isRespectful fun hempty => absurd hempty Set.univ_nonempty.ne_empty

/-- Room on the stack is made by a request to the module. -/
theorem isRespectful_entryAlloca (ty : TypeId) : IsRespectful I X (entryAlloca ty) s where
  run hs h := by
    obtain ⟨m, hrun, rfl⟩ := entryAlloca_eq_ok h
    have htypes := (Build.Moves.run (R := Module.Edits) hrun).sameBodies
    exact ⟨.of_same (.refl _) htypes (.refl _) rfl, hI.of_same hs (.refl _) htypes (.refl _), trivial⟩

/-- What expressions and statements do respects layouts. -/
instance : HasSteps (IsRespected I X) where
  still b := .part fun _ _ => Respects.build b
  alloca ty := .part fun _ _ => Respects.build (Build.alloca ty)
  choose b _ ty incoming := .part fun _ _ => Respects.build (choose b ty incoming)
  entryAlloca ty := .part fun _ _ => isRespectful_entryAlloca ty
  entries hf htemplates _ := .part fun _ _ =>
    Respects.modifyContext ((hf _).sameLayouts (htemplates _))
  support {L} f := by
    have (table : SupportTable) :
        Composed (IsRespected I X) L (modifyContext fun c => { c with support := table }) :=
      .part fun _ _ => Respects.modifyContext ⟨.refl _, rfl⟩
    have (b : Build (FunctionId × SupportTable)) [b.Edits] : Composed (IsRespected I X) L
        (liftM b : Lower (FunctionId × SupportTable)) := .part fun _ _ => Respects.build b
    exact .get (fun _ _ => rfl) fun _ => inferInstance
  operator {L} _ _ index _ label hk := by
    have (e : InternalError) : Composed (IsRespected I X) L (abandon e) :=
      .part fun _ _ => Respects.modifyPass rfl
    unfold withOperator
    refine .getThen (fun _ _ => rfl) fun _ => ?_
    split
    · infer_instance
    · exact hk _
  found key span := .found key span fun _ hx => hx

/-- So does what declarations do. -/
instance : HasWalk (IsRespected I X) where
  abandon _ := .part fun _ _ => Respects.modifyPass rfl
  tables _ _ hf := .part fun _ _ => Respects.modifyContext (hf _)
  walk hf := .part fun _ _ => Respects.modifyPass (hf.func _)

end Lower

end SsaCompiler
