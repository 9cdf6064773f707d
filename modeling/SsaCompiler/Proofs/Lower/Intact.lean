/-
# Whatever lowering looks up is there

A walk ends early when something that has been declared is not found again: an object by its type,
an overload by its function, an operator by its position. None of this happens. In an intact state
the types lead to objects, the positions of operators are those of entries, and every callable whose
body is still to be lowered is found among its candidates; and from an intact state lowering leads
to intact ones.

What lowering is put together from does not have to be looked at again for this. It is enough that
the parts of which something is left open lead from intact states to intact ones.
-/

import SsaCompiler.Proofs.Lower.Around
import SsaCompiler.Proofs.Lower.Stepwise.Composed
import SsaCompiler.Proofs.Lower.Upkeep
import SsaCompiler.Proofs.Symbols.Links
import SsaCompiler.Proofs.Symbols.Resolution

namespace SsaCompiler

/-! ### Operators -/

namespace OperatorTable

variable {t : OperatorTable} {index : Nat}

/-- At a position of the table there is an entry. -/
theorem exists_get? (h : index < t.size) : ∃ e, t.get? index = some e :=
  ⟨t.entries[index].2, by rw [get?, List.getElem?_eq_getElem h]; rfl⟩

/-- An operator that is found has a position of the table. -/
theorem lt_size_of_lookup {pointee : TypeRelation} {key : OperatorKey}
    (ht : t.IsIndexed) (h : t.lookup pointee key = .found index) : index < t.size := by
  unfold lookup at h
  split at h
  · rename_i hposition
    cases h
    obtain ⟨entry, hentry⟩ := (ht _ _).1 hposition
    exact (List.getElem?_eq_some_iff.1 hentry).1
  · have hlt := Resolution.lt_of_pick h
    rwa [List.length_map] at hlt

end OperatorTable

/-! ### Tables -/

namespace Context

variable {c c' c'' : Context} {types types' : TypeTable}

/-- A callable is found where it was entered. -/
def Finds (c : Context) (f : FunctionId) : CallableOwner → Prop
  | .overload callee => callee.Finds c.symbols f
  | .operator index => index < c.operators.size

/-- Whatever the tables lead to is there. The dynamic array is a template with one parameter. -/
structure IsIntact (c : Context) (types : TypeTable) : Prop where
  symbols : c.symbols.IsLinked
  types : ∀ {ty name}, c.symbols.byType.get? ty = some name → ty.index < types.size
  operators : c.operators.IsIndexed
  templates : ∀ {key template}, c.templates.templates.get? key = some template →
    template.isBuiltin = true → key.2 = 1

/-- What has been declared is still there, and a template with arguments stays the type that it was
made concrete as. -/
structure Retains (c c' : Context) : Prop where
  symbols : c.symbols.Retains c'.symbols
  operators : c.operators.size ≤ c'.operators.size
  instances : c.templates.instances.Grow c'.templates.instances

theorem Retains.refl (c : Context) : c.Retains c := ⟨.refl _, Nat.le_refl _, .refl _⟩

theorem Retains.trans (h : c.Retains c') (h' : c'.Retains c'') : c.Retains c'' :=
  ⟨h.symbols.trans h'.symbols, h.operators.trans h'.operators, h.instances.trans h'.instances⟩

/-- A callable that is found is found later. -/
theorem Finds.mono {f : FunctionId} {owner : CallableOwner} (hf : c.Finds f owner)
    (h : c.Retains c') : c'.Finds f owner := by
  cases owner with
  | overload callee => exact Callee.Finds.mono hf h.symbols
  | operator index => exact Nat.lt_of_lt_of_le hf h.operators

/-- Tables with the same entries have the same declarations. -/
theorem SameEntries.retains (h : c.SameEntries c') : c.Retains c' where
  symbols :=
    { objects := h.objects ▸ .refl ObjectInfo.Retains.refl _
      functions := h.functions ▸ .refl OverloadSet.Retains.refl _
      byType := h.byType ▸ .refl _
      fresh := fun hname => .inl (h.byType ▸ hname) }
  operators := h.operators ▸ Nat.le_refl _
  instances := h.instances ▸ .refl _

/-- With the same templates they are as intact, and so they are with more types. -/
theorem SameEntries.isIntact (h : c.SameEntries c')
    (htemplates : c'.templates.templates = c.templates.templates)
    (htypes : types.size ≤ types'.size) (hc : c.IsIntact types) : c'.IsIntact types' where
  symbols :=
    { objects := fun hname => h.objects ▸ hc.symbols.objects (h.byType ▸ hname)
      types := fun hinfo => h.byType ▸ hc.symbols.types (h.objects ▸ hinfo)
      complete := fun hinfo => hc.symbols.complete (h.objects ▸ hinfo) }
  types hname := Nat.lt_of_lt_of_le (hc.types (h.byType ▸ hname)) htypes
  operators := h.operators ▸ hc.operators
  templates htemplate := hc.templates (htemplates ▸ htemplate)

end Context

/-! ### States of lowering -/

namespace Lowering

variable {s s' s'' : Lowering}

/-- The tables are intact, a callable that waits for its body is found, and the walk has not ended
early. -/
structure IsIntact (s : Lowering) : Prop where
  tables : s.context.IsIntact s.module.types
  pending : ∀ {node p}, s.pass.pending.get? node = some p → s.context.Finds p.function p.owner
  fatal : s.pass.fatal = none

/-- What has been declared is still there, and the loops around the walk are the same. -/
structure Retains (s s' : Lowering) : Prop where
  tables : s.context.Retains s'.context
  types : s.module.types.size ≤ s'.module.types.size
  loops : s'.pass.loops = s.pass.loops

theorem Retains.refl (s : Lowering) : s.Retains s := ⟨.refl _, Nat.le_refl _, rfl⟩

theorem Retains.trans (h : s.Retains s') (h' : s'.Retains s'') : s.Retains s'' :=
  ⟨h.tables.trans h'.tables, h.types.trans h'.types, h'.loops.trans h.loops⟩

/-- Callables that wait for their bodies are found later. -/
theorem IsIntact.of_retains (hs : s.IsIntact) (h : s.context.Retains s'.context)
    (htables : s'.context.IsIntact s'.module.types) (hpending : s'.pass.pending = s.pass.pending)
    (hfatal : s'.pass.fatal = s.pass.fatal) : s'.IsIntact where
  tables := htables
  pending hp := (hs.pending (hpending ▸ hp)).mono h
  fatal := hfatal.trans hs.fatal

/-- With more types in the module a state is as intact. -/
theorem IsIntact.withModule (hs : s.IsIntact) {m : Module}
    (htypes : s.module.types.size ≤ m.types.size) :
    s.Retains { s with module := m } ∧ ({ s with module := m } : Lowering).IsIntact := by
  have hsame : s.context.SameEntries s.context := ⟨rfl, rfl, rfl, rfl, rfl, rfl, rfl⟩
  exact ⟨⟨.refl _, htypes, rfl⟩,
    hs.of_retains (.refl _) (hsame.isIntact rfl htypes hs.tables) rfl rfl⟩

end Lowering

/-! ### Computations that lead to intact states -/

open Lower

instance : IsPreorder Lowering Lowering.Retains where
  refl := .refl
  trans _ _ _ := .trans

/-- From an intact state a computation leads to an intact one in which all declarations are still
there, and something holds of its answer. -/
abbrev Secures {α : Type} (Q : Lowering → α → Prop) (x : Lower α) (s : Lowering) : Prop :=
  Maintains Lowering.IsIntact Lowering.Retains Q x s

/-- The same if nothing is said about the answer. -/
abbrev IsSecure {α : Type} (x : Lower α) (s : Lowering) : Prop := Secures (fun _ _ => True) x s

namespace Secures

variable {s : Lowering}

/-- A request to the module leaves the tables alone. -/
theorem build {α : Type} (b : Build α) [hb : b.GrowsLoosely] : IsSecure (liftM b : Lower α) s where
  run hs h := by
    obtain ⟨m, hrun, rfl⟩ := build_eq_ok_iff.1 h
    obtain ⟨hretains, hs'⟩ := hs.withModule (hb.later hrun).size
    exact ⟨hretains, hs', trivial⟩

theorem modifyContext {f : Context → Context} (hretains : s.context.Retains (f s.context))
    (hf : s.context.IsIntact s.module.types → (f s.context).IsIntact s.module.types) :
    Secures (fun s' _ => s' = { s with context := f s.context }) (Lower.modifyContext f) s where
  run hs h := by
    cases h
    exact ⟨⟨hretains, Nat.le_refl _, rfl⟩, hs.of_retains hretains (hf hs.tables) rfl rfl, rfl⟩

/-- A change of the tables that makes no declaration. -/
theorem sameEntries {f : Context → Context} (hf : s.context.SameEntries (f s.context))
    (htemplates : (f s.context).templates.templates = s.context.templates.templates) :
    IsSecure (Lower.modifyContext f) s :=
  (modifyContext hf.retains (hf.isIntact htemplates (Nat.le_refl _))).unit

/-- A change of the walk that leaves callables only where they are found. -/
theorem modifyPass {f : Pass → Pass} (hloops : (f s.pass).loops = s.pass.loops)
    (hfatal : (f s.pass).fatal = s.pass.fatal)
    (hpending : s.IsIntact → ∀ {node p}, (f s.pass).pending.get? node = some p →
      s.context.Finds p.function p.owner) : IsSecure (Lower.modifyPass f) s where
  run hs h := by
    cases h
    exact ⟨⟨.refl _, Nat.le_refl _, hloops⟩, ⟨hs.tables, hpending hs, hfatal.trans hs.fatal⟩, trivial⟩

theorem report (kind : DiagnosticKind) (message : String) (span : Span) :
    IsSecure (Lower.report kind message span) s :=
  sameEntries ⟨rfl, rfl, rfl, rfl, rfl, rfl, rfl⟩ rfl

/-- A name for a text leaves the tables alone. -/
theorem intern (text : String) :
    Secures (fun s' _ => s'.context = s.context) (Lower.intern text) s where
  run hs h := by
    cases h
    exact ⟨⟨.refl _, Nat.le_refl _, rfl⟩, ⟨hs.tables, hs.pending, hs.fatal⟩, rfl⟩

end Secures

/-- From an intact state an attempt leads to an intact one in which all declarations are still there,
and something holds of its answer, if it has one. -/
abbrev Grants {α : Type} (Q : Lowering → α → Prop) (x : Attempt α) (s : Lowering) : Prop :=
  x.Maintains Lowering.IsIntact Lowering.Retains Q s

/-! ### What lowering is put together from -/

namespace Lower

variable {α : Type} {L : Leeway} {s : Lowering}

/-- Computations that are secure wherever the operators are there that they may call. -/
def IsSecured : Parts := fun L _ x => ∀ s : Lowering,
  (∀ index ∈ L.operators, index < s.context.operators.size) → IsSecure x s

theorem isSecure_appendBlock (name : String) (s : Lowering) : IsSecure (appendBlock name) s := by
  unfold appendBlock
  refine (Maintains.state (·.pass.func)).bind fun f s₁ _ _ _ => ?_
  cases f with
  | some f => exact Secures.build (Build.appendBlock f.id name)
  | none =>
      refine (Secures.build (Build.ask Module.currentFunction)).bind fun f s₂ _ _ _ => ?_
      exact Secures.build (Build.appendBlock (f.getD ⟨noHandle⟩) name)

/-- What is put together from steps and from secure computations leads to intact states. -/
theorem Composed.retains {x : Lower α} {a : α} {s' : Lowering} (hx : Composed IsSecured L x)
    (h : x s = .ok (a, s')) (hL : ∀ index ∈ L.operators, index < s.context.operators.size)
    (hs : s.IsIntact) : s.Retains s' ∧ s'.IsIntact := by
  induction hx generalizing s s' with
  | part hx =>
      obtain ⟨hretains, hs', -⟩ := (hx s hL).run hs h
      exact ⟨hretains, hs'⟩
  | pure =>
      cases h
      exact ⟨.refl _, hs⟩
  | seq _ _ ihx ihf =>
      obtain ⟨b, s₁, hfirst, hrest⟩ := bind_eq_ok_iff.1 h
      obtain ⟨h₁, hs₁⟩ := ihx hfirst hL hs
      obtain ⟨h₂, hs₂⟩ := ihf b hrest
        (fun index hindex => Nat.lt_of_lt_of_le (hL index hindex) h₁.tables.operators) hs₁
      exact ⟨h₁.trans h₂, hs₂⟩
  | check c =>
      cases c with
      | error e => cases h
      | ok a =>
          cases h
          exact ⟨.refl _, hs⟩
  | ask =>
      cases h
      exact ⟨.refl _, hs⟩
  | outer _ _ ih => exact ih s (get_eq_ok h) hL hs
  | within _ _ ihx ihy =>
      rcases ifOutside_eq_ok h with ⟨-, h⟩ | ⟨-, h⟩
      · exact ihx h hL hs
      · exact ihy h hL hs
  | intern =>
      cases h
      exact ⟨⟨.refl _, Nat.le_refl _, rfl⟩, hs.tables, hs.pending, hs.fatal⟩
  | report kind message span =>
      obtain ⟨hretains, hs', -⟩ := (Secures.report kind message span).run hs h
      exact ⟨hretains, hs'⟩
  | note f hf =>
      cases h
      exact ⟨⟨.refl _, Nat.le_refl _, hf.loops _⟩,
        hs.of_retains (.refl _) hs.tables (hf.pending _) (hf.sameFatal _)⟩
  | goOn b =>
      obtain ⟨hretains, hs', -⟩ := (Secures.build (Build.positionAtEnd b)).run hs h
      exact ⟨hretains, hs'⟩
  | enter b _ _ _ ih =>
      obtain ⟨⟨⟩, s₁, hgo, hrest⟩ := bind_eq_ok_iff.1 h
      obtain ⟨h₁, hs₁, -⟩ := (Secures.build (Build.positionAtEnd b)).run hs hgo
      obtain ⟨h₂, hs₂⟩ := ih hrest
        (fun index hindex => Nat.lt_of_lt_of_le (hL index hindex) h₁.tables.operators) hs₁
      exact ⟨h₁.trans h₂, hs₂⟩
  | fresh name _ _ ih =>
      obtain ⟨b, s₁, hblock, hrest⟩ := bind_eq_ok_iff.1 h
      obtain ⟨h₁, hs₁, -⟩ := (isSecure_appendBlock name s).run hs hblock
      obtain ⟨h₂, hs₂⟩ := ih b hrest
        (fun index hindex => Nat.lt_of_lt_of_le (hL index hindex) h₁.tables.operators) hs₁
      exact ⟨h₁.trans h₂, hs₂⟩
  | freshIn _ g name _ _ ih | entryIn _ g _ ih =>
      obtain ⟨b, s₁, hblock, hrest⟩ := bind_eq_ok_iff.1 h
      obtain ⟨h₁, hs₁, -⟩ := (Secures.build (Build.appendBlock g _)).run hs hblock
      obtain ⟨h₂, hs₂⟩ := ih b hrest
        (fun index hindex => Nat.lt_of_lt_of_le (hL index hindex) h₁.tables.operators) hs₁
      exact ⟨h₁.trans h₂, hs₂⟩
  | comingBack _ ih =>
      obtain ⟨⟨⟩, s₁, hx, hback⟩ := bind_eq_ok_iff.1 (comingBack_apply _ s ▸ h)
      obtain ⟨h₁, hs₁⟩ := ih hx hL hs
      obtain ⟨h₂, hs₂, -⟩ :=
        (Secures.build (Build.restorePosition s.module.position)).run hs₁ hback
      exact ⟨h₁.trans h₂, hs₂⟩
  | demand _ span ih =>
      obtain ⟨s₁, hx, rfl | ⟨-, hreport⟩⟩ := demand_eq_ok h
      · exact ih hx hL hs
      · obtain ⟨h₁, hs₁⟩ := ih hx hL hs
        obtain ⟨h₂, hs₂, -⟩ := (Secures.report _ _ span).run hs₁ hreport
        exact ⟨h₁.trans h₂, hs₂⟩
  | collecting _ ih =>
      obtain ⟨s₁, hrun, -, rfl⟩ := collecting_eq_ok h
      obtain ⟨hretains, hs₁⟩ := ih hrun hL ⟨hs.tables, hs.pending, hs.fatal⟩
      exact ⟨⟨hretains.tables, hretains.types, hretains.loops⟩, hs₁.tables, hs₁.pending, hs₁.fatal⟩
  | withTargets _ _ _ ih =>
      obtain ⟨s₁, hrun, rfl⟩ := withTargets_eq_ok h
      obtain ⟨hretains, hs₁⟩ := ih hrun hL ⟨hs.tables, hs.pending, hs.fatal⟩
      exact ⟨⟨hretains.tables, hretains.types, by simp [hretains.loops]⟩, hs₁.tables, hs₁.pending,
        hs₁.fatal⟩
  | withTry _ _ _ ih =>
      obtain ⟨s₁, hrun, -, rfl⟩ := withTry_eq_ok h
      obtain ⟨hretains, hs₁⟩ := ih hrun hL ⟨hs.tables, hs.pending, hs.fatal⟩
      exact ⟨⟨hretains.tables, hretains.types, hretains.loops⟩, hs₁.tables, hs₁.pending, hs₁.fatal⟩
  | withBody g _ _ ih =>
      obtain ⟨a, s₁, ha, h⟩ := bind_eq_ok_iff.1 h
      obtain ⟨b, s₂, hb, h⟩ := bind_eq_ok_iff.1 h
      obtain ⟨h₁, hs₁, -⟩ := (Secures.build (Build.appendBlock g "entry")).run hs ha
      obtain ⟨h₂, hs₂, -⟩ := (Secures.build (Build.appendBlock g "body")).run hs₁ hb
      have hmade := h₁.trans h₂
      obtain ⟨s₃, fatal, hrun, rfl, -, hclosed⟩ := inFunction_eq_ok h
      have hentered : s₂.context.SameEntries { s₂.context with
          symbols := (s₂.context.symbols.enterFunction (isGlobalBinding s₂.module)).2 } :=
        ⟨rfl, rfl, rfl, rfl, rfl, rfl, rfl⟩
      have hleft : s₃.context.SameEntries { s₃.context with
          symbols := s₃.context.symbols.exitFunction ⟨s₂.context.symbols.bindings⟩ } :=
        ⟨rfl, rfl, rfl, rfl, rfl, rfl, rfl⟩
      obtain ⟨hretains, hs₃⟩ := ih a b hrun
        (fun index hindex => Nat.lt_of_lt_of_le (hL index hindex) hmade.tables.operators)
        ⟨hentered.isIntact rfl (Nat.le_refl _) hs₂.tables,
          fun hp => (hs₂.pending hp).mono hentered.retains, hs₂.fatal⟩
      have htables := (hentered.retains.trans hretains.tables).trans hleft.retains
      refine ⟨hmade.trans ⟨htables, hretains.types, rfl⟩,
        hleft.isIntact rfl (Nat.le_refl _) hs₃.tables,
        fun hp => (hs₃.pending hp).mono hleft.retains, ?_⟩
      -- No loop is left open, since there is none where the body starts.
      exact (hclosed hretains.loops).trans hs₃.fatal
  | asNewPass _ ih =>
      obtain ⟨s₁, hrun, rfl⟩ := asNewPass_eq_ok h
      obtain ⟨hretains, hs₁⟩ := ih hrun hL ⟨hs.tables, (fun hp => by cases hp), rfl⟩
      refine ⟨⟨hretains.tables, hretains.types, rfl⟩, hs₁.tables,
        fun hp => (hs.pending hp).mono hretains.tables, ?_⟩
      change s.pass.fatal.or s₁.pass.fatal = none
      rw [hs.fatal, hs₁.fatal]
      rfl

theorem Composed.isSecure {x : Lower α} (hx : Composed IsSecured L x)
    (hL : ∀ index ∈ L.operators, index < s.context.operators.size) : IsSecure x s where
  run hs h := by
    obtain ⟨hretains, hs'⟩ := hx.retains h hL hs
    exact ⟨hretains, hs', trivial⟩

end Lower

end SsaCompiler
