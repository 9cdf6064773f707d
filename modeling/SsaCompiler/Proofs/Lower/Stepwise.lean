/-
# Lowering goes from a state to later ones

Lowering changes the module only through requests to it, so that the whole way from the first
to the last module of a program consists of the few kinds of change that requests make. The
tables of lowering go along: whatever they enter they know.
-/

import SsaCompiler.Proofs.Lower.Registry
import SsaCompiler.Proofs.Lower.Requests
import SsaCompiler.Proofs.Lower.Step

namespace SsaCompiler

namespace Stepwise

variable {α β γ : Type}

/-! ### Attempts -/

/-- A sequence of attempts stops at the first that fails. -/
theorem andThen {x : Attempt α} {f : α → Attempt β} [Stepwise x.run]
    (hf : ∀ a, Stepwise (f a).run) : Stepwise (x >>= f).run := by
  rw [OptionT.run_bind]
  refine bind fun o => ?_
  cases o with
  | none => exact pure none
  | some a => exact hf a

instance {x : Attempt α} {f : α → Attempt β} [Stepwise x.run] [hf : ∀ a, Stepwise (f a).run] :
    Stepwise (x >>= f).run := andThen hf

instance (a : α) : Stepwise (Pure.pure a : Attempt α).run := pure (some a)

instance : Stepwise (failure : Attempt α).run := pure none

instance {x : Lower α} [Stepwise x] : Stepwise (liftM x : Attempt α).run :=
  inferInstanceAs (Stepwise (x >>= fun a => Pure.pure (some a)))

instance : Stepwise (get : Attempt Lowering).run :=
  inferInstanceAs (Stepwise ((get : Lower Lowering) >>= fun s => Pure.pure (some s)))

/-! ### Single steps -/

instance (c : Checked α) : Stepwise (liftM c : Lower α) where
  later _ h := by
    cases c with
    | error e => cases h
    | ok a =>
        cases h
        exact Lowering.Evolves.refl _

/-- A request to the module. -/
instance build (b : Build α) [Stepwise b] : Stepwise (liftM b : Lower α) where
  later _ h := by
    obtain ⟨m, hrun, rfl⟩ := Lower.build_eq_ok_iff.1 h
    exact Lowering.evolves_module (Build.progresses hrun)

instance (b : Build α) [Stepwise b] : Stepwise (liftM b : Attempt α).run :=
  inferInstanceAs (Stepwise ((liftM b : Lower α) >>= fun a => Pure.pure (some a)))

end Stepwise

open Lower

/-- A change of the tables that leaves all entries alone. -/
theorem stepwise_modifyContext {f : Context → Context} (hf : ∀ c : Context, c.SameEntries (f c)) :
    Stepwise (modifyContext f) where
  later {s a s'} _ h := by
    cases h
    refine Lowering.evolves_context (hf s.context).options ?_ (hf s.context).known
    exact (hf s.context).byType ▸ Table.Grow.refl _

/-- A change of the walk leaves the tables alone. -/
instance (f : Pass → Pass) : Stepwise (modifyPass f) where
  later _ h := by
    cases h
    exact ⟨.refl _, .refl, fun _ _ ht => ht, .refl _, rfl, id⟩

/-- A new name is added to the others. -/
instance (text : String) : Stepwise (intern text) where
  later {s a s'} _ h := by
    cases h
    exact Lowering.evolves_names (s.names.grow_intern text)

/-! ### The state of lowering -/

variable {α : Type}

/-- A change of the symbols that only concerns variables. -/
theorem stepwise_modifySymbols {f : SymbolTable → SymbolTable}
    (hobjects : ∀ t, (f t).objects = t.objects) (hbyType : ∀ t, (f t).byType = t.byType)
    (hfunctions : ∀ t, (f t).functions = t.functions) : Stepwise (modifySymbols f) :=
  stepwise_modifyContext fun _ => ⟨rfl, hobjects _, hbyType _, rfl, hfunctions _, rfl, rfl⟩

instance (kind : DiagnosticKind) (message : String) (span : Span) :
    Stepwise (report kind message span) :=
  stepwise_modifyContext fun _ => ⟨rfl, rfl, rfl, rfl, rfl, rfl, rfl⟩

instance (kind : DiagnosticKind) (message : String) (span : Span) :
    Stepwise (Attempt.reject kind message span : Attempt α).run := by
  unfold Attempt.reject
  infer_instance

instance (e : InternalError) : Stepwise (abandon e) := by
  unfold abandon
  infer_instance

instance : Stepwise isAbandoned := by
  unfold isAbandoned
  infer_instance

instance : Stepwise errorCount := by
  unfold errorCount
  infer_instance

instance : Stepwise symbols := by
  unfold symbols
  infer_instance

instance : Stepwise func := by
  unfold func
  infer_instance

/-- A support function is entered with its function. -/
theorem SupportTable.get?_of_get {t t' : SupportTable} {f : SupportFunction} {id : FunctionId}
    {m m' : Module} (h : t.get f m = .ok ((id, t'), m')) {g : SupportFunction} {id' : FunctionId}
    (hg : t'.declared.get? g = some id') :
    t.declared.get? g = some id' ∨ m'.functionByName? g.symbol = some id' := by
  unfold SupportTable.get at h
  cases hfind : t.declared.get? f with
  | some known =>
      rw [hfind] at h
      cases h
      exact .inl hg
  | none =>
      rw [hfind] at h
      obtain ⟨ty, m₁, -, h⟩ := bind_eq_ok_iff.1 h
      obtain ⟨id₁, m₂, hdeclare, h⟩ := bind_eq_ok_iff.1 h
      cases h
      rw [Table.get?_insert] at hg
      split at hg
      · rename_i hfound
        cases hg
        exact .inr (hfound ▸ Build.functionByName?_of_declareFunction hdeclare)
      · exact .inl hg

/-- A support function has one entry, also when it has just been declared. -/
theorem SupportTable.nodup_keys_get {t t' : SupportTable} {g : SupportFunction} {f : FunctionId}
    {m m' : Module} (hkeys : t.declared.keys.Nodup) (h : t.get g m = .ok ((f, t'), m')) :
    t'.declared.keys.Nodup := by
  unfold SupportTable.get at h
  cases hfound : t.declared.get? g with
  | some known =>
      rw [hfound] at h
      cases h
      exact hkeys
  | none =>
      rw [hfound] at h
      obtain ⟨ty, m₁, -, h⟩ := bind_eq_ok_iff.1 h
      obtain ⟨f', m₂, -, h⟩ := bind_eq_ok_iff.1 h
      cases h
      have hnew : t.declared.contains g = false := by simp [Table.contains, hfound]
      unfold Table.insert
      rw [if_neg (by simp [hnew])]
      refine List.nodup_cons.2 ⟨fun hmem => ?_, hkeys⟩
      obtain ⟨⟨g', a⟩, hentry, rfl⟩ := List.mem_map.1 hmem
      cases hfound.symm.trans (Table.findIn_of_mem hkeys hentry)

/-- A support function that is asked for is in the table. -/
theorem SupportTable.get?_get {t t' : SupportTable} {f : SupportFunction} {id : FunctionId}
    {m m' : Module} (h : t.get f m = .ok ((id, t'), m')) : t'.declared.get? f = some id := by
  unfold SupportTable.get at h
  cases hfind : t.declared.get? f with
  | some known =>
      rw [hfind] at h
      cases h
      exact hfind
  | none =>
      rw [hfind] at h
      obtain ⟨type, m₁, -, h⟩ := bind_eq_ok_iff.1 h
      obtain ⟨id₁, m₂, -, h⟩ := bind_eq_ok_iff.1 h
      cases h
      rw [Table.get?_insert, if_pos rfl]

instance (f : SupportFunction) : Stepwise (support f) where
  later {s id s'} _ h := by
    rw [support, bind_of_ok (get_apply s)] at h
    obtain ⟨⟨id', table⟩, s₁, hget, h⟩ := bind_eq_ok_iff.1 h
    obtain ⟨m, hrun, rfl⟩ := Lower.build_eq_ok_iff.1 hget
    cases h
    have hm : s.module.Progresses m := Build.progresses hrun
    refine (Lowering.evolves_module hm).trans (Lowering.evolves_context rfl (.refl _) fun hknown => ?_)
    refine { hknown with
      support := fun hid => ?_
      supported := SupportTable.nodup_keys_get hknown.supported hrun }
    rcases SupportTable.get?_of_get hrun hid with hold | hnew
    · exact hknown.support hold
    · exact ⟨_, .plain _, hnew⟩

instance : Stepwise pushThrowFrame := by
  unfold pushThrowFrame
  infer_instance

instance : Stepwise popThrowFrame := by
  unfold popThrowFrame
  refine .bind fun _ => ?_
  split <;> infer_instance

instance : Stepwise position := by
  unfold position
  infer_instance

/-! ### What a computation answers with -/

variable {β : Type} {s s' : Lowering}

/-- From a state a computation goes to later ones, and what it answers with is known there. -/
structure Gives (P : Lowering → α → Prop) (x : Lower α) (s : Lowering) : Prop where
  run : ∀ {a s'}, x s = .ok (a, s') → s.Evolves s' ∧ P s' a

namespace Gives

variable {P : Lowering → α → Prop} {Q : Lowering → β → Prop} {x : Lower α} {f : α → Lower β}

theorem bind (hx : Gives P x s) (hs : s.Known)
    (hf : ∀ a s', s.Evolves s' → s'.Known → P s' a → Gives Q (f a) s') : Gives Q (x >>= f) s where
  run h := by
    obtain ⟨a, s', hx', hf'⟩ := bind_eq_ok_iff.1 h
    obtain ⟨hlater, ha⟩ := hx.run hx'
    obtain ⟨hlater', hb⟩ := (hf a s' hlater (hlater.known hs) ha).run hf'
    exact ⟨hlater.trans hlater', hb⟩

/-- A computation about whose answer nothing is said. -/
theorem of_stepwise [hx : Stepwise x] (hs : s.Known) : Gives (fun _ _ => True) x s :=
  ⟨fun h => ⟨hx.later hs h, trivial⟩⟩

theorem step [Stepwise x] (hs : s.Known)
    (hf : ∀ a s', s.Evolves s' → s'.Known → Gives Q (f a) s') : Gives Q (x >>= f) s :=
  (of_stepwise hs).bind hs fun a s' hlater hs' _ => hf a s' hlater hs'

theorem pure {a : α} (ha : P s a) : Gives P (Pure.pure a) s where
  run h := by
    cases h
    exact ⟨.refl _, ha⟩

/-- A request to the module that answers with something known. -/
theorem build {b : Build α} {P : Module → α → Prop} [Stepwise b]
    (hb : ∀ {a m}, b s.module = .ok (a, m) → s.module.Evolves m → P m a) :
    Gives (fun s' a => P s'.module a) (liftM b : Lower α) s where
  run h := by
    obtain ⟨m, hrun, rfl⟩ := Lower.build_eq_ok_iff.1 h
    have hlater := Lowering.evolves_module (Build.progresses hrun)
    exact ⟨hlater, hb hrun hlater.module⟩

/-- A type that is described by its components. -/
theorem internType {ty : IrType} {P : Lowering → TypeId → Prop}
    (hdescription : ty.description? = some ty) (hparts : ty.parts = [])
    (hty : ∀ {s' id}, s.Evolves s' → s'.module.types.get id = .ok ty → P s' id) :
    Gives P (liftM (Build.internType ty hdescription) : Lower TypeId) s where
  run h := by
    have := Build.moves_internType (R := Module.Progresses) hdescription hparts
    obtain ⟨m, hrun, rfl⟩ := Lower.build_eq_ok_iff.1 h
    have hm := Lowering.evolves_module (Build.progresses hrun)
    refine ⟨hm, hty hm ?_⟩
    cases hrun
    exact Module.get_intern _ _

/-- An answer that is of no concern. -/
theorem discard (hx : Gives P x s) : Gives (fun _ _ => True) (discard x) s where
  run h := by
    obtain ⟨a, s₁, hx', hend⟩ := (bind_eq_ok_iff (x := x) (f := fun _ => Pure.pure ())).1 h
    cases hend
    exact ⟨(hx.run hx').1, trivial⟩

end Gives

/-- A support function that is asked for is there under its name. -/
theorem Lower.gives_support (f : SupportFunction) (hs : s.Known) :
    Gives (fun s' id => s'.module.functionByName? f.symbol = some id) (support f) s where
  run {id s'} h := by
    have hlater := Stepwise.later hs h
    refine ⟨hlater, ?_⟩
    rw [support, bind_of_ok (get_apply s)] at h
    obtain ⟨⟨id', table⟩, s₁, hget, h⟩ := bind_eq_ok_iff.1 h
    obtain ⟨m, hrun, rfl⟩ := Lower.build_eq_ok_iff.1 hget
    cases h
    obtain ⟨_, ⟨⟩, hf⟩ := (hlater.known hs).support (SupportTable.get?_get hrun)
    exact hf

/-- From a state an attempt goes to later ones, and what it answers with is known there. -/
structure Yields (P : Lowering → α → Prop) (x : Attempt α) (s : Lowering) : Prop where
  run : ∀ {o s'}, x s = .ok (o, s') → s.Evolves s' ∧ ∀ a ∈ o, P s' a

namespace Yields

variable {P : Lowering → α → Prop} {Q : Lowering → β → Prop} {x : Attempt α}
  {f : α → Attempt β}

/-- An attempt is a computation that may have no answer. -/
theorem gives (hx : Yields P x s) : Gives (fun s' o => ∀ a ∈ o, P s' a) x.run s := ⟨hx.run⟩

theorem lift {x : Lower α} (hx : Gives P x s) : Yields P (liftM x : Attempt α) s where
  run h := by
    obtain ⟨a, hx', rfl⟩ := Attempt.lift_eq_ok h
    obtain ⟨hlater, ha⟩ := hx.run hx'
    refine ⟨hlater, fun b hb => ?_⟩
    cases hb
    exact ha

theorem bind (hx : Yields P x s) (hs : s.Known)
    (hf : ∀ a s', s.Evolves s' → s'.Known → P s' a → Yields Q (f a) s') :
    Yields Q (x >>= f) s where
  run h := by
    rcases Attempt.bind_cases h with ⟨a, s', hx', hf'⟩ | ⟨hx', rfl⟩
    · obtain ⟨hlater, ha⟩ := hx.run hx'
      obtain ⟨hlater', hb⟩ := (hf a s' hlater (hlater.known hs) (ha a rfl)).run hf'
      exact ⟨hlater.trans hlater', hb⟩
    · exact ⟨(hx.run hx').1, fun b hb => by cases hb⟩

/-- An attempt about whose answer nothing is said comes first. -/
theorem step [hx : Stepwise x.run] (hs : s.Known)
    (hf : ∀ a s', s.Evolves s' → s'.Known → Yields Q (f a) s') : Yields Q (x >>= f) s := by
  have hstep : Yields (fun _ _ => True) x s := ⟨fun h => ⟨hx.later hs h, fun _ _ => trivial⟩⟩
  exact hstep.bind hs fun a s' hlater hs' _ => hf a s' hlater hs'

theorem pure {a : α} (ha : P s a) : Yields P (Pure.pure a : Attempt α) s where
  run h := by
    cases h
    refine ⟨.refl _, fun b hb => ?_⟩
    cases hb
    exact ha

theorem reject {kind : DiagnosticKind} {message : String} {span : Span} (hs : s.Known) :
    Yields P (Attempt.reject kind message span) s where
  run h := by
    have hlater := Stepwise.later (x := (Attempt.reject kind message span : Attempt α).run) hs h
    obtain ⟨_, s₁, -, hend⟩ := Attempt.bind_lift h
    cases hend
    exact ⟨hlater, fun a ha => by cases ha⟩

end Yields

/-! ### Parts of a tree -/

/-- Lowering of parts that goes to later states. Of templates it is asked for instances with
types that can be written down, and it answers with such types. -/
class Recur.IsStepwise (r : Recur) : Prop where
  operand : ∀ node, Stepwise (r.operand node)
  condition : ∀ cond thenTo elseTo, Stepwise (r.condition cond thenTo elseTo)
  instantiate : ∀ {name args span s o s'}, s.Known → (∀ a ∈ args, s.module.types.IsSource a) →
    r.instantiate name args span s = .ok (o, s') →
      s.Evolves s' ∧ ∀ ty ∈ o, s'.module.types.IsSource ty

attribute [instance] Recur.IsStepwise.operand Recur.IsStepwise.condition

end SsaCompiler
