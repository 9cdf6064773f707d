/-
# What lowering does between the parts of a node

Between the parts of a node lowering writes code, looks up names and calls, and notes which
exceptions may come out of a call. Nothing is recorded about a node by this. What is known about the
exceptions of the current node stays known, and of each type it is noted once, and nothing changes
for the nodes around it. A body is left for later only with the node that it was declared with.

Instances of templates are made on the way. Whatever the walk through an instance records belongs to
that walk alone.
-/

import SsaCompiler.Proofs.Lower.Composed.Node
import SsaCompiler.Proofs.Lower.Later

namespace SsaCompiler

variable {bodies : Nat → Option Node}

namespace Lowering

/-- The exceptions that are recorded for a node. -/
def recorded (s : Lowering) (node : Nat) : ThrowSet := (s.pass.nodeThrows.get? node).getD []

/-- Each body that is left waits with the node that it was declared with. -/
def Expects (bodies : Nat → Option Node) (s : Lowering) : Prop :=
  ∀ {node p stmt}, s.pass.pending.get? node = some p → p.body = some stmt →
    bodies node = some stmt

/-- A state in which nothing more is recorded about nodes, and as much is known about the current
one as before. -/
structure StaysCalm (bodies : Nat → Option Node) (s s' : Lowering) : Prop where
  module : s.module.GrowsLoosely s'.module
  nodeThrows : s'.pass.nodeThrows = s.pass.nodeThrows
  thrown : s.pass.thrown ⊆ s'.pass.thrown
  distinct : s.pass.thrown.Nodup → s'.pass.thrown.Nodup
  depth : s'.pass.throwStack.length = s.pass.throwStack.length
  outer : s'.pass.throwStack.tail = s.pass.throwStack.tail
  expects : s.Expects bodies → s'.Expects bodies

variable {s s' s'' : Lowering}

theorem StaysCalm.of_stack (hmodule : s.module.GrowsLoosely s'.module)
    (hnodeThrows : s'.pass.nodeThrows = s.pass.nodeThrows)
    (hstack : s'.pass.throwStack = s.pass.throwStack)
    (hexpects : s.Expects bodies → s'.Expects bodies) : s.StaysCalm bodies s' where
  module := hmodule
  nodeThrows := hnodeThrows
  thrown := by
    unfold Pass.thrown
    rw [hstack]
    exact List.Subset.refl _
  distinct h := by
    unfold Pass.thrown at h ⊢
    rwa [hstack]
  depth := congrArg List.length hstack
  outer := congrArg List.tail hstack
  expects := hexpects

theorem StaysCalm.of_same (hmodule : s.module.GrowsLoosely s'.module)
    (hnodeThrows : s'.pass.nodeThrows = s.pass.nodeThrows)
    (hstack : s'.pass.throwStack = s.pass.throwStack)
    (hpending : s'.pass.pending = s.pass.pending) : s.StaysCalm bodies s' :=
  .of_stack hmodule hnodeThrows hstack fun hs _ _ _ hp => hs (hpending ▸ hp)

theorem StaysCalm.refl (s : Lowering) : s.StaysCalm bodies s := .of_same (.refl _) rfl rfl rfl

theorem StaysCalm.trans (h : s.StaysCalm bodies s') (h' : s'.StaysCalm bodies s'') :
    s.StaysCalm bodies s'' where
  module := h.module.trans h'.module
  nodeThrows := h'.nodeThrows.trans h.nodeThrows
  thrown := List.Subset.trans h.thrown h'.thrown
  distinct := h'.distinct ∘ h.distinct
  depth := h'.depth.trans h.depth
  outer := h'.outer.trans h.outer
  expects hs := h'.expects (h.expects hs)

end Lowering

namespace Lower

variable {α : Type} {L : Leeway} {s s' : Lowering} {x : Lower α} {a : α}

/-- Computations by which nothing is recorded about nodes. -/
def IsCalm (bodies : Nat → Option Node) : Parts := fun _ _ x =>
  ∀ s a s', x s = .ok (a, s') → s.StaysCalm bodies s'

/-! ### Steps -/

theorem staysCalm_of_build {b : Build α} [hb : b.GrowsLoosely]
    (h : (liftM b : Lower α) s = .ok (a, s')) : s.StaysCalm bodies s' := by
  obtain ⟨m, hrun, rfl⟩ := build_eq_ok_iff.1 h
  exact .of_same (hb.later hrun) rfl rfl rfl

theorem staysCalm_of_appendBlock {name : String} {b : BlockId}
    (h : appendBlock name s = .ok (b, s')) : s.StaysCalm bodies s' := by
  unfold appendBlock at h
  rw [bind_of_ok (func_apply s)] at h
  cases hfunc : s.pass.func with
  | some f =>
      rw [hfunc] at h
      exact staysCalm_of_build h
  | none =>
      rw [hfunc] at h
      obtain ⟨f, s₁, hask, h⟩ := bind_eq_ok_iff.1 h
      rw [pure_bind] at h
      exact (staysCalm_of_build hask).trans (staysCalm_of_build h)

theorem staysCalm_of_entryAlloca {ty : TypeId} {slot : ValueId}
    (h : entryAlloca ty s = .ok (slot, s')) : s.StaysCalm bodies s' := by
  have hmodule := (later_of_entryAlloca h).module
  obtain ⟨m, -, rfl⟩ := entryAlloca_eq_ok h
  exact .of_same hmodule rfl rfl rfl

/-- A walk of its own, whatever it records. -/
theorem staysCalm_of_asNewPass {body : Lower Unit} {u : Unit}
    (hbody : Composed Elementary L.nowhere body) (h : asNewPass body s = .ok (u, s')) :
    s.StaysCalm bodies s' := by
  have hmodule := (Composed.asNewPass hbody).later_of h |>.module
  obtain ⟨s₁, -, rfl⟩ := asNewPass_eq_ok h
  exact .of_same hmodule rfl rfl rfl

/-- A body that is left with the node that it was declared with. -/
theorem staysCalm_of_postpone {node : Nat} {pending : PendingCallable} {u : Unit}
    (hbody : bodies node = pending.body) (h : postpone node pending s = .ok (u, s')) :
    s.StaysCalm bodies s' := by
  cases h
  refine .of_stack (.refl _) rfl rfl fun hs other p stmt hp hstmt => ?_
  have hp : (s.pass.pending.insert node pending).get? other = some p := hp
  rw [Table.get?_insert] at hp
  split at hp
  · rename_i heq
    cases hp
    rw [heq, hbody, hstmt]
  · exact hs hp hstmt

/-! ### All that is put together -/

/-- What is put together from steps and from calm computations is calm. -/
theorem Composed.staysCalm (hx : Composed (IsCalm bodies) L x) (h : x s = .ok (a, s')) :
    s.StaysCalm bodies s' := by
  induction hx generalizing s s' with
  | part hx => exact hx _ _ _ h
  | pure =>
      cases h
      exact .refl _
  | seq _ _ ihx ihf =>
      obtain ⟨b, s₁, hfirst, hrest⟩ := bind_eq_ok_iff.1 h
      exact (ihx hfirst).trans (ihf b hrest)
  | check c =>
      cases c with
      | error e => cases h
      | ok a =>
          cases h
          exact .refl _
  | ask | intern | report =>
      cases h
      exact .of_same (.refl _) rfl rfl rfl
  | outer _ _ ih => exact ih s (get_eq_ok h)
  | within _ _ ihx ihy =>
      rcases ifOutside_eq_ok h with ⟨-, h⟩ | ⟨-, h⟩
      · exact ihx h
      · exact ihy h
  | note f hf =>
      cases h
      exact ⟨.refl _, hf.nodeThrows _, hf.thrown _, hf.distinct _, hf.throws _, hf.outer _,
        fun hs _ _ _ hp => hs (hf.pending _ ▸ hp)⟩
  | goOn b => exact staysCalm_of_build h
  | enter b _ _ _ ih =>
      obtain ⟨⟨⟩, s₁, hgo, hrest⟩ := bind_eq_ok_iff.1 h
      exact (staysCalm_of_build hgo).trans (ih hrest)
  | fresh name _ _ ih =>
      obtain ⟨b, s₁, hblock, hrest⟩ := bind_eq_ok_iff.1 h
      exact (staysCalm_of_appendBlock hblock).trans (ih b hrest)
  | freshIn _ g name _ _ ih | entryIn _ g _ ih =>
      obtain ⟨b, s₁, hblock, hrest⟩ := bind_eq_ok_iff.1 h
      exact (staysCalm_of_build hblock).trans (ih b hrest)
  | comingBack _ ih =>
      obtain ⟨⟨⟩, s₁, hx, hback⟩ := bind_eq_ok_iff.1 (comingBack_apply _ s ▸ h)
      exact (ih hx).trans
        (staysCalm_of_build hback)
  | demand _ _ ih =>
      obtain ⟨s₁, hx, rfl | ⟨-, hreport⟩⟩ := demand_eq_ok h
      · exact ih hx
      · cases hreport
        exact (ih hx).trans (.of_same (.refl _) rfl rfl rfl)
  | collecting _ ih =>
      obtain ⟨s₁, hrun, -, rfl⟩ := collecting_eq_ok h
      have hinside := ih hrun
      exact .of_stack hinside.module hinside.nodeThrows hinside.outer hinside.expects
  | withTargets _ _ _ ih =>
      obtain ⟨s₁, hrun, rfl⟩ := withTargets_eq_ok h
      exact { ih hrun with }
  | withTry _ _ _ ih =>
      obtain ⟨s₁, hrun, -, rfl⟩ := withTry_eq_ok h
      have hinside := ih hrun
      exact .of_stack hinside.module hinside.nodeThrows hinside.outer hinside.expects
  | withBody g _ _ ih =>
      obtain ⟨a, s₁, ha, h⟩ := bind_eq_ok_iff.1 h
      obtain ⟨b, s₂, hb, h⟩ := bind_eq_ok_iff.1 h
      obtain ⟨s₃, fatal, hrun, rfl, -⟩ := inFunction_eq_ok h
      have hinside := ih a b hrun
      have hback := Module.growsLoosely_withPosition s₃.module s₂.module.position
      exact (staysCalm_of_build ha).trans
        ((staysCalm_of_build hb).trans
          { hinside with module := hinside.module.trans hback })
  | asNewPass _ ih =>
      obtain ⟨s₁, hrun, rfl⟩ := asNewPass_eq_ok h
      exact .of_same (ih hrun).module rfl rfl rfl

/-- A change of the tables is calm. -/
theorem composed_modifyContext (f : Context → Context) :
    Composed (IsCalm bodies) L (modifyContext f) :=
  .part fun s _ _ h => by
    cases h
    exact .of_same (.refl _) rfl rfl rfl

theorem composed_abandon (e : InternalError) : Composed (IsCalm bodies) L (abandon e) :=
  .part fun s _ _ h => by
    cases h
    exact .of_same (.refl _) rfl rfl rfl

/-- What expressions and statements do to the module and to the tables is calm. -/
instance : HasSteps (IsCalm bodies) where
  still b _ _ _ _ := by
    have : b.GrowsLoosely := .of_stepwise b
    exact .part fun _ _ _ h => staysCalm_of_build h
  alloca ty := .part fun _ _ _ h => staysCalm_of_build h
  choose b _ ty incoming := .part fun _ _ _ h => staysCalm_of_build h
  entryAlloca ty := .part fun _ _ _ h => staysCalm_of_entryAlloca h
  entries _ _ _ := composed_modifyContext _
  support {L} f := by
    have (b : Build (FunctionId × SupportTable)) [b.GrowsLoosely] :
        Composed (IsCalm bodies) L (liftM b : Lower (FunctionId × SupportTable)) :=
      .part fun _ _ _ h => staysCalm_of_build h
    have (table : SupportTable) :
        Composed (IsCalm bodies) L (modifyContext fun c => { c with support := table }) :=
      composed_modifyContext _
    exact .get (fun _ _ => rfl) fun _ => inferInstance
  operator index _ label hk := by
    have := @composed_abandon bodies
    unfold withOperator
    refine .getThen (fun _ _ => rfl) fun _ => ?_
    split
    · infer_instance
    · exact hk _
  found key span := .found key span fun _ hx => hx

instance (name : String) : Composed (IsCalm bodies) L (appendBlock name) :=
  .part fun _ _ _ h => staysCalm_of_appendBlock h

/-- So is every change of the tables. -/
instance : HasUpdates (IsCalm bodies) where
  abandon := composed_abandon
  tables _ _ _ := composed_modifyContext _
  request _ := .part fun _ _ _ h => staysCalm_of_build h
  update _ _ := composed_modifyContext _

/-- A body may be left with the node that it was declared with. -/
theorem Postpones.of_bodies {node : Nat} {body : Option Node} (h : bodies node = body) :
    Postpones (IsCalm bodies) node body where
  postpone hpending := .part fun _ _ _ => staysCalm_of_postpone (h.trans hpending.symm)

end Lower

open Lower

instance (r : Recur) [r.IsComposed] : r.HasInstances (IsCalm bodies) where
  walk {L} _ _ _ _ := .part fun _ _ _ => staysCalm_of_asNewPass (L := L) inferInstance

instance (n : Nat) (L : Leeway) (name : Name) (args : List TypeId) (span : Span) :
    Composed (IsCalm bodies) L ((Recur.within n).instantiate name args span) := by
  cases n with
  | zero => exact inferInstanceAs (Composed (IsCalm bodies) L (throw Crash.endless))
  | succ n =>
      exact inferInstanceAs
        (Composed (IsCalm bodies) L ((Recur.within n).instanceOf name args span).run)

/-- The search for a type is calm, however deep its calls nest. -/
instance Recur.hasTypes_within (n : Nat) : (within n).HasTypes (IsCalm bodies) :=
  ⟨composed_type (within n)⟩

end SsaCompiler
