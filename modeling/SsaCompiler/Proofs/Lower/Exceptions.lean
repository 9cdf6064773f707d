/-
# The exceptions of a node and of its parts

While a node is lowered, the exceptions that may come out of it are collected in a frame, and they
are recorded for the node when its frame is taken away. What is recorded for a node that is lowered
on the way goes to the frame around it. So the exceptions of a part are among those of the node, as
long as three things hold: every part is lowered once, so that no record is replaced; nothing is
taken out of a frame; and the node does not keep anything back.

A computation is looked at together with the list of the nodes that it lowers. One computation
behind another lowers the nodes of both, and a calm one lowers none. Nodes that stand apart do not
replace what is recorded for each other.

A declaration keeps back what its bodies let out: it comes out where they are called. A `try` keeps
back what its handlers are for, and without handlers everything.
-/

import SsaCompiler.Proofs.Lower.Calm
import SsaCompiler.Proofs.Lower.Intact.Node
import SsaCompiler.Proofs.Lower.Parts
import SsaCompiler.Proofs.Lower.Position

namespace SsaCompiler

open Lower

/-! ### What is kept back -/

/-- Nothing is taken back from here to the end of a compilation. -/
structure Lowering.LeadsTo (s : Lowering) (c : Compilation) : Prop where
  retains : s.context.Retains c.context
  module : s.module.GrowsLoosely c.module

/-- A type expression denotes a type: that is what it is found to stand for at some time on the way,
and nothing of it is taken back to the end. -/
def TypeExpr.Denotes (expr : TypeExpr) (c : Compilation) (ty : TypeId) : Prop :=
  ∃ n span s s', s.IsIntact ∧ ((Recur.within n).type span expr).run s = .ok (some ty, s') ∧
    s'.LeadsTo c

/-- A handler is for the type that its annotation denotes. -/
def CatchClause.Catches (clause : CatchClause Node) (c : Compilation) (ty : TypeId) : Prop :=
  clause.ty.stripReference.Denotes c ty

/-- The type in the module that holds a built-in type. -/
def PrimType.held : PrimType → IrType
  | bool => .int 1
  | char => .int 8
  | short => .int 16
  | int => .int 32
  | long => .int 64
  | float => .float 32
  | double => .float 64
  | void => .void

/-- A built-in type is described by its components. -/
theorem PrimType.description?_held (p : PrimType) : p.held.description? = some p.held := by
  cases p <;> rfl

/-- A built-in type is entered in the table of the module. -/
theorem PrimType.lower_eq (p : PrimType) :
    p.lower = Build.internType p.held p.description?_held := by
  cases p <;> rfl

/-- A node keeps an exception of one of its parts back. A declaration keeps everything back, since
what comes out of a body comes out of its calls. So does a `try` without handlers with its body, and
with handlers it does so with the types they are for. -/
inductive Node.Stops (c : Compilation) (n part : Node) (ty : TypeId) : Prop where
  | declared (h : n.kind.Declares)
  | dropped (h : n.kind = .tryCatch (some part) [])
  | caught {catches : List (CatchClause Node)} {clause : CatchClause Node}
      (h : n.kind = .tryCatch (some part) catches) (hclause : clause ∈ catches)
      (hty : clause.Catches c ty)

/-- The exceptions of a node cover those of its parts, but for what it keeps back. -/
def Node.Covers (n : Node) (throws : Nat → ThrowSet) (c : Compilation) : Prop :=
  ∀ part ∈ n.parts, ∀ ty ∈ throws part.id, ty ∈ throws n.id ∨ n.Stops c part ty

/-- What covers its parts goes on covering them as long as nothing else is recorded for them. -/
theorem Node.Covers.congr {n : Node} {throws throws' : Nat → ThrowSet} {c : Compilation}
    (h : n.Covers throws c) (hn : throws' n.id = throws n.id)
    (hparts : ∀ p ∈ n.parts, throws' p.id = throws p.id) : n.Covers throws' c := by
  intro p hp ty hty
  rw [hn]
  exact h p hp ty (hparts p hp ▸ hty)

namespace Lowering

variable {bodies : Nat → Option Node} {c : Compilation} {stops : Node → TypeId → Prop}
  {ps qs : List Node} {s s' s'' : Lowering}

/-- A state is as intact in another place of the program. -/
theorem IsIntact.withPass (hs : s.IsIntact) {p : Pass} (hpending : p.pending = s.pass.pending)
    (hfatal : p.fatal = s.pass.fatal) : ({ s with pass := p } : Lowering).IsIntact :=
  ⟨hs.tables, fun hp => hs.pending (hpending ▸ hp), hfatal.trans hs.fatal⟩

/-- A state behind an intact one. -/
structure Proceeds (s s' : Lowering) : Prop where
  intact : s'.IsIntact
  retains : s.context.Retains s'.context
  module : s.module.GrowsLoosely s'.module

theorem Proceeds.trans (h : s.Proceeds s') (h' : s'.Proceeds s'') : s.Proceeds s'' :=
  ⟨h'.intact, h.retains.trans h'.retains, h.module.trans h'.module⟩

/-- What is not taken back later has not been taken back before. -/
theorem Proceeds.leadsTo (h : s.Proceeds s') (h' : s'.LeadsTo c) : s.LeadsTo c :=
  ⟨h.retains.trans h'.retains, h.module.trans h'.module⟩

/-- Nodes may be lowered: they stand apart, and nothing is recorded about them so far. -/
structure IsReady (bodies : Nat → Option Node) (ps : List Node) (s : Lowering) : Prop where
  intact : s.IsIntact
  expects : s.Expects bodies
  trees : ∀ p ∈ ps, p.IsTree bodies
  apart : ps.Pairwise Node.Apart
  fresh : ∀ p ∈ ps, ∀ n, p.Reaches n → s.recorded n.id = []

/-- Nodes have been lowered. Their exceptions are among those of the node around them unless they
are stopped on the way, and the exceptions of every node in them cover those of its parts. About
other nodes nothing is recorded. -/
structure Gathers (bodies : Nat → Option Node) (c : Compilation) (stops : Node → TypeId → Prop)
    (ps : List Node) (s s' : Lowering) : Prop where
  depth : s'.pass.throwStack.length = s.pass.throwStack.length
  outer : s'.pass.throwStack.tail = s.pass.throwStack.tail
  thrown : s.pass.thrown ⊆ s'.pass.thrown
  distinct : s.pass.thrown.Nodup → s'.pass.thrown.Nodup
  expects : s'.Expects bodies
  elsewhere : ∀ i, (∀ p ∈ ps, ∀ n, p.Reaches n → n.id ≠ i) → s'.recorded i = s.recorded i
  raised : s.pass.throwStack ≠ [] → ∀ p ∈ ps, ∀ ty ∈ s'.recorded p.id,
    ty ∈ s'.pass.thrown ∨ stops p ty
  covers : ∀ p ∈ ps, ∀ n, p.Reaches n → n.Covers s'.recorded c
  nodup : (∀ i, (s.recorded i).Nodup) → ∀ i, (s'.recorded i).Nodup

/-- What is ready stays ready when other nodes have been lowered. -/
theorem IsReady.behind (hs : s.IsReady bodies (ps ++ qs)) (hs' : s'.IsIntact)
    (h : s.Gathers bodies c stops ps s') : s'.IsReady bodies qs where
  intact := hs'
  expects := h.expects
  trees q hq := hs.trees q (List.mem_append_right ps hq)
  apart := (List.pairwise_append.1 hs.apart).2.1
  fresh q hq n hn := by
    have hapart := (List.pairwise_append.1 hs.apart).2.2
    rw [h.elsewhere n.id fun p hp m hm => hapart p hp q hq m n hm hn]
    exact hs.fresh q (List.mem_append_right ps hq) n hn

theorem IsReady.withPass (hs : s.IsReady bodies ps) {p : Pass}
    (hpending : p.pending = s.pass.pending) (hfatal : p.fatal = s.pass.fatal)
    (hnodeThrows : p.nodeThrows = s.pass.nodeThrows) :
    ({ s with pass := p } : Lowering).IsReady bodies ps where
  intact := hs.intact.withPass hpending hfatal
  expects hp := hs.expects (hpending ▸ hp)
  trees := hs.trees
  apart := hs.apart
  fresh q hq n hn := by
    rw [← hs.fresh q hq n hn]
    exact congrArg (fun t : Table Nat ThrowSet => (t.get? n.id).getD []) hnodeThrows

/-- Fewer nodes are ready as well. -/
theorem IsReady.of_sublist (hs : s.IsReady bodies qs) (h : ps.Sublist qs) :
    s.IsReady bodies ps where
  intact := hs.intact
  expects := hs.expects
  trees p hp := hs.trees p (h.subset hp)
  apart := hs.apart.sublist h
  fresh p hp := hs.fresh p (h.subset hp)

/-- Some nodes are lowered, and then others. -/
theorem Gathers.append (hs : s.IsReady bodies (ps ++ qs)) (h : s.Gathers bodies c stops ps s')
    (h' : s'.Gathers bodies c stops qs s'') : s.Gathers bodies c stops (ps ++ qs) s'' := by
  have hapart := (List.pairwise_append.1 hs.apart).2.2
  -- What the first nodes have recorded is out of reach of the others.
  have hsame {p n : Node} (hp : p ∈ ps) (hn : p.Reaches n) :
      s''.recorded n.id = s'.recorded n.id :=
    h'.elsewhere n.id fun q hq m hm => (hapart p hp q hq n m hn hm).symm
  exact {
    depth := h'.depth.trans h.depth
    outer := h'.outer.trans h.outer
    thrown := List.Subset.trans h.thrown h'.thrown
    distinct := h'.distinct ∘ h.distinct
    expects := h'.expects
    elsewhere := fun i hi =>
      (h'.elsewhere i fun q hq => hi q (List.mem_append_right ps hq)).trans
        (h.elsewhere i fun p hp => hi p (List.mem_append_left qs hp))
    raised := fun hframe p hp ty hty => by
      rcases List.mem_append.1 hp with hp | hq
      · rw [hsame hp (.refl p)] at hty
        exact (h.raised hframe p hp ty hty).imp_left fun hin => h'.thrown hin
      · refine h'.raised (fun hnil => hframe ?_) p hq ty hty
        exact List.length_eq_zero_iff.1 (h.depth.symm.trans (congrArg List.length hnil))
    covers := fun p hp n hn => by
      rcases List.mem_append.1 hp with hp | hq
      · exact (h.covers p hp n hn).congr (hsame hp hn) fun q hq =>
          hsame hp (hn.trans (.part hq (.refl q)))
      · exact h'.covers p hq n hn
    nodup := fun hnodup => h'.nodup (h.nodup hnodup) }

/-- Nodes that are not lowered after all let nothing out. -/
theorem Gathers.of_sublist (hs : s.IsReady bodies qs) (hsub : ps.Sublist qs)
    (h : s.Gathers bodies c stops ps s') : s.Gathers bodies c stops qs s' := by
  have hfresh {q n : Node} (hq : q ∈ qs) (hnew : q ∉ ps) (hn : q.Reaches n) :
      s'.recorded n.id = [] := by
    refine (h.elsewhere n.id fun p hp m hm => ?_).trans (hs.fresh q hq n hn)
    have hne : p ≠ q := fun heq => hnew (heq ▸ hp)
    have hapart := hs.apart.forall (hsub.subset hp) hq hne
    exact hapart m n hm hn
  refine { h with
    elsewhere := fun i hi => h.elsewhere i fun p hp => hi p (hsub.subset hp)
    raised := fun hframe q hq ty hty => ?_
    covers := fun q hq n hn => ?_ }
  · by_cases hp : q ∈ ps
    · exact h.raised hframe q hp ty hty
    · rw [hfresh hq hp (.refl q)] at hty
      cases hty
  · by_cases hp : q ∈ ps
    · exact h.covers q hp n hn
    · intro part hpart ty hty
      rw [hfresh hq hp (hn.trans (.part hpart (.refl part)))] at hty
      cases hty

theorem Gathers.imp {stops' : Node → TypeId → Prop} (h : s.Gathers bodies c stops ps s')
    (hstops : ∀ p ∈ ps, ∀ ty, stops p ty → stops' p ty) : s.Gathers bodies c stops' ps s' :=
  { h with
    raised := fun hframe p hp ty hty => (h.raised hframe p hp ty hty).imp_right (hstops p hp ty) }

/-- Nodes are lowered with exceptions of their own, which are collected until then and known behind
them. Around them nothing is noted. -/
theorem Gathers.framed {s₀ s₁ : Lowering} (h : s₀.Gathers bodies c stops ps s₁)
    (hstack₀ : s₀.pass.throwStack = [] :: s.pass.throwStack)
    (hrecorded₀ : s₀.pass.nodeThrows = s.pass.nodeThrows)
    (hstack : s'.pass.throwStack = s₁.pass.throwStack.tail)
    (hrecorded : s'.pass.nodeThrows = s₁.pass.nodeThrows)
    (hpending : s'.pass.pending = s₁.pass.pending) :
    s.Gathers bodies c (fun p ty => ty ∈ s₁.pass.thrown ∨ stops p ty) ps s' := by
  have hsame : s'.pass.throwStack = s.pass.throwStack := by
    rw [hstack, h.outer, hstack₀]
    rfl
  have hthrown : s'.pass.thrown = s.pass.thrown := congrArg (·.headD []) hsame
  have hbefore : s₀.recorded = s.recorded := by
    unfold recorded
    rw [hrecorded₀]
  have hbehind : s'.recorded = s₁.recorded := by
    unfold recorded
    rw [hrecorded]
  exact {
    depth := congrArg List.length hsame
    outer := congrArg List.tail hsame
    thrown := hthrown ▸ List.Subset.refl _
    distinct := fun hnodup => hthrown ▸ hnodup
    expects := fun hp => h.expects (hpending ▸ hp)
    elsewhere := fun i hi => by
      rw [hbehind, ← hbefore]
      exact h.elsewhere i hi
    raised := fun _ p hp ty hty => .inr (h.raised (by simp [hstack₀]) p hp ty (hbehind ▸ hty))
    covers := hbehind ▸ h.covers
    nodup := by
      rw [hbehind, ← hbefore]
      exact h.nodup }

/-- What is known of the nodes is noted behind them. -/
theorem Gathers.noted {stops' : Node → TypeId → Prop} (h : s.Gathers bodies c stops' ps s')
    (h' : s'.StaysCalm bodies s'')
    (hnoted : s'.pass.throwStack ≠ [] →
      ∀ p ∈ ps, ∀ ty, stops' p ty → ty ∈ s''.pass.thrown ∨ stops p ty) :
    s.Gathers bodies c stops ps s'' := by
  have hsame : s''.recorded = s'.recorded := by
    unfold recorded
    rw [h'.nodeThrows]
  exact {
    depth := h'.depth.trans h.depth
    outer := h'.outer.trans h.outer
    thrown := List.Subset.trans h.thrown h'.thrown
    distinct := h'.distinct ∘ h.distinct
    expects := h'.expects h.expects
    elsewhere := fun i hi => hsame ▸ h.elsewhere i hi
    raised := fun hframe p hp ty hty => by
      rcases h.raised hframe p hp ty (hsame ▸ hty) with hin | hstop
      · exact .inl (h'.thrown hin)
      · refine hnoted (fun hnil => hframe ?_) p hp ty hstop
        exact List.length_eq_zero_iff.1 (h.depth.symm.trans (congrArg List.length hnil))
    covers := hsame ▸ h.covers
    nodup := hsame ▸ h.nodup }

/-- A calm computation lowers no node. -/
theorem StaysCalm.gathers (hs : s.Expects bodies) (h : s.StaysCalm bodies s') :
    s.Gathers bodies c stops [] s' where
  depth := h.depth
  outer := h.outer
  thrown := h.thrown
  distinct := h.distinct
  expects := h.expects hs
  elsewhere _ _ := by rw [recorded, h.nodeThrows, recorded]
  raised _ _ hp := by cases hp
  covers _ hp := by cases hp
  nodup hnodup i := by
    rw [recorded, h.nodeThrows]
    exact hnodup i

/-- Behind a calm computation nodes are as ready as before. -/
theorem IsReady.of_calm (hs : s.IsReady bodies ps) (hs' : s'.IsIntact) (h : s.StaysCalm bodies s') :
    s'.IsReady bodies ps where
  intact := hs'
  expects := h.expects hs.expects
  trees := hs.trees
  apart := hs.apart
  fresh p hp n hn := by
    rw [recorded, h.nodeThrows]
    exact hs.fresh p hp n hn

theorem Gathers.of_calm (hs : s.IsReady bodies ps) (h : s.StaysCalm bodies s')
    (h' : s'.Gathers bodies c stops ps s'') : s.Gathers bodies c stops ps s'' := by
  have hnone : s.Gathers bodies c stops [] s' := h.gathers hs.expects
  exact hnone.append hs h'

end Lowering

/-! ### Computations that lower nodes -/

/-- Code may be written anywhere, and variables may change. -/
def Leeway.anywhere : Leeway := { free with blocks := some .univ }

namespace Leeway

instance : anywhere.IsCode where
  binds := rfl
  blocks := rfl
  inBody := rfl

instance (b : BlockId) : anywhere.Targets b := ⟨Set.mem_univ b⟩

instance (b : BlockId) : anywhere.Offers b where
  mem h := by
    cases h
    exact Set.mem_univ b
  blocks := rfl

end Leeway

namespace Lower

variable {bodies : Nat → Option Node} {c : Compilation} {stops : Node → TypeId → Prop}
  {ps qs : List Node} {α β : Type}

/-- What is noted is among the exceptions of the node around it, if there is one. -/
theorem subset_thrown_of_noteThrows {types : List TypeId} {s s' : Lowering} {u : Unit}
    (h : noteThrows types s = .ok (u, s')) (hframe : s.pass.throwStack ≠ []) :
    types ⊆ s'.pass.thrown := by
  cases h
  obtain ⟨top, rest, hstack⟩ := List.exists_cons_of_ne_nil hframe
  intro ty hty
  have hmerge : ty ∈ ThrowSet.merge top types := ThrowSet.mem_merge.2 (.inr hty)
  simpa [Pass.thrown, hstack] using hmerge

theorem Composed.proceeds {x : Lower α} (hx : Composed IsSecured .anywhere x) {s s' : Lowering}
    {a : α} (hs : s.IsIntact) (h : x s = .ok (a, s')) (hmodule : s.module.GrowsLoosely s'.module) :
    s.Proceeds s' := by
  obtain ⟨hretains, hs'⟩ := hx.retains h (fun _ hindex => hindex.elim) hs
  exact ⟨hs', hretains.tables, hmodule⟩

/-- A computation that lowers some nodes, each at most once, and no others. -/
structure Collects (bodies : Nat → Option Node) (c : Compilation) (stops : Node → TypeId → Prop)
    (ps : List Node) (x : Lower α) : Prop where
  proceeds : ∀ {s a s'}, s.IsIntact → x s = .ok (a, s') → s.Proceeds s'
  gathers : ∀ {s a s'}, s.IsReady bodies ps → x s = .ok (a, s') → s'.LeadsTo c →
    s.Gathers bodies c stops ps s'

namespace Collects

/-- A computation that lowers fewer nodes. -/
theorem of_sublist {x : Lower α} (hx : Collects bodies c stops ps x) (h : ps.Sublist qs) :
    Collects bodies c stops qs x where
  proceeds := hx.proceeds
  gathers hs hrun hend := (hx.gathers (hs.of_sublist h) hrun hend).of_sublist hs h

/-- A computation that lowers no node. -/
theorem quiet {x : Lower α} [hcalm : Composed (IsCalm bodies) .anywhere x]
    [hsecured : Composed IsSecured .anywhere x] : Collects bodies c stops ps x := by
  have hnone : Collects bodies c stops [] x :=
    ⟨fun hs hrun => hsecured.proceeds hs hrun (hcalm.staysCalm hrun).module,
      fun hs hrun _ => (hcalm.staysCalm hrun).gathers hs.expects⟩
  exact hnone.of_sublist (List.nil_sublist ps)

/-- Some nodes are lowered, and then others. -/
theorem seq {x : Lower α} {f : α → Lower β} (hx : Collects bodies c stops ps x)
    (hf : ∀ a, Collects bodies c stops qs (f a)) :
    Collects bodies c stops (ps ++ qs) (x >>= f) where
  proceeds hs hrun := by
    obtain ⟨a, s₁, hfirst, hrest⟩ := bind_eq_ok_iff.1 hrun
    have hnext := hx.proceeds hs hfirst
    exact hnext.trans ((hf a).proceeds hnext.intact hrest)
  gathers hs hrun hend := by
    obtain ⟨a, s₁, hfirst, hrest⟩ := bind_eq_ok_iff.1 hrun
    have hnext := hx.proceeds hs.intact hfirst
    have hend₁ := ((hf a).proceeds hnext.intact hrest).leadsTo hend
    have hgathers := hx.gathers (hs.of_sublist (List.sublist_append_left ps qs)) hfirst hend₁
    exact hgathers.append hs ((hf a).gathers (hs.behind hnext.intact hgathers) hrest hend)

/-- Nodes are lowered, and then no others. -/
theorem first {x : Lower α} {f : α → Lower β} (hx : Collects bodies c stops ps x)
    (hf : ∀ a, Collects bodies c stops [] (f a)) : Collects bodies c stops ps (x >>= f) := by
  simpa using hx.seq hf

/-- Nodes are lowered behind a computation that lowers none. -/
theorem skip {x : Lower α} {f : α → Lower β} [Composed (IsCalm bodies) .anywhere x]
    [Composed IsSecured .anywhere x] (hf : ∀ a, Collects bodies c stops ps (f a)) :
    Collects bodies c stops ps (x >>= f) := by
  have hx : Collects bodies c stops [] x := quiet
  exact hx.seq hf

/-- What is known of an answer may be used behind it. What is known in the end counts for the nodes,
and what is known anyway for the rest. -/
theorem skipKnowing {x : Lower α} {f : α → Lower β} {Q : (Node → TypeId → Prop) → α → Prop}
    [hcalm : Composed (IsCalm bodies) .anywhere x] [Composed IsSecured .anywhere x]
    (hany : ∀ {s a s'}, x s = .ok (a, s') → Q (fun _ _ => True) a)
    (hx : ∀ {s a s'}, s.IsIntact → x s = .ok (a, s') → s'.LeadsTo c → Q stops a)
    (hf : ∀ stops a, Q stops a → Collects bodies c stops ps (f a)) :
    Collects bodies c stops ps (x >>= f) := by
  have hquiet : Collects bodies c stops [] x := quiet
  constructor
  · intro s b s' hs hrun
    obtain ⟨a, s₁, hfirst, hrest⟩ := bind_eq_ok_iff.1 hrun
    have hnext := hquiet.proceeds hs hfirst
    exact hnext.trans ((hf _ a (hany hfirst)).proceeds hnext.intact hrest)
  · intro s b s' hs hrun hend
    obtain ⟨a, s₁, hfirst, hrest⟩ := bind_eq_ok_iff.1 hrun
    have hnext := hquiet.proceeds hs.intact hfirst
    have hend₁ := ((hf _ a (hany hfirst)).proceeds hnext.intact hrest).leadsTo hend
    have hcalm := hcalm.staysCalm hfirst
    have hready := hs.of_calm hnext.intact hcalm
    exact .of_calm hs hcalm ((hf stops a (hx hs.intact hfirst hend₁)).gathers hready hrest hend)

theorem andThen {x : Attempt α} {f : α → Attempt β} (hx : Collects bodies c stops ps x.run)
    (hf : ∀ a, Collects bodies c stops qs (f a).run) :
    Collects bodies c stops (ps ++ qs) (x >>= f).run := by
  rw [OptionT.run_bind]
  refine hx.seq fun o => ?_
  cases o with
  | none => exact quiet (x := Pure.pure none)
  | some a => exact hf a

theorem andFirst {x : Attempt α} {f : α → Attempt β} (hx : Collects bodies c stops ps x.run)
    (hf : ∀ a, Collects bodies c stops [] (f a).run) :
    Collects bodies c stops ps (x >>= f).run := by
  simpa using hx.andThen hf

theorem andSkip {x : Attempt α} {f : α → Attempt β} [Composed (IsCalm bodies) .anywhere x.run]
    [Composed IsSecured .anywhere x.run] (hf : ∀ a, Collects bodies c stops ps (f a).run) :
    Collects bodies c stops ps (x >>= f).run := by
  have hx : Collects bodies c stops [] x.run := quiet
  exact hx.andThen hf

/-- Which nodes are lowered may depend on the state. -/
theorem get {f : Lowering → Lower β} (hf : ∀ s, Collects bodies c stops ps (f s)) :
    Collects bodies c stops ps (MonadState.get >>= f) where
  proceeds {s} _ _ hs hrun := (hf s).proceeds hs hrun
  gathers {s} _ _ hs hrun hend := (hf s).gathers hs hrun hend

theorem getThen {f : Lowering → Attempt β} (hf : ∀ s, Collects bodies c stops ps (f s).run) :
    Collects bodies c stops ps ((MonadState.get : Attempt Lowering) >>= f).run :=
  get (f := fun s => (f s).run) hf

/-- A part that has to have a value. -/
theorem demand {x : Lower (Option Operand)} (hx : Collects bodies c stops ps x) (span : Span) :
    Collects bodies c stops ps (Lower.demand x span) := by
  have hreported :
      Collects bodies c stops [] (report .typeMismatch "expression has no value" span) := quiet
  constructor
  · intro s o s' hs hrun
    obtain ⟨s₁, hx', rfl | ⟨-, hreport⟩⟩ := demand_eq_ok hrun
    · exact hx.proceeds hs hx'
    · have hnext := hx.proceeds hs hx'
      exact hnext.trans (hreported.proceeds hnext.intact hreport)
  · intro s o s' hs hrun hend
    obtain ⟨s₁, hx', rfl | ⟨-, hreport⟩⟩ := demand_eq_ok hrun
    · exact hx.gathers hs hx' hend
    · have hnext := hx.proceeds hs.intact hx'
      have hend₁ := (hreported.proceeds hnext.intact hreport).leadsTo hend
      cases hreport
      exact { hx.gathers hs hx' hend₁ with }

/-- A computation that lowers no node because of what it is put together from. -/
theorem tail {x : Lower α} (hx : ∀ {P : Parts} [HasSteps P], Composed P .anywhere x) :
    Collects bodies c stops ps x :=
  have : Composed (IsCalm bodies) .anywhere x := hx
  have : Composed IsSecured .anywhere x := hx
  quiet

theorem lift {x : Lower α} (hx : Collects bodies c stops ps x) :
    Collects bodies c stops ps (liftM x : Attempt α).run :=
  hx.first (f := fun a => Pure.pure (some a)) fun _ => quiet

theorem imp {stops' : Node → TypeId → Prop} {x : Lower α} (hx : Collects bodies c stops ps x)
    (hstops : ∀ p ∈ ps, ∀ ty, stops p ty → stops' p ty) : Collects bodies c stops' ps x where
  proceeds := hx.proceeds
  gathers hs hrun hend := (hx.gathers hs hrun hend).imp hstops

theorem proceeds_collecting {x : Lower α} {p : α × ThrowSet} {s s' : Lowering}
    (hx : Collects bodies c stops ps x) (hs : s.IsIntact) (h : collecting x s = .ok (p, s')) :
    s.Proceeds s' := by
  obtain ⟨s₁, hrun, -, rfl⟩ := collecting_eq_ok h
  have hnext := hx.proceeds (by exact hs.withPass rfl rfl) hrun
  exact ⟨hnext.intact.withPass rfl rfl, hnext.retains, hnext.module⟩

/-- Those that are not stopped are among the answer, each of them once. -/
theorem gathers_collecting {x : Lower α} {p : α × ThrowSet} {s s' : Lowering}
    (hx : Collects bodies c stops ps x) (hs : s.IsReady bodies ps)
    (h : collecting x s = .ok (p, s')) (hend : s'.LeadsTo c) :
    s.Gathers bodies c (fun part ty => ty ∈ p.2 ∨ stops part ty) ps s' ∧
      (∀ part ∈ ps, ∀ ty ∈ s'.recorded part.id, ty ∈ p.2 ∨ stops part ty) ∧ p.2.Nodup := by
  obtain ⟨s₁, hrun, hthrown, rfl⟩ := collecting_eq_ok h
  have hnodes := hx.gathers (by exact hs.withPass rfl rfl rfl) hrun ⟨hend.retains, hend.module⟩
  rw [hthrown]
  exact ⟨hnodes.framed rfl rfl rfl rfl rfl, hnodes.raised (List.cons_ne_nil _ _),
    hnodes.distinct List.nodup_nil⟩

/-- A computation in which nodes are lowered with exceptions of their own. -/
theorem framed {x : Lower α} {f : α → ThrowSet → Lower β} (hx : Collects bodies c stops ps x)
    (hf : ∀ a throws, Collects bodies c (fun _ _ => True) [] (f a throws)) :
    Collects bodies c (fun _ _ => True) ps (do
      pushThrowFrame
      let a ← x
      let throws ← popThrowFrame
      f a throws) := by
  have hcollecting : Collects bodies c (fun _ _ => True) ps (collecting x) :=
    ⟨hx.proceeds_collecting,
      fun hs hrun hend => (hx.gathers_collecting hs hrun hend).1.imp fun _ _ _ _ => trivial⟩
  rw [frame_eq_collecting]
  exact hcollecting.first fun p => hf p.1 p.2

theorem proceeds_withTry {frame : TryFrame} {body : Lower Unit} {thrown : ThrowSet}
    {s s' : Lowering} (hbody : Collects bodies c stops ps body) (hs : s.IsIntact)
    (h : withTry frame body s = .ok (thrown, s')) : s.Proceeds s' := by
  obtain ⟨s₁, hrun, -, rfl⟩ := withTry_eq_ok h
  have hnext := hbody.proceeds (by exact hs.withPass rfl rfl) hrun
  exact ⟨hnext.intact.withPass rfl rfl, hnext.retains, hnext.module⟩

theorem gathers_withTry {frame : TryFrame} {body : Lower Unit} {thrown : ThrowSet} {s s' : Lowering}
    (hbody : Collects bodies c stops ps body) (hs : s.IsReady bodies ps)
    (h : withTry frame body s = .ok (thrown, s')) (hend : s'.LeadsTo c) :
    s.Gathers bodies c (fun part ty => ty ∈ thrown ∨ stops part ty) ps s' := by
  obtain ⟨s₁, hrun, hthrown, rfl⟩ := withTry_eq_ok h
  have hnodes := hbody.gathers (by exact hs.withPass rfl rfl rfl) hrun ⟨hend.retains, hend.module⟩
  rw [hthrown]
  exact hnodes.framed rfl rfl rfl rfl rfl

/-- The body of a function is lowered with variables of its own. -/
theorem gathers_inFunction {f : FunctionState} {body : Lower ThrowSet} {throws : ThrowSet}
    {s s' : Lowering} (hbody : Collects bodies c stops ps body) (hs : s.IsReady bodies ps)
    (h : inFunction f body s = .ok (throws, s')) (hend : s'.LeadsTo c) :
    s.Gathers bodies c stops ps s' := by
  obtain ⟨s₁, fatal, hrun, rfl, -⟩ := inFunction_eq_ok h
  have hentered : s.context.SameEntries { s.context with
      symbols := (s.context.symbols.enterFunction (isGlobalBinding s.module)).2 } :=
    ⟨rfl, rfl, rfl, rfl, rfl, rfl, rfl⟩
  have hleft : s₁.context.SameEntries { s₁.context with
      symbols := s₁.context.symbols.exitFunction ⟨s.context.symbols.bindings⟩ } :=
    ⟨rfl, rfl, rfl, rfl, rfl, rfl, rfl⟩
  have hback := Module.growsLoosely_withPosition s₁.module s.module.position
  have hinside : s₁.LeadsTo c := ⟨hleft.retains.trans hend.retains, hback.trans hend.module⟩
  have hintact := hs.intact
  have hnodes := hbody.gathers (by exact ⟨⟨hentered.isIntact rfl (Nat.le_refl _) hintact.tables,
    fun hp => (hintact.pending hp).mono hentered.retains, hintact.fatal⟩,
    hs.expects, hs.trees, hs.apart, hs.fresh⟩) hrun hinside
  exact { hnodes with }

/-- A part with a loop around it. -/
theorem withTargets {body : Lower Unit} (hbody : Collects bodies c stops ps body)
    (targets : JumpTargets) : Collects bodies c stops ps (Lower.withTargets targets body) where
  proceeds hs hrun := by
    obtain ⟨s₁, hinside, rfl⟩ := withTargets_eq_ok hrun
    have hnext := hbody.proceeds (by exact hs.withPass rfl rfl) hinside
    exact ⟨hnext.intact.withPass rfl rfl, hnext.retains, hnext.module⟩
  gathers hs hrun hend := by
    obtain ⟨s₁, hinside, rfl⟩ := withTargets_eq_ok hrun
    have hnodes := hbody.gathers (by exact hs.withPass rfl rfl rfl) hinside
      ⟨hend.retains, hend.module⟩
    exact { hnodes with }

theorem noValue {x : Lower Unit} (hx : Collects bodies c stops ps x) :
    Collects bodies c stops ps (Lower.noValue x) := hx.first fun _ => quiet

end Collects

end Lower

/-! ### What type expressions denote -/

namespace TypeExpr

variable {c : Compilation} {ty : TypeId} {n : Nat} {span : Span} {s s' : Lowering}

/-- The name of a built-in type denotes that type. -/
theorem Denotes.get_of_prim {p : PrimType} (h : (prim p).Denotes c ty) :
    c.module.types.get ty = .ok p.held := by
  obtain ⟨n, span, s, s', -, hfound, hend⟩ := h
  rw [Recur.type, PrimType.lower_eq] at hfound
  obtain ⟨found, m, hrun, hanswer, rfl⟩ := Attempt.build_eq_ok hfound
  cases hanswer
  cases hrun
  refine hend.module.types (Module.get_intern _ _) fun name => ?_
  cases p <;> simp [PrimType.held]

/-- A name denotes the type of the object with that name. -/
theorem Denotes.object?_of_named {name : Name} (h : (named name).Denotes c ty) :
    ∃ info, c.context.symbols.object? name = some info ∧ info.ty = ty := by
  obtain ⟨n, span, s, s', hs, hfound, hend⟩ := h
  rw [Recur.type] at hfound
  obtain ⟨-, -, hanswer⟩ := (grants_namedType name false span s).run hs hfound
  obtain ⟨info, hinfo, rfl⟩ := hanswer ty rfl
  obtain ⟨info', hinfo', hretains⟩ := hend.retains.symbols.objects _ _ hinfo
  exact ⟨info', hinfo', hretains.ty⟩

/-- Type expressions that are looked at one after the other each denote their type. -/
theorem denotes_of_types {exprs : List TypeExpr} {tys : List TypeId} (hs : s.IsIntact)
    (h : ((Recur.within n).types span exprs).run s = .ok (some tys, s')) (hend : s'.LeadsTo c) :
    List.Forall₂ (fun expr ty => expr.Denotes c ty) exprs tys := by
  induction exprs generalizing s tys s' with
  | nil =>
      cases h
      exact .nil
  | cons expr rest ih =>
      rw [Recur.types] at h
      obtain ⟨ty, s₁, hfirst, hrest⟩ := Attempt.bind_eq_some h
      obtain ⟨others, s₂, hothers, hanswer⟩ := Attempt.bind_eq_some hrest
      cases hanswer
      have hone : Lower.Collects (fun _ => none) c (fun _ _ => True) []
        ((Recur.within n).type span expr).run := .quiet
      have hmany : Lower.Collects (fun _ => none) c (fun _ _ => True) []
          ((Recur.within n).types span rest).run := by
        have := composed_types (P := IsCalm fun _ => none) (L := .anywhere) (Recur.within n) span rest
        have := composed_types (P := IsSecured) (L := .anywhere) (Recur.within n) span rest
        exact .quiet
      have hs₁ := (hone.proceeds hs hfirst).intact
      have hend₁ := (hmany.proceeds hs₁ hothers).leadsTo hend
      exact .cons ⟨n, span, s, s₁, hs, hfirst, hend₁⟩ (ih hs₁ hothers hend)

/-- A template with arguments denotes the type that the table of templates has for it and for what
the arguments denote. -/
theorem Denotes.instance?_of_generic {name : Name} {args : List TypeExpr}
    (h : (generic name args).Denotes c ty) :
    ∃ tys, List.Forall₂ (fun arg ty => arg.Denotes c ty) args tys ∧
      c.context.templates.instance? name tys = some ty := by
  obtain ⟨n, span, s, s', hs, hfound, hend⟩ := h
  rw [Recur.type] at hfound
  obtain ⟨tys, s₁, hargs, hmade⟩ := Attempt.bind_eq_some hfound
  have hsecured := composed_types (P := IsSecured) (L := .anywhere) (Recur.within n) span args
  obtain ⟨-, hs₁⟩ := hsecured.retains hargs (fun _ hindex => hindex.elim) hs
  cases n with
  | zero => cases hmade
  | succ n =>
      change ((Recur.within n).instanceOf name tys span).run s₁ = _ at hmade
      have hcalm : Composed (IsCalm fun _ => none) .anywhere
        ((Recur.within n).instanceOf name tys span).run := inferInstance
      obtain ⟨hretains, -, hanswer⟩ := (grants_instanceOf name tys span s₁).run hs₁ hmade
      have hend₁ : s₁.LeadsTo c := ⟨hretains.tables.trans hend.retains,
        (hcalm.staysCalm hmade).module.trans hend.module⟩
      exact ⟨tys, denotes_of_types hs hargs hend₁, hend.retains.instances _ _ (hanswer ty rfl)⟩

end TypeExpr

end SsaCompiler
