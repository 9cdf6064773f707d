/-
# The exceptions of nodes follow the tree

The record for a node is made when its parts have been lowered, and its numbers are its own. So the
exceptions that are recorded in a walk through a tree follow the tree, from the parts to the whole.
-/

import SsaCompiler.Proofs.Lower.Exceptions.Node

namespace SsaCompiler

open Lower

variable {bodies : Nat → Option Node} {c : Compilation} {stops : Node → TypeId → Prop}

/-! ### Records -/

/-- Exceptions that are recorded for a node are noted for the node around it as well. -/
theorem Recur.recordNodeThrows_eq_ok {node : Nat} {throws : ThrowSet} {s s' : Lowering} {u : Unit}
    (h : recordNodeThrows node throws s = .ok (u, s')) :
    throws = [] ∧ s' = s ∨ ∃ s₁, noteThrows throws s = .ok ((), s₁) ∧
      s' = { s₁ with pass :=
        { s₁.pass with nodeThrows := s₁.pass.nodeThrows.insert node throws } } := by
  unfold recordNodeThrows at h
  split at h
  · rename_i hempty
    cases h
    exact .inl ⟨List.isEmpty_iff.1 hempty, rfl⟩
  · obtain ⟨⟨⟩, s₁, hnote, h⟩ := bind_eq_ok_iff.1 h
    cases h
    exact .inr ⟨s₁, hnote, rfl⟩

namespace Lowering

variable {n : Node} {throws : ThrowSet} {s s₁ s' : Lowering} {u : Unit}

/-- What is recorded behind a node, if nothing has been recorded for it before. -/
theorem recorded_of_recordNodeThrows (hfresh : s.recorded n.id = [])
    (h : Recur.recordNodeThrows n.id throws s = .ok (u, s')) (i : Nat) :
    s'.recorded i = if i = n.id then throws else s.recorded i := by
  rcases Recur.recordNodeThrows_eq_ok h with ⟨rfl, rfl⟩ | ⟨s₁, hnote, rfl⟩
  · split
    · rename_i heq
      rw [heq, hfresh]
    · rfl
  · cases hnote
    change (Table.get? (Table.insert _ n.id throws) i).getD [] = _
    rw [Table.get?_insert]
    split <;> rfl

/-- Apart from the record only the node around it hears of the exceptions. -/
theorem calm_of_recordNodeThrows (bodies : Nat → Option Node)
    (h : Recur.recordNodeThrows n.id throws s = .ok (u, s')) :
    ∃ s₁, s.StaysCalm bodies s₁ ∧ (s.pass.throwStack ≠ [] → throws ⊆ s₁.pass.thrown) ∧
      s'.pass.throwStack = s₁.pass.throwStack ∧ s'.pass.pending = s₁.pass.pending := by
  rcases Recur.recordNodeThrows_eq_ok h with ⟨rfl, rfl⟩ | ⟨s₁, hnote, rfl⟩
  · exact ⟨s', .refl s', fun _ => List.nil_subset _, rfl, rfl⟩
  · have hcalm : Composed (IsCalm bodies) .anywhere (noteThrows throws) := inferInstance
    exact ⟨s₁, hcalm.staysCalm hnote, subset_thrown_of_noteThrows hnote, rfl, rfl⟩

/-- The parts of a node may be lowered if the node may be. -/
theorem IsReady.parts (hs : s.IsReady bodies [n]) : s.IsReady bodies n.parts := by
  have htree := hs.trees n (.head _)
  exact {
    intact := hs.intact
    expects := hs.expects
    trees := fun p hp => htree.of_reaches (.part hp (.refl p))
    apart := htree.apart n (.refl n)
    fresh := fun p hp m hm => hs.fresh n (.head _) m (.part hp hm) }

/-- The parts of a node have been lowered, and its exceptions are recorded. -/
theorem Gathers.around (hs : s.IsReady bodies [n])
    (h : s.Gathers bodies c (fun part ty => ty ∈ throws ∨ n.Stops c part ty) n.parts s₁)
    (hraised : ∀ p ∈ n.parts, ∀ ty ∈ s₁.recorded p.id, ty ∈ throws ∨ n.Stops c p ty)
    (hdistinct : throws.Nodup) (hrecord : Recur.recordNodeThrows n.id throws s₁ = .ok (u, s')) :
    s.Gathers bodies c stops [n] s' := by
  have htree := hs.trees n (.head _)
  have hbelow (p : Node) (hp : p ∈ n.parts) (m : Node) (hm : p.Reaches m) : m.id ≠ n.id :=
    htree.below n (.refl n) p hp m hm
  have hfresh : s₁.recorded n.id = [] :=
    (h.elsewhere n.id hbelow).trans (hs.fresh n (.head _) n (.refl n))
  have hown : s'.recorded n.id = throws := by
    rw [recorded_of_recordNodeThrows hfresh hrecord, if_pos rfl]
  have hother {i : Nat} (hi : i ≠ n.id) : s'.recorded i = s₁.recorded i := by
    rw [recorded_of_recordNodeThrows hfresh hrecord, if_neg hi]
  obtain ⟨s₂, hcalm, hnoted, hstack, hpending⟩ := calm_of_recordNodeThrows bodies hrecord
  have hthrown : s'.pass.thrown = s₂.pass.thrown := congrArg (·.headD []) hstack
  exact {
    depth := (congrArg List.length hstack).trans (hcalm.depth.trans h.depth)
    outer := (congrArg List.tail hstack).trans (hcalm.outer.trans h.outer)
    thrown := hthrown ▸ List.Subset.trans h.thrown hcalm.thrown
    distinct := fun hnodup => hthrown ▸ hcalm.distinct (h.distinct hnodup)
    expects := fun hp => hcalm.expects h.expects (hpending ▸ hp)
    elsewhere := fun i hi => by
      have hi' := hi n (.head _)
      rw [hother (hi' n (.refl n)).symm]
      exact h.elsewhere i fun p hp m hm => hi' m (.part hp hm)
    raised := fun hframe p hp ty hty => by
      cases List.mem_singleton.1 hp
      rw [hown] at hty
      rw [hthrown]
      exact .inl (hnoted (fun hnil => hframe (List.length_eq_zero_iff.1
        (h.depth.symm.trans (congrArg List.length hnil)))) hty)
    covers := fun p hp m hm => by
      cases List.mem_singleton.1 hp
      cases hm with
      | refl =>
          intro part hpart ty hty
          rw [hother (hbelow part hpart part (.refl part))] at hty
          rw [hown]
          exact hraised part hpart ty hty
      | part hpart hm =>
          exact (h.covers _ hpart m hm).congr (hother (hbelow _ hpart m hm)) fun q hq =>
            hother (hbelow _ hpart q (hm.trans (.part hq (.refl q))))
    nodup := fun hnodup i => by
      by_cases hi : i = n.id
      · rwa [hi, hown]
      · rw [hother hi]
        exact h.nodup hnodup i }

end Lowering

/-! ### Trees -/

namespace Recur

/-- The walk through a node records its exceptions. -/
theorem collects_lowerNode {n : Nat} [(within n).IsCollecting bodies c] (node : Node) :
    Collects bodies c stops [node] ((within n).lowerNode node) where
  proceeds {s o s'} hs hrun := by
    have hsecured : Composed IsSecured .anywhere ((within n).lowerNode node) := inferInstance
    have hcomposed : Composed Elementary .anywhere ((within n).lowerNode node) := inferInstance
    exact hsecured.proceeds hs hrun (hcomposed.later_of hrun).module
  gathers {s o s'} hs hrun hend := by
    have hparts : Collects bodies c (node.Stops c) node.parts ((within n).lowerHere node) :=
      collects_lowerHere ((hs.trees node (.head _)).bodies node (.refl node))
    unfold lowerNode at hrun
    obtain ⟨ended, s₀, hended, hrun⟩ := bind_eq_ok_iff.1 hrun
    cases hended
    split at hrun
    · cases hrun
      exact ((Lowering.StaysCalm.refl s).gathers hs.expects).of_sublist hs (List.nil_sublist _)
    · rw [frame_eq_collecting] at hrun
      obtain ⟨p, s₁, hcollect, hrun⟩ := bind_eq_ok_iff.1 hrun
      obtain ⟨⟨⟩, s₂, hrecord, hanswer⟩ := bind_eq_ok_iff.1 hrun
      cases hanswer
      have hs₁ := (hparts.proceeds_collecting hs.intact hcollect).intact
      have hsecured : Composed IsSecured .anywhere (recordNodeThrows node.id p.2) := inferInstance
      have hcomposed : Composed Elementary .anywhere (recordNodeThrows node.id p.2) := inferInstance
      have hend₁ := (hsecured.proceeds hs₁ hrecord (hcomposed.later_of hrecord).module).leadsTo hend
      obtain ⟨hnodes, hraised, hdistinct⟩ := hparts.gathers_collecting hs.parts hcollect hend₁
      exact hnodes.around hs hraised hdistinct hrecord

/-- So do walks through children, however deep their calls nest. -/
instance isCollecting_within (n : Nat) : (within n).IsCollecting bodies c := by
  induction n with
  | zero =>
      exact {
        operand := fun _ _ => .quiet (x := throw Crash.endless)
        condition := fun _ _ _ _ => .quiet (x := throw Crash.endless) }
  | succ n ih =>
      exact {
        operand := fun _ node => collects_lowerNode node
        condition := fun _ cond thenTo elseTo => collects_conditionOf cond thenTo elseTo }

end Recur

namespace Compilation

/-- In a tree in which nothing is shared, the exceptions that are recorded for a node are recorded
for the node of which it is a part, unless that node keeps them back: a declaration keeps all of
them back, and a `try` those of its body for which it has a handler, or all of them if it has none.
No exception is recorded twice for a node, and none at all for what is not lowered as a node, such
as a chain that is tested as a condition. This holds of every tree that is lowered to its end, whatever
has been lowered before it and whatever is reported. -/
theorem throwableTypes_follow_the_tree {c c' : Compilation} {bound : Nat} {root : Node}
    {outcome : LowerOutcome} (hc : c.IsBuilt) (hroot : root.IsUnshared)
    (h : c.lowerWithin bound (some root) = .ok (.ok outcome, c')) :
    (∀ n, root.Reaches n → n.Covers outcome.throwableTypes c') ∧
      (∀ i, (outcome.throwableTypes i).Nodup) ∧
      ∀ i, (∀ n, root.Reaches n → n.id ≠ i) → outcome.throwableTypes i = [] := by
  obtain ⟨bodies, htree⟩ := hroot.exists_isTree
  let start : Lowering :=
    ⟨c.context, (c.names.intern "this").2, c.module, .new (c.names.intern "this").1⟩
  obtain ⟨⟨⟨⟩, result, c₁⟩, hwalk, hend⟩ := answer_bind_eq_ok_iff.1 h
  change (Lower.root (.within bound) (some root) start >>= _) = _ at hwalk
  obtain ⟨⟨⟨⟩, s⟩, hrun, hwalk⟩ := answer_bind_eq_ok_iff.1 hwalk
  by_cases hkind : ∀ items, (some root).map Node.kind ≠ some (.module items)
  · -- A tree that is no module ends the walk.
    rw [root_of_not_module hkind] at hrun
    cases hrun
    cases hwalk
    cases hend
  · push Not at hkind
    obtain ⟨items, hitems⟩ := hkind
    rw [root_of_module (Option.some.inj hitems)] at hrun
    have hintact : start.IsIntact := ⟨hc.isIntact, (fun hp => by cases hp), rfl⟩
    have hready : start.IsReady bodies [root] :=
      { intact := hintact
        expects := fun hp => by cases hp
        trees := fun p hp => List.mem_singleton.1 hp ▸ htree
        apart := List.pairwise_singleton _ _
        fresh := fun _ _ _ _ => rfl }
    have hroot : Collects bodies c' (fun _ _ => True) [root]
        ((Recur.within bound).statement (some root)) := Recur.collects_statement (some root)
    have hfatal := (hroot.proceeds hintact hrun).intact.fatal
    cases hwalk
    rw [hfatal] at hend
    cases hend
    have hflush : s.context.SameEntries
        { s.context with diagnostics := s.context.diagnostics.flush.2 } :=
      ⟨rfl, rfl, rfl, rfl, rfl, rfl, rfl⟩
    have hnodes := hroot.gathers hready hrun ⟨hflush.retains, .refl _⟩
    exact ⟨hnodes.covers root (.head _), hnodes.nodup fun _ => List.nodup_nil,
      fun i hi => hnodes.elsewhere i fun p hp => List.mem_singleton.1 hp ▸ hi⟩

/-- In a `try` two values are thrown, and there is a handler for one of them. -/
def guardedProgram : Node :=
  let node (id : Nat) (kind : NodeKind Node) : Node := ⟨id, .unknown, kind⟩
  let number := node 0 (.throw (some (node 1 (.intLit 1))))
  let letter := node 2 (.throw (some (node 3 (.charLit 65))))
  let body := node 4 (.block [some number, some letter])
  let handler : CatchClause Node := ⟨.prim .int, ⟨4⟩, some (node 5 (.block []))⟩
  let guarded := node 6 (.tryCatch (some body) [handler])
  let result := node 7 (.returnStmt (some (node 8 (.intLit 0))))
  let entry := node 9 (.block [some guarded, some result])
  node 10 (.module [some (node 11 (.function ⟨⟨3⟩, [], .prim .int, some entry⟩))])

/-- The handler keeps back what it is for, and the other exception belongs to the `try`. -/
theorem throwableTypes_follow_the_tree_guarded : ∃ outcome c' int char, int ≠ char ∧
    (reading "guarded" #["main", "e"]).lower (some guardedProgram) = .ok (.ok outcome, c') ∧
      outcome.throwableTypes 4 = [int, char] ∧ outcome.throwableTypes 6 = [char] ∧
      guardedProgram.IsUnshared ∧
      (∀ n, guardedProgram.Reaches n → n.Covers outcome.throwableTypes c') ∧
      (∀ i, (outcome.throwableTypes i).Nodup) ∧
      ∀ i, (∀ n, guardedProgram.Reaches n → n.id ≠ i) → outcome.throwableTypes i = [] := by
  obtain ⟨outcome, c', hlower, hbody, hguarded⟩ : ∃ outcome c',
      (reading "guarded" #["main", "e"]).lower (some guardedProgram) = .ok (.ok outcome, c') ∧
        outcome.throwableTypes 4 = [⟨0⟩, ⟨2⟩] ∧ outcome.throwableTypes 6 = [⟨2⟩] :=
    exists_of_leaves (by decide +kernel)
  have hunshared : guardedProgram.IsUnshared :=
    Node.isUnshared_of_nodup (d := 6) (by decide +kernel) (by decide +kernel)
  exact ⟨outcome, c', _, _, by decide, hlower, hbody, hguarded, hunshared,
    throwableTypes_follow_the_tree (isBuilt_reading _ _) hunshared hlower⟩

/-- A call of a function out of which an exception comes. -/
def raisingCall (id : Nat) : Node := ⟨id, .unknown, .call ⟨3⟩ []⟩

/-- Two such calls in a chain. -/
def raisingChain : Node := ⟨6, .unknown, .logical .and [some (raisingCall 4), some (raisingCall 5)]⟩

/-- The chain is the condition of a branch. -/
def testingProgram : Node :=
  let node (id : Nat) (kind : NodeKind Node) : Node := ⟨id, .unknown, kind⟩
  let raising := node 0 (.throw (some (node 1 (.intLit 1))))
  let success := node 2 (.returnStmt (some (node 3 (.boolLit true))))
  let source := node 7 (.block [some raising, some success])
  let branch := node 8 (.ifElse (some raisingChain) (some (node 9 (.block []))) none)
  let result := node 10 (.returnStmt (some (node 11 (.intLit 0))))
  let entry := node 12 (.block [some branch, some result])
  node 13 (.module [some (node 14 (.function ⟨⟨3⟩, [], .prim .bool, some source⟩)),
    some (node 15 (.function ⟨⟨4⟩, [], .prim .int, some entry⟩))])

/-- Nothing is recorded for the chain, although an exception may come out of both of its terms. -/
theorem throwableTypes_of_tested_chain : ∃ outcome c',
    (reading "testing" #["f", "main"]).lower (some testingProgram) = .ok (.ok outcome, c') ∧
      outcome.errorCount = 0 ∧ outcome.throwableTypes (raisingCall 4).id ≠ [] ∧
      outcome.throwableTypes (raisingCall 5).id ≠ [] ∧
      outcome.throwableTypes raisingChain.id = [] :=
  exists_of_leaves (by decide +kernel)

end Compilation

end SsaCompiler
