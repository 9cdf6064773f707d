/-
# Chains short-circuit

A tree of chains is lowered to a cascade of jumps between its leaves, whether as a condition that
leads to one of two blocks or as a value. The machine that runs the cascade evaluates the tree from
left to right: it runs the leaves that are evaluated, each once and in their order, and passes over
the others, and it goes on by the outcome.

The leaves are whatever the terms and operands are lowered to. Nothing is asked of them: they may
print, throw, call and loop, and write blocks of their own.
-/

import SsaCompiler.Proofs.Lower.Argument
import SsaCompiler.Proofs.ShortCircuit.Branch
import SsaCompiler.Proofs.Lower.Locality

namespace SsaCompiler

open Lower

/-! ### Trees of chains -/

/-- A part of a condition that is no chain. -/
structure IsChainLeaf (c : Option Node) : Prop where
  logical : ∀ op terms, c.map Node.kind ≠ some (.logical op terms)
  comparison : ∀ first rest, c.map Node.kind ≠ some (.comparison first rest)

/-- A tree of chains, each of which has a term or a comparison. -/
inductive IsChainTree : Option Node → Prop
  | leaf {c : Option Node} (h : IsChainLeaf c) : IsChainTree c
  | logical {c : Option Node} {op : LogicalOp} {terms : List (Option Node)}
      (hkind : c.map Node.kind = some (.logical op terms)) (hterms : terms ≠ [])
      (h : ∀ term ∈ terms, IsChainTree term) : IsChainTree c
  | comparison {c first : Option Node} {rest : List (BinaryOp × Option Node)}
      (hkind : c.map Node.kind = some (.comparison first rest)) (hrest : rest ≠ [])
      (hfirst : IsChainTree first) (h : ∀ link ∈ rest, IsChainTree link.2) : IsChainTree c

/-- The truth of a part that is no chain. -/
def Recur.truthOf (r : Recur) (c : Option Node) : Attempt ValueId := do
  let value ← r.value c
  Lower.toBool value (childSpan c)

/-- The truth of a comparison. -/
def Lower.comparisonOf (op : BinaryOp) (previous next : Operand) (span : Span) :
    Attempt ValueId := do
  let result ← Lower.applyBinary op previous next span
  let value ← result.load
  Lower.toBool value span

/-! ### What the leaves are lowered to -/

/-- The code between two states, with its truth. -/
def Lowering.leaf (s s' : Lowering) (truth : Option ValueId) : Leaf := ⟨⟨s.module, s'.module⟩, truth⟩

mutual

/-- The tree of the leaves of a condition, each with the code that it is lowered to from the state
that the one before it leaves behind. -/
inductive Spells : Lowering → Option Node → Cascade → Lowering → Prop
  | leaf {n : Nat} {c : Option Node} {s s₁ s' : Lowering} {truth : Option ValueId}
      (hc : IsChainLeaf c) (hrun : ((Recur.within n).truthOf c).run s = .ok (truth, s₁))
      (hend : s₁.Wired s') : Spells s c (.test (s.leaf s₁ truth)) s'
  | logical {c : Option Node} {op : LogicalOp} {terms : List (Option Node)} {s s' : Lowering}
      {t : Cascade} (hkind : c.map Node.kind = some (.logical op terms))
      (h : SpellsTerms s op terms t s') : Spells s c t s'
  | comparison {c first : Option Node} {rest : List (BinaryOp × Option Node)} {previous : Operand}
      {s s₁ s' : Lowering} {t t' : Cascade}
      (hkind : c.map Node.kind = some (.comparison first rest))
      (hfirst : SpellsOperand s first previous t t' s₁) (hrest : SpellsLinks s₁ previous rest t s') :
      Spells s c t' s'
  | failed {n : Nat} {c first : Option Node} {rest : List (BinaryOp × Option Node)}
      {s s₁ s' : Lowering} (hkind : c.map Node.kind = some (.comparison first rest))
      (hrun : ((Recur.within n).required first).run s = .ok (none, s₁)) (hend : s₁.Wired s') :
      Spells s c (.test (s.leaf s₁ none)) s'

/-- The terms of a chain, from left to right. -/
inductive SpellsTerms : Lowering → LogicalOp → List (Option Node) → Cascade → Lowering → Prop
  | last {op : LogicalOp} {c : Option Node} {s s' : Lowering} {t : Cascade} (h : Spells s c t s') :
      SpellsTerms s op [c] t s'
  | cons {op : LogicalOp} {c : Option Node} {rest : List (Option Node)}
      {s s₀ s₁ s₂ s' : Lowering} {t t' : Cascade} (hnext : s.Wired s₀) (h : Spells s₀ c t s₁)
      (hgoOn : s₁.Wired s₂) (hrest : SpellsTerms s₂ op rest t' s') :
      SpellsTerms s op (c :: rest) (.chain op t t') s'

/-- An operand of a comparison, before something else. -/
inductive SpellsOperand : Lowering → Option Node → Operand → Cascade → Cascade → Lowering → Prop
  | leaf {n : Nat} {c : Option Node} {s s' : Lowering} {op : Operand} {t : Cascade}
      (hc : IsChainLeaf c) (hrun : ((Recur.within n).required c).run s = .ok (some op, s')) :
      SpellsOperand s c op t (.after (s.leaf s' none) t) s'
  | chain {n : Nat} {node : Node} {s s₁ s₂ s₃ s' : Lowering} {v : ValueId} {t t' : Cascade}
      (hc : ¬ IsChainLeaf (some node))
      (hrun : ((Recur.within n).required (some node)).run s = .ok (some (.ofValue v), s'))
      (hstart : (s.entered node.span).Wired s₁) (h : Spells s₁ (some node) t s₂)
      (hend : s₂.Wired s₃) (hmodule : s'.module = s₃.module) :
      SpellsOperand s (some node) (.ofValue v) t' (.value t v t') s'

/-- The comparisons of a chain from an operand on. -/
inductive SpellsLinks :
    Lowering → Operand → List (BinaryOp × Option Node) → Cascade → Lowering → Prop
  | last {op : BinaryOp} {term : Option Node} {rest : List (BinaryOp × Option Node)}
      {previous next : Operand} {s s₁ s₂ s' : Lowering} {truth : Option ValueId} {t : Cascade}
      (hterm : SpellsOperand s term next (.test (s₁.leaf s₂ truth)) t s₁)
      (hrun : (comparisonOf op previous next (childSpan term)).run s₁ = .ok (truth, s₂))
      (hend : s₂.Wired s') (hlast : rest = [] ∨ truth = none) :
      SpellsLinks s previous ((op, term) :: rest) t s'
  | cons {op : BinaryOp} {term : Option Node} {rest : List (BinaryOp × Option Node)}
      {previous next : Operand} {s s₁ s₂ s₃ s' : Lowering} {u : ValueId} {t t' : Cascade}
      (hterm : SpellsOperand s term next (.chain .and (.test (s₁.leaf s₂ (some u))) t) t' s₁)
      (hrun : (comparisonOf op previous next (childSpan term)).run s₁ = .ok (some u, s₂))
      (hgoOn : s₂.Wired s₃) (hrest : SpellsLinks s₃ next rest t s') :
      SpellsLinks s previous ((op, term) :: rest) t' s'
  | failed {n : Nat} {op : BinaryOp} {term : Option Node} {rest : List (BinaryOp × Option Node)}
      {previous : Operand} {s s₁ s' : Lowering}
      (hrun : ((Recur.within n).required term).run s = .ok (none, s₁)) (hend : s₁.Wired s') :
      SpellsLinks s previous ((op, term) :: rest) (.test (s.leaf s₁ none)) s'

end

/-! ### Ends of leaves -/

/-- Goes on in one of two blocks by a truth value. What has none takes the second. -/
def Lower.branchOn (thenTo elseTo : BlockId) (truth : Option ValueId) : Lower Unit :=
  truth.elim (brIfOpen elseTo) fun u => Build.condBr u thenTo elseTo

section Ends

variable {s s' s₁ s₂ : Lowering} {b : BlockId} {k : Nat} {thenTo elseTo : BlockId}
  {truth : Option ValueId}

/-- The end of the block in which code goes on. -/
theorem Lower.module_of_branchOn (hat : s.module.StandsAt b k)
    (htruth : ∀ u ∈ truth, s.module.valueType u = .ok (.int 1))
    (h : branchOn thenTo elseTo truth s = .ok ((), s')) :
    s'.module = s.module.withTerminator b (.branch truth thenTo elseTo) := by
  cases truth with
  | none =>
      have hbr : brIfOpen elseTo s = .ok ((), s') := h
      unfold brIfOpen at hbr
      rw [bind_of_ok (build_of_ok (Build.ask_of_ok hat.currentBlockTerminated))] at hbr
      obtain ⟨m, hrun, rfl⟩ := build_eq_ok_iff.1 hbr
      cases (Build.setTerminator_of_standsAt hat _).symm.trans hrun
      rfl
  | some u =>
      obtain ⟨m, hrun, rfl⟩ := build_eq_ok_iff.1 h
      obtain ⟨ty, hty, hget⟩ := Module.exists_typeOf_of_valueType (htruth u rfl)
      obtain ⟨d, hd, rfl⟩ := Module.exists_value_of_typeOf hty
      cases (Build.condBr_of_standsAt hat hd hget thenTo elseTo).symm.trans hrun
      rfl

instance : Composed Elementary .inside (branchOn thenTo elseTo truth) := by
  cases truth with
  | none => exact inferInstanceAs (Composed _ _ (brIfOpen elseTo))
  | some u =>
      exact inferInstanceAs (Composed _ _ (liftM (Build.condBr u thenTo elseTo) : Lower Unit))

theorem Lower.wired_of_branchOn (h : branchOn thenTo elseTo truth s = .ok ((), s')) :
    s.Wired s' := by
  refine ⟨?_, Lowering.grows_of_composed h⟩
  cases truth with
  | some u =>
      obtain ⟨m, -, rfl⟩ := build_eq_ok_iff.1 h
      rfl
  | none =>
      have hbr : brIfOpen elseTo s = .ok ((), s') := h
      unfold brIfOpen at hbr
      obtain ⟨ended, s₁, hask, hbr⟩ := bind_eq_ok_iff.1 hbr
      obtain ⟨m, -, rfl⟩ := build_eq_ok_iff.1 hask
      cases ended with
      | true =>
          cases hbr
          rfl
      | false =>
          obtain ⟨m', -, rfl⟩ := build_eq_ok_iff.1 hbr
          rfl

theorem Module.GrowsBy.isTruth {New : Module.Novelty} {m m' : Module} {u : ValueId}
    (h : Module.GrowsBy New m m')
    (hu : m.valueType u = .ok (.int 1)) : m'.valueType u = .ok (.int 1) := by
  obtain ⟨ty, hty, hget⟩ := Module.exists_typeOf_of_valueType hu
  obtain ⟨d, hd, rfl⟩ := Module.exists_value_of_typeOf hty
  exact Module.valueType_of_typeOf (Module.typeOf_of_value (h.values hd)) (h.types hget (by simp))

/-- A leaf and the branch behind it. -/
theorem Lowering.branches_leaf (hgrows : s.module.Grows s₁.module)
    (hgrows' : s₁.module.Grows s₂.module)
    (hat : ∀ {b k}, s₁.module.StandsAt b k → s₂.module.StandsAt b k)
    (htruth : ∀ u ∈ truth, s₁.module.valueType u = .ok (.int 1))
    (h : branchOn thenTo elseTo truth s₂ = .ok ((), s')) :
    (Stretch.mk s.module s'.module).Branches (.test (s.leaf s₁ truth)) thenTo elseTo := by
  refine Stretch.branches_test hgrows (hgrows'.trans (grows_of_composed h)) fun hb => ?_
  exact ⟨s₂.module, hat hb,
    module_of_branchOn (hat hb) (fun u hu => hgrows'.isTruth (htruth u hu)) h⟩

end Ends

namespace Recur

variable {r : Recur} {c : Option Node} {s s' : Lowering} {u : ValueId} {thenTo elseTo : BlockId}
  {n : Nat}

/-! ### Leaves -/

/-- How a part that is no chain is lowered to a branch. -/
theorem conditionOf_of_isChainLeaf (hc : IsChainLeaf c) :
    r.conditionOf c thenTo elseTo = (r.truthOf c).run >>= branchOn thenTo elseTo := by
  unfold conditionOf
  split
  · rename_i hkind
    exact absurd hkind (hc.logical _ _)
  · rename_i hkind
    exact absurd hkind (hc.comparison _ _)
  · refine bind_congr fun truth => ?_
    cases truth <;> rfl

/-- The truth of a part is a truth value. -/
theorem valueType_of_truthOf (h : (r.truthOf c).run s = .ok (some u, s')) :
    s'.module.valueType u = .ok (.int 1) := by
  obtain ⟨v, s₁, -, htest⟩ := Attempt.bind_eq_some h
  exact valueType_of_toBool htest

theorem valueType_of_comparisonOf {op : BinaryOp} {previous next : Operand} {span : Span}
    (h : (comparisonOf op previous next span).run s = .ok (some u, s')) :
    s'.module.valueType u = .ok (.int 1) := by
  obtain ⟨result, s₁, -, hrest⟩ := Attempt.bind_eq_some h
  obtain ⟨v, s₂, -, htest⟩ := Attempt.bind_eq_some hrest
  exact valueType_of_toBool htest

instance {L : Leeway} [L.IsCode] [r.IsComposed] : Composed Elementary L (r.truthOf c).run := by
  unfold truthOf
  infer_instance

instance {L : Leeway} [L.IsCode] {op : BinaryOp} {previous next : Operand} {span : Span} :
    Composed Elementary L (comparisonOf op previous next span).run := by
  unfold comparisonOf
  infer_instance

/-- A part that is no chain is a leaf. -/
theorem branches_of_isChainLeaf (hc : IsChainLeaf c)
    (h : (within n).conditionOf c thenTo elseTo s = .ok ((), s')) :
    ∃ t, Spells s c t s' ∧ (Stretch.mk s.module s'.module).Branches t thenTo elseTo := by
  rw [conditionOf_of_isChainLeaf hc] at h
  obtain ⟨truth, s₁, hrun, hend⟩ := bind_eq_ok_iff.1 h
  refine ⟨_, .leaf hc hrun (wired_of_branchOn hend),
    Lowering.branches_leaf (Lowering.grows_of_composed hrun) (.refl _) id ?_ hend⟩
  rintro u rfl
  exact valueType_of_truthOf hrun

/-- What becomes of a comparison: its operand is lowered, and then its truth. -/
theorem compareStep_cases {op : BinaryOp} {previous : Operand}
    {found : Option (Operand × ValueId)}
    (h : (r.compareStep op previous c).run s = .ok (found, s')) :
    (r.required c).run s = .ok (none, s') ∧ found = none ∨
      ∃ next s₁ truth, (r.required c).run s = .ok (some next, s₁) ∧
        (comparisonOf op previous next (childSpan c)).run s₁ = .ok (truth, s') ∧
        found = truth.map (Prod.mk next) := by
  rcases Attempt.bind_cases h with ⟨next, s₁, hrequired, hrest⟩ | ⟨hnone, rfl⟩
  · have hcompare : (comparisonOf op previous next (childSpan c) >>= fun u =>
        pure (next, u) : Attempt (Operand × ValueId)) s₁ = .ok (found, s') := by
      rw [← hrest]
      simp only [comparisonOf, bind_assoc]
    obtain ⟨truth, hrun, rfl⟩ := Attempt.bind_pure_eq_ok hcompare
    exact .inr ⟨next, s₁, truth, hrequired, hrun, rfl⟩
  · exact .inl ⟨hnone, rfl⟩

/-! ### All depths -/

/-- Trees of chains are lowered to short-circuiting code, as conditions and as values. -/
structure ShortCircuits (r : Recur) : Prop where
  condition : ∀ {c thenTo elseTo s s'}, IsChainTree c → s.IsPlaced →
    r.condition c thenTo elseTo s = .ok ((), s') →
    ∃ t, Spells s c t s' ∧ (Stretch.mk s.module s'.module).Branches t thenTo elseTo
  operand : ∀ {node op s s'}, IsChainTree (some node) → ¬ IsChainLeaf (some node) → s.IsPlaced →
    r.operand node s = .ok (some op, s') →
    ∃ t v s₁ s₂ s₃, op = .ofValue v ∧ (s.entered node.span).Wired s₁ ∧
      Spells s₁ (some node) t s₂ ∧ s₂.Wired s₃ ∧ s'.module = s₃.module ∧
      (Stretch.mk s.module s'.module).Computes t v

section Step

variable (h : (within n).ShortCircuits)

include h

/-- An operand of a comparison, with what comes behind it. -/
theorem ShortCircuits.branches_operand {op : Operand} {s₁ : Lowering} {t : Cascade}
    (hc : IsChainTree c) (hs : s.IsPlaced) (hrun : ((within n).required c).run s = .ok (some op, s₁))
    (hrest : (Stretch.mk s₁.module s'.module).Branches t thenTo elseTo)
    (hgrows : s₁.module.Grows s'.module) :
    ∃ t', SpellsOperand s c op t t' s₁ ∧
      (Stretch.mk s.module s'.module).Branches t' thenTo elseTo := by
  have hgrows₁ := Lowering.grows_of_composed hrun
  by_cases hleaf : IsChainLeaf c
  · exact ⟨_, .leaf hleaf hrun, hrest.after hgrows₁ hgrows⟩
  · have hdemand := hrun
    rw [required_run] at hdemand
    obtain ⟨s₂, hchild, rfl | ⟨hnone, -⟩⟩ := demand_eq_ok hdemand
    · cases c with
      | none => exact absurd ⟨fun _ _ => nofun, fun _ _ => nofun⟩ hleaf
      | some node =>
          obtain ⟨inner, v, _, _, _, rfl, hstart, hspells, hend, hmodule, hcomputes⟩ :=
            h.operand hc hleaf hs hchild
          exact ⟨_, .chain hleaf hrun hstart hspells hend hmodule,
            hcomputes.value hrest hgrows₁ hgrows⟩
    · cases hnone

/-- The comparisons of a chain from an operand on. -/
theorem ShortCircuits.branches_compareChain {rest : List (BinaryOp × Option Node)}
    {previous : Operand} (hrest : rest ≠ []) (htree : ∀ link ∈ rest, IsChainTree link.2)
    (hs : s.IsPlaced)
    (hrun : (within n).compareChain thenTo elseTo previous rest s = .ok ((), s')) :
    ∃ t, SpellsLinks s previous rest t s' ∧
      (Stretch.mk s.module s'.module).Branches t thenTo elseTo := by
  induction rest generalizing s previous with
  | nil => exact absurd rfl hrest
  | cons link rest ih =>
      obtain ⟨op, term⟩ := link
      have hterm : IsChainTree term := htree (op, term) List.mem_cons_self
      unfold compareChain at hrun
      obtain ⟨found, s₁, hstep, hend⟩ := bind_eq_ok_iff.1 hrun
      rcases compareStep_cases hstep with ⟨hrequired, rfl⟩ |
        ⟨next, s₀, truth, hrequired, hcompare, rfl⟩
      · have hfailed : branchOn thenTo elseTo none s₁ = .ok ((), s') := hend
        exact ⟨_, .failed hrequired (wired_of_branchOn hfailed), Lowering.branches_leaf
          (Lowering.grows_of_composed hrequired) (.refl _) id nofun hfailed⟩
      · have hs₀ := hs.of_composed hrequired
        have hs₁ := hs₀.of_composed hcompare
        have hgrows := Lowering.grows_of_composed hcompare
        have htruth : ∀ u ∈ truth, s₁.module.valueType u = .ok (.int 1) := by
          rintro u rfl
          exact valueType_of_comparisonOf hcompare
        -- The comparison decides when it fails, and when it is the last one.
        have hlast (hlast : rest = [] ∨ truth = none)
            (hend : branchOn thenTo elseTo truth s₁ = .ok ((), s')) :
            ∃ t, SpellsLinks s previous ((op, term) :: rest) t s' ∧
              (Stretch.mk s.module s'.module).Branches t thenTo elseTo := by
          have hbranch := Lowering.branches_leaf hgrows (.refl _) id htruth hend
          obtain ⟨t, hspells, ht⟩ := h.branches_operand hterm hs hrequired hbranch
            (hgrows.trans (Lowering.grows_of_composed hend))
          exact ⟨t, .last hspells hcompare (wired_of_branchOn hend) hlast, ht⟩
        cases truth with
        | none => exact hlast (.inr rfl) hend
        | some u =>
            cases rest with
            | nil => exact hlast (.inl rfl) hend
            | cons link' rest =>
                obtain ⟨cont, s₂, hcont, hend⟩ := bind_eq_ok_iff.1 hend
                obtain ⟨⟨⟩, s₃, hbr, hend⟩ := bind_eq_ok_iff.1 hend
                have hbr : branchOn cont elseTo (some u) s₂ = .ok ((), s₃) := hbr
                obtain ⟨⟨⟩, s₄, hposition, hend⟩ := bind_eq_ok_iff.1 hend
                have hprepares : s₁.Prepares cont (· ∉ Module.joinNames) s₂ :=
                  hs₁.prepares (by decide) hcont
                have hreserves := hprepares.reserves.of_composed hbr
                have hs₃ := hprepares.placed.of_composed hbr
                obtain ⟨hs₄, hgoOn, hmodule⟩ := hreserves.goOn hs₃ hposition
                obtain ⟨t, hspells, ht⟩ := ih (by simp)
                  (fun link hlink => htree link (List.mem_cons_of_mem _ hlink)) hs₄ hend
                have hgrows₄ := Lowering.grows_of_composed (a := ()) hend
                have hfirst : (Stretch.mk s₀.module s₃.module).Branches
                    (.test (s₀.leaf s₁ (some u))) cont elseTo :=
                  Lowering.branches_leaf hgrows hprepares.wired.grows hprepares.standsAt htruth hbr
                rw [hmodule] at ht hgrows₄
                have hwired : s₁.Wired s₃ := hprepares.wired.trans (wired_of_branchOn hbr)
                have hgrows₃ : s₀.module.Grows s₃.module := hgrows.trans hwired.grows
                have hchain : (Stretch.mk s₀.module s'.module).Branches
                    (.chain .and (.test (s₀.leaf s₁ (some u))) t) thenTo elseTo :=
                  hfirst.chain hreserves.isVacant ht (fun c => by cases c <;> rfl) hgrows₃ hgrows₄
                obtain ⟨t', hspells', ht'⟩ := h.branches_operand hterm hs hrequired hchain
                  (hgrows₃.trans ((Module.grows_withPosition _ _).trans hgrows₄))
                exact ⟨t', .cons hspells' hcompare (hwired.trans hgoOn) hspells, ht'⟩

theorem ShortCircuits.branches_logicalCondition {op : LogicalOp} {terms : List (Option Node)}
    (hterms : terms ≠ []) (htree : ∀ term ∈ terms, IsChainTree term) (hs : s.IsPlaced)
    (hrun : (within n).logicalCondition op thenTo elseTo terms s = .ok ((), s')) :
    ∃ t, SpellsTerms s op terms t s' ∧ (Stretch.mk s.module s'.module).Branches t thenTo elseTo := by
  induction terms generalizing s with
  | nil => exact absurd rfl hterms
  | cons term rest ih =>
      have hterm : IsChainTree term := htree term List.mem_cons_self
      cases rest with
      | nil =>
          obtain ⟨t, hspells, ht⟩ := h.condition hterm hs hrun
          exact ⟨t, .last hspells, ht⟩
      | cons term' rest =>
          unfold logicalCondition at hrun
          obtain ⟨next, s₀, hnext, hrun⟩ := bind_eq_ok_iff.1 hrun
          have hprepares : s.Prepares next (· ∉ Module.joinNames) s₀ :=
            hs.prepares (by cases op <;> decide) hnext
          -- A term that leaves the outcome open leads to the block for the terms behind it.
          obtain ⟨thenTo', elseTo', s₁, hfirst, hto, hrun⟩ : ∃ thenTo' elseTo' s₁,
              (within n).condition term thenTo' elseTo' s₀ = .ok ((), s₁) ∧
              (∀ c, (if c then thenTo' else elseTo') =
                if op.settles c then (if c then thenTo else elseTo) else next) ∧
              (do
                Build.positionAtEnd next
                (within n).logicalCondition op thenTo elseTo (term' :: rest) : Lower Unit) s₁ =
                .ok ((), s') := by
            cases op with
            | and =>
                obtain ⟨⟨⟩, s₁, hfirst, hrun⟩ := bind_eq_ok_iff.1 hrun
                exact ⟨next, elseTo, s₁, hfirst, fun c => by cases c <;> rfl, hrun⟩
            | or =>
                obtain ⟨⟨⟩, s₁, hfirst, hrun⟩ := bind_eq_ok_iff.1 hrun
                exact ⟨thenTo, next, s₁, hfirst, fun c => by cases c <;> rfl, hrun⟩
          obtain ⟨⟨⟩, s₂, hposition, hrun⟩ := bind_eq_ok_iff.1 hrun
          obtain ⟨t, hspells, ht⟩ := h.condition hterm hprepares.placed hfirst
          have hreserves := hprepares.reserves.of_composed hfirst
          obtain ⟨hs₂, hgoOn, hmodule⟩ :=
            hreserves.goOn (hprepares.placed.of_composed hfirst) hposition
          obtain ⟨t', hspells', ht'⟩ := ih (by simp)
            (fun term hmem => htree term (List.mem_cons_of_mem _ hmem)) hs₂ hrun
          have hgrows₂ := Lowering.grows_of_composed (a := ()) hrun
          rw [hmodule] at ht' hgrows₂
          have hchain := ht.chain hreserves.isVacant ht' hto
            (Lowering.grows_of_composed hfirst) hgrows₂
          exact ⟨_, .cons hprepares.wired hspells hgoOn hspells',
            hchain.earlier hprepares.wired.grows hprepares.standsAt⟩

/-- A tree of chains as a condition. -/
theorem ShortCircuits.branches_conditionOf (hc : IsChainTree c) (hs : s.IsPlaced)
    (hrun : (within n).conditionOf c thenTo elseTo s = .ok ((), s')) :
    ∃ t, Spells s c t s' ∧ (Stretch.mk s.module s'.module).Branches t thenTo elseTo := by
  cases hc with
  | leaf hleaf => exact branches_of_isChainLeaf hleaf hrun
  | @logical _ op terms hkind hterms htree =>
      have hchain : (within n).logicalCondition op thenTo elseTo terms s = .ok ((), s') := by
        rw [← hrun]
        unfold conditionOf
        rw [hkind]
      obtain ⟨t, hspells, ht⟩ := h.branches_logicalCondition hterms htree hs hchain
      exact ⟨t, .logical hkind hspells, ht⟩
  | @comparison _ first rest hkind hrest hfirst htree =>
      unfold conditionOf at hrun
      rw [hkind] at hrun
      obtain ⟨found, s₁, hrequired, hend⟩ := bind_eq_ok_iff.1 hrun
      cases found with
      | none =>
          have hfailed : branchOn thenTo elseTo none s₁ = .ok ((), s') := hend
          exact ⟨_, .failed hkind hrequired (wired_of_branchOn hfailed), Lowering.branches_leaf
            (Lowering.grows_of_composed hrequired) (.refl _) id nofun hfailed⟩
      | some previous =>
          obtain ⟨t, hspells, ht⟩ :=
            h.branches_compareChain hrest htree (hs.of_composed hrequired) hend
          obtain ⟨t', hspells', ht'⟩ := h.branches_operand hfirst hs hrequired ht
            (Lowering.grows_of_composed hend)
          exact ⟨t', .comparison hkind hspells' hspells, ht'⟩

/-- A tree of chains as a value. -/
theorem ShortCircuits.computes_boolChain {node : Node} {found : Option Operand}
    (hc : IsChainTree (some node)) (hs : s.IsPlaced)
    (hrun : ((within n).boolChain node).run s = .ok (found, s')) :
    ∃ t v s₁ s₂, found = some (.ofValue v) ∧ s.Wired s₁ ∧ Spells s₁ (some node) t s₂ ∧
      s₂.Wired s' ∧ (Stretch.mk s.module s'.module).Computes t v := by
  obtain ⟨f, hfunc, -⟩ := hs.func
  unfold boolChain at hrun
  obtain ⟨_, _, hget, hrun⟩ := Attempt.bind_lift (x := (get : Lower Lowering)) hrun
  cases hget
  rw [if_neg (by simp [hfunc])] at hrun
  obtain ⟨trueBlock, s₁, htrue, hrun⟩ := Attempt.bind_lift hrun
  obtain ⟨falseBlock, s₂, hfalse, hrun⟩ := Attempt.bind_lift hrun
  obtain ⟨join, s₃, hjoin, hrun⟩ := Attempt.bind_lift hrun
  have htrue : s.Prepares trueBlock (· ∉ Module.joinNames) s₁ := hs.prepares (by decide) htrue
  have hfalse : s₁.Prepares falseBlock (· ∉ Module.joinNames) s₂ :=
    htrue.placed.prepares (by decide) hfalse
  have hjoin : s₂.Prepares join (· = "bool.end") s₃ := hfalse.placed.prepares rfl hjoin
  obtain ⟨htrue₂, hne⟩ := hfalse.others htrue.reserves
  obtain ⟨htrue₃, hneTrue⟩ := hjoin.others htrue₂
  obtain ⟨hfalse₃, hneFalse⟩ := hjoin.others hfalse.reserves
  obtain ⟨⟨⟩, s₄, hcond, hrun⟩ := Attempt.bind_lift hrun
  obtain ⟨t, hspells, ht⟩ := h.condition hc hjoin.placed hcond
  have hmeets : s₄.module.Meets trueBlock falseBlock join :=
    ⟨(htrue₃.of_composed hcond).isVacant, (hfalse₃.of_composed hcond).isVacant,
      (hjoin.reserves.of_composed hcond).isVacant, hne, hneTrue, hneFalse⟩
  obtain ⟨truth, m₅, hintern, hrun⟩ := Attempt.bind_build hrun
  have htype : Build.intType 1 s₄.module =
      .ok ((s₄.module.types.intern (.int 1)).1, s₄.module.withType (.int 1)) := rfl
  cases htype.symm.trans hintern
  obtain ⟨⟨⟩, m₆, hpositionTrue, hrun⟩ := Attempt.bind_build hrun
  obtain ⟨yes, m₇, hyes, hrun⟩ := Attempt.bind_build hrun
  obtain ⟨⟨⟩, m₈, hbrTrue, hrun⟩ := Attempt.bind_build hrun
  obtain ⟨⟨⟩, m₉, hpositionFalse, hrun⟩ := Attempt.bind_build hrun
  obtain ⟨no, m₁₀, hno, hrun⟩ := Attempt.bind_build hrun
  obtain ⟨⟨⟩, m₁₁, hbrFalse, hrun⟩ := Attempt.bind_build hrun
  obtain ⟨⟨⟩, m₁₂, hpositionJoin, hrun⟩ := Attempt.bind_build hrun
  obtain ⟨v, m₁₃, hphi, hrun⟩ := Attempt.bind_build hrun
  cases hrun
  have hmeets₅ := hmeets.mono (Module.writes_withType [] s₄.module (.int 1)) (by simp)
  have hget : (s₄.module.withType (.int 1)).types.get (s₄.module.types.intern (.int 1)).1 =
      .ok (.int 1) := Module.get_intern _ _
  obtain ⟨rfl, rfl⟩ := hmeets₅.outcome_eq_ok _ hget hpositionTrue hyes hbrTrue hpositionFalse hno
    hbrFalse hpositionJoin hphi
  have hblocks : s.Wired s₃ := htrue.wired.trans (hfalse.wired.trans hjoin.wired)
  have hearlier := ht.earlier hblocks.grows fun hat =>
    hjoin.standsAt (hfalse.standsAt (htrue.standsAt hat))
  refine ⟨t, _, s₃, s₄, rfl, hblocks, hspells, ⟨rfl, ?_⟩, hearlier.computes hmeets₅
    (hblocks.grows.trans (Lowering.grows_of_composed hcond)) (Module.grows_withType _ _)⟩
  exact (Module.grows_withType _ _).trans (hmeets₅.writes _).grows

/-- A node that is a tree of chains, as a value. -/
theorem ShortCircuits.computes_lowerNode {node : Node} {op : Operand} (hc : IsChainTree (some node))
    (hleaf : ¬ IsChainLeaf (some node)) (hs : s.IsPlaced)
    (hrun : (within n).lowerNode node s = .ok (some op, s')) :
    ∃ t v s₁ s₂ s₃, op = .ofValue v ∧ (s.entered node.span).Wired s₁ ∧
      Spells s₁ (some node) t s₂ ∧ s₂.Wired s₃ ∧ s'.module = s₃.module ∧
      (Stretch.mk s.module s'.module).Computes t v := by
  obtain ⟨f, hfunc, hroom⟩ := hs.func
  cases hfatal : s.pass.fatal with
  | some e =>
      unfold lowerNode at hrun
      rw [bind_of_ok (isAbandoned_apply s), hfatal] at hrun
      cases hrun
  | none =>
      obtain ⟨s₁, hkind, hmarks, -⟩ := lowerNode_eq_ok hfunc hfatal hrun
      have hentered : (s.entered node.span).IsPlaced := ⟨⟨f, hfunc, hroom⟩, hs.position⟩
      have hchain : ((within n).boolChain node).run (s.entered node.span) = .ok (some op, s₁) := by
        rw [← hkind]
        unfold lowerKind
        cases hc with
        | leaf h => exact absurd h hleaf
        | logical h => rw [Option.some.inj h]
        | comparison h => rw [Option.some.inj h]
      obtain ⟨t, v, s₂, s₃, hv, hstart, hspells, hend, ht⟩ :=
        h.computes_boolChain hc hentered hchain
      cases hv
      exact ⟨t, v, s₂, s₃, s₁, rfl, hstart, hspells, hend, hmarks.module, hmarks.module ▸ ht⟩

end Step

/-- Trees of chains are lowered to short-circuiting code to any depth. -/
theorem shortCircuits_within (n : Nat) : (within n).ShortCircuits := by
  induction n with
  | zero =>
      refine ⟨fun {c thenTo elseTo s s'} _ _ hrun => ?_, fun {node op s s'} _ _ _ hrun => ?_⟩
      · cases hrun
      · cases hrun
  | succ n ih => exact ⟨ih.branches_conditionOf, ih.computes_lowerNode⟩

/-- Chains short-circuit. Lowering a tree of chains, however deep, writes code for its leaves and
jumps between them. The machine that runs the code from its start runs the leaves that are evaluated
from left to right until the outcome is settled, in that order and each once, and takes no steps
in between but jumps from places that belong to no leaf. Then it goes on in the block for the
outcome, or, if the tree is lowered as a value, with one for a true outcome and zero for a false one.
When a leaf does not come to an end the machine arrives at it in the same way, behind the leaves that
are evaluated before it.

This holds in every module that the code grows into, and whatever the leaves do. -/
theorem chains_short_circuit (n : Nat) (s s' : Lowering) (hs : s.IsPlaced) :
    (∀ c thenTo elseTo, IsChainTree c → (within n).conditionOf c thenTo elseTo s = .ok ((), s') →
      ∃ t, Spells s c t s' ∧ (Stretch.mk s.module s'.module).Branches t thenTo elseTo) ∧
    (∀ node found, IsChainTree (some node) → ((within n).boolChain node).run s = .ok (found, s') →
      ∃ t v s₁ s₂, found = some (.ofValue v) ∧ s.Wired s₁ ∧ Spells s₁ (some node) t s₂ ∧
        s₂.Wired s' ∧ (Stretch.mk s.module s'.module).Computes t v) ∧
    ∀ M call name t x, (∃ ls c y, Cascade.Evaluates M call name t x ls c y) ∨
      ∃ ls l y, Cascade.Arrives M call name t x ls l y ∧ ∀ z c, ¬ l.Evaluates M call name y z c :=
  ⟨fun _ _ _ hc hrun => (shortCircuits_within n).branches_conditionOf hc hs hrun,
    fun _ _ hc hrun => (shortCircuits_within n).computes_boolChain hc hs hrun,
    Cascade.evaluates_or_arrives⟩

/-- The tree for (1 < 2 < 3) && (false || true). -/
def nestedChain : Node :=
  ⟨0, .unknown, .logical .and [
    some ⟨1, .unknown, .comparison (some ⟨2, .unknown, .intLit 1⟩)
      [(.lt, some ⟨3, .unknown, .intLit 2⟩), (.lt, some ⟨4, .unknown, .intLit 3⟩)]⟩,
    some ⟨5, .unknown, .logical .or
      [some ⟨6, .unknown, .boolLit false⟩, some ⟨7, .unknown, .boolLit true⟩]⟩]⟩

/-- Chains in a chain, in the first block of a function with three blocks, as a condition that leads
to the other two, and as a value. -/
theorem chains_short_circuit_nested : ∃ s s₁ s₂ : Lowering, ∃ v,
    s.IsPlaced ∧ s.module.StandsAt ⟨0⟩ 0 ∧ IsChainTree (some nestedChain) ∧
    (within 4).conditionOf (some nestedChain) ⟨1⟩ ⟨2⟩ s = .ok ((), s₁) ∧
    ((within 4).boolChain nestedChain).run s = .ok (some (.ofValue v), s₂) ∧
    (∃ t, Spells s (some nestedChain) t s₁ ∧
      (Stretch.mk s.module s₁.module).Branches t ⟨1⟩ ⟨2⟩) ∧
    ∃ t, (Stretch.mk s.module s₂.module).Computes t v := by
  let c := Compilation.new .standard "chain"
  let start (m : Module) : Lowering := ⟨c.context, c.names, m,
    { Pass.new ⟨0⟩ with func := some ⟨⟨0⟩, "__probe", ⟨0⟩, false, none, ⟨0⟩⟩ }⟩
  obtain ⟨⟨_, m⟩, -, d, hblock, ⟨⟨⟩, s₁⟩, hcond, ⟨found, s₂⟩, hvalue, hposition, hopen, hempty⟩ :
      ∃ probe ∈ (probeFunction c.module).toOption, ∃ d ∈ (probe.2.block ⟨0⟩).toOption,
        ∃ asCondition ∈ ((within 4).conditionOf (some nestedChain) ⟨1⟩ ⟨2⟩
          (start probe.2)).toOption,
        ∃ asValue ∈ (((within 4).boolChain nestedChain).run (start probe.2)).toOption,
          probe.2.position = some ⟨0⟩ ∧ d.terminator = none ∧ d.instrs.size = 0 := by
    decide +kernel
  have hcond := mem_toOption_iff.1 hcond
  have hvalue := mem_toOption_iff.1 hvalue
  have hblock := mem_toOption_iff.1 hblock
  have hlt := Module.block_lt hblock
  have hs : (start m).IsPlaced := ⟨⟨_, rfl, hlt⟩, ⟨0⟩, hposition, hlt⟩
  have hleaf {id : Nat} {span : Span} {kind : NodeKind Node}
      (hlogical : ∀ op terms, kind ≠ .logical op terms)
      (hcomparison : ∀ first rest, kind ≠ .comparison first rest) :
      IsChainTree (some ⟨id, span, kind⟩) :=
    .leaf ⟨fun op terms h => hlogical op terms (Option.some.inj h),
      fun first rest h => hcomparison first rest (Option.some.inj h)⟩
  have htree : IsChainTree (some nestedChain) := by
    refine .logical rfl (by simp) (List.forall_mem_cons.2 ⟨?_, List.forall_mem_singleton.2 ?_⟩)
    · refine .comparison rfl (by simp) (hleaf nofun nofun) ?_
      exact List.forall_mem_cons.2 ⟨hleaf nofun nofun,
        List.forall_mem_singleton.2 (hleaf nofun nofun)⟩
    · refine .logical rfl (by simp) ?_
      exact List.forall_mem_cons.2 ⟨hleaf nofun nofun,
        List.forall_mem_singleton.2 (hleaf nofun nofun)⟩
  obtain ⟨hcondition, -⟩ := chains_short_circuit 4 (start m) s₁ hs
  obtain ⟨-, hchain, -⟩ := chains_short_circuit 4 (start m) s₂ hs
  obtain ⟨t, v, -, -, rfl, -, -, -, hcomputes⟩ := hchain _ _ htree hvalue
  exact ⟨start m, s₁, s₂, v, hs, ⟨hposition, d, hblock, hopen, hempty⟩, htree, hcond, hvalue,
    hcondition _ _ _ htree hcond, t, hcomputes⟩

end Recur

end SsaCompiler
