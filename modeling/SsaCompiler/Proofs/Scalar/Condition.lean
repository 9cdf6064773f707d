/-
# Conditions and chains

A condition ends the block in which it is evaluated and goes on in one of two others. A chain
is a sequence of conditions, each in a block of its own; the first one that settles the outcome
leaves the chain. As a value, a chain goes through two blocks in which the outcome is known and
which meet again in a third.
-/

import SsaCompiler.Proofs.Scalar.Expression

namespace SsaCompiler

namespace Lowering

variable {s s₁ s₂ : Lowering} {b b₁ : BlockId} {k k₁ : Nat} {op : Operand} {t : ScalarType}
  {u : ValueId} {thenTo elseTo thenTo₁ elseTo₁ next : BlockId}
  {meaning₁ : Module → Point → Option Scalar → Prop}
  {meaning meaning' meaning₂ : Module → Point → Option Bool → Prop}

/-! ### Branches -/

theorem Branches.imp (h : s.Branches b k s₁ thenTo elseTo meaning)
    (himp : ∀ {M p o}, s₁.module.Grows M → meaning' M p o → meaning M p o) :
    s.Branches b k s₁ thenTo elseTo meaning' :=
  ⟨h.same, h.writes, fun hgrows _ _ _ _ hb hk hmeaning =>
    h.runs hgrows hb hk (himp hgrows hmeaning)⟩

/-- Code that computes a truth value and branches on it. The targets may have been made in
between. -/
theorem branches_condBr {m m' : Module} (hcode : s.module.Code b k m b k₁ u .bool meaning₁)
    (hwrites : m.Writes [b] m') (hat : m'.StandsAt b k₁) (hthen : m'.IsTarget thenTo)
    (helse : m'.IsTarget elseTo) :
    s.Branches b k { s with module := m'.withTerminator b (.condBr u thenTo elseTo) } thenTo elseTo
      fun M p o => ∃ o', meaning₁ M p o' ∧ o = o'.map Scalar.truth where
  same := s.same_withModule _
  writes := (hcode.piece.writes.trans hwrites fun _ hc => .inl hc).trans
    (Module.writes_withTerminator hat _) fun _ hc => .inl hc
  runs := by
    rintro M hgrows call name p o hb hk ⟨o', hmeaning, rfl⟩
    have hend := Module.writes_withTerminator hat (.condBr u thenTo elseTo)
    have hfirst : p.Yields M call name s.module.values.size b k₁ o' _ :=
      hcode.runs (hwrites.grows.trans (hend.grows.trans hgrows)) hb hk hmeaning
    cases o' with
    | none => exact hfirst
    | some x =>
        change p.Yields M call name s.module.values.size _ 0
          ((some x).bind fun x => some x.truth) _
        refine hfirst.bind (Nat.le_refl _) ?_
        rintro y ⟨qb, qk, frame, state⟩ hy hkeeps rfl rfl ⟨ht, w, hw, hdenotes⟩
        cases hy
        have hword : (w ≠ 0) ↔ x.truth = true := by
          unfold Scalar.truth
          rw [← hdenotes.1, ← Int64.toInt_inj.ne]
          simp
        have htarget : m'.IsTarget (if x.truth then thenTo else elseTo) := by
          split <;> assumption
        refine Point.yields_jump hat hgrows htarget (hend.grows.trans hgrows)
          (fun d hterm => ?_) trivial
        rw [Point.terminator_condBr (s := state.tick) hterm hw]
        simp only [hword, Option.map_some, Option.getD_some]

/-- A branch behind something that is not run. -/
theorem Branches.ofWrites (h : s₁.Branches b k s₂ thenTo elseTo meaning) (hsame : s.Same s₁)
    (hwrites : s.module.Writes [b] s₁.module) : s.Branches b k s₂ thenTo elseTo meaning :=
  ⟨hsame.trans h.same, hwrites.trans h.writes fun _ hc => .inl hc, 
    fun hgrows _ _ _ _ hb hk hmeaning =>
      (h.runs hgrows hb hk hmeaning).mono hwrites.grows.values_size⟩

theorem Operates.branches (h : s.Operates b k s₁ b₁ k₁ op t meaning₁)
    (h' : s₁.Branches b₁ k₁ s₂ thenTo elseTo meaning₂) :
    s.Branches b k s₂ thenTo elseTo fun M p o => ∃ o₁ f, meaning₁ M p o₁ ∧ o = o₁.bind f ∧
      ∀ x q, o₁ = some x → p.Keeps M s.module.values.size q → x.ty = t → q.Shows M op x →
        meaning₂ M q (f x) where
  same := h.same.trans h'.same
  writes := by
    refine h.piece.writes.trans h'.writes fun c hc => ?_
    obtain rfl := List.mem_singleton.1 hc
    rcases h.piece.fresh with rfl | hle
    · exact .inl (List.mem_singleton.2 rfl)
    · exact .inr hle
  runs := by
    rintro M hgrows call name p o hb hk ⟨o₁, f, hmeaning, rfl, hrest⟩
    have hfirst : p.Yields M call name s.module.values.size b₁ k₁ o₁ _ :=
      h.runs (h'.writes.grows.trans hgrows) hb hk hmeaning
    cases o₁ with
    | none => exact hfirst
    | some x =>
        refine hfirst.bind h.piece.writes.grows.values_size ?_
        rintro y q hy hkeeps hqb hqk ⟨ht, hshows⟩
        cases hy
        exact h'.runs hgrows hqb hqk (hrest x q rfl hkeeps ht hshows)

/-- A branch, and what comes in a block that is made for one of its outcomes. The other outcome
leads where the rest leads, too. -/
theorem Branches.bind (h : s.Branches b k s₁ thenTo₁ elseTo₁ meaning)
    (hfresh : s.module.blocks.size ≤ next.index)
    (h' : Branches { s₁ with module := s₁.module.withPosition (some next) } next 0 s₂ thenTo elseTo
      meaning₂) :
    s.Branches b k s₂ thenTo elseTo fun M p o => ∃ o₁ g, meaning M p o₁ ∧ o = o₁.bind g ∧
      ∀ c q, o₁ = some c → p.Keeps M s.module.values.size q →
        (if c then thenTo₁ else elseTo₁) = next ∧ meaning₂ M q (g c) ∨
        ∃ d, g c = some d ∧ (if c then thenTo₁ else elseTo₁) = if d then thenTo else elseTo where
  same := h.same.trans ((s₁.same_withModule _).trans h'.same)
  writes := by
    have hgoing : s.module.Writes [b] (s₁.module.withPosition (some next)) :=
      h.writes.trans (Module.writes_withPosition [b] s₁.module _) fun _ hc => .inl hc
    refine hgoing.trans h'.writes fun c hc => .inr ?_
    obtain rfl := List.mem_singleton.1 hc
    exact hfresh
  runs := by
    rintro M hgrows call name p o hb hk ⟨o₁, g, hmeaning, rfl, hrest⟩
    have hgrows₁ : s₁.module.Grows M :=
      (Module.grows_withPosition _ _).trans (h'.writes.grows.trans hgrows)
    have hfirst : p.Yields M call name s.module.values.size _ 0 o₁ _ :=
      h.runs hgrows₁ hb hk hmeaning
    cases o₁ with
    | none => exact hfirst
    | some c =>
        refine hfirst.bind h.writes.grows.values_size ?_
        rintro c' q hc' hkeeps hqb hqk -
        cases hc'
        rcases hrest c q rfl hkeeps with ⟨hto, hmeaning₂⟩ | ⟨d, hd, hto⟩
        · exact h'.runs hgrows (hqb.trans hto) hqk hmeaning₂
        · rw [Option.bind_some, hd]
          exact Point.Yields.pure (hqb.trans hto) hqk trivial

/-- Behind a branch code goes on in a block that was made for one of its outcomes. -/
theorem Branches.goOn {scope : Name → Prop} (h : s.Branches b k s₁ thenTo elseTo meaning)
    (hready : s.Ready scope) (hnext : s₁.module.IsTarget next)
    (hfresh : s.module.blocks.size ≤ next.index) :
    Ready { s₁ with module := s₁.module.withPosition (some next) } scope ∧
      (s₁.module.withPosition (some next)).StandsAt next 0 ∧
      ∀ {c}, s.module.IsTarget c → c ≠ b →
        (s₁.module.withPosition (some next)).IsTarget c ∧ c ≠ next := by
  refine ⟨?_, hnext.standsAt, fun {c} hc hcb => ⟨?_, ?_⟩⟩
  · refine hready.mono (h.same.trans (s₁.same_withModule _)) ?_
    exact h.writes.grows.trans (Module.grows_withPosition _ _)
  · have hc₁ : s₁.module.IsTarget c := hc.mono h.writes (by simpa using hcb)
    exact hc₁
  · rintro rfl
    have := hc.lt
    omega

end Lowering

/-- What a branch on an integer leaves behind. -/
theorem Lower.condBr_eq_ok {s s' : Lowering} {b : BlockId} {k : Nat} {u : ValueId}
    {thenTo elseTo : BlockId} (hat : s.module.StandsAt b k) (hu : s.module.IsScalar u .bool)
    (h : (liftM (Build.condBr u thenTo elseTo) : Lower Unit) s = .ok ((), s')) :
    s' = { s with module := s.module.withTerminator b (.condBr u thenTo elseTo) } := by
  obtain ⟨d, hd, ht⟩ := hu
  obtain ⟨m, hbuild, rfl⟩ := build_eq_ok_iff.1 h
  cases (Build.condBr_of_standsAt hat hd ht thenTo elseTo).symm.trans hbuild
  rfl

/-- A new block of the current function. -/
theorem Lower.appendBlock_eq_ok {s s' : Lowering} {f : FunctionState} {name : String}
    {c : BlockId} (hfunc : s.pass.func = some f) (h : Lower.appendBlock name s = .ok (c, s')) :
    c = s.module.nextBlock ∧ s' = { s with module := s.module.withBlock f.id name } := by
  unfold Lower.appendBlock at h
  rw [bind_of_ok (Lower.func_apply s), hfunc] at h
  obtain ⟨m, hbuild, rfl⟩ := build_eq_ok_iff.1 h
  obtain ⟨rfl, rfl⟩ := Build.appendBlock_eq_ok hbuild
  exact ⟨rfl, rfl⟩

theorem Lower.positionAtEnd_eq_ok {s s' : Lowering} {c : BlockId}
    (h : (liftM (Build.positionAtEnd c) : Lower Unit) s = .ok ((), s')) :
    s' = { s with module := s.module.withPosition (some c) } := by
  obtain ⟨m, hbuild, rfl⟩ := build_eq_ok_iff.1 h
  cases hbuild
  rfl

namespace Recur

variable {r : Recur} {e : Expr} {s s' : Lowering} {scope : Name → Prop} {b : BlockId}
  {k : Nat} {thenTo elseTo : BlockId}

/-! ### Conditions -/

/-- How a condition that is no chain is lowered. -/
theorem conditionOf_of_not_chain {node : Node} (hlogical : ∀ op terms, node.kind ≠ .logical op terms)
    (hcomparison : ∀ first rest, node.kind ≠ .comparison first rest) :
    r.conditionOf (some node) thenTo elseTo = (do
      let truth ← OptionT.run do
        let value ← r.value (some node)
        Lower.toBool value node.span
      match truth with
      | some t => Build.condBr t thenTo elseTo
      | none => Lower.brIfOpen elseTo) := by
  unfold conditionOf
  split
  · rename_i hkind
    exact absurd (Option.some.inj hkind) (hlogical _ _)
  · rename_i hkind
    exact absurd (Option.some.inj hkind) (hcomparison _ _)
  · rfl

/-- A condition that is no chain is asked whether it is zero. -/
theorem decides_of_computes (he : Lower.Computes r.operand e) (hchain : e.isChain = false) :
    Lower.Decides r.conditionOf e where
  branches := by
    intro scope node s s' b k thenTo elseTo hspelled hready hat hthen helse hneThen hneElse hrun
      hclean
    obtain ⟨hlogical, hcomparison⟩ := hspelled.kind_ne hchain
    rw [conditionOf_of_not_chain hlogical hcomparison] at hrun
    obtain ⟨truth, s₁, htruth, hend⟩ := bind_eq_ok_iff.1 hrun
    have hlater : s₁.Later s' := by
      cases truth with
      | none => exact Lower.Composed.later (x := Lower.brIfOpen elseTo) hend
      | some u => exact Lower.Composed.later (x := (liftM (Build.condBr u thenTo elseTo) : Lower Unit)) hend
    have hreports := hlater.reports
    have hrequired : (r.required (some node) >>= fun op => do
        let value ← op.load
        Lower.toBool value node.span : Attempt ValueId) s = .ok (truth, s₁) := by
      rw [← htruth]
      change _ = ((r.required (some node) >>= fun op => liftM op.load) >>= fun value =>
        Lower.toBool value node.span : Attempt ValueId) s
      rw [bind_assoc]
    obtain ⟨op, s₂, b₂, k₂, t, hcode, hready₂, hvalue⟩ :=
      required_bind he hspelled hready hat hrequired (by omega)
    obtain ⟨f, hfunc, -⟩ := hready₂.func
    obtain ⟨v, s₃, hload, htest⟩ := Attempt.bind_lift hvalue
    obtain ⟨m₃, k₃, rfl, hcode₃⟩ := Lower.code_operandLoad hfunc hcode.piece.stop hcode.operand hload
    obtain ⟨u, m₄, k₄, rfl, rfl, hcode₄⟩ := Lower.code_toBool (s := { s₂ with module := m₃ })
      hcode₃.piece.stop hcode₃.value htest
    cases Lower.condBr_eq_ok hcode₄.piece.stop hcode₄.value hend
    obtain ⟨hthen, hneThen⟩ := hthen.piece hcode.piece hneThen
    obtain ⟨helse, hneElse⟩ := helse.piece hcode.piece hneElse
    have htest := hcode₃.bind hcode₄
    refine (hcode.branches (Lowering.branches_condBr htest (.refl _ _) htest.piece.stop
      (hthen.mono htest.piece.writes (by simpa using hneThen))
      (helse.mono htest.piece.writes (by simpa using hneElse)))).imp ?_
    rintro M p o hM ⟨ρ, hagrees, rfl⟩
    refine ⟨e.eval ρ, fun x => some x.truth, ⟨ρ, hagrees, rfl⟩, ?_, ?_⟩
    · cases e.eval ρ <;> rfl
    · intro x q hx hkeeps ht hshows
      refine ⟨some (.ofBool x.truth), ⟨some x, fun x => some (.ofBool x.truth),
        ⟨x, ht, hshows, rfl⟩, rfl, ?_⟩, ?_⟩
      · intro y q' hy hkeeps' hcarries
        cases hy
        exact ⟨x, ht, hcarries, rfl⟩
      · rw [Option.map_some, Scalar.truth_ofBool]

/-! ### Chains -/

/-- What the terms of a chain mean at a point. -/
def TermsMeaning (s : Lowering) (scope : Name → Prop) (op : LogicalOp) (terms : Terms)
    (M : Module) (p : Point) (o : Option Bool) : Prop :=
  ∃ ρ, p.Agrees M s scope ρ ∧ o = terms.holds ρ op

/-- What the comparisons of a chain mean at a point at which the operand before them is there. -/
def LinksMeaning (s : Lowering) (scope : Name → Prop) (previous : Operand) (t : ScalarType)
    (links : Links) (M : Module) (p : Point) (o : Option Bool) : Prop :=
  ∃ ρ x, p.Agrees M s scope ρ ∧ x.ty = t ∧ p.Shows M previous x ∧ o = links.hold ρ x

/-- The terms of a chain are lowered to a branch on what they mean. -/
structure DecidesTerms (r : Recur) (op : LogicalOp) (terms : Terms) : Prop where
  branches : ∀ {scope children s s' b k thenTo elseTo}, terms.Spelled scope children →
    s.Ready scope → s.module.StandsAt b k → s.module.IsTarget thenTo → s.module.IsTarget elseTo →
    thenTo ≠ b → elseTo ≠ b → r.logicalCondition op thenTo elseTo children s = .ok ((), s') →
    s'.context.errorCount = 0 →
    s.Branches b k s' thenTo elseTo (TermsMeaning s scope op terms)

/-- The comparisons of a chain are lowered to a branch on what they mean. -/
structure DecidesLinks (r : Recur) (links : Links) : Prop where
  branches : ∀ {scope children s s' b k thenTo elseTo previous t}, links.Spelled scope children →
    s.Ready scope → s.module.StandsAt b k → s.module.IsTarget thenTo → s.module.IsTarget elseTo →
    thenTo ≠ b → elseTo ≠ b → s.module.IsOperand previous t →
    r.compareChain thenTo elseTo previous children s = .ok ((), s') →
    s'.context.errorCount = 0 →
    s.Branches b k s' thenTo elseTo (LinksMeaning s scope previous t links)

/-- The last term of a chain decides. -/
theorem decidesTerms_last {op : LogicalOp} (he : Lower.Decides r.condition e) :
    DecidesTerms r op (.last e) where
  branches := by
    rintro scope children s s' b k thenTo elseTo ⟨child, rfl, hchild⟩ hready hat hthen helse hneThen
      hneElse hrun hclean
    exact he.branches hchild hready hat hthen helse hneThen hneElse hrun hclean

/-- A term decides, or the terms behind it do. -/
theorem decidesTerms_cons [r.IsComposed] {op : LogicalOp} {rest : Terms} (he : Lower.Decides r.condition e)
    (hrest : DecidesTerms r op rest) : DecidesTerms r op (.cons e rest) where
  branches := by
    rintro scope children s s' b k thenTo elseTo ⟨child, others, rfl, hchild, hothers⟩ hready hat
      hthen helse hneThen hneElse hrun hclean
    obtain ⟨f, hfunc, -⟩ := hready.func
    have hne : others ≠ [] := by
      cases rest with
      | last e' =>
          obtain ⟨child', rfl, -⟩ := hothers
          simp
      | cons e' rest' =>
          obtain ⟨child', others', rfl, -⟩ := hothers
          simp
    obtain ⟨next, others, rfl⟩ := List.exists_cons_of_ne_nil hne
    unfold logicalCondition at hrun
    obtain ⟨next, s₀, hnext, hrun⟩ := bind_eq_ok_iff.1 hrun
    obtain ⟨rfl, rfl⟩ := Lower.appendBlock_eq_ok hfunc hnext
    have hname : op.nextBlock ∉ Module.joinNames := by cases op <;> decide
    have hblock := Module.writes_withBlock [b] s.module f.id op.nextBlock
    have hnextTo : (s.module.withBlock f.id op.nextBlock).IsTarget s.module.nextBlock :=
      Module.isVacant_withBlock f.id hname
    have hthen₀ := hthen.mono hblock (by simpa using hneThen)
    have helse₀ := helse.mono hblock (by simpa using hneElse)
    -- The outcome that settles the chain leads out of it, the other one to the next term.
    obtain ⟨thenTo₁, elseTo₁, s₁, hcond, hrun, htargets₁, hneThen₁, hneElse₁, hto⟩ :
        ∃ thenTo₁ elseTo₁ s₁, r.condition (some child) thenTo₁ elseTo₁
            { s with module := s.module.withBlock f.id op.nextBlock } = .ok ((), s₁) ∧
          (do
            Build.positionAtEnd s.module.nextBlock
            r.logicalCondition op thenTo elseTo (next :: others) : Lower Unit) s₁ = .ok ((), s') ∧
          ((s.module.withBlock f.id op.nextBlock).IsTarget thenTo₁ ∧
            (s.module.withBlock f.id op.nextBlock).IsTarget elseTo₁) ∧
          thenTo₁ ≠ b ∧ elseTo₁ ≠ b ∧ ∀ c, (if c then thenTo₁ else elseTo₁) =
            if op.settles c then (if c then thenTo else elseTo) else s.module.nextBlock := by
      cases op with
      | and =>
          obtain ⟨⟨⟩, s₁, hcond, hrun⟩ := bind_eq_ok_iff.1 hrun
          exact ⟨_, _, s₁, hcond, hrun, ⟨hnextTo, helse₀⟩, hat.nextBlock_ne, hneElse,
            fun c => by cases c <;> rfl⟩
      | or =>
          obtain ⟨⟨⟩, s₁, hcond, hrun⟩ := bind_eq_ok_iff.1 hrun
          exact ⟨_, _, s₁, hcond, hrun, ⟨hthen₀, hnextTo⟩, hneThen, hat.nextBlock_ne,
            fun c => by cases c <;> rfl⟩
    obtain ⟨⟨⟩, s₂, hposition, hrun⟩ := bind_eq_ok_iff.1 hrun
    cases Lower.positionAtEnd_eq_ok hposition
    have hlater := Lower.Composed.later (x := r.logicalCondition op thenTo elseTo (next :: others)) hrun
    have hreports : s₁.context.errorCount ≤ s'.context.errorCount := hlater.reports
    have hbranch := he.branches hchild (hready.mono (s.same_withModule _) hblock.grows)
      (hat.withBlock f.id _) htargets₁.1 htargets₁.2 hneThen₁ hneElse₁ hcond (by omega)
    have hfirst := hbranch.ofWrites (s.same_withModule _) hblock
    obtain ⟨hready₂, hat₂, htargets⟩ := hfirst.goOn hready
      (hnextTo.mono hbranch.writes (by simpa using hat.nextBlock_ne)) (Nat.le_refl _)
    obtain ⟨hthen₂, hneThen₂⟩ := htargets hthen hneThen
    obtain ⟨helse₂, hneElse₂⟩ := htargets helse hneElse
    have hsecond := hrest.branches hothers hready₂ hat₂ hthen₂ helse₂ hneThen₂ hneElse₂ hrun hclean
    refine (hfirst.bind (Nat.le_refl _) hsecond).imp ?_
    rintro M p o hM ⟨ρ, hagrees, rfl⟩
    refine ⟨_, fun c => if op.settles c then some c else rest.holds ρ op, ⟨ρ, hagrees, rfl⟩,
      Terms.holds_cons ρ op e rest, fun c q hc hkeeps => ?_⟩
    cases hsettles : op.settles c with
    | true =>
        refine .inr ⟨c, by simp [hsettles], ?_⟩
        rw [hto, hsettles]
        rfl
    | false =>
        refine .inl ⟨?_, ρ, ?_, by simp [hsettles]⟩
        · rw [hto, hsettles]
          rfl
        · refine hagrees.keeps ?_ hready hkeeps (Nat.le_refl _)
          exact hfirst.same.trans (s₁.same_withModule _)

/-- One comparison of a chain: the operand behind it, and then the truth of the comparison. -/
theorem compareStep_eq_ok [r.IsComposed] {op : BinaryOp} {previous : Operand} {t : ScalarType}
    {node : Node} {res : Option (Operand × ValueId)} (he : Lower.Computes r.operand e)
    (hop : op.isScalar = true) (hspelled : e.Spelled scope node) (hready : s.Ready scope)
    (hat : s.module.StandsAt b k) (hprevious : s.module.IsOperand previous t)
    (hrun : r.compareStep op previous (some node) s = .ok (res, s'))
    (hclean : s'.context.errorCount = 0) :
    ∃ next u s₁ b₁ k₁ t₁ m k₂, res = some (next, u) ∧
      s.Operates b k s₁ b₁ k₁ next t₁ (s.ExprMeaning scope e) ∧ s₁.Ready scope ∧
      s' = { s₁ with module := m } ∧ s₁.module.Code b₁ k₁ m b₁ k₂ u .bool fun M p o =>
        ∃ x y, x.ty = t ∧ y.ty = t₁ ∧ p.Shows M previous x ∧ p.Shows M next y ∧
          o = (Scalar.binary op x y).map fun z => .ofBool z.truth := by
  unfold compareStep at hrun
  obtain ⟨next, s₁, b₁, k₁, t₁, hcode, hready₁, hrun⟩ :=
    required_bind he hspelled hready hat hrun hclean
  obtain ⟨f, hfunc, -⟩ := hready₁.func
  rcases Attempt.bind_cases hrun with ⟨result, s₂, happly, hrun⟩ | ⟨happly, -⟩
  · obtain ⟨v, m₂, k₂, hresult, rfl, hcode₂⟩ := Lower.code_applyBinary hop hfunc
      hready₁.operators hcode.piece.stop (hprevious.mono hcode.piece.writes.grows) hcode.operand
      happly
    cases hresult
    obtain ⟨_, _, hload, hrun⟩ := Attempt.bind_lift hrun
    cases hload
    obtain ⟨ou, hbool, rfl⟩ := Attempt.bind_pure_eq_ok hrun
    obtain ⟨u, m₃, k₃, rfl, rfl, hcode₃⟩ := Lower.code_toBool (s := { s₁ with module := m₂ })
      hcode₂.piece.stop hcode₂.value hbool
    refine ⟨next, u, s₁, b₁, k₁, t₁, m₃, k₃, rfl, hcode, hready₁, rfl,
      (hcode₂.bind hcode₃).imp ?_⟩
    rintro M p o hM ⟨x, y, rfl, rfl, hshows, hshows', rfl⟩
    refine ⟨Scalar.binary op x y, fun z => some (.ofBool z.truth),
      ⟨x, y, rfl, rfl, hshows, hshows', rfl⟩, ?_, fun z q hz _ hcarries => ?_⟩
    · cases Scalar.binary op x y <;> rfl
    · exact ⟨z, Scalar.ty_of_binary hz, hcarries, rfl⟩
  · obtain ⟨v, m₂, k₂, hresult, -⟩ := Lower.code_applyBinary hop hfunc
      hready₁.operators hcode.piece.stop (hprevious.mono hcode.piece.writes.grows) hcode.operand
      happly
    cases hresult

/-- A chain begins with its first comparison. -/
theorem compareChain_cons_eq_ok [r.IsComposed] {op : BinaryOp} {previous : Operand} {t : ScalarType}
    {node : Node} {rest : List (BinaryOp × Option Node)} (he : Lower.Computes r.operand e)
    (hop : op.isScalar = true) (hspelled : e.Spelled scope node) (hready : s.Ready scope)
    (hat : s.module.StandsAt b k) (hprevious : s.module.IsOperand previous t)
    (hrun : r.compareChain thenTo elseTo previous ((op, some node) :: rest) s = .ok ((), s'))
    (hclean : s'.context.errorCount = 0) :
    ∃ next u s₁ b₁ k₁ t₁ m k₂,
      s.Operates b k s₁ b₁ k₁ next t₁ (s.ExprMeaning scope e) ∧ s₁.Ready scope ∧
      (s₁.module.Code b₁ k₁ m b₁ k₂ u .bool fun M p o =>
        ∃ x y, x.ty = t ∧ y.ty = t₁ ∧ p.Shows M previous x ∧ p.Shows M next y ∧
          o = (Scalar.binary op x y).map fun z => .ofBool z.truth) ∧
      (do
        if rest.isEmpty then (Build.condBr u thenTo elseTo : Build Unit)
        else
          let cont ← Lower.appendBlock "cmp.next"
          (Build.condBr u cont elseTo : Build Unit)
          (Build.positionAtEnd cont : Build Unit)
          r.compareChain thenTo elseTo next rest : Lower Unit) { s₁ with module := m } =
        .ok ((), s') := by
  unfold compareChain at hrun
  obtain ⟨res, s₁, hstep, hrun⟩ := bind_eq_ok_iff.1 hrun
  have hreports : s₁.context.errorCount ≤ s'.context.errorCount := by
    cases res with
    | none => exact (Lower.Composed.later (x := Lower.brIfOpen elseTo) hrun).reports
    | some found =>
        have hcomposed : Lower.Composed Lower.Elementary .free (do
            if rest.isEmpty then (Build.condBr found.2 thenTo elseTo : Build Unit)
            else
              let cont ← Lower.appendBlock "cmp.next"
              (Build.condBr found.2 cont elseTo : Build Unit)
              (Build.positionAtEnd cont : Build Unit)
              r.compareChain thenTo elseTo found.1 rest : Lower Unit) := by
          split
          · infer_instance
          · exact .fresh _ (by decide) fun _ => inferInstance
        exact (hcomposed.later hrun).reports
  obtain ⟨next, u, s₂, b₁, k₁, t₁, m, k₂, rfl, hcode, hready₁, rfl, htruth⟩ :=
    compareStep_eq_ok he hop hspelled hready hat hprevious hstep (by omega)
  exact ⟨next, u, s₂, b₁, k₁, t₁, m, k₂, hcode, hready₁, htruth, hrun⟩

/-- The last comparison of a chain decides. -/
theorem decidesLinks_last [r.IsComposed] {op : BinaryOp} (he : Lower.Computes r.operand e) :
    DecidesLinks r (.last op e) where
  branches := by
    rintro scope children s s' b k thenTo elseTo previous t ⟨hop, child, rfl, hchild⟩ hready hat
      hthen helse hneThen hneElse hprevious hrun hclean
    obtain ⟨next, u, s₁, b₁, k₁, t₁, m, k₂, hcode, hready₁, htruth, hrun⟩ :=
      compareChain_cons_eq_ok he hop hchild hready hat hprevious hrun hclean
    cases Lower.condBr_eq_ok (s := { s₁ with module := m }) htruth.piece.stop htruth.value hrun
    obtain ⟨hthen, hneThen⟩ := hthen.piece hcode.piece hneThen
    obtain ⟨helse, hneElse⟩ := helse.piece hcode.piece hneElse
    refine (hcode.branches (Lowering.branches_condBr htruth (.refl _ _) htruth.piece.stop
      (hthen.mono htruth.piece.writes (by simpa using hneThen))
      (helse.mono htruth.piece.writes (by simpa using hneElse)))).imp ?_
    rintro M p o hM ⟨ρ, x, hagrees, rfl, hshows, rfl⟩
    refine ⟨e.eval ρ, fun y => (Scalar.binary op x y).map Scalar.truth, ⟨ρ, hagrees, rfl⟩, ?_, ?_⟩
    · rw [Links.hold]
      cases e.eval ρ with
      | none => rfl
      | some y => cases hz : Scalar.binary op x y <;> simp [hz]
    · intro y q hy hkeeps rfl hshows'
      refine ⟨_, ⟨x, y, rfl, rfl, hshows.keeps hkeeps hprevious.value_lt, hshows', rfl⟩, ?_⟩
      simp [Function.comp_def]

/-- A comparison of a chain decides, or the ones behind it do. -/
theorem decidesLinks_cons [r.IsComposed] {op : BinaryOp} {rest : Links}
    (he : Lower.Computes r.operand e) (hrest : DecidesLinks r rest) :
    DecidesLinks r (.cons op e rest) where
  branches := by
    rintro scope children s s' b k thenTo elseTo previous t ⟨hop, child, others, rfl, hchild, hothers⟩
      hready hat hthen helse hneThen hneElse hprevious hrun hclean
    obtain ⟨next, u, s₁, b₁, k₁, t₁, m, k₂, hcode, hready₁, htruth, hrun⟩ :=
      compareChain_cons_eq_ok he hop hchild hready hat hprevious hrun hclean
    have hne : others.isEmpty = false := by
      cases rest with
      | last op' e' =>
          obtain ⟨-, child', rfl, -⟩ := hothers
          rfl
      | cons op' e' rest' =>
          obtain ⟨-, child', others', rfl, -⟩ := hothers
          rfl
    rw [hne] at hrun
    obtain ⟨f, hfunc, -⟩ := hready₁.func
    obtain ⟨cont, s₂, hcont, hrun⟩ := bind_eq_ok_iff.1 hrun
    obtain ⟨rfl, rfl⟩ := Lower.appendBlock_eq_ok (s := { s₁ with module := m }) hfunc hcont
    have hblock := Module.writes_withBlock [b₁] m f.id "cmp.next"
    have hat₂ := htruth.piece.stop.withBlock f.id "cmp.next"
    obtain ⟨⟨⟩, s₃, hbranch, hrun⟩ := bind_eq_ok_iff.1 hrun
    cases Lower.condBr_eq_ok (s := { s₁ with module := m.withBlock f.id "cmp.next" }) hat₂
      (htruth.value.mono hblock.grows) hbranch
    obtain ⟨⟨⟩, s₄, hposition, hrun⟩ := bind_eq_ok_iff.1 hrun
    cases Lower.positionAtEnd_eq_ok hposition
    obtain ⟨hthen₁, hneThen₁⟩ := hthen.piece hcode.piece hneThen
    obtain ⟨helse₁, hneElse₁⟩ := helse.piece hcode.piece hneElse
    have hcontTo : (m.withBlock f.id "cmp.next").IsTarget m.nextBlock :=
      Module.isVacant_withBlock f.id (by decide)
    have helse₂ : (m.withBlock f.id "cmp.next").IsTarget elseTo :=
      (helse₁.mono htruth.piece.writes (by simpa using hneElse₁)).mono hblock
        (by simpa using hneElse₁)
    have hfirst := Lowering.branches_condBr htruth hblock hat₂ hcontTo helse₂
    have hfresh : s₁.module.blocks.size ≤ m.nextBlock.index :=
      htruth.piece.writes.grows.blocks_size
    have hend := Module.writes_withTerminator hat₂ (.condBr u m.nextBlock elseTo)
    obtain ⟨hready₃, hat₃, htargets⟩ := hfirst.goOn hready₁
      (hcontTo.mono hend (by simpa using htruth.piece.stop.nextBlock_ne)) hfresh
    obtain ⟨hthen₃, hneThen₃⟩ := htargets hthen₁ hneThen₁
    obtain ⟨helse₃, hneElse₃⟩ := htargets helse₁ hneElse₁
    have hgrows₃ := hfirst.writes.grows.trans (Module.grows_withPosition _ (some m.nextBlock))
    have hsecond := hrest.branches hothers hready₃ hat₃ hthen₃ helse₃ hneThen₃ hneElse₃
      (hcode.operand.mono hgrows₃) hrun hclean
    refine (hcode.branches (hfirst.bind hfresh hsecond)).imp ?_
    rintro M p o hM ⟨ρ, x, hagrees, rfl, hshows, rfl⟩
    refine ⟨e.eval ρ, fun y => ((Scalar.binary op x y).map Scalar.truth).bind fun c =>
      if c then rest.hold ρ y else some false, ⟨ρ, hagrees, rfl⟩, ?_, ?_⟩
    · rw [Links.hold]
      cases e.eval ρ with
      | none => rfl
      | some y => cases hz : Scalar.binary op x y <;> simp [hz]
    · intro y q hy hkeeps hty hshows'
      refine ⟨_, fun c => if c then rest.hold ρ y else some false,
        ⟨_, ⟨x, y, rfl, hty, hshows.keeps hkeeps hprevious.value_lt, hshows', rfl⟩, rfl⟩,
        ?_, fun c q' hc hkeeps' => ?_⟩
      · simp [Function.comp_def]
      · cases c with
        | true =>
            refine .inl ⟨rfl, ρ, y, ?_, hty, hshows'.keeps hkeeps' hcode.operand.value_lt, rfl⟩
            have hagrees₁ := hagrees.keeps hcode.same hready hkeeps (Nat.le_refl _)
            exact hagrees₁.keeps (hfirst.same.trans (Lowering.same_withModule _ _)) hready₁ hkeeps'
              (Nat.le_refl _)
        | false => exact .inr ⟨false, rfl, rfl⟩

/-- A chain of terms as a condition. -/
theorem decides_logical {op : LogicalOp} {terms : Terms} (hterms : DecidesTerms r op terms) :
    Lower.Decides r.conditionOf (.logical op terms) where
  branches := by
    rintro scope node s s' b k thenTo elseTo ⟨children, hkind, hchildren⟩ hready hat hthen helse
      hneThen hneElse hrun hclean
    have hchain : r.logicalCondition op thenTo elseTo children s = .ok ((), s') := by
      rw [← hrun]
      unfold conditionOf
      rw [Option.map_some, hkind]
    refine (hterms.branches hchildren hready hat hthen helse hneThen hneElse hchain hclean).imp ?_
    rintro M p o hM ⟨ρ, hagrees, rfl⟩
    refine ⟨ρ, hagrees, ?_⟩
    rw [Expr.eval, Option.map_map]
    simp [Function.comp_def]

/-- A chain of comparisons as a condition. -/
theorem decides_comparison [r.IsComposed] {links : Links} (he : Lower.Computes r.operand e)
    (hlinks : DecidesLinks r links) : Lower.Decides r.conditionOf (.comparison e links) where
  branches := by
    rintro scope node s s' b k thenTo elseTo ⟨child, rest, hkind, hchild, hrest⟩ hready hat hthen
      helse hneThen hneElse hrun hclean
    unfold conditionOf at hrun
    rw [Option.map_some, hkind] at hrun
    obtain ⟨res, s₁, hrequired, hrun⟩ := bind_eq_ok_iff.1 hrun
    have hreports : s₁.context.errorCount ≤ s'.context.errorCount := by
      cases res with
      | none => exact (Lower.Composed.later (x := Lower.brIfOpen elseTo) hrun).reports
      | some previous =>
          exact (Lower.Composed.later (x := r.compareChain thenTo elseTo previous rest) hrun).reports
    obtain ⟨previous, b₁, k₁, t₁, rfl, hcode⟩ :=
      required_computes he hchild hready hat hrequired (by omega)
    obtain ⟨hthen₁, hneThen₁⟩ := hthen.piece hcode.piece hneThen
    obtain ⟨helse₁, hneElse₁⟩ := helse.piece hcode.piece hneElse
    have hready₁ := hready.mono hcode.same hcode.piece.writes.grows
    have hchain := hlinks.branches hrest hready₁ hcode.piece.stop hthen₁ helse₁ hneThen₁ hneElse₁
      hcode.operand hrun hclean
    refine (hcode.branches hchain).imp ?_
    rintro M p o hM ⟨ρ, hagrees, rfl⟩
    refine ⟨e.eval ρ, fun x => links.hold ρ x, ⟨ρ, hagrees, rfl⟩, ?_, ?_⟩
    · rw [Expr.eval]
      cases e.eval ρ with
      | none => rfl
      | some x => cases hb : links.hold ρ x <;> simp [hb]
    · intro x q hx hkeeps ht hshows
      exact ⟨ρ, x, hagrees.keeps hcode.same hready hkeeps (Nat.le_refl _), ht, hshows, rfl⟩

end Recur

end SsaCompiler
