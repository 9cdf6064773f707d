/-
# Choices and loops

The blocks of a choice or a loop are made before anything goes into them, and wait until it is their
turn. A loop puts the blocks to which jumps lead around its body.
-/

import SsaCompiler.Proofs.Structured.Assignment

namespace SsaCompiler

open Lower

/-- Only the missing statement is lowered from a missing node. -/
theorem Stmt.eq_skip_of_spelled {scope : Name → Prop} {stmt : Stmt} (h : stmt.Spelled scope none) :
    stmt = .skip := by
  cases stmt <;> simp_all [Stmt.Spelled]

/-- A statement in a block of its own takes no reports away. -/
theorem Recur.reports_armAt {s s' : Lowering} {block next : BlockId} {stmt : Option Node} {n : Nat}
    (h : (within n).armAt block stmt next s = .ok ((), s')) :
    s.context.errorCount ≤ s'.context.errorCount :=
  (Composed.later_of (L := .offering .free block) inferInstance h).reports

namespace Lowering

variable {s s₁ s₂ s₃ s' : Lowering} {B : Body} {vars : List LocalVar} {later : List BlockId}
  {b c d next bodyBlock endBlock : BlockId} {k n : Nat} {x : Nat → Run Flow}
  {ds : List (Name × ScalarType)} {child : Option Node} {stmt : Stmt}

/-! ### Statements that lead to a block -/

/-- Between two states code has been written that performs what statements do and goes on in another
block. -/
def RendersTo (s : Lowering) (B : Body) (vars : List LocalVar) (later : List BlockId) (b : BlockId)
    (k : Nat) (c : BlockId) (x : Nat → Run Flow) (ds : List (Name × ScalarType)) (s' : Lowering) :
    Prop :=
  ∃ vars', s'.Hosts B vars' later ∧
    vars'.map LocalVar.declaration = vars.map LocalVar.declaration ++ ds ∧
    s.Emits B vars s' vars' fun loops A => A.module.Opens c → A.Performs loops b k c 0 x

theorem Renders.brIfOpen (h : s.Renders B vars later b k x ds s₁)
    (hrun : Lower.brIfOpen c s₁ = .ok ((), s')) : s.RendersTo B vars later b k c x ds s' := by
  obtain ⟨vars', b', k', h₁, hat₁, hvars, hemits⟩ := h
  obtain ⟨h', hemits'⟩ := h₁.brIfOpen hat₁ hrun
  exact ⟨vars', h', hvars, (hemits.trans hemits').imp fun _ _ _ hA => hA.1.jump hA.2⟩

/-- A statement in a block of its own. -/
theorem Hosts.armAt (h : s.Hosts B vars (c :: later)) (hstmt : stmt.Lowers B)
    (hspelled : stmt.Spelled B.scope child)
    (hrun : (Recur.within n).armAt c child next s = .ok ((), s'))
    (hclean : s'.context.errorCount = 0) :
    s.RendersTo B vars later c 0 next (fun rounds => stmt.exec rounds) stmt.declared s' := by
  obtain ⟨⟨⟩, s₁, hposition, hrun⟩ := bind_eq_ok_iff.1 hrun
  obtain ⟨⟨⟩, s₂, hchild, hbr⟩ := bind_eq_ok_iff.1 hrun
  have hreports := (Lower.Composed.later hbr).reports
  obtain ⟨h₁, hat₁, hemits₁⟩ := h.goOn hposition
  obtain ⟨vars', h', hvars, hemits⟩ :=
    (hstmt hspelled h₁ hat₁ hchild (by omega)).brIfOpen hbr
  exact ⟨vars', h', hvars, (hemits₁.trans hemits).imp fun _ _ _ hA => hA.2⟩

/-! ### Parts of loops -/

/-- The test of a loop; without a condition the loop goes on. -/
theorem Hosts.loopTest {cond : Option Expr} (h : s.Hosts B vars later) (hat : s.GoesOnAt B b k)
    (hspelled : Option.Rel (fun e node => e.Spelled B.scope node) cond child)
    (hbody : bodyBlock ∈ later) (hend : endBlock ∈ later)
    (hrun : (child.elim (liftM (Build.br bodyBlock)) fun node =>
      (Recur.within n).condition (some node) bodyBlock endBlock : Lower Unit) s = .ok ((), s'))
    (hclean : s'.context.errorCount = 0) :
    s'.Hosts B vars later ∧ s.Emits B vars s' vars fun _ A => A.module.Opens bodyBlock →
      A.Tests s.module.values.size b k bodyBlock endBlock (Expr.holds? cond) := by
  cases hspelled with
  | none =>
      obtain ⟨h', hemits⟩ := h.br hat hrun
      exact ⟨h', hemits.imp fun _ _ _ hjumps => hjumps.tests⟩
  | some hspelled =>
      obtain ⟨h', hemits⟩ := h.condition hat hspelled hbody hend hrun hclean
      exact ⟨h', hemits.imp fun _ _ _ htests _ => htests⟩

/-- The body of a loop, from which jumps lead behind the loop and to the next round. -/
theorem Hosts.loopBody (h : s.Hosts B vars (c :: later)) (hstmt : stmt.Lowers B)
    (hspelled : stmt.Spelled B.scope child)
    (hposition : (liftM (Build.positionAtEnd c) : Lower Unit) s = .ok ((), s₁))
    (htargets : withTargets ⟨endBlock, some next⟩ ((Recur.within n).statement child) s₁ =
      .ok ((), s₂))
    (hbr : Lower.brIfOpen next s₂ = .ok ((), s')) (hclean : s'.context.errorCount = 0) :
    ∃ vars', s'.Hosts B vars' later ∧
      vars'.map LocalVar.declaration = vars.map LocalVar.declaration ++ stmt.declared ∧
      s.Emits B vars s' vars' fun loops A => A.module.Opens endBlock → A.module.Opens next →
        A.Performs (⟨endBlock, some next⟩ :: loops) c 0 next 0 fun rounds => stmt.exec rounds := by
  have hreports := (Lower.Composed.later hbr).reports
  obtain ⟨h₁, hat₁, hemits₁⟩ := h.goOn hposition
  obtain ⟨s₃, hchild, hback⟩ := withTargets_eq_ok htargets
  have hclean₃ : s₃.context.errorCount = 0 := by
    rw [hback] at hreports
    exact Nat.le_zero.1 (hclean ▸ hreports)
  have hinside : Hosts { s₁ with pass := { s₁.pass with
      loops := ⟨endBlock, some next⟩ :: s₁.pass.loops } } B vars later :=
    h₁.withPass rfl rfl rfl rfl rfl
  obtain ⟨vars', b', k', h₃, hat₃, hvars, hemits₃⟩ :=
    hstmt hspelled hinside ⟨hat₁.standsAt, hat₁.ne⟩ hchild hclean₃
  have h₂ : s₂.Hosts B vars' later ∧ s₂.GoesOnAt B b' k' := by
    rw [hback]
    exact ⟨h₃.withPass rfl rfl rfl rfl rfl, hat₃.standsAt, hat₃.ne⟩
  obtain ⟨h', hemits'⟩ := h₂.1.brIfOpen h₂.2 hbr
  refine ⟨vars', h', hvars,
    (hemits₁.trans ((hemits₃.withTargets hback).trans hemits')).imp ?_⟩
  rintro A - - ⟨-, hperforms, hjumps⟩ hend hnext
  exact (hperforms ⟨hend, by rintro _ ⟨⟩; exact hnext⟩).jump hjumps hnext

end Lowering

variable {B : Body}

/-! ### Statements one after the other -/

/-- Statements are lowered to code that performs them one after the other. -/
def Stmts.Lowers (stmts : Stmts) (B : Body) : Prop :=
  ∀ ⦃n s s' children vars later b k⦄, stmts.Spelled B.scope children → s.Hosts B vars later →
    s.GoesOnAt B b k → (Recur.within n).sequence children s = .ok ((), s') →
    s'.context.errorCount = 0 →
    s.Renders B vars later b k (fun rounds => stmts.exec rounds) stmts.declared s'

theorem Stmts.lowers_nil : Stmts.nil.Lowers B := by
  rintro n s s' children vars later b k rfl h hat hrun -
  cases hrun
  exact h.renders_skip hat

theorem Stmts.lowers_cons {first : Stmt} {rest : Stmts} (hfirst : first.Lowers B)
    (hrest : rest.Lowers B) : (Stmts.cons first rest).Lowers B := by
  rintro n s s' children vars later b k ⟨child, others, rfl, hchild, hothers⟩ h hat hrun hclean
  unfold Recur.sequence at hrun
  rw [bind_of_ok (isAbandoned_apply s), h.fatal] at hrun
  obtain ⟨⟨⟩, s₁, hstatement, hsequence⟩ := bind_eq_ok_iff.1 hrun
  have hreports := (Lower.Composed.later hsequence).reports
  exact (hfirst hchild h hat hstatement (by omega)).andThen fun vars₁ b₁ k₁ h₁ hat₁ =>
    hrest hothers h₁ hat₁ hsequence hclean

namespace Stmt

theorem lowers_block {stmts : Stmts} (hstmts : stmts.Lowers B) : (Stmt.block stmts).Lowers B := by
  rintro n s s' child vars later b k ⟨node, children, rfl, hkind, hspelled⟩ h hat hrun hclean
  refine h.renders_node hat hrun hclean fun m res s₁ h hat hlower hclean => ?_
  generalize s.entered node.span = s at h hat hlower
  unfold Recur.lowerKind at hlower
  rw [hkind] at hlower
  exact hstmts hspelled h hat (Lower.noValue_eq_ok hlower) hclean

/-! ### Choices -/

theorem lowers_ifElse {thenDo elseDo : Stmt} (cond : Expr) (hthen : thenDo.Lowers B)
    (helse : elseDo.Lowers B) : (Stmt.ifElse cond thenDo elseDo).Lowers B := by
  rintro n s s' child vars later b k ⟨node, test, thenChild, elseChild, rfl, hkind, hcond, hthenDo,
    helseDo⟩ h hat hrun hclean
  refine h.renders_node hat hrun hclean fun m res s₁ h hat hlower hclean => ?_
  generalize s.entered node.span = s at h hat hlower
  unfold Recur.lowerKind at hlower
  rw [hkind] at hlower
  replace hlower := Lower.noValue_eq_ok hlower
  obtain ⟨thenBlock, s₂, hthenBlock, hlower⟩ := bind_eq_ok_iff.1 hlower
  obtain ⟨h₂, hat₂, hemits₂⟩ := h.appendBlock (by decide) hthenBlock
  replace hat := hat₂ hat
  cases elseChild with
  | none =>
      obtain rfl := eq_skip_of_spelled helseDo
      obtain ⟨endBlock, s₃, hendBlock, hlower⟩ := bind_eq_ok_iff.1 hlower
      obtain ⟨⟨⟩, s₄, hcondition, hlower⟩ := bind_eq_ok_iff.1 hlower
      obtain ⟨⟨⟩, s₅, hthenArm, hposition⟩ := bind_eq_ok_iff.1 hlower
      have hreports₄ := Recur.reports_armAt hthenArm
      have hreports₅ := (later_of_build hposition).reports
      obtain ⟨h₃, hat₃, hemits₃⟩ := h₂.appendBlock (by decide) hendBlock
      replace hat := hat₃ hat
      replace h₃ := h₃.perm (.swap thenBlock endBlock later)
      obtain ⟨h₄, hemits₄⟩ := h₃.condition hat hcond (by simp) (by simp) hcondition (by omega)
      obtain ⟨vars', h₅, hvars, hemits₅⟩ := h₄.armAt hthen hthenDo hthenArm (by omega)
      obtain ⟨h', hat', hemits'⟩ := h₅.goOn hposition
      refine ⟨vars', endBlock, 0, h', hat', ?_, (hemits₂.trans (hemits₃.trans (hemits₄.trans
        (hemits₅.trans hemits')))).imp ?_⟩
      · rw [hvars, declared, declared, List.append_nil]
      · rintro A - - ⟨-, hopens, htests, harm, -⟩
        exact htests.ifElse (harm hopens) Activation.performs_skip
  | some other =>
      obtain ⟨elseBlock, s₃, helseBlock, hlower⟩ := bind_eq_ok_iff.1 hlower
      obtain ⟨endBlock, s₄, hendBlock, hlower⟩ := bind_eq_ok_iff.1 hlower
      obtain ⟨⟨⟩, s₅, hcondition, hlower⟩ := bind_eq_ok_iff.1 hlower
      obtain ⟨⟨⟩, s₆, hthenArm, hlower⟩ := bind_eq_ok_iff.1 hlower
      obtain ⟨⟨⟩, s₇, helseArm, hposition⟩ := bind_eq_ok_iff.1 hlower
      have hreports₅ := Recur.reports_armAt hthenArm
      have hreports₆ := Recur.reports_armAt helseArm
      have hreports₇ := (later_of_build hposition).reports
      obtain ⟨h₃, hat₃, hemits₃⟩ := h₂.appendBlock (by decide) helseBlock
      obtain ⟨h₄, hat₄, hemits₄⟩ := h₃.appendBlock (by decide) hendBlock
      replace hat := hat₄ (hat₃ hat)
      replace h₄ := h₄.perm
        ((List.reverse_perm [thenBlock, elseBlock, endBlock]).append_right later)
      obtain ⟨h₅, hemits₅⟩ := h₄.condition hat hcond (by simp) (by simp) hcondition (by omega)
      obtain ⟨vars₁, h₆, hvars₁, hemits₆⟩ := h₅.armAt hthen hthenDo hthenArm (by omega)
      obtain ⟨vars', h₇, hvars, hemits₇⟩ := h₆.armAt helse helseDo helseArm (by omega)
      obtain ⟨h', hat', hemits'⟩ := h₇.goOn hposition
      refine ⟨vars', endBlock, 0, h', hat', ?_, (hemits₂.trans (hemits₃.trans (hemits₄.trans
        (hemits₅.trans (hemits₆.trans (hemits₇.trans hemits')))))).imp ?_⟩
      · rw [hvars, hvars₁, List.append_assoc, declared]
      · rintro A - - ⟨-, -, hopens, htests, hthenArm, helseArm, -⟩
        exact htests.ifElse (hthenArm hopens) (helseArm hopens)

/-! ### Loops -/

theorem lowers_whileLoop {body : Stmt} (cond : Expr) (hbody : body.Lowers B) :
    (Stmt.whileLoop cond body).Lowers B := by
  rintro n s s' child vars later b k ⟨node, test, inner, rfl, hkind, hcond, hinner⟩ h hat hrun hclean
  refine h.renders_node hat hrun hclean fun m res s₁ h hat hlower hclean => ?_
  generalize s.entered node.span = s at h hat hlower
  unfold Recur.lowerKind at hlower
  rw [hkind] at hlower
  replace hlower := Lower.noValue_eq_ok hlower
  obtain ⟨condBlock, s₂, hcondBlock, hlower⟩ := bind_eq_ok_iff.1 hlower
  obtain ⟨bodyBlock, s₃, hbodyBlock, hlower⟩ := bind_eq_ok_iff.1 hlower
  obtain ⟨endBlock, s₄, hendBlock, hlower⟩ := bind_eq_ok_iff.1 hlower
  obtain ⟨⟨⟩, s₅, hbr, hlower⟩ := bind_eq_ok_iff.1 hlower
  obtain ⟨⟨⟩, s₆, hgoTest, hlower⟩ := bind_eq_ok_iff.1 hlower
  obtain ⟨⟨⟩, s₇, htest, hlower⟩ := bind_eq_ok_iff.1 hlower
  obtain ⟨⟨⟩, s₈, hgoBody, hlower⟩ := bind_eq_ok_iff.1 hlower
  obtain ⟨⟨⟩, s₉, htargets, hlower⟩ := bind_eq_ok_iff.1 hlower
  obtain ⟨⟨⟩, s₁₀, hback, hgoEnd⟩ := bind_eq_ok_iff.1 hlower
  have hreports₇ := (later_of_build hgoBody).reports
  have hreports₈ := (Lower.Composed.later htargets).reports
  have hreports₉ := (Lower.Composed.later hback).reports
  have hreports₁₀ := (later_of_build hgoEnd).reports
  obtain ⟨h₂, hat₂, hemits₂⟩ := h.appendBlock (by decide) hcondBlock
  obtain ⟨h₃, hat₃, hemits₃⟩ := h₂.appendBlock (by decide) hbodyBlock
  obtain ⟨h₄, hat₄, hemits₄⟩ := h₃.appendBlock (by decide) hendBlock
  replace h₄ := h₄.perm ((List.reverse_perm [condBlock, bodyBlock, endBlock]).append_right later)
  obtain ⟨h₅, hemits₅⟩ := h₄.br (hat₄ (hat₃ (hat₂ hat))) hbr
  obtain ⟨h₆, hat₆, hemits₆⟩ := h₅.goOn hgoTest
  obtain ⟨h₇, hemits₇⟩ := h₆.condition hat₆ hcond (by simp) (by simp) htest (by omega)
  obtain ⟨vars', h₁₀, hvars, hemits₁₀⟩ :=
    h₇.loopBody hbody hinner hgoBody htargets hback (by omega)
  obtain ⟨h', hat', hemits'⟩ := h₁₀.goOn hgoEnd
  have hne : condBlock ≠ bodyBlock :=
    fun heq => (List.nodup_cons.1 h₄.nodup).1 (heq ▸ List.mem_cons_self)
  refine ⟨vars', endBlock, 0, h', hat', hvars, (hemits₂.trans (hemits₃.trans (hemits₄.trans
    (hemits₅.trans (hemits₆.trans (hemits₇.trans (hemits₁₀.trans hemits'))))))).imp ?_⟩
  rintro A - - ⟨hopensTest, -, hopensEnd, hjumps, -, htests, hround, -⟩
  exact hjumps.loop hopensTest htests hne (hround hopensEnd hopensTest) Activation.performs_skip

/-- A loop with a start, a condition and a step. -/
theorem lowers_forLoop {init step body : Stmt} (cond : Option Expr) (hinit : init.Lowers B)
    (hstep : step.Lowers B) (hbody : body.Lowers B) :
    (Stmt.forLoop init cond step body).Lowers B := by
  rintro n s s' child vars later b k ⟨node, before, test, after, inner, rfl, hkind, hbefore, hcond,
    hafter, hinner⟩ h hat hrun hclean
  refine h.renders_node hat hrun hclean fun m res s₁ h hat hlower hclean => ?_
  generalize s.entered node.span = s at h hat hlower
  unfold Recur.lowerKind at hlower
  rw [hkind] at hlower
  replace hlower := Lower.noValue_eq_ok hlower
  obtain ⟨⟨⟩, s₂, hstart, hlower⟩ := bind_eq_ok_iff.1 hlower
  -- What is left is the same loop without a start.
  have hreports₂ := (Lower.Composed.later
    (show (Recur.within m).forLoop none test after inner s₂ = .ok ((), s₁) from hlower)).reports
  obtain ⟨condBlock, s₃, hcondBlock, hlower⟩ := bind_eq_ok_iff.1 hlower
  obtain ⟨bodyBlock, s₄, hbodyBlock, hlower⟩ := bind_eq_ok_iff.1 hlower
  obtain ⟨stepBlock, s₅, hstepBlock, hlower⟩ := bind_eq_ok_iff.1 hlower
  obtain ⟨endBlock, s₆, hendBlock, hlower⟩ := bind_eq_ok_iff.1 hlower
  obtain ⟨⟨⟩, s₇, hbr, hlower⟩ := bind_eq_ok_iff.1 hlower
  obtain ⟨⟨⟩, s₈, hgoTest, hlower⟩ := bind_eq_ok_iff.1 hlower
  obtain ⟨s₉, htest, hlower⟩ : ∃ s₉, (test.elim (liftM (Build.br bodyBlock)) fun node =>
      (Recur.within m).condition (some node) bodyBlock endBlock : Lower Unit) s₈ = .ok ((), s₉) ∧ (do
        Build.positionAtEnd bodyBlock
        withTargets ⟨endBlock, some stepBlock⟩ ((Recur.within m).statement inner)
        Lower.brIfOpen stepBlock
        Build.positionAtEnd stepBlock
        (Recur.within m).statement after
        Lower.brIfOpen condBlock
        Build.positionAtEnd endBlock : Lower Unit) s₉ = .ok ((), s₁) := by
    cases test with
    | none =>
        obtain ⟨⟨⟩, s₉, htest, hlower⟩ := bind_eq_ok_iff.1 hlower
        exact ⟨s₉, htest, hlower⟩
    | some node =>
        obtain ⟨⟨⟩, s₉, htest, hlower⟩ := bind_eq_ok_iff.1 hlower
        exact ⟨s₉, htest, hlower⟩
  obtain ⟨⟨⟩, s₁₀, hgoBody, hlower⟩ := bind_eq_ok_iff.1 hlower
  obtain ⟨⟨⟩, s₁₁, htargets, hlower⟩ := bind_eq_ok_iff.1 hlower
  obtain ⟨⟨⟩, s₁₂, hnext, hlower⟩ := bind_eq_ok_iff.1 hlower
  obtain ⟨⟨⟩, s₁₃, hgoStep, hlower⟩ := bind_eq_ok_iff.1 hlower
  obtain ⟨⟨⟩, s₁₄, hchild, hlower⟩ := bind_eq_ok_iff.1 hlower
  obtain ⟨⟨⟩, s₁₅, hback, hgoEnd⟩ := bind_eq_ok_iff.1 hlower
  have harm : (Recur.within m).armAt stepBlock after condBlock s₁₂ = .ok ((), s₁₅) :=
    (bind_of_ok hgoStep).trans ((bind_of_ok hchild).trans hback)
  have hreports₁₅ := (later_of_build hgoEnd).reports
  have hreports₁₂ := Recur.reports_armAt harm
  have hreports₁₁ := (Lower.Composed.later hnext).reports
  have hreports₁₀ := (Lower.Composed.later htargets).reports
  have hreports₉ := (later_of_build hgoBody).reports
  refine (hinit hbefore h hat hstart (by omega)).andThen fun vars₂ b k h₂ hat₂ => ?_
  obtain ⟨h₃, hat₃, hemits₃⟩ := h₂.appendBlock (by decide) hcondBlock
  obtain ⟨h₄, hat₄, hemits₄⟩ := h₃.appendBlock (by decide) hbodyBlock
  obtain ⟨h₅, hat₅, hemits₅⟩ := h₄.appendBlock (by decide) hstepBlock
  obtain ⟨h₆, hat₆, hemits₆⟩ := h₅.appendBlock (by decide) hendBlock
  replace h₆ := h₆.perm
    ((List.reverse_perm [condBlock, bodyBlock, stepBlock, endBlock]).append_right later)
  obtain ⟨h₇, hemits₇⟩ := h₆.br (hat₆ (hat₅ (hat₄ (hat₃ hat₂)))) hbr
  obtain ⟨h₈, hat₈, hemits₈⟩ := h₇.goOn hgoTest
  obtain ⟨h₉, hemits₉⟩ := h₈.loopTest hat₈ hcond (by simp) (by simp) htest (by omega)
  obtain ⟨vars₁₂, h₁₂, hvars₁₂, hemits₁₂⟩ :=
    h₉.loopBody hbody hinner hgoBody htargets hnext (by omega)
  obtain ⟨vars', h₁₅, hvars, hemits₁₅⟩ := h₁₂.armAt hstep hafter harm (by omega)
  obtain ⟨h', hat', hemits'⟩ := h₁₅.goOn hgoEnd
  have hne : condBlock ≠ bodyBlock :=
    fun heq => (List.nodup_cons.1 h₆.nodup).1 (heq ▸ List.mem_cons_self)
  refine ⟨vars', endBlock, 0, h', hat', by rw [hvars, hvars₁₂, List.append_assoc],
    (hemits₃.trans (hemits₄.trans (hemits₅.trans (hemits₆.trans (hemits₇.trans (hemits₈.trans
      (hemits₉.trans (hemits₁₂.trans (hemits₁₅.trans hemits'))))))))).imp ?_⟩
  rintro A - - ⟨hopensTest, hopensBody, hopensStep, hopensEnd, hjumps, -, htests, hround, hrest, -⟩
  exact hjumps.loop hopensTest (htests hopensBody) hne (hround hopensEnd hopensStep) (hrest hopensTest)

end Stmt

end SsaCompiler
