/-
# Switches

A switch compares its value with those of the cases, one after the other, and every case has a block
for its body. Where the body ends, control goes on behind the switch or in the next body, and from the
last body in the default, which is the end of the switch if there is none.
-/

import SsaCompiler.Proofs.Structured.ControlFlow

namespace SsaCompiler

open Lower

/-! ### Comparing with the cases -/

/-- From a place code compares the value of an expression with an integer that is there, and leads to
one of two blocks. -/
def Activation.Compares (A : Activation) (low : Nat) (b : BlockId) (k : Nat) (value : ValueId)
    (t : ScalarType) (e : Expr) (thenTo elseTo : BlockId) : Prop :=
  ∀ ⦃st p x⦄, p.At b k → A.Matches st p → x.ty = t → p.Carries A.module value x →
    let o := (e.eval st.values).map fun y => decide (y.cast t = x)
    p.Yields A.module A.call A.name low (if o.getD true then thenTo else elseTo) 0 o
      fun _ q => q.Carries A.module value x

/-- The bodies of cases are performed from their blocks on, and behind each of them what control falls
into. -/
def Activation.PerformsCases (A : Activation) (loops : List JumpTargets) (endBlock : BlockId)
    (autoBreak : Bool) (default : Nat → Run Flow) : Cases → List BlockId → Prop
  | .nil, _ => True
  | .cons _ body rest, blocks => ∃ c others, blocks = c :: others ∧
      (A.Performs loops c 0 endBlock 0 fun n =>
        (body.exec n).andThen (if autoBreak then return .next else rest.fall n (default n))) ∧
      A.PerformsCases loops endBlock autoBreak default rest others

/-- From a place code chooses among cases by an integer that is there, and performs what is chosen. -/
def Activation.Chooses (A : Activation) (loops : List JumpTargets) (b : BlockId) (k : Nat)
    (value : ValueId) (t : ScalarType) (endBlock : BlockId) (autoBreak : Bool)
    (default : Nat → Run Flow) (cases : Cases) : Prop :=
  ∀ ⦃n st p x⦄, p.At b k → A.Matches st p → x.ty = t → p.Carries A.module value x →
    p.Simulates A loops endBlock 0 n (cases.choose n autoBreak (default n) x st)

/-- A comparison with the first case, and then a choice among the others. -/
theorem Activation.Compares.chooses {A : Activation} {loops : List JumpTargets} {low k : Nat}
    {b c next endBlock : BlockId} {value : ValueId} {t : ScalarType} {e : Expr} {body : Stmt}
    {rest : Cases} {autoBreak : Bool} {default : Nat → Run Flow}
    (h : A.Compares low b k value t e c next)
    (hbody : A.Performs loops c 0 endBlock 0 fun n =>
      (body.exec n).andThen (if autoBreak then return .next else rest.fall n (default n)))
    (hrest : A.Chooses loops next 0 value t endBlock autoBreak default rest) :
    A.Chooses loops b k value t endBlock autoBreak default (.cons e body rest) := by
  intro n st p x hp hmatches hx hcarries
  have hchoose : Cases.choose n autoBreak (default n) x (.cons e body rest) st =
      (Run.ofOption (fun ρ => (e.eval ρ).map fun y => decide (y.cast t = x)) >>= fun holds =>
        if holds then (body.exec n).andThen (if autoBreak then return .next else rest.fall n (default n))
        else rest.choose n autoBreak (default n) x) st := by
    rw [Run.ofOption_map_bind, Cases.choose, hx]
    simp only [decide_eq_true_eq]
    rfl
  rw [hchoose]
  refine Point.Simulates.ofOption rfl (h hp hmatches hx hcarries) hmatches ?_
  intro holds q ho hpath _ hq hmatches hcarries
  rw [ho] at hq
  cases holds with
  | true => exact (hbody hq hmatches).of_reaches hpath
  | false => exact (hrest hq hmatches hx hcarries).of_reaches hpath

/-- Words stand for one integer if they are the same. -/
theorem Denotes.beq_eq_decide {x y : Scalar} {a c : Int64} (hx : Denotes x.ty.bits a x.value)
    (hy : Denotes y.ty.bits c y.value) (hty : x.ty = y.ty) : (a == c) = decide (y = x) := by
  obtain ⟨xt, xv⟩ := x
  obtain ⟨yt, yv⟩ := y
  obtain rfl : xt = yt := hty
  rw [Bool.eq_iff_iff, beq_iff_eq, decide_eq_true_iff, ← Int64.toInt_inj, hx.1, hy.1, Scalar.mk.injEq]
  exact ⟨fun h => ⟨rfl, h.symm⟩, fun h => h.2.symm⟩

namespace Lowering

variable {s s₁ s₂ s' : Lowering} {B : Body} {vars : List LocalVar} {later : List BlockId}
  {b c next block endBlock defaultBlock : BlockId} {k n : Nat} {value : ValueId} {t : ScalarType}
  {ty : TypeId} {e : Expr} {node : Node} {span : Span} {autoBreak : Bool}

theorem Hosts.caseTest {v : ValueId} (h : s.Hosts B vars later) (hat : s.GoesOnAt B b k)
    (hvalue : s.module.IsScalar value t) (hty : s.module.types.get ty = .ok (.int t.bits))
    (hspelled : e.Spelled B.scope node) (hblock : block ∈ later) (hnext : next ∈ later)
    (hwanted : (do
      let v ← (Recur.within n).value (some node)
      Lower.coerce v ty span : Attempt ValueId) s = .ok (some v, s₁))
    (hbranch : (do
      let found ← Build.icmp .eq value v
      Build.condBr found block next : Lower Unit) s₁ = .ok ((), s'))
    (hclean : s'.context.errorCount = 0) :
    s'.Hosts B vars later ∧ s.Emits B vars s' vars fun _ A =>
      A.Compares s.module.values.size b k value t e block next := by
  have hrun := hbranch
  obtain ⟨found, _, hfound, hcondBr⟩ := bind_eq_ok_iff.1 hbranch
  obtain ⟨m, hicmp, rfl⟩ := build_eq_ok_iff.1 hfound
  have hreports := (Lower.Composed.later hcondBr).reports
  -- The value of the case.
  obtain ⟨_, b₁, k₁, hsome, hoperates⟩ := Recur.operates_coerced hspelled h.ready hat.standsAt
    hty hwanted (Nat.le_zero.1 (hclean ▸ hreports))
  cases hsome
  obtain ⟨h₁, hat₁, hv, hemits₁⟩ := h.of_operates (x := (do
    let v ← (Recur.within n).value (some node)
    Lower.coerce v ty span : Attempt ValueId).run) hat hwanted hoperates
  -- The comparison with it.
  have hgrows := hoperates.piece.writes.grows
  obtain ⟨k₂, hcode⟩ := Build.code_icmp hat₁.standsAt (hvalue.mono hgrows) hv hicmp
  obtain rfl := Lower.condBr_eq_ok (s := { s₁ with module := m }) hcode.piece.stop hcode.value
    hcondBr
  have htarget {c : BlockId} (hc : c ∈ later) : m.IsTarget c :=
    let ⟨htarget, hne⟩ := h₁.isTarget hat₁ hc
    htarget.mono hcode.piece.writes (by simpa using hne)
  obtain ⟨h', hemits'⟩ := h₁.of_branches hat₁ hrun (branches_condBr hcode (.refl _ _)
    hcode.piece.stop (htarget hblock) (htarget hnext))
  refine ⟨h', (hemits₁.trans hemits').imp ?_⟩
  rintro A - - ⟨hcomputes, hbranches⟩ st p x hp hmatches hx hcarries
  have hlt : value.index < s.module.values.size := by
    obtain ⟨d, hd, -⟩ := hvalue
    exact Module.value_lt hd
  have hyields := hcomputes hp hmatches
  dsimp only at hyields ⊢
  generalize e.eval st.values = o at hyields ⊢
  cases o with
  | none => exact hyields
  | some y =>
      refine Point.Yields.bind (o := some (y.cast t)) (f := fun z => some (decide (z = x))) hyields
        hgrows.values_size ?_
      rintro z q ⟨⟩ hkeeps hb hk ⟨hz, c, hc, hcz⟩
      have hold := hcarries.keeps hkeeps hlt
      obtain ⟨a, ha, hax⟩ := id hold
      have hjump := hbranches (p := q) ⟨hb, hk⟩ ⟨some (.ofBool (a == c)), ⟨a, c, ha, hc, rfl⟩, rfl⟩
      rw [Option.map_some, Scalar.truth_ofBool, hax.beq_eq_decide hcz (hx.trans hz.symm)] at hjump
      obtain ⟨q', hpath, hkeeps', hend⟩ := hjump
      exact ⟨q', hpath, hkeeps', hend.1, hend.2.1,
        hold.keeps hkeeps' (Nat.lt_of_lt_of_le hlt hgrows.values_size)⟩

/-- Blocks are made for the bodies. -/
theorem Hosts.caseBlocks {cases : List (SwitchCase Node)} {arms : List (SwitchCase Node × BlockId)}
    (h : s.Hosts B vars later) (hrun : Recur.caseBlocks cases s = .ok (arms, s')) :
    s'.Hosts B vars (arms.map Prod.snd ++ later) ∧
      (∀ {b k}, s.GoesOnAt B b k → s'.GoesOnAt B b k) ∧ arms.map Prod.fst = cases ∧
      s.Emits B vars s' vars fun _ A => ∀ arm ∈ arms, A.module.Opens arm.2 := by
  induction cases generalizing s arms later with
  | nil =>
      cases hrun
      exact ⟨h, id, rfl, (Hosts.emits_refl _ _ _).imp fun _ _ _ _ _ => (absurd · List.not_mem_nil)⟩
  | cons arm cases ih =>
      obtain ⟨block, s₁, hblock, hrun⟩ := bind_eq_ok_iff.1 hrun
      obtain ⟨others, s₂, hothers, hrun⟩ := bind_eq_ok_iff.1 hrun
      cases hrun
      obtain ⟨h₁, hat₁, hemits₁⟩ := h.appendBlock (by decide) hblock
      obtain ⟨h', hat', hfst, hemits'⟩ := ih h₁ hothers
      refine ⟨h'.perm List.perm_middle, fun hat => hat' (hat₁ hat), ?_,
        (hemits₁.trans hemits').imp fun A _ _ hA => List.forall_mem_cons.2 hA⟩
      rw [List.map_cons, hfst]

theorem Hosts.caseTests {cases : Cases} {arms : List (SwitchCase Node × BlockId)}
    (h : s.Hosts B vars later) (hat : s.GoesOnAt B b k) (hvalue : s.module.IsScalar value t)
    (hty : s.module.types.get ty = .ok (.int t.bits))
    (hspelled : cases.Spelled B.scope (arms.map Prod.fst)) (harms : ∀ arm ∈ arms, arm.2 ∈ later)
    (hrun : (Recur.within n).caseTests value ty arms s = .ok ((), s'))
    (hclean : s'.context.errorCount = 0) :
    ∃ b' k', s'.Hosts B vars later ∧ s'.GoesOnAt B b' k' ∧ s.Emits B vars s' vars fun _ A =>
      ∀ ⦃loops endBlock autoBreak default⦄,
        A.PerformsCases loops endBlock autoBreak default cases (arms.map Prod.snd) →
        A.Performs loops b' k' endBlock 0 default →
        A.Chooses loops b k value t endBlock autoBreak default cases := by
  induction arms generalizing cases s b k with
  | nil =>
      cases hrun
      cases cases with
      | nil =>
          refine ⟨b, k, h, hat, (Hosts.emits_refl _ _ _).imp fun A _ _ _ => ?_⟩
          exact fun loops endBlock autoBreak default _ hdefault n st p x hp hmatches _ _ =>
            hdefault hp hmatches
      | cons e body rest =>
          obtain ⟨_, _, _, hnil, -⟩ := hspelled
          cases hnil
  | cons arm arms ih =>
      obtain ⟨arm, block⟩ := arm
      cases cases with
      | nil => cases hspelled
      | cons e body rest =>
          obtain ⟨node, _, _, harm, hvalueChild, he, -, hrest⟩ := hspelled
          cases harm
          obtain ⟨hblock, harms⟩ := List.forall_mem_cons.1 harms
          unfold Recur.caseTests at hrun
          obtain ⟨next, s₁, hnext, hrun⟩ := bind_eq_ok_iff.1 hrun
          obtain ⟨wanted, s₂, hwanted, hrun⟩ := bind_eq_ok_iff.1 hrun
          rw [hvalueChild] at hwanted
          obtain ⟨s₃, hbranch, hrun⟩ : ∃ s₃, (wanted.elim (liftM (Build.br next)) fun v => (do
              let found ← Build.icmp .eq value v
              Build.condBr found block next : Lower Unit)) s₂ = .ok ((), s₃) ∧ (do
                Build.positionAtEnd next
                (Recur.within n).caseTests value ty arms : Lower Unit) s₃ = .ok ((), s') := by
            cases wanted with
            | none =>
                obtain ⟨⟨⟩, s₃, hbr, hrun⟩ := bind_eq_ok_iff.1 hrun
                exact ⟨s₃, hbr, hrun⟩
            | some v =>
                obtain ⟨found, s₂', hicmp, hrun⟩ := bind_eq_ok_iff.1 hrun
                obtain ⟨⟨⟩, s₃, hcondBr, hrun⟩ := bind_eq_ok_iff.1 hrun
                exact ⟨s₃, (bind_of_ok hicmp).trans hcondBr, hrun⟩
          obtain ⟨⟨⟩, s₄, hposition, htests⟩ := bind_eq_ok_iff.1 hrun
          have hreports₃ := (later_of_build hposition).reports
          have hreports₄ := (Composed.later_of (composed_caseTests (L := .free)
            fun _ _ => inferInstance) htests).reports
          obtain ⟨h₁, hat₁, hemits₁⟩ := h.appendBlock (by decide) hnext
          have hgrows₁ := hemits₁.enlarges.grows
          replace hvalue := hvalue.mono hgrows₁
          replace hty := hgrows₁.types hty (by simp)
          cases wanted with
          | none =>
              have hreports₂ := (Lower.Composed.later
                (x := (liftM (Build.br next) : Lower Unit)) hbranch).reports
              obtain ⟨_, -, -, hsome, -⟩ := Recur.operates_coerced he h₁.ready
                (hat₁ hat).standsAt hty hwanted (by omega)
              cases hsome
          | some v =>
              obtain ⟨h₃, hemits₃⟩ := h₁.caseTest (hat₁ hat) hvalue hty he
                (List.mem_cons_of_mem next hblock) List.mem_cons_self hwanted hbranch (by omega)
              obtain ⟨h₄, hat₄, hemits₄⟩ := h₃.goOn hposition
              have hgrows₃ := hemits₃.enlarges.grows.trans hemits₄.enlarges.grows
              obtain ⟨b', k', h', hat', hemits'⟩ := ih h₄ hat₄ (hvalue.mono hgrows₃)
                (hgrows₃.types hty (by simp)) hrest harms htests
              refine ⟨b', k', h', hat',
                (hemits₁.trans (hemits₃.trans (hemits₄.trans hemits'))).imp ?_⟩
              rintro A - - ⟨-, hcompares, -, hchooses⟩ loops endBlock autoBreak default
                ⟨_, _, ⟨⟩, hbody, hothers⟩ hdefault
              exact hcompares.chooses hbody (hchooses hothers hdefault)

/-! ### The bodies -/

end Lowering

/-- The bodies of cases are lowered to code that performs them. -/
def Cases.Lowers (B : Body) : Cases → Prop
  | .nil => True
  | .cons _ body rest => body.Lowers B ∧ rest.Lowers B

/-- Bodies of cases take no reports away. -/
theorem Recur.reports_caseBodies {s s' : Lowering} {autoBreak : Bool}
    {endBlock defaultBlock : BlockId} {arms : List (SwitchCase Node × BlockId)} {n : Nat}
    (h : (within n).caseBodies autoBreak endBlock defaultBlock arms s = .ok ((), s')) :
    s.context.errorCount ≤ s'.context.errorCount := by
  induction arms generalizing s with
  | nil =>
      cases h
      exact Nat.le_refl _
  | cons arm arms ih =>
      obtain ⟨⟨⟩, s₁, harm, hrest⟩ := bind_eq_ok_iff.1 h
      exact Nat.le_trans (reports_armAt harm) (ih hrest)

/-- Making the blocks of the cases takes no reports away. -/
theorem Recur.reports_caseBlocks {s s' : Lowering} {cases : List (SwitchCase Node)}
    {arms : List (SwitchCase Node × BlockId)} (h : caseBlocks cases s = .ok (arms, s')) :
    s.context.errorCount ≤ s'.context.errorCount := by
  rw [← bind_pure (caseBlocks cases)] at h
  exact (Composed.later_of (composed_caseBlocks (L := .free) fun arms _ _ => .pure arms) h).reports

namespace Lowering

variable {s s' : Lowering} {B : Body} {vars : List LocalVar} {later : List BlockId}
  {endBlock defaultBlock : BlockId} {n : Nat} {autoBreak : Bool}

/-- The bodies, each in its block. -/
theorem Hosts.caseBodies {cases : Cases} {arms : List (SwitchCase Node × BlockId)}
    (hcases : cases.Lowers B) (h : s.Hosts B vars (arms.map Prod.snd ++ later))
    (hspelled : cases.Spelled B.scope (arms.map Prod.fst))
    (hrun : (Recur.within n).caseBodies autoBreak endBlock defaultBlock arms s = .ok ((), s'))
    (hclean : s'.context.errorCount = 0) :
    ∃ vars', s'.Hosts B vars' later ∧
      vars'.map LocalVar.declaration = vars.map LocalVar.declaration ++ cases.declared ∧
      s.Emits B vars s' vars' fun loops A => A.module.Opens endBlock → A.module.Opens defaultBlock →
        (∀ arm ∈ arms, A.module.Opens arm.2) → ∀ ⦃default : Nat → Run Flow⦄,
          A.Performs loops defaultBlock 0 endBlock 0 default →
          A.PerformsCases loops endBlock autoBreak default cases (arms.map Prod.snd) ∧
          (autoBreak = false → A.Performs loops ((arms.map Prod.snd).headD defaultBlock) 0 endBlock 0
            fun n => cases.fall n (default n)) := by
  induction arms generalizing cases s vars with
  | nil =>
      cases hrun
      cases cases with
      | nil =>
          refine ⟨vars, h, (List.append_nil _).symm, (Hosts.emits_refl _ _ _).imp fun A _ _ _ => ?_⟩
          exact fun _ _ _ default hdefault => ⟨trivial, fun _ => hdefault⟩
      | cons e body rest =>
          obtain ⟨_, _, _, hnil, -⟩ := hspelled
          cases hnil
  | cons arm arms ih =>
      obtain ⟨arm, block⟩ := arm
      cases cases with
      | nil => cases hspelled
      | cons e body rest =>
          obtain ⟨node, _, _, harm, -, -, hbody, hrest⟩ := hspelled
          cases harm
          obtain ⟨hbodyLowers, hrestLowers⟩ := hcases
          obtain ⟨⟨⟩, s₁, harm, hbodies⟩ := bind_eq_ok_iff.1 hrun
          have hreports := Recur.reports_caseBodies hbodies
          obtain ⟨vars₁, h₁, hvars₁, hemits₁⟩ := h.armAt hbodyLowers hbody harm (by omega)
          obtain ⟨vars', h', hvars, hemits'⟩ := ih hrestLowers h₁ hrest hbodies
          refine ⟨vars', h', ?_, (hemits₁.trans hemits').imp ?_⟩
          · rw [hvars, hvars₁, List.append_assoc, Cases.declared]
          · rintro A - - ⟨hperforms, hothers⟩ hend hdefaultBlock harms default hdefault
            obtain ⟨hblock, harms⟩ := List.forall_mem_cons.1 harms
            obtain ⟨hcases, hfall⟩ := hothers hend hdefaultBlock harms hdefault
            cases autoBreak with
            | true =>
                have hfirst := (hperforms hend).andThen Activation.performs_skip
                exact ⟨⟨block, _, rfl, hfirst, hcases⟩, nofun⟩
            | false =>
                have hfirst : A.Performs s.pass.loops block 0 endBlock 0 fun n =>
                    (body.exec n).andThen (rest.fall n (default n)) := by
                  cases arms with
                  | nil => exact (hperforms hdefaultBlock).andThen (hfall rfl)
                  | cons following arms =>
                      exact (hperforms (harms _ List.mem_cons_self)).andThen (hfall rfl)
                exact ⟨⟨block, _, rfl, hfirst, hcases⟩, fun _ => hfirst⟩

/-! ### The default -/

variable {child : Option Node} {stmt : Stmt}

/-- A block is made for the default, which is the end of the switch if there is none. -/
theorem Hosts.appendDefault (h : s.Hosts B vars (endBlock :: later))
    (hrun : (if child.isSome then Lower.appendBlock "switch.default" else pure endBlock :
      Lower BlockId) s = .ok (defaultBlock, s')) :
    s'.Hosts B vars (child.toList.map (fun _ => defaultBlock) ++ endBlock :: later) ∧
      (∀ {b k}, s.GoesOnAt B b k → s'.GoesOnAt B b k) ∧
      (child = none → defaultBlock = endBlock) ∧
      s.Emits B vars s' vars fun _ A => A.module.Opens endBlock → A.module.Opens defaultBlock := by
  cases child with
  | none =>
      cases hrun
      exact ⟨h, id, fun _ => rfl, (Hosts.emits_refl _ _ _).imp fun _ _ _ _ => id⟩
  | some node =>
      obtain ⟨h', hat', hemits⟩ := h.appendBlock (by decide) hrun
      exact ⟨h', hat', nofun, hemits.imp fun _ _ _ hopens _ => hopens⟩

theorem Hosts.defaultArm (hstmt : stmt.Lowers B) (hspelled : stmt.Spelled B.scope child)
    (h : s.Hosts B vars (child.toList.map (fun _ => defaultBlock) ++ later))
    (hblock : child = none → defaultBlock = endBlock)
    (hrun : (if child.isSome then (Recur.within n).armAt defaultBlock child endBlock else pure () :
      Lower Unit) s = .ok ((), s')) (hclean : s'.context.errorCount = 0) :
    s.RendersTo B vars later defaultBlock 0 endBlock (fun rounds => stmt.exec rounds) stmt.declared
      s' := by
  cases child with
  | none =>
      cases hrun
      obtain rfl := Stmt.eq_skip_of_spelled hspelled
      rw [hblock rfl]
      exact ⟨vars, h, (List.append_nil _).symm,
        (Hosts.emits_refl _ _ _).imp fun _ _ _ _ _ => Activation.performs_skip⟩
  | some node => exact h.armAt hstmt hspelled hrun hclean

end Lowering

theorem Stmt.lowers_switch {B : Body} {cases : Cases} {default : Stmt} (value : Expr)
    (autoBreak : Bool) (hcases : cases.Lowers B) (hdefault : default.Lowers B) :
    (Stmt.switch value cases default autoBreak).Lowers B := by
  rintro n s s' child vars later b k ⟨node, scrutinee, children, other, rfl, hkind, hvalue,
    hchildren, hother⟩ h hat hrun hclean
  refine h.renders_node hat hrun hclean fun m res s₁ h hat hlower hclean => ?_
  generalize s.entered node.span = s at h hat hlower
  unfold Recur.lowerKind at hlower
  rw [hkind] at hlower
  obtain ⟨o, hlower⟩ := Attempt.noValue_eq_ok hlower
  unfold Recur.switch at hlower
  rcases Attempt.bind_cases hlower with ⟨v, s₂, hscrutinee, hlower⟩ | ⟨hscrutinee, -⟩
  case inr =>
    obtain ⟨_, -, -, -, hsome, -⟩ :=
      (Recur.handles_within m).value hvalue h.ready hat.standsAt hscrutinee hclean
    cases hsome
  obtain ⟨ty, m₂, hty, hlower⟩ := Attempt.bind_build hlower
  obtain ⟨ir, m₃, hir, hlower⟩ := Attempt.bind_build hlower
  by_cases hint : ir.isInt = true
  case neg =>
    rw [if_pos hint] at hlower
    obtain ⟨_, _, -, hlower⟩ := Attempt.bind_lift hlower
    have hpos : 0 < s₁.context.errorCount := by
      rcases Attempt.bind_cases hlower with ⟨_, _, hreject, -⟩ | ⟨hreject, -⟩
      · obtain ⟨⟨⟩, _, -, hnone⟩ := Attempt.bind_lift hreject
        cases hnone
      · exact errorCount_reject hreject
    omega
  rw [if_neg (not_not.2 hint)] at hlower
  obtain ⟨endBlock, s₃, hendBlock, hlower⟩ := Attempt.bind_lift hlower
  obtain ⟨defaultBlock, s₄, hdefaultBlock, hlower⟩ : ∃ d s₄, (if other.isSome then
        Lower.appendBlock "switch.default" else pure endBlock : Lower BlockId) s₃ = .ok (d, s₄) ∧ (do
      let arms ← OptionT.lift (Recur.caseBlocks children)
      (Recur.within m).caseTests v ty arms
      Build.br d
      withTargets ⟨endBlock, none⟩ do
        (Recur.within m).caseBodies autoBreak endBlock d arms
        if other.isSome then (Recur.within m).armAt d other endBlock
      Build.positionAtEnd endBlock : Attempt Unit) s₄ = .ok (o, s₁) := by
    cases other with
    | none => exact ⟨endBlock, s₃, rfl, hlower⟩
    | some node =>
        obtain ⟨d, s₄, hd, hlower⟩ := Attempt.bind_lift hlower
        exact ⟨d, s₄, hd, hlower⟩
  obtain ⟨arms, s₅, harms, hlower⟩ := Attempt.bind_lift hlower
  obtain ⟨⟨⟩, s₆, htests, hlower⟩ := Attempt.bind_lift hlower
  obtain ⟨⟨⟩, s₇, hbr, hlower⟩ := Attempt.bind_lift hlower
  obtain ⟨⟨⟩, s₈, htargets, hlower⟩ := Attempt.bind_lift hlower
  obtain ⟨⟨⟩, hposition, -⟩ := Attempt.lift_eq_ok hlower
  obtain ⟨s₉, hinside, hback⟩ := withTargets_eq_ok htargets
  obtain ⟨⟨⟩, s₁₀, hbodies, hdefaultArm⟩ := bind_eq_ok_iff.1 hinside
  -- No part reports anything.
  have hreports₂ : s₂.context.errorCount ≤ s₄.context.errorCount := by
    refine Nat.le_trans (later_of_appendBlock hendBlock).reports ?_
    cases other with
    | none =>
        cases hdefaultBlock
        exact Nat.le_refl _
    | some node => exact (later_of_appendBlock hdefaultBlock).reports
  have hreports₄ := Recur.reports_caseBlocks harms
  have hreports₅ := (Composed.later_of (composed_caseTests (L := .free)
    fun _ _ => inferInstance) htests).reports
  have hreports₆ := (later_of_build hbr).reports
  have hreports₇ := Recur.reports_caseBodies hbodies
  replace hreports₇ : s₇.context.errorCount ≤ s₁₀.context.errorCount := hreports₇
  have hreports₁₀ : s₁₀.context.errorCount ≤ s₉.context.errorCount := by
    cases other with
    | none =>
        cases hdefaultArm
        exact Nat.le_refl _
    | some node => exact Recur.reports_armAt hdefaultArm
  have hclean₉ : s₉.context.errorCount = 0 := by
    have hreports₈ := (later_of_build hposition).reports
    rw [hback] at hreports₈
    exact Nat.le_zero.1 (hclean ▸ hreports₈)
  -- The value.
  obtain ⟨_, b', k', t, hsome, hoperates⟩ :=
    (Recur.handles_within m).value hvalue h.ready hat.standsAt hscrutinee (by omega)
  cases hsome
  obtain ⟨h₂, hat₂, hv, hemits₂⟩ :=
    h.of_operates (x := ((Recur.within m).value (some scrutinee)).run) hat hscrutinee hoperates
  obtain ⟨d, hd, ht⟩ := id hv
  cases (Build.typeOf_of_ok hd).symm.trans hty
  cases (Build.typeAt_of_ok ht).symm.trans hir
  -- The blocks.
  obtain ⟨h₃, hat₃, hemits₃⟩ := h₂.appendBlock (by decide) hendBlock
  obtain ⟨h₄, hat₄, hend, hemits₄⟩ := h₃.appendDefault hdefaultBlock
  obtain ⟨h₅, hat₅, hfst, hemits₅⟩ := h₄.caseBlocks harms
  subst hfst
  have hgrows := hemits₃.enlarges.grows.trans
    (hemits₄.enlarges.grows.trans hemits₅.enlarges.grows)
  -- The comparisons.
  obtain ⟨b₆, k₆, h₆, hat₆, hemits₆⟩ := h₅.caseTests (hat₅ (hat₄ (hat₃ hat₂))) (hv.mono hgrows)
    (hgrows.types ht (by simp)) hchildren
    (fun arm harm => List.mem_append_left _ (List.mem_map_of_mem harm)) htests (by omega)
  obtain ⟨h₇, hemits₇⟩ := h₆.br hat₆ hbr
  -- The bodies.
  have hbegin : Lowering.Hosts { s₇ with pass := { s₇.pass with
      loops := ⟨endBlock, none⟩ :: s₇.pass.loops } } B vars
      (arms.map Prod.snd ++ (other.toList.map (fun _ => defaultBlock) ++ endBlock :: later)) :=
    h₇.withPass rfl rfl rfl rfl rfl
  obtain ⟨vars₁, h₁₀, hvars₁, hemits₁₀⟩ := hbegin.caseBodies hcases hchildren hbodies (by omega)
  obtain ⟨vars', h₉, hvars, hemits₉⟩ := h₁₀.defaultArm hdefault hother hend hdefaultArm hclean₉
  have h₈ : s₈.Hosts B vars' (endBlock :: later) := by
    rw [hback]
    exact h₉.withPass rfl rfl rfl rfl rfl
  obtain ⟨h', hat', hemits'⟩ := h₈.goOn hposition
  have hemits₈ := (hemits₁₀.trans hemits₉).withTargets hback
  refine ⟨vars', endBlock, 0, h', hat', ?_, (hemits₂.trans (hemits₃.trans (hemits₄.trans
    (hemits₅.trans (hemits₆.trans (hemits₇.trans (hemits₈.trans hemits'))))))).imp ?_⟩
  · rw [hvars, hvars₁, List.append_assoc, declared]
  · rintro A - - ⟨hcomputes, hopensEnd, hopensDefault, hopensArms, hchooses, hjumps, hbodies, -⟩
      n st p hp hmatches
    replace hopensDefault := hopensDefault hopensEnd
    obtain ⟨hbodies, hdefault⟩ := hbodies ⟨hopensEnd, fun _ hc => by cases hc⟩
    replace hdefault := hdefault hopensEnd
    obtain ⟨hbodies, -⟩ := hbodies hopensEnd hopensDefault hopensArms hdefault
    have hchoose := hchooses hbodies (hjumps.performs hopensDefault hdefault)
    refine Point.Simulates.ofOption rfl (hcomputes hp hmatches) hmatches
      fun x q _ hpath _ hq hmatches hx => ?_
    exact (hchoose hq hmatches hx.1 hx.2).endSwitch.of_reaches hpath

/-! ### All statements -/

mutual

/-- Every statement is lowered to code that performs it, to any depth. -/
theorem Stmt.lowers (B : Body) : ∀ stmt : Stmt, stmt.Lowers B
  | .skip => Stmt.lowers_skip
  | .declare ty vars => Stmt.lowers_declare ty vars
  | .assign op x value => Stmt.lowers_assign op x value
  | .print args => Stmt.lowers_print args
  | .block stmts => Stmt.lowers_block (Stmts.lowers B stmts)
  | .ifElse cond thenDo elseDo =>
      Stmt.lowers_ifElse cond (Stmt.lowers B thenDo) (Stmt.lowers B elseDo)
  | .whileLoop cond body => Stmt.lowers_whileLoop cond (Stmt.lowers B body)
  | .forLoop init cond step body =>
      Stmt.lowers_forLoop cond (Stmt.lowers B init) (Stmt.lowers B step) (Stmt.lowers B body)
  | .switch value cases default autoBreak =>
      Stmt.lowers_switch value autoBreak (Cases.lowers B cases) (Stmt.lowers B default)
  | .breakOut => Stmt.lowers_breakOut
  | .nextRound => Stmt.lowers_nextRound
  | .leave value => Stmt.lowers_leave value

theorem Stmts.lowers (B : Body) : ∀ stmts : Stmts, stmts.Lowers B
  | .nil => Stmts.lowers_nil
  | .cons first rest => Stmts.lowers_cons (Stmt.lowers B first) (Stmts.lowers B rest)

theorem Cases.lowers (B : Body) : ∀ cases : Cases, cases.Lowers B
  | .nil => trivial
  | .cons _ body rest => ⟨Stmt.lowers B body, Cases.lowers B rest⟩

end

end SsaCompiler
