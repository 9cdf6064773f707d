/-
# Single statements

What a statement is lowered to performs it. Here are the statements that have no others in them
besides declarations and assignments: prints, and the jumps out of loops, switches and functions. A
jump ends its block, and what comes behind it goes into a block to which control does not come.
-/

import SsaCompiler.Proofs.Structured.Body

namespace SsaCompiler

open Lower

section

variable {s s' : Lowering} {res : Option Operand}

/-- A statement answers without a value. -/
theorem Lower.noValue_eq_ok {x : Lower Unit} (h : noValue x s = .ok (res, s')) :
    x s = .ok ((), s') := by
  obtain ⟨⟨⟩, _, hrun, hend⟩ := bind_eq_ok_iff.1 h
  cases hend
  exact hrun

theorem Attempt.noValue_eq_ok {x : Attempt Unit} (h : x.noValue s = .ok (res, s')) :
    ∃ o, x s = .ok (o, s') := by
  obtain ⟨o, _, hrun, hend⟩ :=
    (bind_eq_ok_iff (f := fun _ => pure ())).1 (Lower.noValue_eq_ok (x := discard x.run) h)
  cases hend
  exact ⟨o, hrun⟩

end

namespace Lowering

variable {s s₁ s' : Lowering} {B : Body} {vars : List LocalVar} {later : List BlockId}
  {b : BlockId} {k n : Nat} {x y : Nat → Run Flow} {ds ds' : List (Name × ScalarType)}

/-- Between two states code has been written that performs what statements do, and the variables that
they declare have got rooms. -/
def Renders (s : Lowering) (B : Body) (vars : List LocalVar) (later : List BlockId) (b : BlockId)
    (k : Nat) (x : Nat → Run Flow) (ds : List (Name × ScalarType)) (s' : Lowering) : Prop :=
  ∃ vars' b' k', s'.Hosts B vars' later ∧ s'.GoesOnAt B b' k' ∧
    vars'.map LocalVar.declaration = vars.map LocalVar.declaration ++ ds ∧
    s.Emits B vars s' vars' fun loops A => A.Performs loops b k b' k' x

theorem Hosts.emits_refl (s : Lowering) (B : Body) (vars : List LocalVar) :
    s.Emits B vars s vars fun _ _ => True :=
  ⟨rfl, .refl _, List.Subset.refl _, fun _ _ _ => trivial⟩

theorem Hosts.renders_skip (h : s.Hosts B vars later) (hat : s.GoesOnAt B b k) :
    s.Renders B vars later b k (fun _ => return .next) [] s :=
  ⟨vars, b, k, h, hat, (List.append_nil _).symm,
    (Hosts.emits_refl s B vars).imp fun _ _ _ _ => Activation.performs_skip⟩

theorem Renders.andThen (h : s.Renders B vars later b k x ds s₁)
    (h' : ∀ ⦃vars₁ b₁ k₁⦄, s₁.Hosts B vars₁ later → s₁.GoesOnAt B b₁ k₁ →
      s₁.Renders B vars₁ later b₁ k₁ y ds' s') :
    s.Renders B vars later b k (fun n => (x n).andThen (y n)) (ds ++ ds') s' := by
  obtain ⟨vars₁, b₁, k₁, hhosts₁, hat₁, hvars₁, hemits₁⟩ := h
  obtain ⟨vars', b', k', hhosts, hat, hvars, hemits⟩ := h' hhosts₁ hat₁
  refine ⟨vars', b', k', hhosts, hat, ?_,
    (hemits₁.trans hemits).imp fun _ _ _ hA => hA.1.andThen hA.2⟩
  rw [hvars, hvars₁, List.append_assoc]

/-- Behind a jump code goes on in a block of its own. -/
theorem Hosts.startDeadBlock (h : s.Hosts B vars later)
    (hrun : Lower.startDeadBlock s = .ok ((), s')) :
    ∃ d, s'.Hosts B vars later ∧ s'.GoesOnAt B d 0 ∧ s.Emits B vars s' vars fun _ _ => True := by
  obtain ⟨d, s₁, hblock, hposition⟩ := bind_eq_ok_iff.1 hrun
  obtain ⟨h₁, -, hemits₁⟩ := h.appendBlock (by decide) hblock
  obtain ⟨h', hat', hemits'⟩ := h₁.goOn hposition
  exact ⟨d, h', hat', (hemits₁.trans hemits').imp fun _ _ _ _ => trivial⟩

/-- A jump to one of the places to which jumps out of the loops lead. -/
theorem Hosts.renders_jump {c : BlockId} {flow : Flow} (h : s.Hosts B vars later)
    (hat : s.GoesOnAt B b k)
    (hrun : (do Build.br c; Lower.startDeadBlock : Lower Unit) s = .ok ((), s'))
    (hopens : ∀ {A : Activation}, A.Opens s.pass.loops → A.module.Opens c)
    (hflow : ∀ {A : Activation} {b' k' n p q st}, A.Reaches p q → q.At c 0 → A.Matches st q →
      p.Simulates A s.pass.loops b' k' n (.ok flow st)) :
    s.Renders B vars later b k (fun _ => return flow) [] s' := by
  obtain ⟨⟨⟩, s₁, hbr, hdead⟩ := bind_eq_ok_iff.1 hrun
  obtain ⟨h₁, hemits₁⟩ := h.br hat hbr
  obtain ⟨d, h', hat', hemits'⟩ := h₁.startDeadBlock hdead
  refine ⟨vars, d, 0, h', hat', (List.append_nil _).symm, (hemits₁.trans hemits').imp ?_⟩
  rintro A - hloops ⟨hjumps, -⟩ n st p hp hmatches
  exact hflow (Relation.ReflTransGen.single ((hjumps hp).step_opens (hopens hloops))) ⟨rfl, rfl⟩
    (hmatches.tick c 0)

/-! ### Statements as nodes -/

/-- A statement is lowered by the kind of its node. -/
theorem Hosts.renders_node {node : Node} (h : s.Hosts B vars later) (hat : s.GoesOnAt B b k)
    (hrun : (Recur.within n).statement (some node) s = .ok ((), s'))
    (hclean : s'.context.errorCount = 0)
    (hkind : ∀ ⦃m res s₁⦄, (s.entered node.span).Hosts B vars later →
      (s.entered node.span).GoesOnAt B b k →
      (Recur.within m).lowerKind node (s.entered node.span) = .ok (res, s₁) →
      s₁.context.errorCount = 0 → (s.entered node.span).Renders B vars later b k x ds s₁) :
    s.Renders B vars later b k x ds s' := by
  obtain ⟨res, _, hchild, hend⟩ := (bind_eq_ok_iff (f := fun _ => pure ())).1 hrun
  cases hend
  cases n with
  | zero => cases hchild
  | succ m =>
      obtain ⟨s₁, hlower, hmarks, -⟩ := Recur.lowerNode_eq_ok h.func h.fatal hchild
      have hentered : (s.entered node.span).Hosts B vars later := h.withPass rfl rfl rfl rfl rfl
      rw [hmarks.context] at hclean
      obtain ⟨vars', b', k', hhosts, hat, hvars, hemits⟩ :=
        hkind hentered ⟨hat.standsAt, hat.ne⟩ hlower hclean
      refine ⟨vars', b', k', hhosts.withPass hmarks.context hmarks.names hmarks.module ?_ ?_,
        ⟨?_, hat.ne⟩, hvars, hemits.withPass rfl rfl hmarks.module ?_⟩
      · rw [hmarks.pass]
      · rw [hmarks.pass]
      · rw [hmarks.module]
        exact hat.standsAt
      · rw [hmarks.pass]

end Lowering

/-- A statement is lowered to code that performs it. -/
def Stmt.Lowers (stmt : Stmt) (B : Body) : Prop :=
  ∀ ⦃n s s' child vars later b k⦄, stmt.Spelled B.scope child → s.Hosts B vars later →
    s.GoesOnAt B b k → (Recur.within n).statement child s = .ok ((), s') →
    s'.context.errorCount = 0 →
    s.Renders B vars later b k (fun rounds => stmt.exec rounds) stmt.declared s'

variable {B : Body}

theorem Stmt.lowers_skip : Stmt.skip.Lowers B := by
  rintro n s s' child vars later b k rfl hhosts hat hrun -
  cases hrun
  exact hhosts.renders_skip hat

/-! ### Prints -/

/-- The variables and the texts are where they were, and a line has been printed. -/
theorem Point.IsAtLine.follows {A : Activation} {loops : List JumpTargets} {b : BlockId} {k n : Nat}
    {p : Point} {st : Store} {line : String} (hp : A.Matches st p)
    (h : p.IsAtLine A.module A.limits A.call A.name b k line) :
    p.Simulates A loops b (k + 1) n (.ok .next { st with output := st.output ++ line }) := by
  rcases h.prints with ⟨id, v, hroom, hstep⟩ | ⟨-, hstops⟩
  · rw [hp.output] at hstep
    have hrooms := Point.sameRooms_bind (p := p) hroom b (k + 1) v
      { p.state.tick with output := st.output ++ line }
    exact .next (Relation.ReflTransGen.single hstep) ⟨rfl, rfl⟩
      (hp.of_sameMemory hrooms rfl rfl rfl)
  · exact .limit .refl hstops trivial

theorem Stmt.lowers_print (args : List Expr) : (Stmt.print args).Lowers B := by
  rintro n s s' child vars later b k ⟨node, nodes, rfl, hkind, hspelled⟩ h hat hrun hclean
  refine h.renders_node hat hrun hclean fun m res s₁ h hat hlower hclean => ?_
  generalize s.entered node.span = s at h hat hlower
  obtain ⟨o, hprint⟩ : ∃ o, (Recur.within m).print (nodes.map some) node.span s = .ok (o, s₁) := by
    unfold Recur.lowerKind at hlower
    rw [hkind] at hlower
    exact Attempt.noValue_eq_ok hlower
  have hspelled' : List.Forall₂ (fun arg node => arg.Spelled B.scope s.names node)
      (args.map Printed.value) nodes := List.forall₂_map_left_iff.2 hspelled
  obtain ⟨b', k', hline⟩ := Recur.printsLine_print hspelled' h.ready h.known
    hat.standsAt hprint hclean
  obtain ⟨table, hcontext⟩ := hline.context
  obtain ⟨d, hd, -⟩ := h.entry
  have hhosts : s₁.Hosts B vars later := by
    refine h.advance (x := ((Recur.within m).print (nodes.map some) node.span).run) hprint
      ?_ ?_ ?_ (hline.others _ hat.ne.symm (Module.block_lt hd))
    · rw [hline.pass]
    · rw [hcontext]
    · rw [hcontext]
  refine ⟨vars, b', k' + 1, hhosts, ⟨hline.stop, ?_⟩, (List.append_nil _).symm, ?_,
    ⟨hline.grows, hline.globals⟩, List.Subset.refl _, fun A hA _ n st p hp hmatches => ?_⟩
  · rcases hline.fresh with rfl | hle
    · exact hat.ne
    · rintro rfl
      have hlt := Module.block_lt hd
      omega
  · rw [hline.pass]
  · have htexts := (hmatches.holdsTexts hA.texts).mono hA.enlarges.grows hA.enlarges.globals
    have hyields : p.Yields A.module A.call A.name s.module.values.size b' k' _ fun texts q =>
        q.IsAtLine A.module A.limits A.call A.name b' k' (Printed.line texts) :=
      hline.runs hA.enlarges.grows hA.external hp.block hp.next (h.agrees hA.subset hmatches) htexts
    have hlines : p.Yields A.module A.call A.name s.module.values.size b' k' _ fun line q =>
        q.IsAtLine A.module A.limits A.call A.name b' k' line := hyields.map fun _ _ _ hq => hq
    refine Point.Simulates.ofOption rfl hlines hmatches ?_
    intro line q _ hpath hkeeps hq hmatches hline
    exact (hline.follows hmatches).of_reaches hpath

/-! ### Jumps out of loops and switches -/

/-- A jump out of a loop or a switch. -/
theorem Stmt.lowers_breakOut : Stmt.breakOut.Lowers B := by
  rintro n s s' child vars later b k ⟨node, rfl, hkind⟩ h hat hrun hclean
  refine h.renders_node hat hrun hclean fun m res s₁ h hat hlower hclean => ?_
  generalize s.entered node.span = s at h hat hlower
  unfold Recur.lowerKind at hlower
  rw [hkind] at hlower
  replace hlower := Lower.noValue_eq_ok hlower
  unfold Lower.breakOut at hlower
  rw [bind_of_ok (get_apply s)] at hlower
  cases hloops : s.pass.loops with
  | nil =>
      rw [hloops] at hlower
      cases hlower
      exact absurd hclean (Nat.ne_of_gt (s.context.diagnostics.errorCount_push_pos _))
  | cons t rest =>
      rw [hloops] at hlower
      refine h.renders_jump hat hlower (fun hopens => (hopens t ?_).1) fun hpath hq hmatches => ?_
      · rw [hloops]
        exact List.mem_cons_self
      · exact .breakOut (by rw [hloops]; rfl) hpath hq hmatches

/-- A jump to the next round of a loop. -/
theorem Stmt.lowers_nextRound : Stmt.nextRound.Lowers B := by
  rintro n s s' child vars later b k ⟨node, rfl, hkind⟩ h hat hrun hclean
  refine h.renders_node hat hrun hclean fun m res s₁ h hat hlower hclean => ?_
  generalize s.entered node.span = s at h hat hlower
  unfold Recur.lowerKind at hlower
  rw [hkind] at hlower
  replace hlower := Lower.noValue_eq_ok hlower
  unfold Lower.continueLoop at hlower
  rw [bind_of_ok (get_apply s)] at hlower
  cases hloops : s.pass.loops.findSome? (·.continueTo) with
  | none =>
      rw [hloops] at hlower
      cases hlower
      exact absurd hclean (Nat.ne_of_gt (s.context.diagnostics.errorCount_push_pos _))
  | some c =>
      rw [hloops] at hlower
      obtain ⟨t, ht, htarget⟩ := List.exists_of_findSome?_eq_some hloops
      exact h.renders_jump hat hlower (fun hopens => (hopens t ht).2 c htarget)
        fun hpath hq hmatches => .nextRound hloops hpath hq hmatches

end SsaCompiler
