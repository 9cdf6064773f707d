/-
# Branches, loops and jumps

Inside a function a statement starts and ends with code being written. In between, the blocks of
a branch, a loop or a switch are open, and each of them ends before the statement does: it is
taken up once, and then continues in another block of the same statement. Behind a jump a block
that control does not reach is taken up.
-/

import SsaCompiler.Proofs.ControlFlow.Expression

namespace SsaCompiler

open Lower

variable {α : Type} {m : Module} {f : FunctionState} {blocks : List BlockId}
  {thenTo elseTo : BlockId} {g : FunctionId} {r : Recur} [r.Sound]

/-! ### Conditions -/

section

variable [Reserved f blocks] [m.HasBlock f.id thenTo] [m.HasBlock f.id elseTo]

/-- A chain of terms ends in one of the two blocks. -/
instance (op : LogicalOp) (terms : List (Option Node)) [hterms : AllLinked terms] :
    Leads m (Busy f blocks) (r.logicalCondition op thenTo elseTo terms)
      (fun _ => Idle f blocks) fun _ _ => True := by
  induction terms generalizing m hterms with
  | nil =>
      unfold Recur.logicalCondition
      infer_instance
  | cons term rest ih =>
      obtain ⟨hterm, hrest⟩ := hterms.cons
      cases rest with
      | nil =>
          unfold Recur.logicalCondition
          infer_instance
      | cons second others =>
          unfold Recur.logicalCondition
          refine .bind ?_
          rintro next m₁ _ ⟨hfresh, hnext⟩
          have hgoOn (m₂ : Module) [m₂.HasBlock f.id next] [m₂.HasBlock f.id thenTo]
              [m₂.HasBlock f.id elseTo] :
              Leads m₂ (Idle f (next :: blocks)) (do
                (Build.positionAtEnd next : Build Unit)
                r.logicalCondition op thenTo elseTo (second :: others))
                (fun _ => Idle f blocks) fun _ _ => True :=
            .seq (takeUp_leads (fun c => List.mem_cons) hfresh) fun _ _ _ _ => ih
          cases op with
          | and => exact .bind fun _ m₂ _ _ => hgoOn m₂
          | or => exact .bind fun _ m₂ _ _ => hgoOn m₂

end

instance (op : BinaryOp) (previous : Operand) (term : Option Node) {scope : Option FunctionId}
    [m.Avail scope previous.value] [Linked term] :
    Straight m scope (r.compareStep op previous term).run
      (OnSome fun m p => m.Avail scope p.1.value ∧ m.Avail scope p.2) := by
  unfold Recur.compareStep
  refine .andThen ?_
  intro next m₁ _ hnext
  refine .andThen ?_
  intro result m₂ _ hresult
  refine .andThen ?_
  intro value m₃ _ hvalue
  refine .andThen ?_
  intro truth m₄ _ htruth
  exact .some fun _ => ⟨inferInstance, inferInstance⟩

section

variable [Reserved f blocks] [m.HasBlock f.id thenTo] [m.HasBlock f.id elseTo]

/-- A chain of comparisons ends in one of the two blocks when it compares something. -/
theorem Recur.compareChain_leads (previous : Operand) {rest : List (BinaryOp × Option Node)}
    (hne : rest ≠ []) [m.Avail (some f.id) previous.value]
    [hrest : AllLinked (rest.map Prod.snd)] :
    Leads m (Busy f blocks) (r.compareChain thenTo elseTo previous rest)
      (fun _ => Idle f blocks) fun _ _ => True := by
  induction rest generalizing m previous hrest with
  | nil => exact absurd rfl hne
  | cons first others ih =>
      obtain ⟨op, term⟩ := first
      obtain ⟨hterm, hothers⟩ := hrest.cons
      unfold Recur.compareChain
      refine .bind ?_
      intro o m₁ _ ho
      cases o with
      | none => infer_instance
      | some p =>
          obtain ⟨next, truth⟩ := p
          obtain ⟨hnext, htruth⟩ := ho _ rfl
          cases others with
          | nil => exact inferInstanceAs (Leads _ _ (liftM (Build.condBr truth thenTo elseTo)) _ _)
          | cons second others =>
              refine .bind ?_
              rintro cont m₂ _ ⟨hfresh, hcont⟩
              refine .bind fun _ m₃ _ _ => ?_
              refine .seq (takeUp_leads (fun c => List.mem_cons) hfresh) fun _ m₄ _ _ => ?_
              exact ih next (List.cons_ne_nil _ _)

/-- A condition ends in one of its two blocks. -/
instance (cond : Option Node) [hcond : Linked cond] :
    Leads m (Busy f blocks) (r.conditionOf cond thenTo elseTo)
      (fun _ => Idle f blocks) fun _ _ => True := by
  unfold Recur.conditionOf
  split
  · rename_i op terms hterms
    obtain ⟨node, rfl, hkind⟩ := Option.map_eq_some_iff.1 hterms
    have : AllLinked terms := (hcond.chained rfl).children hkind
    infer_instance
  · rename_i first rest hterms
    obtain ⟨node, rfl, hkind⟩ := Option.map_eq_some_iff.1 hterms
    have hchained := hcond.chained rfl
    obtain ⟨hfirst, hrest⟩ := (hchained.children hkind).cons
    have hne : rest ≠ [] := by
      rintro rfl
      obtain ⟨hhere, -⟩ := hchained
      exact hhere first hkind
    refine .bind ?_
    intro o m₁ _ ho
    cases o with
    | none => infer_instance
    | some previous =>
        have := ho previous rfl
        exact Recur.compareChain_leads previous hne
  · have htruth : Straight m (some f.id) (do
        let value ← r.value cond
        Lower.toBool value (childSpan cond) : Attempt ValueId).run
        (OnSome fun m v => m.Avail (some f.id) v) := by
      refine .andThen ?_
      intro value m₁ _ hvalue
      infer_instance
    refine .bind ?_
    intro o m₁ _ ho
    cases o with
    | none => infer_instance
    | some truth =>
        have := ho truth rfl
        infer_instance

end

/-- A chain as a value: outside all functions it is refused. -/
instance (node : Node) {scope : Option FunctionId} [Linked (some node)] :
    Straight m scope (r.boolChain node).run (OnSome fun m op => m.Avail scope op.value) := by
  unfold Recur.boolChain
  refine .andThen ?_
  intro s m₁ _ hs
  dsimp only
  split
  · exact .refuse inferInstance
  · rename_i hinside
    cases scope with
    | none =>
        have hfunc : s.pass.func = none := Option.map_eq_none_iff.1 hs.pass.inScope
        exact absurd (by rw [hfunc]; rfl) hinside
    | some g =>
        refine Straight.of_leads ?_
        rintro fs blocks rfl hreserved
        refine .andThen ?_
        rintro trueBlock m₂ _ ⟨htrue, _⟩
        refine .andThen ?_
        rintro falseBlock m₃ _ ⟨hfalse, _⟩
        refine .andThen ?_
        rintro join m₄ _ ⟨hjoin, _⟩
        refine .andThen fun _ m₅ _ _ => .andThen fun truth m₆ _ _ => ?_
        refine .andTakeUp (join :: falseBlock :: blocks) (by grind) (by grind) fun m₇ _ => ?_
        refine .andThen ?_
        intro yes m₈ _ hyes
        refine .andThen fun _ m₉ _ _ => ?_
        refine .andTakeUp (join :: blocks) (by grind) (by grind) fun m₁₀ _ => ?_
        refine .andThen ?_
        intro no m₁₁ _ hno
        refine .andThen fun _ m₁₂ _ _ => ?_
        refine .andTakeUp blocks (by grind) (by grind) fun m₁₃ _ => ?_
        have : m₁₃.AllAvail (some fs.id) ([(yes, trueBlock), (no, falseBlock)].map Prod.fst) :=
          inferInstanceAs (Module.AllAvail _ _ [yes, no])
        refine .andThen ?_
        intro value m₁₄ _ hvalue
        refine .pure id fun _ op hop => ?_
        cases hop
        infer_instance

/-! ### Statements -/

/-- Jumps lead to blocks of the current function, also when some loops are put around or taken
away. -/
theorem Lower.modifyLoops_leads {P : Module → Prop} {g : List JumpTargets → List JumpTargets}
    (hg : ∀ {loops}, ∀ t ∈ g loops, t ∈ loops ∨ t.In m (some f.id)) :
    Leads m (Lowering.Within (some f) P) (modifyPass fun p => { p with loops := g p.loops })
      (fun _ => Lowering.Within (some f) P) fun _ _ => True :=
  modifyPass_leads (fun _ h => ⟨h.inScope, h.entry, fun t ht =>
    (hg t ht).elim (h.loops t) fun h => h.mono, h.tries, h.pending⟩) fun _ => rfl

/-- Jumps out of a loop or a switch lead to blocks of the same function while its body is
lowered, and afterwards. -/
theorem Lower.withTargets_leads {P Q : Module → Prop} {targets : JumpTargets} {body : Lower Unit}
    (htargets : targets.In m (some f.id))
    (hbody : Leads m (Lowering.Within (some f) P) body (fun _ => Lowering.Within (some f) Q)
      fun _ _ => True) :
    Leads m (Lowering.Within (some f) P) (withTargets targets body)
      (fun _ => Lowering.Within (some f) Q) fun _ _ => True := by
  unfold withTargets
  refine .bind fun s m₁ hm₁ _ => ?_
  refine .seq (modifyLoops_leads fun t ht => ?_) fun _ m₂ hm₂ _ => ?_
  · rcases List.mem_cons.1 ht with rfl | ht
    · exact .inr htargets.mono
    · exact .inl ht
  · refine .seq (hbody.mono (hm₁.trans hm₂)) fun _ _ _ _ => ?_
    let close (loops : List JumpTargets) := loops.drop (loops.length - s.pass.loops.length)
    exact modifyLoops_leads (g := close) fun _ ht => .inl (List.mem_of_mem_drop ht)

theorem JumpTargets.In.loop (breakTo continueTo : BlockId) [m.HasBlock g breakTo]
    [m.HasBlock g continueTo] : JumpTargets.In m (some g) ⟨breakTo, some continueTo⟩ := by
  intro f hf
  cases hf
  refine ⟨inferInstance, fun c hc => ?_⟩
  cases hc
  infer_instance

theorem JumpTargets.In.switch (breakTo : BlockId) [m.HasBlock g breakTo] :
    JumpTargets.In m (some g) ⟨breakTo, none⟩ := by
  intro f hf
  cases hf
  exact ⟨inferInstance, fun c hc => by cases hc⟩

instance (stmts : List (Option Node)) {scope : Option FunctionId} [hstmts : AllLinked stmts] :
    Straight m scope (r.sequence stmts) fun _ _ => True := by
  induction stmts generalizing m hstmts with
  | nil =>
      unfold Recur.sequence
      exact .pure fun _ => trivial
  | cons stmt rest ih =>
      obtain ⟨hstmt, hrest⟩ := hstmts.cons
      unfold Recur.sequence
      refine .bind fun _ _ _ _ => ?_
      split
      · exact .pure fun _ => trivial
      · exact .bind fun _ _ _ _ => ih

/-- A statement in a block of its own. -/
theorem Recur.armAt_leads {block next : BlockId} {stmt : Option Node} [Linked stmt]
    [m.HasBlock f.id block] [m.HasBlock f.id next] (blocks' : List BlockId) [Reserved f blocks']
    (hmem : ∀ c, c ∈ blocks ↔ c = block ∨ c ∈ blocks') (hblock : block ∉ blocks') :
    Leads m (Idle f blocks) (r.armAt block stmt next) (fun _ => Idle f blocks')
      fun _ _ => True := by
  unfold Recur.armAt
  refine .takeUp blocks' hmem hblock fun m₁ _ => ?_
  exact .bind fun _ _ _ _ => inferInstance

instance (cond thenBranch elseBranch : Option Node) [Linked cond] [Linked thenBranch]
    [Linked elseBranch] :
    Straight m (some g) (r.ifElse cond thenBranch elseBranch) fun _ _ => True := by
  refine Straight.of_leads ?_
  rintro fs blocks rfl hreserved
  unfold Recur.ifElse
  refine .bind ?_
  rintro thenBlock m₁ _ ⟨hthen, _⟩
  cases elseBranch with
  | none =>
      refine .bind ?_
      rintro endBlock m₂ _ ⟨hend, _⟩
      refine .bind fun _ m₃ _ _ => ?_
      refine .seq (Recur.armAt_leads (endBlock :: blocks) (by grind) (by grind)) ?_
      intro _ m₄ _ _
      exact takeUp_leads (by grind) (by grind)
  | some stmt =>
      refine .bind ?_
      rintro elseBlock m₂ _ ⟨helse, _⟩
      refine .bind ?_
      rintro endBlock m₃ _ ⟨hend, _⟩
      refine .bind fun _ m₄ _ _ => ?_
      refine .seq (Recur.armAt_leads (endBlock :: elseBlock :: blocks) (by grind) (by grind)) ?_
      intro _ m₅ _ _
      refine .seq (Recur.armAt_leads (endBlock :: blocks) (by grind) (by grind)) ?_
      intro _ m₆ _ _
      exact takeUp_leads (by grind) (by grind)

instance (cond body : Option Node) [Linked cond] [Linked body] :
    Straight m (some g) (r.whileLoop cond body) fun _ _ => True := by
  refine Straight.of_leads ?_
  rintro fs blocks rfl hreserved
  unfold Recur.whileLoop
  refine .bind ?_
  rintro condBlock m₁ _ ⟨hcond, _⟩
  refine .bind ?_
  rintro bodyBlock m₂ _ ⟨hbody, _⟩
  refine .bind ?_
  rintro endBlock m₃ _ ⟨hend, _⟩
  refine .bind fun _ m₄ _ _ => ?_
  refine .takeUp (endBlock :: bodyBlock :: blocks) (by grind) (by grind) fun m₅ _ => ?_
  refine .bind fun _ m₆ _ _ => ?_
  refine .takeUp (endBlock :: blocks) (by grind) (by grind) fun m₇ _ => ?_
  refine .seq (withTargets_leads (.loop endBlock condBlock) inferInstance) fun _ m₈ _ _ => ?_
  refine .bind fun _ m₉ _ _ => ?_
  exact takeUp_leads (by grind) (by grind)

instance (init cond step body : Option Node) [Linked init] [Linked cond] [Linked step]
    [Linked body] : Straight m (some g) (r.forLoop init cond step body) fun _ _ => True := by
  refine Straight.of_leads ?_
  rintro fs blocks rfl hreserved
  unfold Recur.forLoop
  refine .bind fun _ _ _ _ => .bind ?_
  rintro condBlock m₁ _ ⟨hcond, _⟩
  refine .bind ?_
  rintro bodyBlock m₂ _ ⟨hbody, _⟩
  refine .bind ?_
  rintro stepBlock m₃ _ ⟨hstep, _⟩
  refine .bind ?_
  rintro endBlock m₄ _ ⟨hend, _⟩
  refine .bind fun _ m₅ _ _ => ?_
  refine .takeUp (endBlock :: stepBlock :: bodyBlock :: blocks) (by grind) (by grind) fun m₆ _ => ?_
  -- The round: the body, the step, and back to the condition.
  have hround (m₇ : Module) [m₇.HasBlock fs.id condBlock] [m₇.HasBlock fs.id bodyBlock]
      [m₇.HasBlock fs.id stepBlock] [m₇.HasBlock fs.id endBlock] :
      Leads m₇ (Idle fs (endBlock :: stepBlock :: bodyBlock :: blocks)) (do
        (Build.positionAtEnd bodyBlock : Build Unit)
        Lower.withTargets ⟨endBlock, some stepBlock⟩ (r.statement body)
        Lower.brIfOpen stepBlock
        (Build.positionAtEnd stepBlock : Build Unit)
        r.statement step
        Lower.brIfOpen condBlock
        (Build.positionAtEnd endBlock : Build Unit)) (fun _ => Busy fs blocks) fun _ _ => True := by
    refine .takeUp (endBlock :: stepBlock :: blocks) (by grind) (by grind) fun m₈ _ => ?_
    refine .seq (withTargets_leads (.loop endBlock stepBlock) inferInstance) fun _ m₉ _ _ => ?_
    refine .bind fun _ m₁₀ _ _ => ?_
    refine .takeUp (endBlock :: blocks) (by grind) (by grind) fun m₁₁ _ => ?_
    refine .bind fun _ m₁₂ _ _ => .bind fun _ m₁₃ _ _ => ?_
    exact takeUp_leads (by grind) (by grind)
  cases cond with
  | none => exact .bind fun _ m₇ _ _ => hround m₇
  | some node => exact .bind fun _ m₇ _ _ => hround m₇

/-! ### Switches -/

/-- Blocks of a function. -/
class Module.HasBlocks (m : Module) (f : FunctionId) (blocks : List BlockId) : Prop where
  all : ∀ b ∈ blocks, m.HasBlock f b

instance (priority := low) {m' : Module} {bs : List BlockId} [m.Extends m'] [hbs : m.HasBlocks g bs] :
    m'.HasBlocks g bs where
  all b hb := by
    have := hbs.all b hb
    infer_instance

/-- The first of several blocks and the others. -/
theorem Module.HasBlocks.cons {b : BlockId} {bs : List BlockId} (h : m.HasBlocks g (b :: bs)) :
    m.HasBlock g b ∧ m.HasBlocks g bs :=
  ⟨h.all b List.mem_cons_self, ⟨fun c hc => h.all c (List.mem_cons_of_mem _ hc)⟩⟩

/-- The parts of cases. -/
class CasesLinked (cases : List (SwitchCase Node)) : Prop where
  all : ∀ c ∈ cases, Linked c.value ∧ Linked c.body

/-- The first of several cases and the others. -/
theorem CasesLinked.cons {c : SwitchCase Node} {cases : List (SwitchCase Node)}
    (h : CasesLinked (c :: cases)) : Linked c.value ∧ Linked c.body ∧ CasesLinked cases :=
  ⟨(h.all c List.mem_cons_self).1, (h.all c List.mem_cons_self).2,
    ⟨fun c hc => h.all c (List.mem_cons_of_mem _ hc)⟩⟩

/-- Every case has an open block of its own that has not been open before. -/
instance (cases : List (SwitchCase Node)) :
    Leads m (Busy f blocks) (Recur.caseBlocks cases)
      (fun arms => Busy f (arms.map Prod.snd ++ blocks)) fun m arms =>
        arms.map Prod.fst = cases ∧ (arms.map Prod.snd).Nodup ∧
          (∀ b ∈ arms.map Prod.snd, b ∉ blocks) ∧ m.HasBlocks f.id (arms.map Prod.snd) := by
  induction cases generalizing m blocks with
  | nil =>
      unfold Recur.caseBlocks
      exact .pure id fun _ => ⟨rfl, List.nodup_nil, fun _ hb => absurd hb List.not_mem_nil,
        ⟨fun _ hb => absurd hb List.not_mem_nil⟩⟩
  | cons c rest ih =>
      unfold Recur.caseBlocks
      refine .bind ?_
      rintro b m₁ _ ⟨hfresh, hb⟩
      refine .bind ?_
      rintro arms m₂ _ ⟨hcases, hnodup, harms, hblocks⟩
      refine .pure ?_ fun hm => ⟨?_, ?_, ?_, ?_⟩
      · exact fun hs => hs.imp fun hwriting => hwriting.of_mem_iff (by grind)
      · rw [List.map_cons, hcases]
      · grind
      · grind
      · refine ⟨fun b' hb' => ?_⟩
        rcases List.mem_cons.1 hb' with rfl | hb'
        · infer_instance
        · have := hblocks.all b' hb'
          infer_instance

section

variable [Reserved f blocks]

/-- A test goes on in a new block when it fails. -/
instance (value : ValueId) (ty : TypeId) (arms : List (SwitchCase Node × BlockId))
    [m.Avail (some f.id) value] [hcases : CasesLinked (arms.map Prod.fst)]
    [hblocks : m.HasBlocks f.id (arms.map Prod.snd)] :
    Leads m (Busy f blocks) (r.caseTests value ty arms) (fun _ => Busy f blocks)
      fun _ _ => True := by
  induction arms generalizing m hcases with
  | nil =>
      unfold Recur.caseTests
      exact .pure id fun _ => trivial
  | cons arm rest ih =>
      obtain ⟨c, block⟩ := arm
      obtain ⟨hvalue, -, hcases⟩ := hcases.cons
      obtain ⟨hblock, hblocks⟩ := hblocks.cons
      unfold Recur.caseTests
      refine .bind ?_
      rintro next m₁ _ ⟨hfresh, hnext⟩
      have hwanted : Straight m₁ (some f.id) (do
          let v ← r.value c.value
          Lower.coerce v ty (childSpan c.value) : Attempt ValueId).run
          (OnSome fun m v => m.Avail (some f.id) v) := by
        refine .andThen ?_
        intro v m₂ _ hv
        infer_instance
      have hgoOn (m₃ : Module) [m₃.HasBlock f.id next] [m₃.Avail (some f.id) value]
          [m₃.HasBlocks f.id (rest.map Prod.snd)] : Leads m₃ (Idle f (next :: blocks)) (do
            (Build.positionAtEnd next : Build Unit)
            r.caseTests value ty rest) (fun _ => Busy f blocks) fun _ _ => True :=
        .takeUp blocks (fun c => List.mem_cons) hfresh fun _ _ => ih
      refine .bind ?_
      intro o m₂ _ ho
      cases o with
      | none => exact .bind fun _ m₃ _ _ => hgoOn m₃
      | some v =>
          have := ho v rfl
          refine .bind ?_
          intro test m₃ _ htest
          exact .bind fun _ m₄ _ _ => hgoOn m₄

/-- Every body is written to the block of its case and goes on behind the switch, in the next
body or in the default. -/
theorem Recur.caseBodies_leads {autoBreak : Bool} {endBlock defaultBlock : BlockId}
    {arms : List (SwitchCase Node × BlockId)} [hcases : CasesLinked (arms.map Prod.fst)]
    [m.HasBlock f.id endBlock] [m.HasBlock f.id defaultBlock]
    [hblocks : m.HasBlocks f.id (arms.map Prod.snd)] (hnodup : (arms.map Prod.snd).Nodup)
    (hfresh : ∀ b ∈ arms.map Prod.snd, b ∉ blocks) :
    Leads m (Idle f (arms.map Prod.snd ++ blocks))
      (r.caseBodies autoBreak endBlock defaultBlock arms) (fun _ => Idle f blocks)
      fun _ _ => True := by
  induction arms generalizing m hcases with
  | nil =>
      unfold Recur.caseBodies
      exact .pure id fun _ => trivial
  | cons arm rest ih =>
      obtain ⟨c, block⟩ := arm
      obtain ⟨-, hbody, hcases⟩ := hcases.cons
      obtain ⟨hblock, hrest⟩ := hblocks.cons
      unfold Recur.caseBodies
      dsimp only
      generalize heq : (if autoBreak then endBlock else _) = next
      have hnext : m.HasBlock f.id next := by
        subst heq
        split
        · infer_instance
        · split
          · exact hrest.cons.1
          · infer_instance
      refine .seq (Recur.armAt_leads (rest.map Prod.snd ++ blocks) (by grind) (by grind)) ?_
      intro _ m₁ _ _
      exact ih (by grind) (by grind)

/-- The bodies of a switch with a test in front end all blocks but the one behind the switch. -/
theorem Recur.switchTail_leads {value : ValueId} {ty : TypeId} {cases : List (SwitchCase Node)}
    {default : Option Node} {autoBreak : Bool} {endBlock defaultBlock : BlockId}
    [CasesLinked cases] [Linked default] [m.HasBlock f.id endBlock] [m.HasBlock f.id defaultBlock]
    [m.Avail (some f.id) value] (opened : List BlockId)
    (hopened : opened = if default.isSome then [defaultBlock] else []) (hend : endBlock ∉ blocks)
    (hdefault : ∀ b ∈ opened, b ∉ endBlock :: blocks) :
    Leads m (Busy f (opened ++ endBlock :: blocks)) (do
      let arms ← OptionT.lift (Recur.caseBlocks cases)
      r.caseTests value ty arms
      (Build.br defaultBlock : Build Unit)
      Lower.withTargets ⟨endBlock, none⟩ do
        r.caseBodies autoBreak endBlock defaultBlock arms
        if default.isSome then r.armAt defaultBlock default endBlock
      (Build.positionAtEnd endBlock : Build Unit) : Attempt Unit).run (fun _ => Busy f blocks)
      (OnSome fun _ _ => True) := by
  refine .andThen ?_
  rintro arms m₁ _ ⟨rfl, hnodup, hfresh, hblocks⟩
  refine .andThen fun _ m₂ _ _ => .andThen fun _ m₃ _ _ => ?_
  have hbodies : Leads m₃
      (Idle f (arms.map Prod.snd ++ (opened ++ endBlock :: blocks))) (do
        r.caseBodies autoBreak endBlock defaultBlock arms
        if default.isSome then r.armAt defaultBlock default endBlock)
      (fun _ => Idle f (endBlock :: blocks)) fun _ _ => True := by
    refine .seq (Recur.caseBodies_leads hnodup hfresh) fun _ m₄ _ _ => ?_
    subst hopened
    split
    · rename_i hsome
      rw [if_pos hsome] at hdefault
      exact Recur.armAt_leads (endBlock :: blocks) (by grind) (by grind)
    · exact .pure id fun _ => trivial
  have hjumps := withTargets_leads (.switch endBlock) hbodies
  refine .andThen fun _ m₄ _ _ => ?_
  have := takeUp_leads (m := m₄) (f := f) (b := endBlock) (fun c => List.mem_cons) hend
  exact .last inferInstance

end

instance (scrutinee : Option Node) (cases : List (SwitchCase Node)) (default : Option Node)
    (autoBreak : Bool) (span : Span) [Linked scrutinee] [CasesLinked cases] [Linked default] :
    Straight m (some g) (r.switch scrutinee cases default autoBreak span).run
      (OnSome fun _ _ => True) := by
  unfold Recur.switch
  refine .andThen ?_
  intro value m₁ _ hvalue
  refine .andThen fun _ _ _ _ => .andThen fun _ _ _ _ => ?_
  dsimp only
  split
  · exact .refuse inferInstance
  · refine Straight.of_leads ?_
    rintro fs blocks rfl hreserved
    refine .andThen ?_
    rintro endBlock m₂ _ ⟨hend, _⟩
    by_cases hsome : default.isSome
    · rw [if_pos hsome]
      refine .andThen ?_
      rintro defaultBlock m₃ _ ⟨hdefault, _⟩
      refine Recur.switchTail_leads [defaultBlock] (if_pos hsome).symm hend fun b hb => ?_
      rwa [List.mem_singleton.1 hb]
    · rw [if_neg hsome]
      exact Recur.switchTail_leads [] (if_neg hsome).symm hend fun b hb => absurd hb List.not_mem_nil

/-! ### Jumps -/

/-- A jump, and a block behind it that control does not reach. -/
theorem Lower.jump_straight {target : BlockId} [m.HasBlock g target] :
    Straight m (some g) (do
      (Build.br target : Build Unit)
      startDeadBlock) fun _ _ => True := by
  refine Straight.of_leads ?_
  rintro fs blocks rfl hreserved
  exact .bind fun _ _ _ _ => inferInstance

instance (span : Span) : Straight m (some g) (breakOut span) fun _ _ => True := by
  unfold breakOut
  refine .bind ?_
  intro s m₁ _ hs
  split
  · rename_i targets _ hloops
    obtain ⟨hbreak, -⟩ := hs.pass.loops targets (hloops ▸ List.mem_cons_self) g rfl
    exact jump_straight
  · infer_instance

instance (span : Span) : Straight m (some g) (continueLoop span) fun _ _ => True := by
  unfold continueLoop
  refine .bind ?_
  intro s m₁ _ hs
  split
  · rename_i target htarget
    obtain ⟨targets, hmem, hcontinue⟩ := List.exists_of_findSome?_eq_some htarget
    have := (hs.pass.loops targets hmem g rfl).2 target hcontinue
    exact jump_straight
  · infer_instance

instance (fs : FunctionState) : Leads m (Module.Writing g blocks) (defaultReturn fs)
    (fun _ => Module.Resting blocks) fun _ _ => True := by
  unfold defaultReturn
  refine .bind fun _ _ _ _ => .ite inferInstance (.ite ?_ ?_)
  · refine .bind fun _ _ _ _ => .bind ?_
    intro null m₁ _ hnull
    infer_instance
  · refine .bind ?_
    intro zero m₁ _ hzero
    infer_instance

instance (fs : FunctionState) (value : Node) (span : Span) {scope : Option FunctionId}
    [Linked (some value)] : Straight m scope (r.returnedValue fs value span).run
      (OnSome fun m v => m.Avail scope v) := by
  unfold Recur.returnedValue
  split
  · refine .andThen ?_
    intro op m₁ _ hop
    refine .andThen fun _ _ _ _ => ?_
    split
    · exact .refuse inferInstance
    · infer_instance
  · refine .andThen ?_
    intro v m₁ _ hv
    infer_instance

instance (value : Option Node) (span : Span) [Linked value] :
    Straight m (some g) (r.returnFrom value span).run (OnSome fun _ _ => True) := by
  unfold Recur.returnFrom
  refine .andThen fun _ _ _ _ => .andThen fun _ _ _ _ => .andThen fun _ _ _ _ => ?_
  dsimp only
  split
  · refine Straight.of_leads ?_
    rintro fs blocks rfl hreserved
    exact .andThen fun _ _ _ _ => .last inferInstance
  · exact .refuse inferInstance
  · exact .refuse inferInstance
  · refine .andThen ?_
    intro v m₁ _ hv
    refine Straight.of_leads ?_
    rintro fs blocks rfl hreserved
    exact .andThen fun _ _ _ _ => .last inferInstance

end SsaCompiler
