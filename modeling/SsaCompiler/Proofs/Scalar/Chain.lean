/-
# Chains as values

As a value, a chain goes through two blocks in which its outcome is known, and they meet again
in a third one that begins with a choice. With that every kind of integer expression is lowered
to its value and to a branch on its truth, to any depth.
-/

import SsaCompiler.Proofs.Scalar.Condition

namespace SsaCompiler

/-! ### Blocks that meet -/

namespace Module

variable {m M : Module} {c join : BlockId} {ty : TypeId} {i : Int64}

/-- The module in which an empty block leads on to another one, with a constant for it. -/
def withArm (m : Module) (c join : BlockId) (ty : TypeId) (i : Int64) : Module :=
  ((m.withPosition (some c)).withValue ty (.const (.int i))).withTerminator c (.br join)

theorem writes_withArm (hc : m.IsTarget c) : m.Writes [c] (m.withArm c join ty i) :=
  ((writes_withPosition [c] m _).trans (writes_withValue [c] _ ty _) fun _ h => .inl h).trans
    (writes_withTerminator (hc.standsAt.withValue ty _) _) fun _ h => .inl h

theorem value_withArm : (m.withArm c join ty i).value m.nextValue = .ok ⟨ty, .const (.int i)⟩ :=
  value_withValue_nextValue (m.withPosition (some c)) ty _

/-- What is made of a request for such a block. -/
theorem arm_eq_ok {bits : Nat} {u : ValueId} {m₁ m₂ m₃ : Module} (hc : m.IsTarget c)
    (ht : m.types.get ty = .ok (.int bits))
    (hposition : Build.positionAtEnd c m = .ok ((), m₁))
    (hconst : Build.constInt ty i m₁ = .ok (u, m₂)) (hbr : Build.br join m₂ = .ok ((), m₃)) :
    u = m.nextValue ∧ m₃ = m.withArm c join ty (normalizeInt i bits) := by
  cases hposition
  have ht' : (m.withPosition (some c)).types.get ty = .ok (.int bits) := ht
  cases (Build.constInt_run ht' i).symm.trans hconst
  have hat := hc.standsAt.withValue ty (.const (.int (normalizeInt i bits)))
  cases (Build.setTerminator_of_standsAt hat (.br join)).symm.trans hbr
  exact ⟨rfl, rfl⟩

/-- From such a block the machine goes to a choice that takes its constant. -/
theorem step_arm {m' : Module} {d : BlockData} {incoming : List (ValueId × BlockId)}
    {call : Caller} {name : String} {frame : Frame} {state : MachineState} (hc : m.IsTarget c)
    (hgrows : (m.withArm c join ty i).Grows M) (hd : m'.block join = .ok d)
    (hempty : d.instrs.size = 0) (hgrows' : (m'.withInstr join ty (.phi incoming)).Grows M)
    (hfind : incoming.find? (·.2 = c) = some (m.nextValue, c)) :
    Point.Step M call name ⟨c, 0, frame, state⟩
      ⟨join, 1, frame.bind m'.nextValue (.int i), state.tick⟩ := by
  have hat := hc.standsAt.withValue ty (.const (.int i))
  have hleads : Point.LeadsTo M call name ⟨c, 0, frame, state⟩ join :=
    Point.leadsTo_of_grows hat hgrows fun _ => Point.terminator_br
  refine hleads.step_join hd hempty hgrows' hfind ?_
  exact Point.holds_const (p := ⟨c, 0, frame, state⟩) (hgrows.values value_withArm)

/-- Three empty blocks: one for each outcome, and one in which they meet. -/
structure Meets (m : Module) (trueBlock falseBlock join : BlockId) : Prop where
  isTrue : m.IsTarget trueBlock
  isFalse : m.IsTarget falseBlock
  isJoin : m.IsVacant join (· = "bool.end")
  separate : trueBlock ≠ falseBlock ∧ trueBlock ≠ join ∧ falseBlock ≠ join

variable {trueBlock falseBlock : BlockId}

/-- Blocks that are not written to stay empty. -/
theorem Meets.mono {m' : Module} {touched : List BlockId} (h : m.Meets trueBlock falseBlock join)
    (hwrites : m.Writes touched m')
    (hclear : ∀ c ∈ touched, c ≠ trueBlock ∧ c ≠ falseBlock ∧ c ≠ join) :
    m'.Meets trueBlock falseBlock join where
  isTrue := h.isTrue.mono hwrites fun hc => (hclear _ hc).1 rfl
  isFalse := h.isFalse.mono hwrites fun hc => (hclear _ hc).2.1 rfl
  isJoin := h.isJoin.mono hwrites fun hc => (hclear _ hc).2.2 rfl
  separate := h.separate

/-- The module in which the blocks of the outcomes have been filled. -/
def withArms (m : Module) (trueBlock falseBlock join : BlockId) (ty : TypeId) : Module :=
  (m.withArm trueBlock join ty (Build.truthWord true)).withArm falseBlock join ty
    (Build.truthWord false)

/-- The choice between the outcomes. -/
def outcomes (m : Module) (trueBlock falseBlock join : BlockId) (ty : TypeId) : Instr :=
  .phi [(m.nextValue, trueBlock),
    ((m.withArm trueBlock join ty (Build.truthWord true)).nextValue, falseBlock)]

/-- The module in which the outcome is known in the block where its blocks meet. -/
def withOutcome (m : Module) (trueBlock falseBlock join : BlockId) (ty : TypeId) : Module :=
  ((m.withArms trueBlock falseBlock join ty).withPosition (some join)).withInstr join ty
    (m.outcomes trueBlock falseBlock join ty)

section Meeting

variable (h : m.Meets trueBlock falseBlock join) (ty)

include h

theorem Meets.writesTrue :
    m.Writes [trueBlock] (m.withArm trueBlock join ty (Build.truthWord true)) :=
  writes_withArm h.isTrue

theorem Meets.isFalse_withArm :
    (m.withArm trueBlock join ty (Build.truthWord true)).IsTarget falseBlock :=
  h.isFalse.mono (h.writesTrue ty) (by simpa using h.separate.1.symm)

theorem Meets.writesFalse :
    (m.withArm trueBlock join ty (Build.truthWord true)).Writes [falseBlock]
      (m.withArms trueBlock falseBlock join ty) :=
  writes_withArm (h.isFalse_withArm ty)

theorem Meets.writesArms : m.Writes [trueBlock, falseBlock, join]
    (m.withArms trueBlock falseBlock join ty) :=
  ((h.writesTrue ty).mono (by simp)).trans (h.writesFalse ty) (by simp)

/-- The block where the outcomes meet is still empty. -/
theorem Meets.isJoin_withArms :
    ((m.withArms trueBlock falseBlock join ty).withPosition (some join)).IsVacant join
      (· = "bool.end") :=
  (((h.isJoin.mono (h.writesTrue ty) (by simpa using h.separate.2.1.symm)).mono (h.writesFalse ty)
    (by simpa using h.separate.2.2.symm)).mono (writes_withPosition [] _ _) List.not_mem_nil :)

theorem Meets.standsAt : (m.withOutcome trueBlock falseBlock join ty).StandsAt join 1 :=
  (h.isJoin_withArms ty).standsAt.withInstr ty _

theorem Meets.writesJoin : (m.withArms trueBlock falseBlock join ty).Writes [join]
    (m.withOutcome trueBlock falseBlock join ty) := by
  obtain ⟨d, hd, hopen, hempty, hname⟩ := h.isJoin_withArms ty
  have hchoice : d.instrs.size = 0 ∧ d.name ∈ joinNames := ⟨hempty, by simp [hname, joinNames]⟩
  exact (writes_withPosition [join] _ (some join)).trans (writes_withInstr hd hopen ty (.inr hchoice))
    fun _ hc => .inl hc

/-- What is written for an outcome. -/
theorem Meets.writes : m.Writes [trueBlock, falseBlock, join]
    (m.withOutcome trueBlock falseBlock join ty) :=
  (h.writesArms ty).trans (h.writesJoin ty) (by simp)

/-- From either block the machine goes to the place behind the outcome. -/
theorem Meets.step {call : Caller} {name : String} {frame : Frame} {state : MachineState}
    (hgrows : (m.withOutcome trueBlock falseBlock join ty).Grows M) (c : Bool) :
    Point.Step M call name ⟨if c then trueBlock else falseBlock, 0, frame, state⟩
      ⟨join, 1, frame.bind (m.withArms trueBlock falseBlock join ty).nextValue
        (.int (Build.truthWord c)), state.tick⟩ := by
  obtain ⟨d, hd, -, hempty, -⟩ := h.isJoin_withArms ty
  have hgrows₂ := (h.writesJoin ty).grows.trans hgrows
  have hgrows₁ := (h.writesFalse ty).grows.trans hgrows₂
  change Point.Step M call name _ ⟨join, 1, frame.bind
    ((m.withArms trueBlock falseBlock join ty).withPosition (some join)).nextValue _, state.tick⟩
  cases c with
  | true => exact step_arm h.isTrue hgrows₁ hd hempty hgrows (by simp)
  | false =>
      refine step_arm (h.isFalse_withArm ty) hgrows₂ hd hempty hgrows ?_
      simp [h.separate.1]

/-- From either block the outcome is reached. -/
theorem Meets.yields {call : Caller} {name : String} {frame : Frame} {state : MachineState}
    (hgrows : (m.withOutcome trueBlock falseBlock join ty).Grows M) (c : Bool) :
    Point.Yields M call name m.values.size ⟨if c then trueBlock else falseBlock, 0, frame, state⟩
      join 1 (some (Scalar.ofBool c)) fun x q => x.ty = .bool ∧
        q.Carries M (m.withArms trueBlock falseBlock join ty).nextValue x := by
  have hvalue : M.value (m.withArms trueBlock falseBlock join ty).nextValue =
      .ok ⟨ty, .instr (m.outcomes trueBlock falseBlock join ty)⟩ :=
    hgrows.values (value_withValue_nextValue
      ((m.withArms trueBlock falseBlock join ty).withPosition (some join)) ty _)
  refine ⟨_, Relation.ReflTransGen.single (h.step ty hgrows c), ?_, rfl, rfl, rfl, _,
    Point.holds_bind hvalue, Build.denotes_truthWord c⟩
  exact Point.keeps_bind hvalue (h.writesArms ty).grows.values_size (by simp [outcomes])

/-- What is made of the requests for an outcome. -/
theorem Meets.outcome_eq_ok {yes no v : ValueId} {m₁ m₂ m₃ m₄ m₅ m₆ m₇ m₈ : Module}
    (ht : m.types.get ty = .ok (.int 1)) (hpositionTrue : Build.positionAtEnd trueBlock m = .ok ((), m₁))
    (hyes : Build.constInt ty 1 m₁ = .ok (yes, m₂)) (hbrTrue : Build.br join m₂ = .ok ((), m₃))
    (hpositionFalse : Build.positionAtEnd falseBlock m₃ = .ok ((), m₄))
    (hno : Build.constInt ty 0 m₄ = .ok (no, m₅)) (hbrFalse : Build.br join m₅ = .ok ((), m₆))
    (hpositionJoin : Build.positionAtEnd join m₆ = .ok ((), m₇))
    (hphi : Build.phi ty [(yes, trueBlock), (no, falseBlock)] m₇ = .ok (v, m₈)) :
    v = (m.withArms trueBlock falseBlock join ty).nextValue ∧
      m₈ = m.withOutcome trueBlock falseBlock join ty := by
  obtain ⟨rfl, rfl⟩ := arm_eq_ok h.isTrue ht hpositionTrue hyes hbrTrue
  rw [show normalizeInt 1 1 = Build.truthWord true from rfl] at hpositionFalse
  obtain ⟨rfl, rfl⟩ := arm_eq_ok (h.isFalse_withArm ty) ht hpositionFalse hno hbrFalse
  cases hpositionJoin
  cases (pushInstr_of_standsAt (h.isJoin_withArms ty).standsAt _ _).symm.trans hphi
  exact ⟨rfl, rfl⟩

/-- The outcome is a truth value. -/
theorem Meets.isScalar (ht : m.types.get ty = .ok (.int 1)) :
    (m.withOutcome trueBlock falseBlock join ty).IsScalar
      (m.withArms trueBlock falseBlock join ty).nextValue .bool := by
  have hvalue := value_withValue_nextValue
    ((m.withArms trueBlock falseBlock join ty).withPosition (some join)) ty
    (.instr (m.outcomes trueBlock falseBlock join ty))
  exact ⟨_, hvalue, (h.writes ty).grows.types ht (by simp)⟩

end Meeting

end Module

/-- The three blocks are made one after the other. -/
theorem Lower.meets_eq_ok {s s₁ s₂ s₃ : Lowering} {f : FunctionState} {b : BlockId} {k : Nat}
    {trueBlock falseBlock join : BlockId} (hfunc : s.pass.func = some f)
    (hat : s.module.StandsAt b k) (htrue : Lower.appendBlock "bool.true" s = .ok (trueBlock, s₁))
    (hfalse : Lower.appendBlock "bool.false" s₁ = .ok (falseBlock, s₂))
    (hjoin : Lower.appendBlock "bool.end" s₂ = .ok (join, s₃)) :
    s.Same s₃ ∧ s.module.Writes [b] s₃.module ∧ s₃.module.StandsAt b k ∧
      s₃.module.Meets trueBlock falseBlock join ∧ s.module.blocks.size ≤ trueBlock.index ∧
      s.module.blocks.size ≤ falseBlock.index ∧ s.module.blocks.size ≤ join.index := by
  obtain ⟨rfl, hs₁⟩ := Lower.appendBlock_eq_ok hfunc htrue
  have hfunc₁ : s₁.pass.func = some f := by rw [hs₁]; exact hfunc
  obtain ⟨rfl, hs₂⟩ := Lower.appendBlock_eq_ok hfunc₁ hfalse
  have hfunc₂ : s₂.pass.func = some f := by rw [hs₂]; exact hfunc₁
  obtain ⟨rfl, rfl⟩ := Lower.appendBlock_eq_ok hfunc₂ hjoin
  have hm₁ : s₁.module = s.module.withBlock f.id "bool.true" := by rw [hs₁]
  have hm₂ : s₂.module = s₁.module.withBlock f.id "bool.false" := by rw [hs₂]
  have hsize₁ : s₁.module.blocks.size = s.module.blocks.size + 1 := by
    rw [hm₁]
    exact Array.size_push _
  have hsize₂ : s₂.module.blocks.size = s₁.module.blocks.size + 1 := by
    rw [hm₂]
    exact Array.size_push _
  have hat₁ : s₁.module.StandsAt b k := hm₁ ▸ hat.withBlock f.id _
  have hat₂ : s₂.module.StandsAt b k := hm₂ ▸ hat₁.withBlock f.id _
  have hw₁ : ∀ touched, s.module.Writes touched s₁.module := fun touched =>
    hm₁ ▸ Module.writes_withBlock touched s.module f.id _
  have hw₂ : ∀ touched, s₁.module.Writes touched s₂.module := fun touched =>
    hm₂ ▸ Module.writes_withBlock touched s₁.module f.id _
  have hw₃ := fun touched => Module.writes_withBlock touched s₂.module f.id "bool.end"
  have hisTrue : s₁.module.IsTarget s.module.nextBlock :=
    hm₁ ▸ Module.isVacant_withBlock f.id (by decide)
  have hisFalse : s₂.module.IsTarget s₁.module.nextBlock :=
    hm₂ ▸ Module.isVacant_withBlock f.id (by decide)
  refine ⟨?_, ?_, hat₂.withBlock f.id _, ⟨?_, ?_,
    Module.isVacant_withBlock f.id rfl, ?_⟩, Nat.le_refl _, ?_, ?_⟩
  · refine Lowering.Same.trans ?_ (s₂.same_withModule _)
    rw [hs₂, hs₁]
    exact s.same_withModule _
  · exact ((hw₁ [b]).trans (hw₂ [b]) fun _ h => .inl h).trans (hw₃ [b]) fun _ h => .inl h
  · exact (hisTrue.mono (hw₂ []) List.not_mem_nil).mono (hw₃ []) List.not_mem_nil
  · exact hisFalse.mono (hw₃ []) List.not_mem_nil
  · simp only [Module.nextBlock, ne_eq, BlockId.mk.injEq]
    omega
  · change _ ≤ s₁.module.blocks.size
    omega
  · change _ ≤ s₂.module.blocks.size
    omega

namespace Recur

variable {r : Recur} {e : Expr} {s s' : Lowering} {scope : Name → Prop} {b : BlockId} {k : Nat}

/-- A chain as a value: its condition leads to one of two blocks, and both go on in a third,
which begins with the outcome. -/
theorem boolChain_computes {node : Node} {res : Option Operand}
    (he : Lower.Decides r.condition e) (hspelled : e.Spelled scope node) (hready : s.Ready scope)
    (hat : s.module.StandsAt b k) (hrun : r.boolChain node s = .ok (res, s'))
    (hclean : s'.context.errorCount = 0) (hbool : ∀ ρ x, e.eval ρ = some x → x = .ofBool x.truth) :
    ∃ op b' k' t, res = some op ∧ s.Operates b k s' b' k' op t (s.ExprMeaning scope e) := by
  obtain ⟨f, hfunc, -⟩ := hready.func
  unfold boolChain at hrun
  obtain ⟨_, _, hget, hrun⟩ := Attempt.bind_lift (x := (get : Lower Lowering)) hrun
  cases hget
  rw [if_neg (by simp [hfunc])] at hrun
  obtain ⟨trueBlock, s₁, htrue, hrun⟩ := Attempt.bind_lift hrun
  obtain ⟨falseBlock, s₂, hfalse, hrun⟩ := Attempt.bind_lift hrun
  obtain ⟨join, s₃, hjoin, hrun⟩ := Attempt.bind_lift hrun
  obtain ⟨hsame, hblocks, hat₃, hmeets, hfreshTrue, hfreshFalse, hfreshJoin⟩ :=
    Lower.meets_eq_ok hfunc hat htrue hfalse hjoin
  obtain ⟨⟨⟩, s₄, hcond, hrun⟩ := Attempt.bind_lift hrun
  obtain ⟨truth, m₅, hintern, hrun⟩ := Attempt.bind_build hrun
  have htype : Build.intType 1 s₄.module =
      .ok ((s₄.module.types.intern (.int 1)).1, s₄.module.withType (.int 1)) := rfl
  cases htype.symm.trans hintern
  obtain ⟨⟨⟩, m₆, hpositionTrue, hrun⟩ := Attempt.bind_build hrun
  obtain ⟨yes, m₇, hyes, hrun⟩ := Attempt.bind_build hrun
  obtain ⟨⟨⟩, m₈, hbrTrue, hrun⟩ := Attempt.bind_build hrun
  obtain ⟨⟨⟩, m₉, hpositionFalse, hrun⟩ := Attempt.bind_build hrun
  obtain ⟨no, m₁₀, hno, hrun⟩ := Attempt.bind_build hrun
  obtain ⟨⟨⟩, m₁₁, hbrFalse, hrun⟩ := Attempt.bind_build hrun
  obtain ⟨⟨⟩, m₁₂, hpositionJoin, hrun⟩ := Attempt.bind_build hrun
  obtain ⟨v, m₁₃, hphi, hrun⟩ := Attempt.bind_build hrun
  cases hrun
  have hlt : b.index < s.module.blocks.size := by
    obtain ⟨d, hd, -⟩ := hat.block
    exact Module.block_lt hd
  have hclear : ∀ c ∈ [b], c ≠ trueBlock ∧ c ≠ falseBlock ∧ c ≠ join := by
    rintro c hc
    obtain rfl := List.mem_singleton.1 hc
    refine ⟨?_, ?_, ?_⟩ <;> rintro rfl <;> omega
  have hne := hclear b (List.mem_singleton.2 rfl)
  have hbranch := he.branches hspelled (hready.mono hsame hblocks.grows) hat₃ hmeets.isTrue
    hmeets.isFalse hne.1.symm hne.2.1.symm hcond hclean
  have hmeets₄ := hmeets.mono hbranch.writes hclear
  have hmeets₅ := hmeets₄.mono (Module.writes_withType [] s₄.module (.int 1))
    (by simp)
  have ht : (s₄.module.withType (.int 1)).types.get (s₄.module.types.intern (.int 1)).1 =
      .ok (.int 1) := Module.get_intern _ _
  obtain ⟨rfl, rfl⟩ := hmeets₅.outcome_eq_ok _ ht hpositionTrue hyes hbrTrue hpositionFalse hno
    hbrFalse hpositionJoin hphi
  have houtcome := hmeets₅.writes (s₄.module.types.intern (.int 1)).1
  have hjoinAt := hmeets₅.standsAt (s₄.module.types.intern (.int 1)).1
  refine ⟨_, join, 1, .bool, rfl, hsame.trans (hbranch.same.trans (s₄.same_withModule _)),
    ⟨?_, hat, hjoinAt, .inr hfreshJoin⟩, ?_, ?_⟩
  · refine ((hblocks.trans hbranch.writes fun _ hc => .inl hc).trans
      (Module.writes_withType [b] _ _) fun _ hc => .inl hc).trans houtcome fun c hc => .inr ?_
    simp only [List.mem_cons, List.not_mem_nil, or_false] at hc
    rcases hc with rfl | rfl | rfl <;> assumption
  · exact hmeets₅.isScalar _ ht
  · rintro M hgrows call name p o hb hk ⟨ρ, hagrees, rfl⟩
    have hagrees₃ := hagrees.keeps hsame hready (.refl M _ p) (Nat.le_refl _)
    have hfirst : p.Yields M call name s.module.values.size _ 0 ((e.eval ρ).map Scalar.truth) _ :=
      (hbranch.ofWrites hsame hblocks).runs ((Module.grows_withType _ _).trans
        (houtcome.grows.trans hgrows)) hb hk ⟨ρ, hagrees₃, rfl⟩
    have hlow : s.module.values.size ≤ s₄.module.values.size :=
      (hblocks.trans hbranch.writes fun _ hc => .inl hc).grows.values_size
    cases heval : e.eval ρ with
    | none =>
        rw [heval] at hfirst
        exact hfirst
    | some x =>
        rw [heval] at hfirst
        rw [hbool ρ x heval]
        change p.Yields M call name s.module.values.size join 1
          ((some x.truth).bind fun c => some (Scalar.ofBool c)) _
        refine hfirst.bind hlow ?_
        rintro c ⟨_, _, frame, state⟩ hc hkeeps rfl rfl -
        cases hc
        exact hmeets₅.yields _ hgrows x.truth

/-- A chain of terms as a value. -/
theorem computes_logical {op : LogicalOp} {terms : Terms}
    (he : Lower.Decides r.condition (.logical op terms)) :
    Lower.Computes r.lowerKind (.logical op terms) where
  operates := by
    intro scope node s s' res b k hspelled hready hat hrun hclean
    obtain ⟨children, hkind, -⟩ := id hspelled
    have hchain : r.boolChain node s = .ok (res, s') := by
      rw [← hrun]
      unfold lowerKind
      rw [hkind]
      rfl
    refine boolChain_computes he hspelled hready hat hchain hclean fun ρ x hx => ?_
    rw [Expr.eval] at hx
    obtain ⟨c, -, rfl⟩ := Option.map_eq_some_iff.1 hx
    rw [Scalar.truth_ofBool]

/-- A chain of comparisons as a value. -/
theorem computes_comparison {links : Links} (he : Lower.Decides r.condition (.comparison e links)) :
    Lower.Computes r.lowerKind (.comparison e links) where
  operates := by
    intro scope node s s' res b k hspelled hready hat hrun hclean
    obtain ⟨child, rest, hkind, -⟩ := id hspelled
    have hchain : r.boolChain node s = .ok (res, s') := by
      rw [← hrun]
      unfold lowerKind
      rw [hkind]
      rfl
    refine boolChain_computes he hspelled hready hat hchain hclean fun ρ x hx => ?_
    rw [Expr.eval] at hx
    obtain ⟨y, -, hx⟩ := Option.bind_eq_some_iff.1 hx
    obtain ⟨c, -, hx⟩ := Option.bind_eq_some_iff.1 hx
    cases hx
    rw [Scalar.truth_ofBool]

/-! ### Expressions of any depth -/

/-- Whatever the depth, expressions are lowered to their values and to branches on their
truth. -/
structure Handles (r : Recur) : Prop where
  computes : ∀ e, Lower.Computes r.operand e
  decides : ∀ e, Lower.Decides r.condition e

section Step

variable [r.IsComposed] (h : r.Handles)

include h

/-- A chain of terms, one after the other. -/
theorem Handles.decidesTerms (op : LogicalOp) : ∀ terms, DecidesTerms r op terms
  | .last e => decidesTerms_last (h.decides e)
  | .cons e rest => decidesTerms_cons (h.decides e) (Handles.decidesTerms op rest)

/-- A chain of comparisons, one after the other. -/
theorem Handles.decidesLinks : ∀ links, DecidesLinks r links
  | .last _ e => decidesLinks_last (h.computes e)
  | .cons _ e rest => decidesLinks_cons (h.computes e) (Handles.decidesLinks rest)

/-- Every kind of expression is lowered to its value when its parts are. -/
theorem Handles.computes_lowerKind (e : Expr) : Lower.Computes r.lowerKind e := by
  cases e with
  | int v => exact Lower.computes_int v
  | char c => exact Lower.computes_char c
  | bool c => exact Lower.computes_bool c
  | var x => exact Lower.computes_var x
  | unary op e => exact Lower.computes_unary (h.computes e)
  | binary op e e' => exact Lower.computes_binary (h.computes e) (h.computes e')
  | cast ty e => exact Lower.computes_cast (h.computes e)
  | logical op terms => exact computes_logical (h.decides _)
  | comparison e links => exact computes_comparison (h.decides _)

/-- Every kind of expression is lowered to a branch on its truth when its parts are. -/
theorem Handles.decides_conditionOf (e : Expr) : Lower.Decides r.conditionOf e := by
  cases e with
  | logical op terms => exact decides_logical (h.decidesTerms op terms)
  | comparison e links => exact decides_comparison (h.computes e) (h.decidesLinks links)
  | _ => exact decides_of_computes (h.computes _) rfl

end Step

/-- Expressions are lowered rightly to any depth. -/
theorem handles_within (n : Nat) : (within n).Handles := by
  induction n with
  | zero =>
      refine ⟨fun e => ⟨?_⟩, fun e => ⟨?_⟩⟩
      · intro scope node s s' res b k _ _ _ hrun
        cases hrun
      · intro scope node s s' b k thenTo elseTo _ _ _ _ _ _ _ hrun
        cases hrun
  | succ n ih =>
      exact ⟨fun e => computes_lowerNode (ih.computes_lowerKind e), ih.decides_conditionOf⟩

end Recur

end SsaCompiler
