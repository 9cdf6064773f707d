/-
# Trees of chains as code

The code of a tree of chains leads to one of two blocks, or to a place where the outcome is a value.
It is put together from the code of its leaves, with jumps from where one part ends to where the
next one begins, so that the machine runs the leaves that are evaluated from left to right, in that
order, and nothing else but these jumps.

Each way of putting parts together is one lemma here. The places from which the jumps are taken are
places of the whole that belong to none of its leaves.
-/

import SsaCompiler.Proofs.Scalar.Chain
import SsaCompiler.Proofs.ShortCircuit.Evaluation

namespace SsaCompiler

/-- The end of a block that goes on in one of two others by the truth of a value. -/
def Terminator.branch (truth : Option ValueId) (thenTo elseTo : BlockId) : Terminator :=
  truth.elim (.br elseTo) fun u => .condBr u thenTo elseTo

theorem Situation.terminator_branch {M : Module} {call : Caller} {name : String} {y : Situation}
    {truth : Option ValueId} {thenTo elseTo : BlockId} {d : BlockData} {c : Bool}
    (hterm : d.terminator = some (.branch truth thenTo elseTo)) (h : y.truth M truth = .ok c) :
    Exec.terminator M call name d y.frame y.state.tick =
      .ok (.goto (if c then thenTo else elseTo) y.frame) y.state.tick := by
  cases truth with
  | none =>
      cases h
      exact Point.terminator_br hterm
  | some u =>
      obtain ⟨v, hv, hc⟩ := answer_bind_eq_ok_iff.1 h
      cases hc
      unfold Exec.terminator
      rw [hterm]
      exact Exec.bind_of_ok (Exec.operand_of_ok hv)

/-- A block that only leads on to another one has one place. -/
theorem Module.extent_withArm {m : Module} {c join : BlockId} {ty : TypeId} {i : Int64}
    (hc : m.IsTarget c) : (m.withArm c join ty i).extent c = 1 :=
  (hc.standsAt.withValue ty (.const (.int i))).extent_withTerminator _

namespace Stretch

/-- A place of the whole that belongs to none of some leaves. -/
structure Wires (whole : Stretch) (ls : List Leaf) (b : BlockId) (k : Nat) : Prop where
  owns : whole.Owns b k
  apart : ∀ l ∈ ls, ¬ l.Owns b k

/-- A tree has been written: its leaves one after the other, and the machine runs them in the order
in which evaluation arrives at them. -/
structure Lays (whole : Stretch) (t : Cascade) : Prop where
  covers : ∀ l ∈ t.leaves, whole.Covers l.toStretch
  precedes : t.leaves.Pairwise fun l l' => l.Precedes l'.toStretch
  arrives : ∀ {M call name b k x ls l y}, whole.after.Grows M → whole.before.StandsAt b k →
    t.Arrives M call name x ls l y → ∃ b' k', l.before.StandsAt b' k' ∧
      Point.Follows M call name (whole.Wires t.leaves) ls (x.point b k) (y.point b' k')

/-- The machine goes on in one of two blocks, by the outcome of a tree. -/
structure Branches (whole : Stretch) (t : Cascade) (thenTo elseTo : BlockId) : Prop
    extends whole.Lays t where
  evaluates : ∀ {M call name b k x ls c y}, whole.after.Grows M → whole.before.StandsAt b k →
    t.Evaluates M call name x ls c y → ∃ b' k', whole.Wires t.leaves b' k' ∧
      Point.Follows M call name (whole.Wires t.leaves) ls (x.point b k) (y.point b' k') ∧
      (y.point b' k').LeadsTo M call name (if c then thenTo else elseTo)

/-- The machine goes on with the outcome of a tree as a value. -/
structure Computes (whole : Stretch) (t : Cascade) (result : ValueId) : Prop
    extends whole.Lays t where
  evaluates : ∀ {M call name b k x ls c y}, whole.after.Grows M → whole.before.StandsAt b k →
    t.Evaluates M call name x ls c y → ∃ b' k', whole.after.StandsAt b' k' ∧
      Point.Follows M call name (whole.Wires t.leaves) ls (x.point b k)
        ((y.withOutcome result c).point b' k') ∧
      ((y.withOutcome result c).point b' k').Holds M result (.int (if c then 1 else 0))

variable {whole first rest : Stretch} {ls ls' : List Leaf} {l : Leaf} {b : BlockId} {k : Nat}
  {t t' : Cascade} {thenTo elseTo thenTo' elseTo' next : BlockId} {truth : Option ValueId}
  {m m₁ m₂ m' : Module}

/-! ### Two parts -/

/-- The leaves of both parts are written in the meantime. -/
theorem Splits.covers (h : whole.Splits first rest) (hls : ∀ l ∈ ls, first.Covers l.toStretch)
    (hls' : ∀ l ∈ ls', rest.Covers l.toStretch) : ∀ l ∈ ls ++ ls', whole.Covers l.toStretch := by
  intro l hl
  rcases List.mem_append.1 hl with hl | hl
  · exact h.coversFirst.trans (hls l hl)
  · exact h.coversRest.trans (hls' l hl)

/-- The leaves of both parts are written one after the other. -/
theorem Splits.pairwise (h : whole.Splits first rest) (hls : ∀ l ∈ ls, first.Covers l.toStretch)
    (hls' : ∀ l ∈ ls', rest.Covers l.toStretch)
    (hpair : ls.Pairwise fun l l' => l.Precedes l'.toStretch)
    (hpair' : ls'.Pairwise fun l l' => l.Precedes l'.toStretch) :
    (ls ++ ls').Pairwise fun l l' => l.Precedes l'.toStretch :=
  List.pairwise_append.2 ⟨hpair, hpair', fun l hl l' hl' =>
    h.precedes_of_covers (hls l hl) (hls' l' hl')⟩

/-- A place between the leaves of the first part is one between all of them. -/
theorem Splits.wires_left (h : whole.Splits first rest)
    (hls' : ∀ l ∈ ls', rest.Covers l.toStretch) (hwire : first.Wires ls b k) :
    whole.Wires (ls ++ ls') b k := by
  refine ⟨h.coversFirst.owns hwire.owns, fun l hl => ?_⟩
  rcases List.mem_append.1 hl with hl | hl
  · exact hwire.apart l hl
  · exact fun howns => h.precedes.not_owns hwire.owns ((hls' l hl).owns howns)

theorem Splits.wires_right (h : whole.Splits first rest)
    (hls : ∀ l ∈ ls, first.Covers l.toStretch) (hwire : rest.Wires ls' b k) :
    whole.Wires (ls ++ ls') b k := by
  refine ⟨h.coversRest.owns hwire.owns, fun l hl => ?_⟩
  rcases List.mem_append.1 hl with hl | hl
  · exact fun howns => h.precedes.not_owns ((hls l hl).owns howns) hwire.owns
  · exact hwire.apart l hl

/-! ### Starting earlier -/

/-- Something that is no code may be written before. -/
theorem Lays.earlier (h : (Stretch.mk m₁ m').Lays t) (hgrows : m.Grows m₁)
    (hat : ∀ {b k}, m.StandsAt b k → m₁.StandsAt b k) : (Stretch.mk m m').Lays t := by
  have hcovers : (Stretch.mk m m').Covers ⟨m₁, m'⟩ := ⟨hgrows.extent_le, fun _ => Nat.le_refl _⟩
  refine ⟨fun l hl => hcovers.trans (h.covers l hl), h.precedes, fun hM hb harrives => ?_⟩
  obtain ⟨b', k', hb', hpath⟩ := h.arrives hM (hat hb) harrives
  exact ⟨b', k', hb', hpath.mono fun hwire => ⟨hcovers.owns hwire.owns, hwire.apart⟩⟩

theorem Branches.earlier (h : (Stretch.mk m₁ m').Branches t thenTo elseTo) (hgrows : m.Grows m₁)
    (hat : ∀ {b k}, m.StandsAt b k → m₁.StandsAt b k) :
    (Stretch.mk m m').Branches t thenTo elseTo := by
  have hcovers : (Stretch.mk m m').Covers ⟨m₁, m'⟩ := ⟨hgrows.extent_le, fun _ => Nat.le_refl _⟩
  refine ⟨h.toLays.earlier hgrows hat, fun hM hb hevaluates => ?_⟩
  obtain ⟨b', k', hwire', hpath, hleads⟩ := h.evaluates hM (hat hb) hevaluates
  exact ⟨b', k', ⟨hcovers.owns hwire'.owns, hwire'.apart⟩,
    hpath.mono fun hwire => ⟨hcovers.owns hwire.owns, hwire.apart⟩, hleads⟩

/-! ### Leaves -/

/-- Running a leaf begins where code goes on before it. -/
theorem exists_runs_of_evaluates {M : Module} {call : Caller} {name : String} {x y : Situation}
    {c : Bool} (h : (Leaf.mk ⟨m, m₁⟩ truth).Evaluates M call name x y c) (hat : m.StandsAt b k) :
    ∃ b' k', (Stretch.mk m m₁).Runs M call name (x.point b k) (y.point b' k') ∧
      m₁.StandsAt b' k' ∧ y.truth M truth = .ok c := by
  obtain ⟨⟨b₁, k₁, b', k', hrun⟩, htruth⟩ := h
  obtain ⟨rfl, rfl⟩ := hat.unique hrun.1
  exact ⟨b', k', hrun, hrun.2.1, htruth⟩

/-- A leaf that decides. The end of its block is written where the leaf ends, though there may be
more blocks by then. -/
theorem branches_test (hgrows : m.Grows m₁) (hgrows' : m₁.Grows m')
    (hend : ∀ {b k}, m₁.StandsAt b k → ∃ m₂ : Module, m₂.StandsAt b k ∧
      m' = m₂.withTerminator b (.branch truth thenTo elseTo)) :
    (Stretch.mk m m').Branches (.test ⟨⟨m, m₁⟩, truth⟩) thenTo elseTo where
  covers l hl := by
    obtain rfl := List.mem_singleton.1 hl
    exact ⟨fun _ => Nat.le_refl _, hgrows'.extent_le⟩
  precedes := List.pairwise_singleton _ _
  arrives hM hat harrives := by
    cases harrives
    exact ⟨_, _, hat, .done _⟩
  evaluates := by
    intro M call name b k x ls c y hM hat hevaluates
    cases hevaluates with
    | test hl =>
        obtain ⟨b', k', hrun, hat', htruth⟩ := exists_runs_of_evaluates hl hat
        obtain ⟨m₂, hat₂, rfl⟩ := hend hat'
        refine ⟨b', k', ⟨⟨?_, ?_⟩, fun l hl howns => ?_⟩, .run hrun (.done _), ?_⟩
        · exact hat'.extent ▸ hgrows.extent_le b'
        · change k' < (m₂.withTerminator b' _).extent b'
          rw [hat₂.extent_withTerminator]
          exact Nat.lt_succ_self k'
        · obtain rfl := List.mem_singleton.1 hl
          exact absurd howns.2 (Nat.not_lt.2 hat'.extent.le)
        · exact Point.leadsTo_of_grows hat₂ hM fun d hterm =>
            Situation.terminator_branch hterm htruth

/-- A leaf that is computed before something else. -/
theorem Branches.after (h : (Stretch.mk m₁ m').Branches t thenTo elseTo) (hgrows : m.Grows m₁)
    (hgrows' : m₁.Grows m') :
    (Stretch.mk m m').Branches (.after ⟨⟨m, m₁⟩, truth⟩ t) thenTo elseTo := by
  have hsplit := splits_of_grows hgrows (.refl m₁) hgrows'
  have hcovers : ∀ l ∈ [Leaf.mk ⟨m, m₁⟩ truth], Stretch.Covers ⟨m, m₁⟩ l.toStretch := by
    intro l hl
    obtain rfl := List.mem_singleton.1 hl
    exact .refl _
  refine ⟨⟨hsplit.covers hcovers h.covers, hsplit.pairwise hcovers h.covers
    (List.pairwise_singleton _ _) h.precedes, ?_⟩, ?_⟩
  · intro M call name b k x ls l y hM hat harrives
    cases harrives with
    | after => exact ⟨b, k, hat, .done _⟩
    | behind hl hrest =>
        obtain ⟨b₁, k₁, hrun, hat₁, -⟩ := exists_runs_of_evaluates hl hat
        obtain ⟨b', k', hat', hpath⟩ := h.arrives hM hat₁ hrest
        exact ⟨b', k', hat', .run hrun (hpath.mono (hsplit.wires_right hcovers))⟩
  · intro M call name b k x ls c y hM hat hevaluates
    cases hevaluates with
    | after hl hrest =>
        obtain ⟨b₁, k₁, hrun, hat₁, -⟩ := exists_runs_of_evaluates hl hat
        obtain ⟨b', k', hwire, hpath, hleads⟩ := h.evaluates hM hat₁ hrest
        exact ⟨b', k', hsplit.wires_right hcovers hwire,
          .run hrun (hpath.mono (hsplit.wires_right hcovers)), hleads⟩

/-! ### Chains -/

/-- A term of a chain, and the terms behind it in a block that was made for them. -/
theorem Branches.chain {op : LogicalOp} (h : (Stretch.mk m m₁).Branches t thenTo' elseTo')
    (hnext : m₁.IsTarget next)
    (h' : (Stretch.mk (m₁.withPosition (some next)) m').Branches t' thenTo elseTo)
    (hto : ∀ c, (if c then thenTo' else elseTo') =
      if op.settles c then (if c then thenTo else elseTo) else next)
    (hgrows : m.Grows m₁) (hgrows' : (m₁.withPosition (some next)).Grows m') :
    (Stretch.mk m m').Branches (.chain op t t') thenTo elseTo := by
  have hsplit := splits_of_grows hgrows (Module.grows_withPosition m₁ (some next)) hgrows'
  have hM₁ {M : Module} (hM : m'.Grows M) : m₁.Grows M :=
    (Module.grows_withPosition m₁ (some next)).trans (hgrows'.trans hM)
  -- From the end of the first part the machine jumps to the second one, unless that is settled.
  have hjump {M call name b k x ls c y} (hM : m'.Grows M) (hat : m.StandsAt b k)
      (hfirst : t.Evaluates M call name x ls c y) (hop : op.settles c = false) :
      Point.Follows M call name ((Stretch.mk m m').Wires (t.leaves ++ t'.leaves)) ls (x.point b k)
        (y.tick.point next 0) := by
    obtain ⟨b₁, k₁, hwire, hpath, hleads⟩ := h.evaluates (hM₁ hM) hat hfirst
    rw [hto, hop, if_neg Bool.false_ne_true] at hleads
    exact (hpath.mono (hsplit.wires_left h'.covers)).tail (hsplit.wires_left h'.covers hwire)
      (hleads.step_target hnext (hM₁ hM))
  refine ⟨⟨hsplit.covers h.covers h'.covers, hsplit.pairwise h.covers h'.covers h.precedes
    h'.precedes, ?_⟩, ?_⟩
  · intro M call name b k x ls l y hM hat harrives
    cases harrives with
    | first hfirst =>
        obtain ⟨b', k', hat', hpath⟩ := h.arrives (hM₁ hM) hat hfirst
        exact ⟨b', k', hat', hpath.mono (hsplit.wires_left h'.covers)⟩
    | goesOn hfirst hop hrest =>
        obtain ⟨b', k', hat', hpath⟩ := h'.arrives hM hnext.standsAt hrest
        exact ⟨b', k', hat', (hjump hM hat hfirst hop).trans
          (hpath.mono (hsplit.wires_right h.covers))⟩
  · intro M call name b k x ls c y hM hat hevaluates
    cases hevaluates with
    | settles hfirst hop =>
        obtain ⟨b', k', hwire, hpath, hleads⟩ := h.evaluates (hM₁ hM) hat hfirst
        rw [hto, hop, if_pos rfl] at hleads
        exact ⟨b', k', hsplit.wires_left h'.covers hwire,
          hpath.mono (hsplit.wires_left h'.covers), hleads⟩
    | goesOn hfirst hop hrest =>
        obtain ⟨b', k', hwire, hpath, hleads⟩ := h'.evaluates hM hnext.standsAt hrest
        exact ⟨b', k', hsplit.wires_right h.covers hwire, (hjump hM hat hfirst hop).trans
          (hpath.mono (hsplit.wires_right h.covers)), hleads⟩

/-! ### Chains as values -/

/-- The two blocks to which a chain leads meet in a third one, which begins with the outcome. -/
theorem Branches.computes {trueBlock falseBlock join : BlockId} {ty : TypeId}
    (h : (Stretch.mk m m₁).Branches t trueBlock falseBlock)
    (hmeets : m₂.Meets trueBlock falseBlock join) (hgrows : m.Grows m₁) (hgrows' : m₁.Grows m₂) :
    (Stretch.mk m (m₂.withOutcome trueBlock falseBlock join ty)).Computes t
      (m₂.withArms trueBlock falseBlock join ty).nextValue := by
  have hmore := (hmeets.writes ty).grows
  have hcovers : (Stretch.mk m (m₂.withOutcome trueBlock falseBlock join ty)).Covers ⟨m, m₁⟩ :=
    ⟨fun _ => Nat.le_refl _, (hgrows'.trans hmore).extent_le⟩
  have htarget (c : Bool) : m₂.IsTarget (if c then trueBlock else falseBlock) := by
    cases c with
    | true => exact hmeets.isTrue
    | false => exact hmeets.isFalse
  have htaken (c : Bool) :
      0 < (m₂.withOutcome trueBlock falseBlock join ty).extent (if c then trueBlock else falseBlock) := by
    have hrest := (hmeets.writesJoin ty).grows
    cases c with
    | true =>
        refine Nat.lt_of_lt_of_le ?_ (((hmeets.writesFalse ty).grows.trans hrest).extent_le _)
        exact (Module.extent_withArm hmeets.isTrue).symm ▸ Nat.zero_lt_one
    | false =>
        refine Nat.lt_of_lt_of_le ?_ (hrest.extent_le _)
        exact (Module.extent_withArm (hmeets.isFalse_withArm ty)).symm ▸ Nat.zero_lt_one
  -- Nothing has been written yet where the outcome is known.
  have hwire (c : Bool) : (Stretch.mk m (m₂.withOutcome trueBlock falseBlock join ty)).Wires t.leaves
      (if c then trueBlock else falseBlock) 0 := by
    have hempty {m₀ : Module} (hgrows₀ : m₀.Grows m₂) :
        m₀.extent (if c then trueBlock else falseBlock) ≤ 0 :=
      (htarget c).extent ▸ hgrows₀.extent_le _
    refine ⟨⟨hempty (hgrows.trans hgrows'), htaken c⟩, fun l hl howns => ?_⟩
    have hlast := Nat.le_trans ((h.covers l hl).after _) (hempty hgrows')
    exact absurd howns.2 (Nat.not_lt.2 hlast)
  have hpart {b : BlockId} {k : Nat} (hpath : (Stretch.mk m m₁).Wires t.leaves b k) :
      (Stretch.mk m (m₂.withOutcome trueBlock falseBlock join ty)).Wires t.leaves b k :=
    ⟨hcovers.owns hpath.owns, hpath.apart⟩
  refine ⟨⟨fun l hl => hcovers.trans (h.covers l hl), h.precedes, fun hM hat harrives => ?_⟩, ?_⟩
  · obtain ⟨b', k', hat', hpath⟩ := h.arrives (hgrows'.trans (hmore.trans hM)) hat harrives
    exact ⟨b', k', hat', hpath.mono hpart⟩
  · intro M call name b k x ls c y hM hat hevaluates
    have hM₂ : m₂.Grows M := hmore.trans hM
    obtain ⟨b₁, k₁, hwire₁, hpath, hleads⟩ := h.evaluates (hgrows'.trans hM₂) hat hevaluates
    have harm := (hpath.mono hpart).tail (hpart hwire₁) (hleads.step_target (htarget c) hM₂)
    have hvalue : M.value (m₂.withArms trueBlock falseBlock join ty).nextValue =
        .ok ⟨ty, .instr (m₂.outcomes trueBlock falseBlock join ty)⟩ :=
      hM.values (Module.value_withValue_nextValue
        ((m₂.withArms trueBlock falseBlock join ty).withPosition (some join)) ty _)
    exact ⟨join, 1, hmeets.standsAt ty, harm.tail (hwire c) (hmeets.step ty hM c),
      Point.holds_bind hvalue⟩

/-- A chain that is a value, before something else. -/
theorem Computes.value {result : ValueId} (h : (Stretch.mk m m₁).Computes t result)
    (h' : (Stretch.mk m₁ m').Branches t' thenTo elseTo) (hgrows : m.Grows m₁)
    (hgrows' : m₁.Grows m') :
    (Stretch.mk m m').Branches (.value t result t') thenTo elseTo := by
  have hsplit := splits_of_grows hgrows (.refl m₁) hgrows'
  refine ⟨⟨hsplit.covers h.covers h'.covers, hsplit.pairwise h.covers h'.covers h.precedes
    h'.precedes, ?_⟩, ?_⟩
  · intro M call name b k x ls l y hM hat harrives
    cases harrives with
    | inner hinner =>
        obtain ⟨b', k', hat', hpath⟩ := h.arrives (hgrows'.trans hM) hat hinner
        exact ⟨b', k', hat', hpath.mono (hsplit.wires_left h'.covers)⟩
    | value hinner hrest =>
        obtain ⟨b₁, k₁, hat₁, hpath, -⟩ := h.evaluates (hgrows'.trans hM) hat hinner
        obtain ⟨b', k', hat', hpath'⟩ := h'.arrives hM hat₁ hrest
        exact ⟨b', k', hat', (hpath.mono (hsplit.wires_left h'.covers)).trans
          (hpath'.mono (hsplit.wires_right h.covers))⟩
  · intro M call name b k x ls c y hM hat hevaluates
    cases hevaluates with
    | value hinner hrest =>
        obtain ⟨b₁, k₁, hat₁, hpath, -⟩ := h.evaluates (hgrows'.trans hM) hat hinner
        obtain ⟨b', k', hwire, hpath', hleads⟩ := h'.evaluates hM hat₁ hrest
        exact ⟨b', k', hsplit.wires_right h.covers hwire,
          (hpath.mono (hsplit.wires_left h'.covers)).trans
            (hpath'.mono (hsplit.wires_right h.covers)), hleads⟩

end Stretch

end SsaCompiler
