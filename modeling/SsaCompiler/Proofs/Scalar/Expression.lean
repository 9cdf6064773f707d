/-
# Lowering of integer expressions

An expression lowers to an operand and to the code that computes it. Apart from the module
nothing changes: no name is bound, nothing is reported, and no exception is noted. The code
leads from where it was begun to where the next code goes, which need not be the same block,
and what the operand stands for there is the value that the reference gives the expression.
-/

import SsaCompiler.Proofs.Lower.Composed.Node
import SsaCompiler.Proofs.Machine.Jump
import SsaCompiler.Proofs.Scalar.Operand

namespace SsaCompiler

namespace Lowering

variable {s s' s'' : Lowering}

/-! ### States that differ by code -/

/-- Nothing but the module has changed, and which node was entered last. -/
structure Same (s s' : Lowering) : Prop where
  context : s'.context = s.context
  names : s'.names = s.names
  pass : s'.pass = { s.pass with span := s'.pass.span }

theorem Same.refl (s : Lowering) : s.Same s := ⟨rfl, rfl, rfl⟩

theorem Same.trans (h : s.Same s') (h' : s'.Same s'') : s.Same s'' where
  context := h'.context.trans h.context
  names := h'.names.trans h.names
  pass := by
    rw [h'.pass, h.pass]

theorem same_withModule (s : Lowering) (m : Module) : s.Same { s with module := m } :=
  ⟨rfl, rfl, rfl⟩

theorem Same.func (h : s.Same s') : s'.pass.func = s.pass.func := by
  rw [h.pass]

theorem Same.fatal (h : s.Same s') : s'.pass.fatal = s.pass.fatal := by
  rw [h.pass]

/-! ### Variables -/

/-- A name stands for what is kept at an address. -/
def Binds (s : Lowering) (x : Name) (v : ValueId) : Prop :=
  ∃ binding, s.context.symbols.binding? x = some binding ∧ binding.storage = v

/-- Expressions over the variables of a scope may be lowered: the walk is inside a function,
operators have their built-in meaning, and the variables are integers. A name of the scope that
stands for no variable stands for nothing else. -/
structure Ready (s : Lowering) (scope : Name → Prop) : Prop where
  func : ∃ f, s.pass.func = some f ∧
    ∀ x, scope x → s.context.symbols.binding? x = none → f.thisTy = none
  operators : s.context.operators.size = 0
  fatal : s.pass.fatal = none
  places : ∀ {x v}, scope x → s.Binds x v → ∃ t, s.module.IsOperand (.ofPlace v) t

variable {scope : Name → Prop}

theorem Same.binds (h : s.Same s') {x : Name} {v : ValueId} : s'.Binds x v ↔ s.Binds x v := by
  unfold Binds
  rw [h.context]

/-- Expressions may still be lowered when code has been written. -/
theorem Ready.mono (h : s.Ready scope) (hsame : s.Same s') (hgrows : s.module.Grows s'.module) :
    s'.Ready scope where
  func := by
    rw [hsame.func, hsame.context]
    exact h.func
  operators := by
    rw [hsame.context]
    exact h.operators
  fatal := hsame.fatal.trans h.fatal
  places hx hv := by
    obtain ⟨t, ht⟩ := h.places hx (hsame.binds.1 hv)
    exact ⟨t, ht.mono hgrows⟩

end Lowering

/-- At a point the variables of a scope have given values. -/
def Point.Agrees (M : Module) (p : Point) (s : Lowering) (scope : Name → Prop) (ρ : Valuation) :
    Prop := ∀ ⦃x v⦄, scope x → s.Binds x v → p.Shows M (.ofPlace v) (ρ x)

/-- Variables keep their values while expressions are evaluated. -/
theorem Point.Agrees.keeps {M : Module} {p q : Point} {s s' : Lowering} {scope : Name → Prop}
    {ρ : Valuation} {low : Nat} (h : p.Agrees M s scope ρ) (hsame : s.Same s')
    (hready : s.Ready scope) (hkeeps : p.Keeps M low q) (hlow : s.module.values.size ≤ low) :
    q.Agrees M s' scope ρ := by
  intro x v hx hv
  have hv := hsame.binds.1 hv
  obtain ⟨t, ht⟩ := hready.places hx hv
  exact (h hx hv).keeps hkeeps (Nat.lt_of_lt_of_le ht.value_lt hlow)

namespace Lowering

/-! ### Operands with their code -/

/-- Code has been written that computes an operand of a type, under conditions on the point at
which the code starts. -/
structure Operates (s : Lowering) (b : BlockId) (k : Nat) (s' : Lowering) (b' : BlockId)
    (k' : Nat) (op : Operand) (t : ScalarType)
    (meaning : Module → Point → Option Scalar → Prop) : Prop where
  same : s.Same s'
  piece : s.module.Piece [b] b k s'.module b' k'
  operand : s'.module.IsOperand op t
  runs : ∀ {M}, s'.module.Grows M → ∀ {call name p o}, p.block = b → p.next = k →
    meaning M p o →
    p.Yields M call name s.module.values.size b' k' o fun x q => x.ty = t ∧ q.Shows M op x

/-- Code has been written that ends in one of two blocks, by a truth value that it computes. -/
structure Branches (s : Lowering) (b : BlockId) (k : Nat) (s' : Lowering)
    (thenTo elseTo : BlockId) (meaning : Module → Point → Option Bool → Prop) : Prop where
  same : s.Same s'
  writes : s.module.Writes [b] s'.module
  runs : ∀ {M}, s'.module.Grows M → ∀ {call name p o}, p.block = b → p.next = k →
    meaning M p o →
    p.Yields M call name s.module.values.size (if o.getD true then thenTo else elseTo) 0 o
      fun _ _ => True

variable {s s₁ s₂ : Lowering} {b b₁ b₂ : BlockId} {k k₁ k₂ : Nat} {op op₁ op₂ : Operand}
  {t t₁ t₂ : ScalarType} {meaning meaning' meaning₁ meaning₂ : Module → Point → Option Scalar → Prop}

theorem Operates.imp (h : s.Operates b k s₁ b₁ k₁ op t meaning)
    (himp : ∀ {M p o}, s₁.module.Grows M → meaning' M p o → meaning M p o) :
    s.Operates b k s₁ b₁ k₁ op t meaning' :=
  ⟨h.same, h.piece, h.operand, fun hgrows _ _ _ _ hb hk hmeaning =>
    h.runs hgrows hb hk (himp hgrows hmeaning)⟩

/-- Code that computes a value computes an operand. -/
theorem Operates.ofCode {m : Module} {v : ValueId}
    (h : s.module.Code b k m b₁ k₁ v t meaning) :
    s.Operates b k { s with module := m } b₁ k₁ (.ofValue v) t meaning :=
  ⟨s.same_withModule m, h.piece, h.value, h.runs⟩

/-- Code for an operand that begins with the entry of a type. -/
theorem Operates.ofWithType {ty : IrType} {hty : ty.description? = some ty}
    (hat : s.module.StandsAt b k)
    (h : Operates { s with module := s.module.withType ty hty } b k s₁ b₁ k₁ op t meaning) :
    s.Operates b k s₁ b₁ k₁ op t meaning :=
  ⟨(s.same_withModule _).trans h.same, (Module.piece_withType hat ty hty).trans h.piece,
    h.operand, h.runs⟩

theorem Operates.bind (h : s.Operates b k s₁ b₁ k₁ op₁ t₁ meaning₁)
    (h' : s₁.Operates b₁ k₁ s₂ b₂ k₂ op₂ t₂ meaning₂) :
    s.Operates b k s₂ b₂ k₂ op₂ t₂ fun M p o => ∃ o₁ f, meaning₁ M p o₁ ∧ o = o₁.bind f ∧
      ∀ x q, o₁ = some x → p.Keeps M s.module.values.size q → x.ty = t₁ →
        q.Shows M op₁ x → meaning₂ M q (f x) where
  same := h.same.trans h'.same
  piece := h.piece.trans h'.piece
  operand := h'.operand
  runs := by
    rintro M hgrows call name p o hb hk ⟨o₁, f, hmeaning, rfl, hrest⟩
    have hyields : p.Yields M call name s.module.values.size b₁ k₁ o₁ _ :=
      h.runs (h'.piece.writes.grows.trans hgrows) hb hk hmeaning
    refine hyields.bind h.piece.writes.grows.values_size ?_
    rintro x q hx hkeeps hqb hqk ⟨ht, hshows⟩
    exact h'.runs hgrows hqb hqk (hrest x q hx hkeeps ht hshows)

/-! ### What lowering has to do -/

/-- What an expression means at a point. -/
def ExprMeaning (s : Lowering) (scope : Name → Prop) (e : Expr) (M : Module) (p : Point)
    (o : Option Scalar) : Prop := ∃ ρ, p.Agrees M s scope ρ ∧ o = e.eval ρ

/-- What a condition means at a point. -/
def CondMeaning (s : Lowering) (scope : Name → Prop) (e : Expr) (M : Module) (p : Point)
    (o : Option Bool) : Prop := ∃ ρ, p.Agrees M s scope ρ ∧ o = (e.eval ρ).map Scalar.truth

end Lowering

/-- A way of lowering nodes lowers an expression to an operand that is its value. -/
structure Lower.Computes (lower : Node → Lower (Option Operand)) (e : Expr) : Prop where
  operates : ∀ {scope node s s' res b k}, e.Spelled scope node → s.Ready scope →
    s.module.StandsAt b k → lower node s = .ok (res, s') → s'.context.errorCount = 0 →
    ∃ op b' k' t, res = some op ∧ s.Operates b k s' b' k' op t (s.ExprMeaning scope e)

/-- A way of lowering conditions lowers an expression to a branch on its truth. -/
structure Lower.Decides (lower : Option Node → BlockId → BlockId → Lower Unit) (e : Expr) :
    Prop where
  branches : ∀ {scope node s s' b k thenTo elseTo}, e.Spelled scope node → s.Ready scope →
    s.module.StandsAt b k → s.module.IsTarget thenTo → s.module.IsTarget elseTo →
    thenTo ≠ b → elseTo ≠ b → lower (some node) thenTo elseTo s = .ok ((), s') →
    s'.context.errorCount = 0 → s.Branches b k s' thenTo elseTo (s.CondMeaning scope e)

/-! ### Nodes -/

/-- The state in which the lowering of a node starts. -/
def Lowering.entered (s : Lowering) (span : Span) : Lowering :=
  { s with pass := { s.pass with throwStack := [] :: s.pass.throwStack, span := span } }

/-- Nothing has changed but what is noted about nodes. -/
structure Lowering.Marks (s s' : Lowering) : Prop where
  context : s'.context = s.context
  names : s'.names = s.names
  module : s'.module = s.module
  pass : s'.pass = { s.pass with
    throwStack := s'.pass.throwStack, nodeThrows := s'.pass.nodeThrows, span := s'.pass.span }

theorem Lowering.Ready.entered {s : Lowering} {scope : Name → Prop} (h : s.Ready scope)
    (span : Span) : (s.entered span).Ready scope :=
  ⟨h.func, h.operators, h.fatal, h.places⟩

namespace Recur

variable {r : Recur} {s s' : Lowering} {node : Node} {res : Option Operand}

/-- A node is lowered by its kind. If no exception is noted on the way, none is recorded. -/
theorem lowerNode_eq_ok {f : FunctionState} (hfunc : s.pass.func = some f)
    (hfatal : s.pass.fatal = none) (h : r.lowerNode node s = .ok (res, s')) :
    ∃ s₁, r.lowerKind node (s.entered node.span) = .ok (res, s₁) ∧ s₁.Marks s' ∧
      ((s.entered node.span).Same s₁ → s.Same s') := by
  unfold lowerNode at h
  rw [bind_of_ok (Lower.isAbandoned_apply s), hfatal] at h
  obtain ⟨⟨⟩, s₀, hpush, h⟩ := bind_eq_ok_iff.1 h
  cases hpush
  obtain ⟨res', s₁, hhere, h⟩ := bind_eq_ok_iff.1 h
  have hkind : r.lowerKind node (s.entered node.span) = .ok (res', s₁) := by
    rw [← hhere]
    unfold lowerHere
    refine Eq.symm ((bind_of_ok (Lower.modifyPass_apply _ _)).trans ?_)
    refine (bind_of_ok (Lower.func_apply _)).trans ?_
    have hinside : ((s.entered node.span).pass.func.isNone &&
        !node.kind.allowedAtModuleScope) ≠ true := by
      rw [show (s.entered node.span).pass.func = some f from hfunc]
      simp
    exact congrFun (if_neg hinside) _
  obtain ⟨throws, s₂, hpop, h⟩ := bind_eq_ok_iff.1 h
  obtain ⟨⟨⟩, s₃, hrecord, h⟩ := bind_eq_ok_iff.1 h
  cases h
  obtain ⟨rfl, rfl⟩ := Lower.popThrowFrame_eq_ok hpop
  have hmarks : s₁.Marks s' := by
    unfold recordNodeThrows at hrecord
    split at hrecord
    · cases hrecord
      exact ⟨rfl, rfl, rfl, rfl⟩
    · cases hrecord
      exact ⟨rfl, rfl, rfl, rfl⟩
  refine ⟨s₁, hkind, hmarks, fun hsame => ?_⟩
  have hstack : s₁.pass.throwStack = [] :: s.pass.throwStack := by
    rw [hsame.pass]
    rfl
  unfold Pass.thrown at hrecord
  rw [hstack] at hrecord
  cases hrecord
  refine ⟨hsame.context, hsame.names, ?_⟩
  simp only
  rw [hsame.pass]
  rfl

/-- A child that has to have a value is lowered as a node. -/
theorem required_eq_ok (h : r.required (some node) s = .ok (res, s')) :
    ∃ o s₁, r.operand node s = .ok (o, s₁) ∧ s₁.context.errorCount ≤ s'.context.errorCount ∧
      ∀ op, o = some op → res = some op ∧ s' = s₁ := by
  have hdemand : Lower.demand (r.operand node) (childSpan (some node)) s = .ok (res, s') :=
    required_run r (some node) ▸ h
  obtain ⟨s₁, hchild, rfl | ⟨rfl, hreport⟩⟩ := Lower.demand_eq_ok hdemand
  · exact ⟨res, s', hchild, Nat.le_refl _, fun _ hres => ⟨hres, rfl⟩⟩
  · exact ⟨none, s₁, hchild, (Lower.later_of_report hreport).reports, nofun⟩

variable {e : Expr} {scope : Name → Prop} {b : BlockId} {k : Nat}

/-- A node is lowered as its kind is. -/
theorem computes_lowerNode (h : Lower.Computes r.lowerKind e) : Lower.Computes r.lowerNode e where
  operates := by
    intro scope node s s' res b k hspelled hready hat hrun hclean
    obtain ⟨f, hfunc, -⟩ := hready.func
    obtain ⟨s₁, hkind, hmarks, hrest⟩ := lowerNode_eq_ok hfunc hready.fatal hrun
    rw [hmarks.context] at hclean
    obtain ⟨op, b', k', t, rfl, hop⟩ := h.operates hspelled (hready.entered node.span) hat hkind hclean
    refine ⟨op, b', k', t, rfl, hrest hop.same, ?_, ?_, ?_⟩
    · rw [hmarks.module]
      exact hop.piece
    · rw [hmarks.module]
      exact hop.operand
    · rw [hmarks.module]
      exact hop.runs

/-- A child that has to have a value is lowered as an expression. -/
theorem required_computes (h : Lower.Computes r.operand e) (hspelled : e.Spelled scope node)
    (hready : s.Ready scope) (hat : s.module.StandsAt b k)
    (hrun : r.required (some node) s = .ok (res, s')) (hclean : s'.context.errorCount = 0) :
    ∃ op b' k' t, res = some op ∧ s.Operates b k s' b' k' op t (s.ExprMeaning scope e) := by
  obtain ⟨o, s₁, hchild, hle, hrest⟩ := required_eq_ok hrun
  obtain ⟨op, b', k', t, rfl, hop⟩ := h.operates hspelled hready hat hchild (by omega)
  obtain ⟨rfl, rfl⟩ := hrest op rfl
  exact ⟨op, b', k', t, rfl, hop⟩

/-- A child that has to have a value, and what is done with it. -/
theorem required_bind {α : Type} {f : Operand → Attempt α} {o : Option α}
    (h : Lower.Computes r.operand e) (hspelled : e.Spelled scope node) (hready : s.Ready scope)
    (hat : s.module.StandsAt b k) (hrun : (r.required (some node) >>= f) s = .ok (o, s'))
    (hclean : s'.context.errorCount = 0)
    (hcomposed : ∀ op, Lower.Composed Lower.Elementary .free (f op).run := by intro; infer_instance) :
    ∃ op s₁ b₁ k₁ t, s.Operates b k s₁ b₁ k₁ op t (s.ExprMeaning scope e) ∧ s₁.Ready scope ∧
      f op s₁ = .ok (o, s') := by
  rcases Attempt.bind_cases hrun with ⟨op, s₁, hrequired, hrest⟩ | ⟨hnone, rfl⟩
  · have hlater : s₁.Later s' := (hcomposed op).later hrest
    have hreports := hlater.reports
    obtain ⟨op', b₁, k₁, t₁, hsome, hop⟩ :=
      required_computes h hspelled hready hat hrequired (by omega)
    cases hsome
    exact ⟨op, s₁, b₁, k₁, t₁, hop, hready.mono hop.same hop.piece.writes.grows, hrest⟩
  · obtain ⟨op', b₁, k₁, t₁, hsome, -⟩ := required_computes h hspelled hready hat hnone hclean
    cases hsome

end Recur

/-! ### Literals and variables -/

namespace Lower

variable {r : Recur}

theorem code_literal {t : ScalarType} {i : Int64} {m m' : Module} {b : BlockId} {k : Nat}
    {op : Operand} (hat : m.StandsAt b k)
    (hrun : (do return .ofValue (← Build.constInt (← Build.intType t.bits) i) : Build Operand) m =
      .ok (op, m')) :
    ∃ v, op = .ofValue v ∧
      m.Code b k m' b k v t fun _ _ o => o = some (.wrap t i.toInt) := by
  obtain ⟨ty, m₁, hintern, hrun⟩ := bind_eq_ok_iff.1 hrun
  cases hintern
  obtain ⟨v, m₂, hconst, hrun⟩ := bind_eq_ok_iff.1 hrun
  cases hrun
  have ht : (m.withType (.int t.bits)).types.get (m.types.intern (.int t.bits)).1 =
      .ok (.int t.bits) := Module.get_intern _ _
  have hcode := Build.code_constInt (hat.withType (.int t.bits)) ht hconst
  exact ⟨v, rfl, hcode.ofWithType hat⟩

/-- A literal lowers to a constant. -/
theorem computes_literal {e : Expr} {t : ScalarType} {i : Int64}
    (heval : ∀ ρ, e.eval ρ = some (.wrap t i.toInt))
    (hkind : ∀ {scope node}, e.Spelled scope node → r.lowerKind node =
      someValue (liftM
        (do return .ofValue (← Build.constInt (← Build.intType t.bits) i) : Build Operand))) :
    Computes r.lowerKind e where
  operates := by
    intro scope node s s' res b k hspelled hready hat hrun hclean
    rw [hkind hspelled] at hrun
    obtain ⟨op, s₁, hlift, hrun⟩ := bind_eq_ok_iff.1 hrun
    cases hrun
    obtain ⟨m', hliteral, rfl⟩ := build_eq_ok_iff.1 hlift
    obtain ⟨v, rfl, hcode⟩ := code_literal hat hliteral
    refine ⟨_, b, k, t, rfl, (Lowering.Operates.ofCode hcode).imp ?_⟩
    rintro M p o - ⟨ρ, -, rfl⟩
    exact heval ρ

theorem computes_int (v : Int64) : Computes r.lowerKind (.int v) := by
  have hrange : ∀ {scope node}, (Expr.int v).Spelled scope node → r.lowerKind node =
      someValue (liftM (intLiteral v)) := by
    intro scope node hspelled
    unfold Recur.lowerKind
    rw [show node.kind = .intLit v from hspelled]
  rcases Decidable.em (-2147483648 ≤ v.toInt ∧ v.toInt ≤ 2147483647) with h | h
  · refine computes_literal (t := .int) (i := v) (fun ρ => ?_) fun hspelled => ?_
    · rw [Expr.eval, if_pos h]
      unfold Scalar.wrap wrapTo
      rw [if_neg (by decide)]
      congr 2
      simp only [ScalarType.bits, Int.bmod_def]
      omega
    · rw [hrange hspelled]
      unfold intLiteral
      rw [if_pos (by simpa [Int64.le_iff_toInt_le] using h)]
      rfl
  · refine computes_literal (t := .long) (i := v) (fun ρ => ?_) fun hspelled => ?_
    · rw [Expr.eval, if_neg h]
      have hlow := v.le_toInt
      have hhigh := v.toInt_lt
      unfold Scalar.wrap wrapTo
      rw [if_neg (by decide)]
      congr 2
      simp only [ScalarType.bits, Int.bmod_def]
      omega
    · rw [hrange hspelled]
      unfold intLiteral
      rw [if_neg (by simpa [Int64.le_iff_toInt_le] using h)]
      rfl

theorem computes_char (c : UInt8) : Computes r.lowerKind (.char c) := by
  refine computes_literal (t := .char) (i := Int64.ofNat c.toNat) (fun ρ => ?_) fun hspelled => ?_
  · have hlt := c.toNat_lt
    rw [Expr.eval, Int64.toInt_ofNat_of_lt (by omega)]
  · unfold Recur.lowerKind
    rw [show _ = _ from hspelled]
    rfl

theorem computes_bool (c : Bool) : Computes r.lowerKind (.bool c) := by
  refine computes_literal (t := .bool) (i := Build.truthWord c) (fun ρ => ?_) fun hspelled => ?_
  · cases c <;> rfl
  · unfold Recur.lowerKind
    rw [show _ = _ from hspelled]
    rfl

/-- A name of the scope is lowered to a place if nothing is reported. -/
theorem identifier_eq_ok {s s' : Lowering} {scope : Name → Prop} {x : Name} {span : Span}
    {res : Option Operand} (hready : s.Ready scope) (hx : scope x)
    (hrun : (identifier x span).run s = .ok (res, s')) (hclean : s'.context.errorCount = 0) :
    ∃ v, s.Binds x v ∧ res = some (.ofPlace v) ∧ s' = s := by
  unfold identifier at hrun
  obtain ⟨_, _, hsymbols, hrun⟩ := Attempt.bind_lift hrun
  cases hsymbols
  cases hbinding : s.context.symbols.binding? x with
  | some binding =>
      simp only [hbinding] at hrun
      cases hrun
      exact ⟨_, ⟨binding, hbinding, rfl⟩, rfl, rfl⟩
  | none =>
      -- The name stands for nothing, which is reported.
      simp only [hbinding] at hrun
      obtain ⟨f, hfunc, hunbound⟩ := hready.func
      have hmember : implicitMember x s = .ok (none, s) := by
        unfold implicitMember
        have hthis : thisTy s = .ok (none, s) := by
          refine (bind_of_ok (func_apply s)).trans ?_
          rw [hfunc, Option.bind_some, hunbound x hx hbinding]
          rfl
        rw [bind_of_ok hthis]
        rfl
      obtain ⟨_, _, hlift, hrun⟩ := Attempt.bind_lift (x := implicitMember x) hrun
      cases hmember.symm.trans hlift
      obtain ⟨text, s₁, htext, hrun⟩ := Attempt.bind_lift hrun
      have hpos := errorCount_reject hrun
      omega

/-- A variable lowers to its place. -/
theorem computes_var (x : Name) : Computes r.lowerKind (.var x) where
  operates := by
    intro scope node s s' res b k hspelled hready hat hrun hclean
    obtain ⟨hx, hkind⟩ := hspelled
    have hident : (identifier x node.span).run s = .ok (res, s') := by
      rw [← hrun]
      unfold Recur.lowerKind
      rw [hkind]
    obtain ⟨v, hbinds, rfl, rfl⟩ := identifier_eq_ok hready hx hident hclean
    obtain ⟨t, ht⟩ := hready.places hx hbinds
    refine ⟨_, b, k, t, rfl, .refl s', .refl _ hat, ht, ?_⟩
    rintro M hgrows call name p o hb hk ⟨ρ, hagrees, rfl⟩
    have hshows := hagrees hx hbinds
    refine Point.Yields.pure hb hk ⟨?_, hshows⟩
    obtain ⟨ty, hplace, -⟩ := hshows
    obtain ⟨ty', hplace'⟩ := ht.mono hgrows
    exact (hplace.unique hplace').2

/-! ### Operators -/

variable {e l₁ r₁ : Expr} {s s' : Lowering} {scope : Name → Prop} {b : BlockId} {k : Nat}

/-- An operator in front of an expression. -/
theorem computes_unary {op : UnaryOp} (he : Computes r.operand e) :
    Computes r.lowerKind (.unary op e) where
  operates := by
    intro scope node s s' res b k hspelled hready hat hrun hclean
    obtain ⟨hop, child, hkind, hchild⟩ := hspelled
    have hunary : r.unary op (some child) node.span s = .ok (res, s') := by
      rw [← hrun]
      unfold Recur.lowerKind
      rw [hkind]
      rfl
    obtain ⟨inner, s₁, b₁, k₁, t₁, hcode, hready₁, happly⟩ :=
      Recur.required_bind he hchild hready hat hunary hclean
    obtain ⟨f, hfunc, -⟩ := hready₁.func
    obtain ⟨v, m', k', rfl, rfl, hcode'⟩ := code_applyUnary hop hfunc hready₁.operators
      hcode.piece.stop hcode.operand happly hclean
    refine ⟨_, b₁, k', _, rfl, (hcode.bind (.ofCode hcode')).imp ?_⟩
    rintro M p o hM ⟨ρ, hagrees, rfl⟩
    refine ⟨e.eval ρ, fun x => some (Scalar.unary op x), ⟨ρ, hagrees, rfl⟩, ?_, ?_⟩
    · rw [Expr.eval]
      cases e.eval ρ <;> rfl
    · intro x q hx hkeeps ht hshows
      exact ⟨x, ht, hshows, rfl⟩

theorem computes_binary [r.IsComposed] {op : BinaryOp} (hl : Computes r.operand l₁)
    (hr : Computes r.operand r₁) : Computes r.lowerKind (.binary op l₁ r₁) where
  operates := by
    intro scope node s s' res b k hspelled hready hat hrun hclean
    obtain ⟨hop, left, right, hkind, hleft, hright⟩ := hspelled
    have hbinary : r.binary op (some left) (some right) node.span s = .ok (res, s') := by
      rw [← hrun]
      unfold Recur.lowerKind
      rw [hkind]
      rfl
    obtain ⟨lop, s₁, b₁, k₁, t₁, hcode₁, hready₁, hbinary⟩ :=
      Recur.required_bind hl hleft hready hat hbinary hclean
    obtain ⟨rop, s₂, b₂, k₂, t₂, hcode₂, hready₂, happly⟩ :=
      Recur.required_bind hr hright hready₁ hcode₁.piece.stop hbinary hclean
    obtain ⟨f, hfunc, -⟩ := hready₂.func
    obtain ⟨v, m', k', rfl, rfl, hcode₃⟩ := code_applyBinary hop hfunc hready₂.operators
      hcode₂.piece.stop (hcode₁.operand.mono hcode₂.piece.writes.grows) hcode₂.operand happly
    refine ⟨_, b₂, k', _, rfl, (hcode₁.bind (hcode₂.bind (.ofCode hcode₃))).imp ?_⟩
    rintro M p o hM ⟨ρ, hagrees, rfl⟩
    refine ⟨l₁.eval ρ, fun x => (r₁.eval ρ).bind fun y => Scalar.binary op x y,
      ⟨ρ, hagrees, rfl⟩, by rw [Expr.eval]; rfl, ?_⟩
    intro x q hx hkeeps ht hshows
    refine ⟨r₁.eval ρ, fun y => Scalar.binary op x y,
      ⟨ρ, hagrees.keeps hcode₁.same hready hkeeps (Nat.le_refl _), rfl⟩, rfl, ?_⟩
    intro y q' hy hkeeps' ht' hshows'
    exact ⟨x, y, ht, ht', hshows.keeps hkeeps' hcode₁.operand.value_lt, hshows', rfl⟩

/-- The type of a module that holds an integer type. -/
theorem lower_prim (t : ScalarType) : t.prim.lower = Build.intType t.bits := by
  cases t <;> rfl

/-- A cast that is written out. -/
theorem computes_cast [r.IsComposed] {t : ScalarType} (he : Computes r.operand e) :
    Computes r.lowerKind (.cast t e) where
  operates := by
    intro scope node s s' res b k hspelled hready hat hrun hclean
    obtain ⟨child, hkind, hchild⟩ := hspelled
    have hcast : r.cast (some child) (.prim t.prim) node.span s = .ok (res, s') := by
      rw [← hrun]
      unfold Recur.lowerKind
      rw [hkind]
      rfl
    unfold Recur.cast at hcast
    obtain ⟨target, m₀, htarget, hcast⟩ := Attempt.bind_build (b := t.prim.lower) hcast
    rw [lower_prim] at htarget
    cases htarget
    have hpiece := Module.piece_withType hat (.int t.bits)
    have hdest : (s.module.withType (.int t.bits)).types.get (s.module.types.intern (.int t.bits)).1 =
        .ok (.int t.bits) := Module.get_intern _ _
    have hready₀ : Lowering.Ready { s with module := s.module.withType (.int t.bits) } scope :=
      hready.mono (s.same_withModule _) hpiece.writes.grows
    obtain ⟨op, s₁, b₁, k₁, t₁, hcode₁, hready₁, hcast⟩ :=
      Recur.required_bind he hchild hready₀ hpiece.stop hcast hclean fun op => by
        refine .andThen fun source => HasSteps.found _ _ ?_ fun index => inferInstance
        refine .andThen fun value => .andThen fun converted => ?_
        cases converted <;> infer_instance
    have hcode₁' := hcode₁.ofWithType hat
    obtain ⟨source, hsource, -⟩ := hcode₁.operand.ty_run
    obtain ⟨_, _, hty, hcast⟩ := Attempt.bind_build hcast
    cases hsource.symm.trans hty
    rw [Attempt.bind_of_some (findOperator_run hready₁.operators _ _)] at hcast
    obtain ⟨f, hfunc, -⟩ := hready₁.func
    obtain ⟨v, s₂, hload, hcast⟩ := Attempt.bind_lift hcast
    obtain ⟨m₂, k₂, rfl, hcode₂⟩ := code_operandLoad hfunc hcode₁.piece.stop hcode₁.operand hload
    obtain ⟨converted, m₃, hconvert, hcast⟩ := Attempt.bind_build hcast
    have hgrows := hcode₁.piece.writes.grows.trans hcode₂.piece.writes.grows
    obtain ⟨u, k₃, rfl, hcode₃⟩ := code_convert hcode₂.piece.stop hcode₂.value
      (hgrows.types hdest (by simp)) hconvert
    cases hcast
    refine ⟨_, b₁, k₃, _, rfl, (hcode₁'.bind (.ofCode (hcode₂.bind hcode₃))).imp ?_⟩
    rintro M p o hM ⟨ρ, hagrees, rfl⟩
    refine ⟨e.eval ρ, fun x => some (x.cast t), ⟨ρ, hagrees, rfl⟩, ?_, ?_⟩
    · rw [Expr.eval]
      cases e.eval ρ <;> rfl
    · intro x q hx hkeeps ht hshows
      refine ⟨some x, fun x => some (x.cast t), ⟨x, ht, hshows, rfl⟩, rfl, ?_⟩
      intro y q' hy hkeeps' hcarries
      cases hy
      exact ⟨x, ht, hcarries, rfl⟩

end Lower

end SsaCompiler
