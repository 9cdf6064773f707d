/-
# What a print hands over

A print statement is lowered to the code of its arguments and to one call, with a format that says
for each argument how it is to be printed. The directive of an argument is chosen by its type, and
what the machine makes of it depends on the value that it finds. Here the two are brought together:
behind the code of an argument there is a value with which its directive writes the argument as it
is, whatever characters there are in a text.
-/

import SsaCompiler.Proofs.Machine.Printing
import SsaCompiler.Proofs.Scalar.Evaluation

namespace SsaCompiler

/-! ### What is printed -/

/-- The directive for integers of a type. -/
def ScalarType.directive : ScalarType → String
  | .char => "%c"
  | .long => "%ld"
  | .bool | .short | .int => "%d"

/-- The type as which integers of a type are handed over. -/
def ScalarType.promoted : ScalarType → ScalarType
  | .long => .long
  | .bool | .char | .short | .int => .int

/-- An integer as it is printed: a `char` as the character with its low byte as code, any other
integer as a decimal numeral. -/
def Scalar.text (x : Scalar) : String :=
  if x.ty = .char then String.singleton (Char.ofNat (x.value % 256).toNat) else toString x.value

/-- What is printed: the value of an expression, or a text. -/
inductive Printed where
  | value (e : Expr)
  | text (s : String)

namespace Printed

/-- A node of a program tree stands for what is printed. A text has no character zero. -/
def Spelled (scope : Name → Prop) (names : Names) : Printed → Node → Prop
  | value e, node => e.Spelled scope node
  | text s, node => ∃ name, node.kind = .strLit name ∧ names.text name = .ok s ∧
      Char.ofNat 0 ∉ s.toList

/-- What is printed, none if that divides by zero. -/
def text? (ρ : Valuation) : Printed → Option String
  | value e => (e.eval ρ).map Scalar.text
  | text s => some s

/-- A line: what is printed, with blanks between and the end of the line behind. -/
def line (texts : List String) : String := " ".intercalate texts ++ "\n"

end Printed

/-- The conversion for an integer writes it as it is printed. -/
theorem Format.writes_scalar (mem : Memory) {x : Scalar} {w : Int64} (hw : w.toInt = x.value) :
    Writes mem x.ty.directive [.int w] x.text := by
  obtain ⟨ty, value⟩ := x
  obtain rfl : w.toInt = value := hw
  cases ty with
  | char =>
      have hcode : (w.toInt % 256).toNat = w.toUInt64.toNat % 256 := by
        have hnat : w.toUInt64.toNat = w.toBitVec.toNat := rfl
        have hint : w.toInt = w.toBitVec.toInt := rfl
        rw [hnat, hint, BitVec.toInt_eq_toNat_bmod, Int.bmod_def]
        omega
      unfold Scalar.text
      rw [if_pos rfl, hcode]
      exact writes_c mem w
  | long => exact writes_ld mem w
  | bool => exact writes_d mem w
  | short => exact writes_d mem w
  | int => exact writes_d mem w

/-! ### What is handed over -/

namespace Module

variable {m m' M : Module} {b b' : BlockId} {k k' : Nat} {v : ValueId} {text : String}

/-- A value is there without code. -/
theorem code_self {t : ScalarType} (hat : m.StandsAt b k) (hv : m.IsScalar v t) :
    m.Code b k m b k v t fun M p o => ∃ x : Scalar, x.ty = t ∧ p.Carries M v x ∧ o = some x where
  piece := .refl _ hat
  value := hv
  runs := by
    rintro M hgrows call name p o hb hk ⟨x, hx, hcarries, rfl⟩
    exact Point.Yields.pure hb hk ⟨hx, hcarries⟩

end Module

namespace Lower

variable {s s' : Lowering} {b : BlockId} {k : Nat} {t : ScalarType} {v : ValueId} {span : Span}

/-- The code that brings an integer to the type that its directive takes. -/
theorem code_printfArg (hat : s.module.StandsAt b k) (hv : s.module.IsScalar v t)
    {res : Option (String × ValueId)} (hrun : printfArg v span s = .ok (res, s')) :
    ∃ u m' k', res = some (t.directive, u) ∧ s' = { s with module := m' } ∧
      s.module.Code b k m' b k' u t.promoted fun M p o => ∃ x : Scalar, x.ty = t ∧
        p.Carries M v x ∧ o = some ⟨t.promoted, x.value⟩ := by
  have hv' := hv
  obtain ⟨d, hd, ht⟩ := hv
  unfold printfArg at hrun
  obtain ⟨_, _, hty, hrun⟩ := Attempt.bind_build hrun
  cases (Build.typeOf_of_ok hd).symm.trans hty
  obtain ⟨_, m₁, hintern, hrun⟩ := Attempt.bind_build hrun
  cases hintern
  have hpiece := Module.piece_withType hat (.int 32)
  have hv₁ : (s.module.withType (.int 32)).IsScalar v t := hv'.mono hpiece.writes.grows
  have hword : (s.module.withType (.int 32)).types.get (s.module.types.intern (.int 32)).1 =
      .ok (.int ScalarType.int.bits) := Module.get_intern _ _
  obtain ⟨_, _, hkind, hrun⟩ := Attempt.bind_build hrun
  cases (Build.typeAt_of_ok (hpiece.writes.grows.types ht (by simp))).symm.trans hkind
  -- A narrow integer is handed over as a word, with a conversion that does not change it.
  have hcast : ∀ {op directive}, Build.Resizes op t → t.promoted = .int → t.bits ≤ 32 →
      t.directive = directive →
      ((liftM (Build.cast op v (s.module.types.intern (.int 32)).1) : Attempt ValueId) >>= fun u =>
        pure (directive, u)) { s with module := s.module.withType (.int 32) } = .ok (res, s') →
      ∃ u m' k', res = some (t.directive, u) ∧ s' = { s with module := m' } ∧
        s.module.Code b k m' b k' u t.promoted fun M p o => ∃ x : Scalar, x.ty = t ∧
          p.Carries M v x ∧ o = some ⟨t.promoted, x.value⟩ := by
    rintro op _ hop hpromoted hbits rfl hrun
    obtain ⟨u, m', hcast, hrun⟩ := Attempt.bind_build hrun
    cases hrun
    obtain ⟨k', hcode⟩ := Build.code_cast hpiece.stop hop hv₁ hword hcast
    rw [hpromoted]
    refine ⟨u, m', k', rfl, rfl, .ofWithType hat (hcode.imp ?_)⟩
    rintro M p o hM ⟨x, rfl, ⟨w, hw, hdenotes⟩, rfl⟩
    refine ⟨x, rfl, ⟨w, hw, hdenotes⟩, ?_⟩
    rw [← cast_of_le (t := .int) hdenotes hbits]
    rfl
  have hself : t.promoted = t →
      (pure (t.directive, v) : Attempt (String × ValueId))
        { s with module := s.module.withType (.int 32) } = .ok (res, s') →
      ∃ u m' k', res = some (t.directive, u) ∧ s' = { s with module := m' } ∧
        s.module.Code b k m' b k' u t.promoted fun M p o => ∃ x : Scalar, x.ty = t ∧
          p.Carries M v x ∧ o = some ⟨t.promoted, x.value⟩ := by
    rintro hpromoted hrun
    cases hrun
    rw [hpromoted]
    refine ⟨v, _, k, rfl, rfl, .ofWithType hat ((Module.code_self hpiece.stop hv₁).imp ?_)⟩
    rintro M p o hM ⟨x, rfl, hcarries, rfl⟩
    exact ⟨x, rfl, hcarries, rfl⟩
  cases t with
  | bool => exact hcast (.inr (.inr ⟨rfl, rfl⟩)) rfl (by decide) rfl hrun
  | char => exact hcast (.inr (.inl rfl)) rfl (by decide) rfl hrun
  | short => exact hcast (.inr (.inl rfl)) rfl (by decide) rfl hrun
  | int => exact hself rfl hrun
  | long => exact hself rfl hrun

/-- A text is handed over as it is. -/
theorem printfArg_of_isText {text : String} (hat : s.module.StandsAt b k)
    (hv : s.module.IsText v text) {res : Option (String × ValueId)}
    (hrun : printfArg v span s = .ok (res, s')) :
    ∃ m', res = some ("%s", v) ∧ s' = { s with module := m' } ∧
      s.module.Piece [b] b k m' b k := by
  obtain ⟨ty, byte, i, hvalue, hty, hbyte, -⟩ := hv
  unfold printfArg at hrun
  obtain ⟨_, _, htype, hrun⟩ := Attempt.bind_build hrun
  cases (Build.typeOf_of_ok hvalue).symm.trans htype
  obtain ⟨_, m₁, hintern, hrun⟩ := Attempt.bind_build hrun
  cases hintern
  have hpiece := Module.piece_withType hat (.int 32)
  have hkeeps : ∀ {id t}, s.module.types.get id = .ok t → (∀ name, t ≠ .named name none) →
      (s.module.withType (.int 32)).types.get id = .ok t := hpiece.writes.grows.types
  obtain ⟨_, _, hkind, hrun⟩ := Attempt.bind_build hrun
  cases (Build.typeAt_of_ok (hkeeps hty (by simp))).symm.trans hkind
  obtain ⟨_, _, hpointee, hrun⟩ := Attempt.bind_build hrun
  cases (Build.typeAt_of_ok (hkeeps hbyte (by simp))).symm.trans hpointee
  cases hrun
  exact ⟨_, rfl, rfl, hpiece⟩

/-- The code of a text is the address of a new global. -/
theorem stringLiteral_eq_ok {name : Name} {text : String} {op : Operand}
    (htext : s.names.text name = .ok text) (hrun : stringLiteral name s = .ok (op, s')) :
    ∃ v m, op = .ofValue v ∧ s' = { s with module := m } ∧
      Build.globalString text s.module = .ok (v, m) := by
  unfold stringLiteral at hrun
  rw [bind_of_ok (nameText_of_ok htext)] at hrun
  obtain ⟨v, s₁, hglobal, hrun⟩ := bind_eq_ok_iff.1 hrun
  obtain ⟨m, hbuild, rfl⟩ := build_eq_ok_iff.1 hglobal
  cases hrun
  exact ⟨v, m, rfl, rfl, hbuild⟩

end Lower

/-! ### The arguments, one after the other -/

/-- Directives write texts with what their values stand for at a point. -/
def Point.Formats (M : Module) (p : Point) (entries : List (String × ValueId))
    (texts : List String) : Prop :=
  List.Forall₂ (fun entry text =>
    ∃ x, p.Holds M entry.2 x ∧ Format.Writes p.state.memory entry.1 [x] text) entries texts

/-- Older values write the same after code that stores nothing. -/
theorem Point.Formats.keeps {M : Module} {p q : Point} {entries : List (String × ValueId)}
    {texts : List String} {low : Nat} (h : p.Formats M entries texts) (hkeeps : p.Keeps M low q)
    (hlow : ∀ entry ∈ entries, entry.2.index < low) : q.Formats M entries texts := by
  unfold Formats at h ⊢
  rw [hkeeps.memory]
  induction h with
  | nil => exact .nil
  | cons hentry _ ih =>
      obtain ⟨x, hx, hwrites⟩ := hentry
      refine .cons ⟨x, hkeeps.holds (.inl (hlow _ List.mem_cons_self)) hx, hwrites⟩ (ih ?_)
      exact fun entry hmem => hlow entry (List.mem_cons_of_mem _ hmem)

/-- Code has been written that computes what is printed. What is left to do is to write it in its
directives. -/
structure Lowering.Supplies (s : Lowering) (scope : Name → Prop) (b : BlockId) (k : Nat)
    (args : List Printed) (s' : Lowering) (b' : BlockId) (k' : Nat)
    (entries : List (String × ValueId)) : Prop where
  same : s.Same s'
  piece : s.module.Piece [b] b k s'.module b' k'
  older : ∀ entry ∈ entries, entry.2.index < s'.module.values.size
  plain : ∀ entry ∈ entries, Char.ofNat 0 ∉ entry.1.toList
  runs : ∀ {M}, s'.module.Grows M → ∀ {call : Caller} {name : String} {p : Point}
    {ρ : Valuation}, p.block = b → p.next = k → p.Agrees M s scope ρ →
    p.state.HoldsTexts s'.module →
    p.Yields M call name s.module.values.size b' k' (args.mapM (Printed.text? ρ))
      fun texts q => q.Formats M entries texts

namespace Lowering

variable {s s₁ s' : Lowering} {scope : Name → Prop} {b b₁ b' : BlockId} {k k₁ k' : Nat}
  {args args' : List Printed} {entries entries' : List (String × ValueId)}

theorem Supplies.nil (hat : s.module.StandsAt b k) : s.Supplies scope b k [] s b k [] where
  same := .refl s
  piece := .refl _ hat
  older := by simp
  plain := by simp
  runs _ _ _ _ _ hb hk _ _ := Point.Yields.pure hb hk .nil

theorem Supplies.append (h : s.Supplies scope b k args s₁ b₁ k₁ entries)
    (hready : s.Ready scope) (h' : s₁.Supplies scope b₁ k₁ args' s' b' k' entries') :
    s.Supplies scope b k (args ++ args') s' b' k' (entries ++ entries') where
  same := h.same.trans h'.same
  piece := h.piece.trans h'.piece
  older := by
    intro entry hentry
    rcases List.mem_append.1 hentry with hentry | hentry
    · exact Nat.lt_of_lt_of_le (h.older entry hentry) h'.piece.writes.grows.values_size
    · exact h'.older entry hentry
  plain := by
    intro entry hentry
    exact (List.mem_append.1 hentry).elim (h.plain entry) (h'.plain entry)
  runs := by
    intro M hgrows call name p ρ hb hk hagrees htexts
    have hgrows' := h'.piece.writes.grows
    have hfirst : p.Yields M call name s.module.values.size b₁ k₁ (args.mapM (Printed.text? ρ))
        fun texts q => q.Formats M entries texts :=
      h.runs (hgrows'.trans hgrows) hb hk hagrees
        (htexts.mono hgrows' h'.piece.writes.globals)
    rw [List.mapM_append]
    refine hfirst.bind h.piece.writes.grows.values_size ?_
    intro texts q _ hkeeps hqb hqk hformats
    have hrest : q.Yields M call name s₁.module.values.size b' k' (args'.mapM (Printed.text? ρ))
        fun texts q => q.Formats M entries' texts :=
      h'.runs hgrows hqb hqk (hagrees.keeps h.same hready hkeeps (Nat.le_refl _))
        (htexts.keeps hkeeps)
    have hjoin : ∀ more : Option (List String),
        (more >>= fun texts' => pure (texts ++ texts')) = more.map (texts ++ ·) := by
      intro more
      cases more <;> rfl
    rw [hjoin]
    refine hrest.map ?_
    intro texts' q' hkeeps' hformats'
    exact List.rel_append (hformats.keeps hkeeps' h.older) hformats'

end Lowering

namespace Recur

variable {s s₁ : Lowering} {scope : Name → Prop} {b : BlockId} {k : Nat} {node : Node}
  {span : Span} {o : Option ValueId}

/-- The value of an expression is handed over. -/
theorem Handles.supplies_expr {r : Recur} (h : r.Handles) {e : Expr}
    (hspelled : e.Spelled scope node) (hready : s.Ready scope) (hat : s.module.StandsAt b k)
    (hvalue : r.value (some node) s = .ok (o, s₁)) (hclean : s₁.context.errorCount = 0) :
    ∃ v, o = some v ∧ ∀ {span res s'}, Lower.printfArg v span s₁ = .ok (res, s') →
      ∃ entry b' k', res = some entry ∧ s.Supplies scope b k [.value e] s' b' k' [entry] := by
  obtain ⟨v, b₁, k₁, t, rfl, hcode⟩ := h.value hspelled hready hat hvalue hclean
  refine ⟨v, rfl, fun {span res s'} hrun => ?_⟩
  obtain ⟨u, m', k', rfl, rfl, hcode'⟩ := Lower.code_printfArg hcode.piece.stop hcode.operand hrun
  have hu : u.index < m'.values.size := by
    obtain ⟨d, hd, -⟩ := hcode'.value
    exact Module.value_lt hd
  refine ⟨_, b₁, k', rfl, hcode.same.trans (s₁.same_withModule m'),
    hcode.piece.trans hcode'.piece, by simpa using hu, ?_, ?_⟩
  · simp only [List.mem_singleton, forall_eq]
    cases t <;> decide
  · intro M hgrows call name p ρ hb hk hagrees _
    have hyields : p.Yields M call name s.module.values.size b₁ k₁ (e.eval ρ)
        fun x q => x.ty = t ∧ q.Shows M (.ofValue v) x :=
      hcode.runs (hcode'.piece.writes.grows.trans hgrows) hb hk ⟨ρ, hagrees, rfl⟩
    have htexts : [Printed.value e].mapM (Printed.text? ρ) =
        (e.eval ρ).bind fun x => some [x.text] := by
      cases heval : e.eval ρ <;> simp [Printed.text?, heval]
    rw [htexts]
    refine hyields.bind hcode.piece.writes.grows.values_size ?_
    rintro x q - - hqb hqk ⟨rfl, hcarries⟩
    have hpromoted : q.Yields M call name s₁.module.values.size b₁ k'
        (some ⟨x.ty.promoted, x.value⟩) fun y q => y.ty = x.ty.promoted ∧ q.Carries M u y :=
      hcode'.runs hgrows hqb hqk ⟨x, rfl, hcarries, rfl⟩
    obtain ⟨q', hpath, hkeeps, hqb', hqk', -, w, hw, hdenotes⟩ := hpromoted
    exact ⟨q', hpath, hkeeps, hqb', hqk',
      .cons ⟨.int w, hw, Format.writes_scalar _ hdenotes.1⟩ .nil⟩

/-- A text is lowered to the address of a new global. -/
theorem value_text {depth : Nat} {name : Name} {text : String} (hkind : node.kind = .strLit name)
    (htext : s.names.text name = .ok text) (hready : s.Ready scope)
    (hvalue : (within depth).value (some node) s = .ok (o, s₁)) :
    ∃ v, o = some v ∧ s.Same s₁ ∧ Build.globalString text s.module = .ok (v, s₁.module) := by
  obtain ⟨f, hfunc, -⟩ := hready.func
  have hchild : ∀ {op s₂}, (within depth).operand node s = .ok (op, s₂) →
      ∃ v, op = some (.ofValue v) ∧ s.Same s₂ ∧
        Build.globalString text s.module = .ok (v, s₂.module) := by
    intro op s₂ hrun
    cases depth with
    | zero => cases hrun
    | succ depth =>
        obtain ⟨s₃, hlower, hmarks, hsame⟩ := lowerNode_eq_ok hfunc hready.fatal hrun
        have hliteral : Lower.someValue (Lower.stringLiteral name) (s.entered node.span) =
            .ok (op, s₃) := by
          rw [← hlower]
          unfold lowerKind
          rw [hkind]
        obtain ⟨_, s₄, hliteral, hend⟩ := bind_eq_ok_iff.1 hliteral
        cases hend
        obtain ⟨v, m, rfl, rfl, hbuild⟩ :=
          Lower.stringLiteral_eq_ok (s := s.entered node.span) htext hliteral
        refine ⟨v, rfl, hsame (Lowering.same_withModule _ m), ?_⟩
        rw [hmarks.module]
        exact hbuild
  unfold Recur.value at hvalue
  rcases Attempt.bind_cases hvalue with ⟨op, s₂, hrequired, hload⟩ | ⟨hrequired, -⟩
  · obtain ⟨_, s₃, hrun, -, hsame⟩ := required_eq_ok hrequired
    obtain ⟨v, rfl, hresult⟩ := hchild hrun
    obtain ⟨hop, rfl⟩ := hsame _ rfl
    cases hop
    cases hload
    exact ⟨v, rfl, hresult⟩
  · obtain ⟨_, s₃, hrun, -, hsame⟩ := required_eq_ok hrequired
    obtain ⟨v, rfl, -⟩ := hchild hrun
    cases (hsame _ rfl).1

/-- The address of a text is handed over. -/
theorem supplies_text {depth : Nat} {name : Name} {text : String} (hkind : node.kind = .strLit name)
    (htext : s.names.text name = .ok text) (hzero : Char.ofNat 0 ∉ text.toList)
    (hready : s.Ready scope) (hat : s.module.StandsAt b k)
    (hvalue : (within depth).value (some node) s = .ok (o, s₁)) :
    ∃ v, o = some v ∧ ∀ {span res s'}, Lower.printfArg v span s₁ = .ok (res, s') →
      ∃ entry b' k', res = some entry ∧ s.Supplies scope b k [.text text] s' b' k' [entry] := by
  obtain ⟨v, rfl, hsame, hbuild⟩ := value_text hkind htext hready hvalue
  have hpiece := Build.Silent.piece hbuild hat
  have hv := Build.isText_globalString hbuild
  refine ⟨v, rfl, fun {span res s'} hrun => ?_⟩
  obtain ⟨m', rfl, rfl, hpiece'⟩ := Lower.printfArg_of_isText hpiece.stop hv hrun
  have hv' : m'.IsText v text := hv.mono hpiece'.writes.grows hpiece'.writes.globals
  refine ⟨_, b, k, rfl, hsame.trans (s₁.same_withModule m'), hpiece.trans hpiece',
    by simpa using hv'.value_lt, by simp, ?_⟩
  intro M hgrows call name p ρ hb hk _ htexts
  obtain ⟨a, ha, hread⟩ := htexts.exists_readText hv' hgrows hzero p.frame
  exact Point.Yields.pure hb hk (.cons ⟨.ptr a, ha, Format.writes_s hread⟩ .nil)

/-- Whatever is printed is handed over. -/
theorem supplies_value {depth : Nat} {arg : Printed} (hspelled : arg.Spelled scope s.names node)
    (hready : s.Ready scope) (hat : s.module.StandsAt b k)
    (hvalue : (within depth).value (some node) s = .ok (o, s₁))
    (hclean : s₁.context.errorCount = 0) :
    ∃ v, o = some v ∧ ∀ {span res s'}, Lower.printfArg v span s₁ = .ok (res, s') →
      ∃ entry b' k', res = some entry ∧ s.Supplies scope b k [arg] s' b' k' [entry] := by
  cases arg with
  | value e => exact (handles_within depth).supplies_expr hspelled hready hat hvalue hclean
  | text text =>
      obtain ⟨name, hkind, htext, hzero⟩ := hspelled
      exact supplies_text hkind htext hzero hready hat hvalue

/-- The arguments of a print are handed over, one after the other. -/
theorem supplies_printArgs {depth : Nat} {args : List Printed} {nodes : List Node}
    {res : Option (List (String × ValueId))} {s' : Lowering}
    (hspelled : List.Forall₂ (fun arg node => arg.Spelled scope s.names node) args nodes)
    (hready : s.Ready scope) (hat : s.module.StandsAt b k)
    (hrun : (within depth).printArgs span (nodes.map some) s = .ok (res, s'))
    (hclean : s'.context.errorCount = 0) :
    ∃ entries b' k', res = some entries ∧ s.Supplies scope b k args s' b' k' entries := by
  induction args generalizing nodes s b k res with
  | nil =>
      cases hspelled
      cases hrun
      exact ⟨[], b, k, rfl, .nil hat⟩
  | cons arg args ih =>
      cases hspelled with
      | @cons _ node _ nodes harg hargs =>
      rw [List.map_cons, printArgs] at hrun
      rcases Attempt.bind_cases hrun with ⟨v, s₁, hvalue, hrest⟩ | ⟨hvalue, rfl⟩
      · have hlater : s₁.Later s' :=
          Lower.Composed.later (x := (Lower.printfArg v span >>= fun arg => do
            return arg :: (← (within depth).printArgs span (nodes.map some))).run) hrest
        have hclean₁ : s₁.context.errorCount = 0 := by
          have hreports := hlater.reports
          omega
        obtain ⟨v', hv, hentry⟩ := supplies_value harg hready hat hvalue hclean₁
        cases hv
        rcases Attempt.bind_cases hrest with ⟨entry, s₂, hprintf, hrest⟩ | ⟨hprintf, -⟩
        · obtain ⟨entry', b₂, k₂, hsome, hfirst⟩ := hentry hprintf
          cases hsome
          have hready₂ := hready.mono hfirst.same hfirst.piece.writes.grows
          obtain ⟨o, hothers, rfl⟩ := Attempt.bind_pure_eq_ok
            (x := (within depth).printArgs span (nodes.map some)) hrest
          rw [← hfirst.same.names] at hargs
          obtain ⟨entries, b', k', rfl, hall⟩ := ih hargs hready₂ hfirst.piece.stop hothers
          exact ⟨_, b', k', rfl, hfirst.append hready hall⟩
        · obtain ⟨entry', b₂, k₂, hsome, -⟩ := hentry hprintf
          cases hsome
      · obtain ⟨v', hv, -⟩ := supplies_value harg hready hat hvalue hclean
        cases hv

end Recur

end SsaCompiler
