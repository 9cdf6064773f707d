/-
# Printing integers and texts

Running what a print statement is lowered to prints its arguments as they are, with blanks between
them and the end of a line behind them. All of it is printed by one call behind the code of the
arguments, so nothing is printed if one of them divides by zero.

The format and the texts are globals, so this holds as long as the program has not written over
them, and the function that prints has to be the one that the machine provides.

Where the arguments are no scalar expressions nothing is known about their code, but print does not
care: each operand is handed over by its type alone, and the call prints what it finds.
-/

import SsaCompiler.Proofs.Lower.Drafting
import SsaCompiler.Proofs.Lower.Compilation
import SsaCompiler.Proofs.Scalar.Print

namespace SsaCompiler

/-! ### The call -/

namespace Build

variable {m m' : Module} {b : BlockId} {k : Nat}

instance (g : SupportFunction) : Silent g.signature := by
  unfold SupportFunction.signature
  cases g <;> dsimp only <;> infer_instance

instance (t : SupportTable) (g : SupportFunction) : Silent (t.get g) := by
  unfold SupportTable.get
  cases t.declared.get? g <;> dsimp only <;> infer_instance

/-- A call is one instruction. -/
theorem call_eq_ok {f : FunctionId} {args : List ValueId} {answer : Option ValueId}
    (hat : m.StandsAt b k) (hrun : call f args m = .ok (answer, m')) :
    ∃ m₁ ty, m.Grows m₁ ∧ m₁.globals = m.globals ∧ m₁.blocks = m.blocks ∧ m₁.StandsAt b k ∧
      m' = m₁.withInstr b ty (.call f args) := by
  obtain ⟨ty, m₁, hret, hrest⟩ := bind_eq_ok_iff.1 hrun
  have hresult : m.Grows m₁ ∧ m₁.globals = m.globals ∧ m₁.blocks = m.blocks ∧
      m₁.StandsAt b k := by
    obtain ⟨d, _, hask, hret⟩ := bind_eq_ok_iff.1 hret
    obtain ⟨-, hsame⟩ := ask_eq_ok_iff.1 hask
    cases hsame
    obtain ⟨t, _, htype, hret⟩ := bind_eq_ok_iff.1 hret
    obtain ⟨-, hsame⟩ := ask_eq_ok_iff.1 htype
    cases hsame
    -- A wrong number of arguments is only counted.
    have hcounted : ∀ n, m.codegenErrors ≤ n → m.Grows { m with codegenErrors := n } := fun n hn =>
      ⟨fun ht _ => ht, id, fun hc => ⟨_, hc, .refl _ _⟩, fun hg => ⟨_, hg, .refl _⟩, hn⟩
    cases hsig : t.signature? with
    | none =>
        rw [hsig] at hret
        cases hret
        have hpiece := Module.piece_withType hat .void
        exact ⟨hpiece.writes.grows, rfl, rfl, hpiece.stop⟩
    | some sig =>
        rw [hsig] at hret
        dsimp only at hret
        split at hret <;> split at hret <;> cases hret
        · exact ⟨hcounted _ (Nat.le_succ _), rfl, rfl, hat.position, hat.block⟩
        · exact ⟨.refl m, rfl, rfl, hat⟩
        · exact ⟨hcounted _ (Nat.le_succ _), rfl, rfl, hat.position, hat.block⟩
        · exact ⟨.refl m, rfl, rfl, hat⟩
  obtain ⟨hgrows, hglobals, hblocks, hat₁⟩ := hresult
  refine ⟨m₁, ty, hgrows, hglobals, hblocks, hat₁, ?_⟩
  obtain ⟨v, m₂, hpush, hrest⟩ := bind_eq_ok_iff.1 hrest
  cases (Module.pushInstr_of_standsAt hat₁ ty _).symm.trans hpush
  obtain ⟨t, m₃, htype, hrest⟩ := bind_eq_ok_iff.1 hrest
  obtain ⟨-, rfl⟩ := ask_eq_ok_iff.1 htype
  split at hrest <;> cases hrest <;> rfl

end Build

namespace Lower

variable {s s' : Lowering} {b : BlockId} {k : Nat}

/-- A call of a support function that lets out no exception. -/
theorem emitCall_of_identify {f : FunctionId} {g : SupportFunction} {args : List ValueId}
    (hf : s.context.support.identify? f = some g) (hunwind : g.mayUnwind = false) :
    emitCall f args s = (liftM (Build.call f args) : Lower (Option ValueId)) s := by
  unfold emitCall
  rw [bind_of_ok (get_apply s), bind_of_ok (get_apply s), hf]
  cases s.pass.tries with
  | nil => rfl
  | cons frame _ =>
      have hplain : ¬ g.mayUnwind = true := by simp [hunwind]
      exact congrFun (if_neg hplain) s

/-- The code that prints in a format is one call, of the function that has the name. -/
theorem emitPrintf_eq_ok {format : String} {args : List ValueId} (hknown : s.Known)
    (hat : s.module.StandsAt b k)
    (hrun : emitPrintf format args s = .ok ((), s')) :
    ∃ f text m₁ m₂ ty table, s.module.Piece [b] b k m₁ b k ∧ m₁.IsText text format ∧
      s'.module.functionByName? "printf" = some f ∧ m₁.Grows m₂ ∧ m₂.globals = m₁.globals ∧
      m₂.blocks = m₁.blocks ∧ m₂.StandsAt b k ∧ s' = { s with
        context := { s.context with support := table }
        module := m₂.withInstr b ty (.call f (text :: args)) } := by
  unfold emitPrintf at hrun
  obtain ⟨f, s₁, hsupport, hrun⟩ := bind_eq_ok_iff.1 hrun
  obtain ⟨hlater, hname⟩ := (gives_support .printf hknown).run hsupport
  have hknown₁ := hlater.known hknown
  have hname' := (Stepwise.later hknown₁ hrun).module.functionByName? hname
  obtain ⟨table, m₁, hget, rfl⟩ := support_eq_ok hsupport
  have hfound : table.identify? f = some .printf := by
    refine SupportTable.identify?_eq (m := m₁) hknown₁.supported ?_ (SupportTable.get?_get hget)
    intro g f hentry
    obtain ⟨_, ⟨⟩, hentry⟩ := hknown₁.support hentry
    exact hentry
  have hpiece₁ := Build.Silent.piece hget hat
  obtain ⟨text, s₂, hlift, hrun⟩ := bind_eq_ok_iff.1 hrun
  obtain ⟨m₂, hglobal, rfl⟩ := build_eq_ok_iff.1 hlift
  have hpiece₂ := Build.Silent.piece hglobal hpiece₁.stop
  obtain ⟨answer, s₃, hcall, hend⟩ := (bind_eq_ok_iff (f := fun _ => pure ())).1 hrun
  cases hend
  rw [emitCall_of_identify hfound rfl] at hcall
  obtain ⟨m₃, hbuild, rfl⟩ := build_eq_ok_iff.1 hcall
  obtain ⟨m₄, ty, hgrows, hglobals, hblocks, hat₄, rfl⟩ := Build.call_eq_ok hpiece₂.stop hbuild
  exact ⟨f, text, m₂, m₄, ty, table, hpiece₁.trans hpiece₂, Build.isText_globalString hglobal,
    hname', hgrows, hglobals, hblocks, hat₄, rfl⟩

end Lower

/-! ### Running a print -/

/-- A line has no character zero if what is printed has none. -/
theorem Printed.zero_notMem_line {texts : List String}
    (h : ∀ text ∈ texts, Char.ofNat 0 ∉ text.toList) : Char.ofNat 0 ∉ (line texts).toList := by
  have hjoined : Char.ofNat 0 ∉ (" ".intercalate texts).toList := by
    induction texts with
    | nil => decide
    | cons text rest ih =>
        have htext := h text List.mem_cons_self
        have hrest := ih fun text hmem => h text (List.mem_cons_of_mem _ hmem)
        cases rest with
        | nil => simpa using htext
        | cons next rest =>
            rw [String.intercalate_cons_cons, String.toList_append, String.toList_append]
            simp only [List.mem_append, not_or]
            exact ⟨⟨htext, by decide⟩, hrest⟩
  unfold line
  rw [String.toList_append]
  exact fun hmem => (List.mem_append.1 hmem).elim hjoined (by decide)

/-- What the values of directives stand for, and the line that is written with it. -/
theorem Point.Formats.exists_values {M : Module} {p : Point} {entries : List (String × ValueId)}
    {texts : List String} (h : p.Formats M entries texts) :
    ∃ xs, List.Forall₂ (fun v x => p.Holds M v x) (entries.map Prod.snd) xs ∧
      Format.Writes p.state.memory (Printed.line (entries.map Prod.fst)) xs
        (Printed.line texts) := by
  obtain ⟨written, hnames, hvalues, hwrites⟩ : ∃ written : List (String × Val),
      written.map Prod.fst = entries.map Prod.fst ∧
      List.Forall₂ (fun v x => p.Holds M v x) (entries.map Prod.snd) (written.map Prod.snd) ∧
      List.Forall₂ (fun entry text => Format.Writes p.state.memory entry.1 [entry.2] text)
        written texts := by
    unfold Formats at h
    induction h with
    | nil => exact ⟨[], rfl, .nil, .nil⟩
    | @cons entry text entries texts hentry _ ih =>
        obtain ⟨x, hx, hwrite⟩ := hentry
        obtain ⟨written, hnames, hvalues, hwrites⟩ := ih
        exact ⟨(entry.1, x) :: written, congrArg (entry.1 :: ·) hnames, .cons hx hvalues,
          .cons hwrite hwrites⟩
  have hline := (Format.writes_intercalate hwrites).append
    (Format.writes_literal p.state.memory (s := "\n") (by decide))
  rw [hnames, List.append_nil] at hline
  exact ⟨_, hvalues, hline⟩

/-- At a point a line is about to be printed, at the place where the instruction for it stands. The
next step prints it, unless the run is as deep in calls as it may be. -/
structure Point.IsAtLine (M : Module) (limits : Limits) (call : Caller) (name : String) (b : BlockId)
    (k : Nat) (p : Point) (line : String) : Prop where
  block : ∃ d, M.block p.block = .ok d
  prints : (∃ id v, ¬ M.IsRoom id ∧ Point.Step M call name p ⟨b, k + 1, p.frame.bind id v,
      { p.state.tick with output := p.state.output ++ line }⟩) ∨
    limits.maxCallDepth ≤ p.state.depth ∧
      Point.Stops M call p (.failed (.callDepth limits.maxCallDepth))

namespace Exec

/-- What becomes of a run from a point on in which a line is printed. The place is the one behind
the code that prints. -/
inductive Prints (m : Module) (limits : Limits) (call : Caller) (name : String) (n : Nat)
    (p : Point) (b : BlockId) (k : Nat) : Option String → Prop where
  /-- The line has been printed and the run goes on; nothing else has happened. -/
  | line {text : String} {q : Point} {n' : Nat}
      (hrest : rest m limits call name n p = rest m limits call name n' q)
      (hblock : q.block = b) (hnext : q.next = k)
      (hstate : q.state =
        { p.state with steps := q.state.steps, output := p.state.output ++ text }) :
      Prints m limits call name n p b k (some text)
  /-- The run ends with a division by zero, and nothing has been printed. -/
  | division {s : MachineState}
      (hrest : rest m limits call name n p = .error (.failed .divisionByZero) s)
      (houtput : s.output = p.state.output) : Prints m limits call name n p b k none
  /-- The run has used up its steps. -/
  | limit {o : Option String} {s : MachineState}
      (hrest : rest m limits call name n p = .error (.failed (.stepLimit limits.maxSteps)) s) :
      Prints m limits call name n p b k o
  /-- The run is as deep in calls as it may be, and nothing has been printed. -/
  | depth {o : Option String} {s : MachineState} (hdepth : limits.maxCallDepth ≤ p.state.depth)
      (hrest : rest m limits call name n p = .error (.failed (.callDepth limits.maxCallDepth)) s)
      (houtput : s.output = p.state.output) : Prints m limits call name n p b k o

section Run

variable {M m₁ m₂ : Module} {limits : Limits} {levels : Nat} {name : String} {b : BlockId} {k : Nat}
  {ty : TypeId} {f : FunctionId} {text : ValueId} {entries : List (String × ValueId)} {p : Point}

/-- At the call that prints, a line is about to be printed. -/
theorem isAtLine_of_formats {texts : List String} (hblock : p.block = b) (hnext : p.next = k)
    (hformats : p.Formats M entries texts) (hat : m₂.StandsAt b k)
    (hM : (m₂.withInstr b ty (.call f (text :: entries.map Prod.snd))).Grows M)
    (hexternal : M.IsExternal "printf") (hf : M.functionByName? "printf" = some f)
    (htext : m₁.IsText text (Printed.line (entries.map Prod.fst))) (hM₁ : m₁.Grows M)
    (hplain : ∀ entry ∈ entries, Char.ofNat 0 ∉ entry.1.toList)
    (htexts : p.state.HoldsTexts m₁) :
    p.IsAtLine M limits (callWithin M limits (levels + 1)) name b k (Printed.line texts) := by
  obtain ⟨b, k, frame, s⟩ := p
  subst hblock hnext
  obtain ⟨d, hd, hid, hvalue⟩ := Module.instr_of_grows hat hM
  refine ⟨⟨d, hd⟩, ?_⟩
  -- The call finds the format and the values that were computed for it.
  obtain ⟨xs, hvalues, hwrites⟩ := hformats.exists_values
  obtain ⟨a, ha, hread⟩ := htexts.exists_readText htext hM₁
    (Printed.zero_notMem_line (by simpa using hplain)) frame
  rcases Nat.lt_or_ge s.depth limits.maxCallDepth with hdepth | hdepth
  · have hcall := callWithin_printf (n := levels) (s := s.tick) hdepth hexternal hf hread hwrites
    have hrun := instruction_call (s := s.tick) m₂.nextValue (.cons ha hvalues) hcall
    refine .inl ⟨m₂.nextValue, _, ?_, .instr hd hid hvalue hrun (Nat.lt_succ_self _)⟩
    rintro ⟨_, _, hroom⟩
    cases hvalue.symm.trans hroom
  · have hcall : callWithin M limits (levels + 1) f (.ptr a :: xs) s.tick =
        .error (.failed (.callDepth limits.maxCallDepth)) s.tick := callWithin_of_depth hdepth
    have hrun := instruction_call_of_error (s := s.tick) m₂.nextValue (.cons ha hvalues) hcall
    exact .inr ⟨hdepth, .instr hd hid hvalue hrun rfl⟩

/-- A run along code that computes what is printed, and then to the call that prints it. -/
theorem prints_of_yields {low n : Nat} {o : Option (List String)} {call : Caller}
    (hyields : p.Yields M call name low b k o fun texts q =>
      q.IsAtLine M limits call name b k (Printed.line texts))
    (hfuel : limits.maxSteps < n + p.state.steps) :
    Prints M limits call name n p b (k + 1) (o.map Printed.line) := by
  cases o with
  | none =>
      rcases rest_of_yields_none hyields hfuel with ⟨s, hrest, houtput⟩ | ⟨s, hrest⟩
      · exact .division hrest houtput
      · exact .limit hrest
  | some texts =>
      obtain ⟨q, hpath, hkeeps, hb, hk, ⟨d, hd⟩, hprints⟩ := hyields
      rcases rest_of_reaches hpath (Nat.le_of_lt hfuel) with ⟨n', hfuel', hrest⟩ | ⟨s, hrest⟩
      · rcases Nat.lt_or_ge q.state.steps limits.maxSteps with hlimit | hlimit
        · obtain ⟨steps, hsteps⟩ := hkeeps.state
          rcases hprints with ⟨id, v, -, hstep⟩ | ⟨hdepth, hstops⟩
          · obtain ⟨n'', -, hrest'⟩ := rest_of_step hstep hlimit hfuel'
            exact .line (hrest.trans hrest') rfl rfl (by rw [hsteps]; rfl)
          · obtain ⟨s, hstop, houtput⟩ := rest_of_stops hstops hlimit
            rw [hsteps] at hdepth
            exact .depth hdepth (hrest.trans hstop) (houtput.trans hkeeps.output)
        · exact .limit (hrest.trans (rest_of_limit hd hlimit))
      · exact .limit hrest

end Run

end Exec

/-- The code of a call that prints. The place is the one behind it. -/
structure Lowering.Calls (s : Lowering) (b : BlockId) (k : Nat) (entries : List (String × ValueId))
    (s' : Lowering) : Prop where
  pass : s'.pass = s.pass
  context : ∃ table, s'.context = { s.context with support := table }
  grows : s.module.Grows s'.module
  globals : s.module.globals.toList <+: s'.module.globals.toList
  others : ∀ c, c ≠ b → c.index < s.module.blocks.size → s'.module.block c = s.module.block c
  stop : s'.module.StandsAt b (k + 1)
  runs : ∀ {M : Module} {limits : Limits} {levels : Nat} {name : String} {p : Point}
    {texts : List String}, s'.module.Grows M → M.IsExternal "printf" → p.block = b → p.next = k →
    (∀ entry ∈ entries, Char.ofNat 0 ∉ entry.1.toList) → p.Formats M entries texts →
    p.state.HoldsTexts s'.module →
    p.IsAtLine M limits (Exec.callWithin M limits (levels + 1)) name b k (Printed.line texts)

/-- What prints in directives is one call. -/
theorem Lower.calls_of_emitPrintf {s s' : Lowering} {b : BlockId} {k : Nat}
    {entries : List (String × ValueId)} (hknown : s.Known) (hat : s.module.StandsAt b k)
    (hrun : emitPrintf (Printed.line (entries.map Prod.fst)) (entries.map Prod.snd) s =
      .ok ((), s')) : s.Calls b k entries s' := by
  obtain ⟨f, text, m₁, m₂, ty, table, hpiece, htext, hf, hgrows₂, hglobals, hblocks, hat₂, hs'⟩ :=
    emitPrintf_eq_ok hknown hat hrun
  have hwritten : s'.module =
      m₂.withInstr b ty (.call f (text :: entries.map Prod.snd)) := by rw [hs']
  have hcall := Module.piece_withInstr hat₂ ty (i := .call f (text :: entries.map Prod.snd))
    (by simp)
  have hgrows₁ : m₁.Grows s'.module := by
    rw [hwritten]
    exact hgrows₂.trans hcall.writes.grows
  have hglobals₁ : m₁.globals.toList <+: s'.module.globals.toList := by
    rw [hwritten, ← hglobals]
    exact hcall.writes.globals
  refine ⟨by rw [hs'], ⟨table, by rw [hs']⟩, hpiece.writes.grows.trans hgrows₁,
    hpiece.writes.globals.trans hglobals₁, fun c hc hlt => ?_, ?_, ?_⟩
  · have hold := hpiece.writes.others c (by simpa using hc) hlt
    rw [hwritten, ← hold]
    refine (hcall.writes.others c (by simpa using hc) ?_).trans ?_
    · rw [hblocks]
      exact Nat.lt_of_lt_of_le hlt hpiece.writes.grows.blocks_size
    · unfold Module.block
      rw [hblocks]
  · rw [hwritten]
    exact hcall.stop
  · intro M limits levels name p texts hM hexternal hb hk hplain hformats htexts
    exact Exec.isAtLine_of_formats hb hk hformats hat₂ (hwritten ▸ hM) hexternal
      (hM.functionByName? hf) htext (hgrows₁.trans hM) hplain (htexts.mono hgrows₁ hglobals₁)

/-- Code has been written that computes what is printed and prints it as a line. Apart from the
module there may be one more support function, and in another block than the current one nothing has
changed. -/
structure Lowering.PrintsLine (s : Lowering) (scope : Name → Prop) (b : BlockId) (k : Nat)
    (args : List Printed) (s' : Lowering) (b' : BlockId) (k' : Nat) : Prop where
  pass : s'.pass = { s.pass with span := s'.pass.span }
  context : ∃ table, s'.context = { s.context with support := table }
  grows : s.module.Grows s'.module
  globals : s.module.globals.toList <+: s'.module.globals.toList
  others : ∀ c, c ≠ b → c.index < s.module.blocks.size → s'.module.block c = s.module.block c
  stop : s'.module.StandsAt b' (k' + 1)
  fresh : b' = b ∨ s.module.blocks.size ≤ b'.index
  runs : ∀ {M : Module} {limits : Limits} {levels : Nat} {name : String} {p : Point} {ρ : Valuation},
    s'.module.Grows M → M.IsExternal "printf" → p.block = b → p.next = k → p.Agrees M s scope ρ →
    p.state.HoldsTexts s'.module →
    p.Yields M (Exec.callWithin M limits (levels + 1)) name s.module.values.size b' k'
      (args.mapM (Printed.text? ρ)) fun texts q =>
        q.IsAtLine M limits (Exec.callWithin M limits (levels + 1)) name b' k' (Printed.line texts)

namespace Recur

variable {depth : Nat} {args : List Printed} {scope : Name → Prop} {nodes : List Node}
  {s s' : Lowering} {b : BlockId} {k : Nat}

/-- The code of a print prints a line. -/
theorem printsLine_print {span : Span} {o : Option Unit}
    (hspelled : List.Forall₂ (fun arg node => arg.Spelled scope s.names node) args nodes)
    (hready : s.Ready scope) (hknown : s.Known) (hat : s.module.StandsAt b k)
    (hrun : (within depth).print (nodes.map some) span s = .ok (o, s'))
    (hclean : s'.context.errorCount = 0) : ∃ b' k', s.PrintsLine scope b k args s' b' k' := by
  unfold print at hrun
  rcases Attempt.bind_cases hrun with ⟨entries, s₁, hargs, hemit⟩ | ⟨hargs, -⟩
  · obtain ⟨⟨⟩, hemit, -⟩ := Attempt.lift_eq_ok hemit
    have hreports := (Lower.Composed.later hemit).reports
    obtain ⟨entries', b₁, k₁, hsome, hsupplies⟩ :=
      supplies_printArgs hspelled hready hat hargs (by omega)
    cases hsome
    have hlater := Stepwise.later (x := ((within depth).printArgs span (nodes.map some)).run)
      hknown hargs
    have hcalls := Lower.calls_of_emitPrintf (hlater.known hknown) hsupplies.piece.stop hemit
    have hwrites := hsupplies.piece.writes
    obtain ⟨table, htable⟩ := hcalls.context
    refine ⟨b₁, k₁, ?_, ⟨table, ?_⟩, hwrites.grows.trans hcalls.grows,
      hwrites.globals.trans hcalls.globals, fun c hc hlt => ?_, hcalls.stop,
      hsupplies.piece.fresh, ?_⟩
    · rw [hcalls.pass]
      exact hsupplies.same.pass
    · rw [htable, hsupplies.same.context]
    · have hne : c ≠ b₁ := by
        rcases hsupplies.piece.fresh with rfl | hle
        · exact hc
        · rintro rfl
          omega
      exact (hcalls.others c hne (Nat.lt_of_lt_of_le hlt hwrites.grows.blocks_size)).trans
        (hwrites.others c (by simpa using hc) hlt)
    · intro M limits levels name p ρ hM hexternal hb hk hagrees htexts
      have hyields : p.Yields M (Exec.callWithin M limits (levels + 1)) name
          s.module.values.size b₁ k₁ (args.mapM (Printed.text? ρ))
          fun texts q => q.Formats M entries texts :=
        hsupplies.runs (hcalls.grows.trans hM) hb hk hagrees
          (htexts.mono hcalls.grows hcalls.globals)
      have hcalled : ∀ texts q, p.Keeps M s.module.values.size q → q.block = b₁ → q.next = k₁ →
          q.Formats M entries texts → q.IsAtLine M limits (Exec.callWithin M limits (levels + 1))
            name b₁ k₁ (Printed.line texts) := fun texts q hkeeps hb hk hformats =>
        hcalls.runs hM hexternal hb hk hsupplies.plain hformats (htexts.keeps hkeeps)
      cases htexts : args.mapM (Printed.text? ρ) with
      | none =>
          rw [htexts] at hyields
          exact hyields
      | some texts =>
          rw [htexts] at hyields
          obtain ⟨q, hpath, hkeeps, hb, hk, hformats⟩ := hyields
          exact ⟨q, hpath, hkeeps, hb, hk, hcalled texts q hkeeps hb hk hformats⟩
  · obtain ⟨entries, -, -, hsome, -⟩ := supplies_printArgs hspelled hready hat hargs hclean
    cases hsome

/-- Running what a print is lowered to prints what its arguments stand for, with blanks between and
the end of a line behind, or ends with a division by zero before anything has been printed. This
holds in every module that the code ends up in, as long as the function that prints is the one of
the machine, at every point at which the variables have values and the texts of the module are in
memory, and for every limit. -/
theorem prints_lowerNode {node : Node} {res : Option Operand}
    (hkind : node.kind = .print (nodes.map some))
    (hspelled : List.Forall₂ (fun arg node => arg.Spelled scope s.names node) args nodes)
    (hready : s.Ready scope) (hknown : s.Known) (hat : s.module.StandsAt b k)
    (hlower : (within depth).lowerNode node s = .ok (res, s'))
    (hclean : s'.context.errorCount = 0) :
    ∃ b' k', s.module.Grows s'.module ∧ s'.module.StandsAt b' k' ∧
      ∀ {M limits levels name n p ρ}, s'.module.Grows M → M.IsExternal "printf" → p.block = b →
        p.next = k → p.Agrees M s scope ρ → p.state.HoldsTexts s'.module →
        limits.maxSteps < n + p.state.steps →
        Exec.Prints M limits (Exec.callWithin M limits (levels + 1)) name n p b' k'
          ((args.mapM (Printed.text? ρ)).map Printed.line) := by
  obtain ⟨f, hfunc, -⟩ := hready.func
  obtain ⟨s₁, hkindRun, hmarks, -⟩ := lowerNode_eq_ok hfunc hready.fatal hlower
  have hstatement : ((within depth).print (nodes.map some) node.span).noValue
      (s.entered node.span) = .ok (res, s₁) := by
    rw [← hkindRun]
    unfold lowerKind
    rw [hkind]
  obtain ⟨⟨⟩, _, hdiscard, hend⟩ := bind_eq_ok_iff.1 hstatement
  cases hend
  obtain ⟨o, _, hprint, hend⟩ := (bind_eq_ok_iff (f := fun _ => pure ())).1 hdiscard
  cases hend
  rw [hmarks.context] at hclean
  rw [hmarks.module]
  obtain ⟨b', k', hline⟩ := printsLine_print (s := s.entered node.span) hspelled
    (hready.entered node.span) hknown hat hprint hclean
  exact ⟨b', k' + 1, hline.grows, hline.stop, fun hM hexternal hb hk hagrees htexts hfuel =>
    Exec.prints_of_yields (hline.runs hM hexternal hb hk hagrees htexts) hfuel⟩

end Recur

/-! ### Operands of any kind -/

/-- What a call that prints finds for a directive: an integer, as the type that the directive takes,
or the address of a text. -/
def Point.Finds (M : Module) (p : Point) (entry : String × ValueId) (text : String) : Prop :=
  (∃ x : Scalar, entry.1 = x.ty.directive ∧ p.Carries M entry.2 ⟨x.ty.promoted, x.value⟩ ∧
    text = x.text) ∨
  entry.1 = "%s" ∧ ∃ a, p.Holds M entry.2 (.ptr a) ∧ p.state.memory.readText a = .ok text

/-- What is found is written as it is. -/
theorem Point.formats_of_finds {M : Module} {p : Point} {entries : List (String × ValueId)}
    {texts : List String} (h : List.Forall₂ (p.Finds M) entries texts) :
    p.Formats M entries texts := by
  refine h.imp fun entry text hentry => ?_
  rcases hentry with ⟨x, hdirective, ⟨w, hw, hdenotes⟩, rfl⟩ | ⟨hdirective, a, ha, hread⟩
  · exact ⟨.int w, hw, hdirective ▸ Format.writes_scalar _ hdenotes.1⟩
  · exact ⟨.ptr a, ha, hdirective ▸ Format.writes_s hread⟩

/-- No directive has a character zero. -/
theorem Point.plain_of_finds {M : Module} {p : Point} {entries : List (String × ValueId)}
    {texts : List String} (h : List.Forall₂ (p.Finds M) entries texts) :
    ∀ entry ∈ entries, Char.ofNat 0 ∉ entry.1.toList := by
  have hdirective : ∀ t : ScalarType, Char.ofNat 0 ∉ t.directive.toList := by
    intro t
    cases t <;> decide
  induction h with
  | nil => exact fun _ hmem => absurd hmem List.not_mem_nil
  | cons hentry _ ih =>
      refine List.forall_mem_cons.2 ⟨?_, ih⟩
      rcases hentry with ⟨x, hx, -⟩ | ⟨hx, -⟩
      · exact hx ▸ hdirective x.ty
      · rw [hx]
        decide

namespace Recur

variable {depth : Nat} {s s₁ s' : Lowering} {span : Span} {entries : List (String × ValueId)}

/-- Between two states the operand of an argument is computed and then handed over with a directive.
An integer is handed over as the type that its directive takes, with a conversion where its own type
is narrower. -/
def Hands (r : Recur) (span : Span) (s s' : Lowering) (child : Option Node)
    (entry : String × ValueId) : Prop :=
  ∃ v s₁ s₂ s₃, s.Evolves s₁ ∧ r.value child s₁ = .ok (some v, s₂) ∧
    Lower.printfArg v span s₂ = .ok (some entry, s₃) ∧ s₃.Evolves s' ∧
    ∀ {t b k}, s₂.module.StandsAt b k → s₂.module.IsScalar v t →
      entry.1 = t.directive ∧ ∃ k', s₂.module.Code b k s₃.module b k' entry.2 t.promoted fun M p o =>
        ∃ x : Scalar, x.ty = t ∧ p.Carries M v x ∧ o = some ⟨t.promoted, x.value⟩

/-- Each argument of a print is handed over. -/
theorem hands_printArgs {children : List (Option Node)} (hknown : s.Known)
    (hrun : (within depth).printArgs span children s = .ok (some entries, s')) :
    s.Evolves s' ∧ List.Forall₂ ((within depth).Hands span s s') children entries := by
  induction children generalizing s entries with
  | nil =>
      cases hrun
      exact ⟨.refl _, .nil⟩
  | cons child children ih =>
      rw [printArgs] at hrun
      obtain ⟨v, s₁, hvalue, hrest⟩ := Attempt.bind_eq_some hrun
      obtain ⟨entry, s₂, hprintf, hrest⟩ := Attempt.bind_eq_some hrest
      obtain ⟨others, s₃, hothers, hend⟩ := Attempt.bind_eq_some hrest
      cases hend
      have h₁ := Stepwise.later (x := ((within depth).value child).run) hknown hvalue
      have h₂ := Stepwise.later (x := (Lower.printfArg v span).run) (h₁.known hknown) hprintf
      obtain ⟨h₃, hhands⟩ := ih ((h₁.trans h₂).known hknown) hothers
      refine ⟨(h₁.trans h₂).trans h₃, .cons ?_ (hhands.imp ?_)⟩
      · refine ⟨v, s, s₁, s₂, .refl s, hvalue, hprintf, h₃, fun {t b k} hat hv => ?_⟩
        obtain ⟨u, m', k', hsome, rfl, hcode⟩ := Lower.code_printfArg hat hv hprintf
        cases hsome
        exact ⟨rfl, k', hcode⟩
      · rintro child entry ⟨v, s₄, s₅, s₆, h₄, hrest⟩
        exact ⟨v, s₄, s₅, s₆, (h₁.trans h₂).trans h₄, hrest⟩

/-- Whatever the arguments of a print are, and however they are computed: each is handed over, and
the call behind them prints what it finds, with blanks between and the end of a line behind. An
integer of any of the five types is printed as it is, and a text without looking for directives in
it. -/
theorem prints_operands {children : List (Option Node)} (hknown : s.Known)
    (hrun : (within depth).print children span s = .ok (some (), s')) :
    ∃ entries s₁, (within depth).printArgs span children s = .ok (some entries, s₁) ∧
      List.Forall₂ ((within depth).Hands span s s₁) children entries ∧
      ∀ {b k M limits levels name n p texts}, s₁.module.StandsAt b k → s'.module.Grows M →
        M.IsExternal "printf" → p.block = b → p.next = k → p.state.HoldsTexts s'.module →
        limits.maxSteps < n + p.state.steps → List.Forall₂ (p.Finds M) entries texts →
        Exec.Prints M limits (Exec.callWithin M limits (levels + 1)) name n p b (k + 1)
          (some (Printed.line texts)) := by
  obtain ⟨entries, s₁, hargs, hemit⟩ := Attempt.bind_eq_some hrun
  obtain ⟨⟨⟩, hemit, -⟩ := Attempt.lift_eq_ok hemit
  obtain ⟨hlater, hhands⟩ := hands_printArgs hknown hargs
  refine ⟨entries, s₁, hargs, hhands, ?_⟩
  intro b k M limits levels name n p texts hat hM hexternal hb hk htexts hfuel hfinds
  have hcalls := Lower.calls_of_emitPrintf (hlater.known hknown) hat hemit
  have hline : p.IsAtLine M limits (Exec.callWithin M limits (levels + 1)) name b k
      (Printed.line texts) :=
    hcalls.runs hM hexternal hb hk (Point.plain_of_finds hfinds) (Point.formats_of_finds hfinds)
      htexts
  have hyields : p.Yields M (Exec.callWithin M limits (levels + 1)) name 0 b k (some texts)
      fun texts q => q.IsAtLine M limits (Exec.callWithin M limits (levels + 1)) name b k
        (Printed.line texts) := .pure hb hk hline
  exact Exec.prints_of_yields hyields hfuel

end Recur

/-! ### A quotient behind a text -/

namespace PrintExample

open QuotientExample (walk)

/-- The statement `print "5% of", 100 / (c - 7)`. -/
def tree : Node :=
  ⟨6, .unknown, .print ([⟨5, .unknown, .strLit ⟨4⟩⟩, QuotientExample.tree].map some)⟩

/-- What is printed. -/
def args : List Printed := [.text "5% of", .value QuotientExample.expr]

/-- The bytes of the text and of the format. -/
def texts : List (List UInt8) := [Text.encode "5% of" ++ [0], Text.encode "%s %d\n" ++ [0]]

/-- The point behind the room for the variable, with the bytes in memory. -/
def start : UInt8 → Point := QuotientExample.start texts.flatten #[16, 22]

theorem known : walk.Known where
  objects h := by cases h
  structures h := by cases h
  instances h := by cases h
  functions h := by cases h
  operators _ h := absurd h List.not_mem_nil
  keys := OperatorTable.isIndexed_empty
  support h := by cases h
  supported := .nil

theorem holdsTexts {m : Module} (hsize : m.globals.size = 2)
    (hbytes : [m.startBytes? 0, m.startBytes? 1] = texts.map some) {c : UInt8}
    (hc : c = 12 ∨ c = 7) : (start c).state.HoldsTexts m := by
  intro i bytes hstarts
  have hfound := hstarts.startBytes?
  obtain ⟨g, init, ty, hg, -⟩ := hstarts
  have hlt : i < m.globals.size := (Array.getElem?_eq_some_iff.1 hg).1
  obtain ⟨hzero, hone⟩ : m.startBytes? 0 = some (Text.encode "5% of" ++ [0]) ∧
      m.startBytes? 1 = some (Text.encode "%s %d\n" ++ [0]) := by simpa [texts] using hbytes
  obtain rfl | rfl : i = 0 ∨ i = 1 := by omega
  · obtain rfl := Option.some.inj (hfound.symm.trans hzero)
    rcases hc with rfl | rfl <;> exact ⟨16, rfl, mem_toOption_iff.1 (by decide +kernel)⟩
  · obtain rfl := Option.some.inj (hfound.symm.trans hone)
    rcases hc with rfl | rfl <;> exact ⟨22, rfl, mem_toOption_iff.1 (by decide +kernel)⟩

/-- With twelve in the variable a line is printed, with seven the run ends before. -/
theorem prints_lowerNode_quotient : ∃ s' b' k',
    (Recur.within 5).lowerNode tree walk = .ok (none, s') ∧ s'.context.errorCount = 0 ∧ ∀ name,
      Exec.Prints s'.module .standard (Exec.callWithin s'.module .standard 1) name 10000001
        (start 12) b' k' (some "5% of 20\n") ∧
      Exec.Prints s'.module .standard (Exec.callWithin s'.module .standard 1) name 10000001
        (start 7) b' k' none := by
  have hfacts : ((Recur.within 5).lowerNode tree walk).toOption.any fun result =>
      result.1.isNone && result.2.context.errorCount == 0 &&
        result.2.module.globals.size == 2 &&
        [result.2.module.startBytes? 0, result.2.module.startBytes? 1] == texts.map some &&
        decide (result.2.module.IsExternal "printf") := by
    decide +kernel
  obtain ⟨hsome, hresult⟩ := (Option.any_eq_true_iff_get _ _).1 hfacts
  obtain ⟨⟨res, s'⟩, hrun⟩ := Option.isSome_iff_exists.1 hsome
  simp only [hrun, Option.get_some, Bool.and_eq_true, beq_iff_eq, decide_eq_true_eq,
    Option.isNone_iff_eq_none] at hresult
  obtain ⟨⟨⟨⟨rfl, hclean⟩, hsize⟩, hbytes⟩, hexternal⟩ := hresult
  have hlower := mem_toOption_iff.1 hrun
  have hspelled : List.Forall₂ (fun arg node => arg.Spelled (· = ⟨3⟩) walk.names node) args
      [⟨5, .unknown, .strLit ⟨4⟩⟩, QuotientExample.tree] :=
    .cons ⟨⟨4⟩, rfl, rfl, by decide⟩
      (.cons ⟨rfl, _, _, rfl, rfl, rfl, _, _, rfl, ⟨rfl, rfl⟩, rfl⟩ .nil)
  have hkind : tree.kind = .print ([⟨5, .unknown, .strLit ⟨4⟩⟩, QuotientExample.tree].map some) :=
    rfl
  obtain ⟨b', k', hgrows, -, hruns⟩ :=
    Recur.prints_lowerNode hkind hspelled QuotientExample.ready known QuotientExample.writesAt hlower
      hclean
  refine ⟨s', b', k', hlower, hclean, fun name => ⟨?_, ?_⟩⟩
  · have hline : (args.mapM (Printed.text? fun _ => ⟨.char, (12 : UInt8).toNat⟩)).map Printed.line =
        some "5% of 20\n" := by decide +kernel
    rw [← hline]
    exact hruns (.refl _) hexternal rfl rfl (QuotientExample.agrees hgrows (.inl rfl))
      (holdsTexts hsize hbytes (.inl rfl)) (by decide)
  · have hnone : (args.mapM (Printed.text? fun _ => ⟨.char, (7 : UInt8).toNat⟩)).map Printed.line =
        none := by decide +kernel
    rw [← hnone]
    exact hruns (.refl _) hexternal rfl rfl (QuotientExample.agrees hgrows (.inr rfl))
      (holdsTexts hsize hbytes (.inr rfl)) (by decide)

end PrintExample

/-! ### A program with a function of that name -/

namespace Compilation

/-- The names of two trees have been read, and `printf` is the entry point. -/
def printfCompilation : Compilation :=
  let c := new { LowerOptions.standard with entryPoint := "printf" } "print"
  { c with names := ⟨c.names.texts ++ #["main", "printf"]⟩ }

/-- A function that prints one. -/
def printProgram : Node :=
  let node (id : Nat) (kind : NodeKind Node) : Node := ⟨id, .unknown, kind⟩
  let print := node 0 (.print [node 1 (.intLit 1)])
  let body := node 2 (.block [print, node 3 (.returnStmt (node 4 (.intLit 0)))])
  node 5 (.module [node 6 (.function ⟨⟨3⟩, [], .prim .int, body⟩)])

/-- A function that does nothing. As the entry point it is `printf` in the module, too. -/
def printfProgram : Node :=
  let node (id : Nat) (kind : NodeKind Node) : Node := ⟨id, .unknown, kind⟩
  let body := node 0 (.returnStmt (node 1 (.intLit 0)))
  node 2 (.module [node 3 (.function ⟨⟨4⟩, [], .prim .int, body⟩)])

/-- The function prints one, until the other one has been lowered. Then nothing is printed, although
there has been no report. -/
theorem run_of_lower_printfProgram : ∃ outcome c outcome' c',
    printfCompilation.lower (some printProgram) = .ok (.ok outcome, c) ∧ outcome.errorCount = 0 ∧
      c.module.run "main()" = .ok ⟨"1\n", 0⟩ ∧
      c.lower (some printfProgram) = .ok (.ok outcome', c') ∧ outcome'.errorCount = 0 ∧
      c'.module.codegenErrors = 0 ∧ c'.module.run "main()" = .ok ⟨"", 0⟩ := by
  obtain ⟨outcome, c, hlower, hcount, hrun, hleaves⟩ : ∃ outcome c,
      printfCompilation.lower (some printProgram) = .ok (.ok outcome, c) ∧
        outcome.errorCount = 0 ∧ (c.module.run "main()").toOption = some ⟨"1\n", 0⟩ ∧
        c.leaves (some printfProgram) (fun outcome' c' => outcome'.errorCount = 0 ∧
          c'.module.codegenErrors = 0 ∧
          (c'.module.run "main()").toOption = some ⟨"", 0⟩) = true :=
    exists_of_leaves (by decide +kernel)
  obtain ⟨outcome', c', hlower', hcount', herrors, hrun'⟩ := exists_of_leaves hleaves
  exact ⟨outcome, c, outcome', c', hlower, hcount, mem_toOption_iff.1 hrun, hlower', hcount',
    herrors, mem_toOption_iff.1 hrun'⟩

end Compilation

end SsaCompiler
