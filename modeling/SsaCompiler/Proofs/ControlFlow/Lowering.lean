/-
# Lowering under way

What holds of the state of a walk through a tree between two nodes. Inside a function the names,
the loops and the tries around the current node belong to that function, code is being written
to one of its blocks, and the block that makes room for variables is open as well. Outside all
functions nothing is being written.

Most of lowering goes straight on: it starts and ends with code being written, though not
always to the same block. What only asks or declares is quiet: it leaves the current block and
the variables alone, even where it makes whole functions on the way.
-/

import SsaCompiler.Proofs.ControlFlow.Request
import SsaCompiler.Proofs.Lower.Step

namespace SsaCompiler

/-! ### Trees whose comparisons compare something -/

/-- The parts of a node. -/
def NodeKind.children {ν : Type} : NodeKind ν → List (Option ν)
  | binary _ lhs rhs => [lhs, rhs]
  | logical _ terms => terms
  | comparison first rest => first :: rest.map Prod.snd
  | unary _ operand => [operand]
  | assign _ target value => [target, value]
  | call _ args => args
  | methodCall receiver _ args => receiver :: args
  | member base _ => [base]
  | index base offset => [base, offset]
  | cast expr _ => [expr]
  | construct _ args _ => args
  | delete operand => [operand]
  | debugPrint expr => [expr]
  | print args => args
  | throw value => [value]
  | tryCatch body catches => body :: catches.map (·.body)
  | varDecl _ vars => vars.map (·.init)
  | ifElse cond thenBranch elseBranch => [cond, thenBranch, elseBranch]
  | whileLoop cond body => [cond, body]
  | forLoop init cond step body => [init, cond, step, body]
  | switch scrutinee cases default _ =>
    scrutinee :: default :: cases.flatMap fun c => [c.value, c.body]
  | returnStmt value => [value]
  | block stmts => stmts
  | function decl => [decl.body]
  | constructor decl => [decl.body]
  | object decl => decl.methods
  | template decl => decl.methods
  | operator decl => [decl.body]
  | module items => items
  | intLit _ | floatLit _ | boolLit _ | charLit _ | strLit _ | null | ident _ | this | sizeOf _
  | asm _ | breakStmt | continueStmt => []

/-- A tree in which every chain of comparisons has at least one operator. -/
inductive Node.Chained : Node → Prop where
  | mk {node : Node} (here : ∀ first, node.kind ≠ .comparison first [])
      (below : ∀ c ∈ node.kind.children, ∀ child, c = some child → child.Chained) : node.Chained

/-- A tree is one of these when its root and its parts are. -/
theorem Node.chained_mk_iff {id : Nat} {span : Span} {kind : NodeKind Node} :
    Node.Chained ⟨id, span, kind⟩ ↔ (∀ first, kind ≠ .comparison first []) ∧
      ∀ node, some node ∈ kind.children → node.Chained := by
  constructor
  · rintro ⟨here, below⟩
    exact ⟨here, fun node hnode => below _ hnode node rfl⟩
  · rintro ⟨here, below⟩
    exact ⟨here, fun c hc node hnode => below node (hnode ▸ hc)⟩

/-- A part of such a tree, which may be missing. -/
class Linked (c : Option Node) : Prop where
  chained : ∀ {node}, c = some node → node.Chained

/-- Parts of such a tree. -/
class AllLinked (cs : List (Option Node)) : Prop where
  all : ∀ c ∈ cs, Linked c

/-- The first of several parts and the others. -/
theorem AllLinked.cons {c : Option Node} {cs : List (Option Node)} (h : AllLinked (c :: cs)) :
    Linked c ∧ AllLinked cs :=
  ⟨h.all c List.mem_cons_self, ⟨fun c hc => h.all c (List.mem_cons_of_mem _ hc)⟩⟩

theorem Node.Chained.children {node : Node} {kind : NodeKind Node} (h : node.Chained)
    (hkind : node.kind = kind) : AllLinked kind.children := by
  obtain ⟨-, hbelow⟩ := h
  subst hkind
  exact ⟨fun c hc => ⟨fun hnode => hbelow c hc _ hnode⟩⟩

/-! ### Tables -/

namespace Table

variable {κ α : Type}

/-- Something holds of every value of a table. -/
def All (t : Table κ α) (P : α → Prop) : Prop := ∀ entry ∈ t.entries, P entry.2

variable {t : Table κ α} {P Q : α → Prop}

theorem All.imp (h : t.All P) (himp : ∀ {a}, P a → Q a) : t.All Q :=
  fun entry hentry => himp (h entry hentry)

theorem all_empty : (empty : Table κ α).All P := fun _ h => absurd h List.not_mem_nil

/-- Values that pass a test keep what holds of them and have passed it. -/
theorem all_filter {keep : α → Bool} (himp : ∀ {a}, keep a = true → P a) :
    (t.filter keep).All P := by
  intro entry hentry
  exact himp (List.mem_filter.1 hentry).2

variable [DecidableEq κ] {k : κ} {a : α}

theorem All.get? (h : t.All P) (hk : t.get? k = some a) : P a := h _ (mem_of_findIn hk)

/-- What is in a list of entries after a replacement is new or was there. -/
theorem mem_of_mem_replaceIn {entries : List (κ × α)} {entry : κ × α}
    (h : entry ∈ replaceIn k a entries) : entry = (k, a) ∨ entry ∈ entries := by
  induction entries with
  | nil => cases h
  | cons first rest ih =>
      obtain ⟨k', a'⟩ := first
      unfold replaceIn at h
      split at h
      · rcases List.mem_cons.1 h with h | h
        · exact .inl h
        · exact .inr (List.mem_cons_of_mem _ h)
      · rcases List.mem_cons.1 h with h | h
        · exact .inr (h ▸ List.mem_cons_self)
        · exact (ih h).imp_right (List.mem_cons_of_mem _)

theorem All.insert (h : t.All P) (ha : P a) : (t.insert k a).All P := by
  intro entry hentry
  unfold Table.insert at hentry
  split at hentry
  · rcases mem_of_mem_replaceIn hentry with rfl | hold
    · exact ha
    · exact h entry hold
  · rcases List.mem_cons.1 hentry with rfl | hold
    · exact ha
    · exact h entry hold

theorem All.erase (h : t.All P) : (t.erase k).All P := by
  intro entry hentry
  exact h entry (List.mem_filter.1 hentry).1

end Table

/-! ### The state of a walk -/

/-- The targets of jumps lie in the current function. -/
def JumpTargets.In (m : Module) (scope : Option FunctionId) (t : JumpTargets) : Prop :=
  ∀ f, scope = some f → m.HasBlock f t.breakTo ∧ ∀ c, t.continueTo = some c → m.HasBlock f c

/-- A `try` belongs to the current function. Outside all functions there is none. -/
def TryFrame.In (m : Module) (scope : Option FunctionId) (frame : TryFrame) : Prop :=
  ∃ f, scope = some f ∧ m.HasBlock f frame.landing ∧ m.HasBlock f frame.dispatch ∧
    m.Avail scope frame.padSlot

/-- The body of a template that the program declares. -/
def Template.Linked (t : Template) : Prop :=
  ∀ members methods, t.body = .declared members methods → AllLinked methods

/-- What holds of the tables at any time. -/
structure Context.Sound (m : Module) (c : Context) : Prop where
  descriptors : c.throwables.descriptors.All fun v => m.Known v
  templates : c.templates.templates.All Template.Linked

/-- What holds of a walk at any time. -/
structure Pass.Sound (m : Module) (scope : Option FunctionId) (p : Pass) : Prop where
  inScope : p.func.map (·.id) = scope
  entry : ∀ {f}, p.func = some f → m.HasBlock f.id f.allocaBlock
  loops : ∀ t ∈ p.loops, t.In m scope
  tries : ∀ frame ∈ p.tries, frame.In m scope
  pending : p.pending.All fun callable => Linked callable.body

/-- What holds of the state of lowering at any time. -/
structure Lowering.Sound (m : Module) (scope : Option FunctionId) (s : Lowering) : Prop where
  context : s.context.Sound m
  bindings : s.context.symbols.bindings.All fun b => m.Avail scope b.storage
  pass : s.pass.Sound m scope

section

variable {m m' : Module} {scope : Option FunctionId} [hm : m.Extends m']

theorem JumpTargets.In.mono {t : JumpTargets} (h : t.In m scope) : t.In m' scope := by
  intro f hf
  obtain ⟨hbreak, hcontinue⟩ := h f hf
  refine ⟨inferInstance, fun c hc => ?_⟩
  have := hcontinue c hc
  infer_instance

theorem TryFrame.In.mono {frame : TryFrame} (h : frame.In m scope) : frame.In m' scope := by
  obtain ⟨f, hf, hlanding, hdispatch, hslot⟩ := h
  exact ⟨f, hf, inferInstance, inferInstance, inferInstance⟩

theorem Context.Sound.mono {c : Context} (h : c.Sound m) : c.Sound m' :=
  ⟨h.descriptors.imp fun _ => inferInstance, h.templates⟩

theorem Pass.Sound.mono {p : Pass} (h : p.Sound m scope) : p.Sound m' scope where
  inScope := h.inScope
  entry hf := by
    have := h.entry hf
    infer_instance
  loops t ht := (h.loops t ht).mono
  tries frame hframe := (h.tries frame hframe).mono
  pending := h.pending

/-- Another module, about which the same is known. -/
theorem Lowering.Sound.withModule {s : Lowering} (h : s.Sound m scope) :
    { s with module := m' }.Sound m' scope :=
  ⟨h.context.mono, h.bindings.imp fun _ => inferInstance, h.pass.mono⟩

end

instance : HasModule Lowering := ⟨Lowering.module⟩

/-- A sound state in a given function, or outside all of them, whose module is in a given
state. -/
def Lowering.Within (func : Option FunctionState) (P : Module → Prop) (s : Lowering) : Prop :=
  s.pass.func = func ∧ s.Sound s.module (func.map (·.id)) ∧ P s.module

theorem Lowering.Within.imp {func : Option FunctionState} {P Q : Module → Prop} {s : Lowering}
    (h : s.Within func P) (himp : ∀ {m}, P m → Q m) : s.Within func Q :=
  ⟨h.1, h.2.1, himp h.2.2⟩

/-- Such a state with given variables. -/
def Lowering.Holding (func : Option FunctionState) (bindings : Table Name VarBinding)
    (P : Module → Prop) (s : Lowering) : Prop :=
  s.Within func P ∧ s.context.symbols.bindings = bindings

/-- Code is being written in the current function, if there is one. -/
def Module.Written (func : Option FunctionState) (blocks : List BlockId) : Module → Prop :=
  match func with
  | none => Module.Open none blocks
  | some f => Module.Writing f.id blocks

/-- A place where lowering goes straight on: the current function and the blocks that are open
besides the current one, among them the one that makes room for variables. -/
structure Spot (scope : Option FunctionId) where
  /-- The current function. -/
  func : Option FunctionState
  /-- The blocks that are open besides the current one. -/
  blocks : List BlockId
  inScope : func.map (·.id) = scope
  reserved : ∀ {f}, func = some f → f.allocaBlock ∈ blocks

/-- A place that is not touched: the current function, the variables, the current block and the
blocks that are open. -/
structure Rest where
  /-- The current function. -/
  func : Option FunctionState
  /-- The variables. -/
  bindings : Table Name VarBinding
  /-- The current block. -/
  position : Option BlockId
  /-- The blocks that are open. -/
  blocks : List BlockId

/-- The states at a place where lowering goes straight on. -/
def Spot.Holds {scope : Option FunctionId} (i : Spot scope) : Lowering → Prop :=
  Lowering.Within i.func (Module.Written i.func i.blocks)

/-- The states at a place that is not touched. -/
def Rest.Holds (i : Rest) : Lowering → Prop :=
  Lowering.Holding i.func i.bindings (Module.Open i.position i.blocks)

namespace Lower

variable {α β : Type} {m : Module} {scope : Option FunctionId} {x : Lower α}
  {G : Module → α → Prop}

/-- Lowering that goes straight on. -/
abbrev Straight (m : Module) (scope : Option FunctionId) (x : Lower α)
    (G : Module → α → Prop) : Prop :=
  Keeps m (@Spot.Holds scope) x G

/-- Lowering that leaves the current block and the variables alone. -/
abbrev Quiet (m : Module) (x : Lower α) (G : Module → α → Prop) : Prop :=
  Keeps m Rest.Holds x G

/-! ### From one kind of computation to another -/

instance (priority := low) Quiet.straight [hx : Quiet m x G] : Straight m scope x G where
  leads i := ⟨fun {s a s'} h hm hs => by
    obtain ⟨hfunc, hsound, hwritten⟩ := hs
    obtain ⟨func, blocks, hscope, hreserved⟩ := i
    cases func with
    | none =>
        obtain ⟨hm', ⟨hwithin, -⟩, ha⟩ :=
          (hx.leads ⟨none, s.context.symbols.bindings, none, blocks⟩).run h hm
            ⟨⟨hfunc, hsound, hwritten⟩, rfl⟩
        exact ⟨hm', hwithin, ha⟩
    | some f =>
        obtain ⟨b, hfresh, hb, hopen⟩ := hwritten
        obtain ⟨hm', ⟨⟨hfunc', hsound', hopen'⟩, -⟩, ha⟩ :=
          (hx.leads ⟨some f, s.context.symbols.bindings, some b, b :: blocks⟩).run h hm
            ⟨⟨hfunc, hsound, hopen⟩, rfl⟩
        have : s.module.Extends s'.module := hm'
        exact ⟨hm', ⟨hfunc', hsound', b, hfresh, inferInstance, hopen'⟩, ha⟩⟩

/-- A request to the module leads where it leads the module, and the rest of the state stays
sound. -/
instance Leads.build {func : Option FunctionState} {P : Module → Prop} {b : Build α}
    {Q : α → Module → Prop} [hb : Leads m P b Q G] :
    Leads m (Lowering.Within func P) (liftM b : Lower α) (fun a => Lowering.Within func (Q a)) G where
  run {s a s'} h hm hs := by
    obtain ⟨hfunc, hsound, hP⟩ := hs
    obtain ⟨m', hrun, rfl⟩ := build_eq_ok_iff.1 h
    obtain ⟨hm', hQ, ha⟩ := hb.run hrun hm hP
    have : s.module.Extends m' := hm'
    exact ⟨hm', ⟨hfunc, hsound.withModule, hQ⟩, ha⟩

instance Straight.build {b : Build α} [hb : Build.Steady m scope b G] :
    Straight m scope (liftM b : Lower α) G where
  leads i := by
    obtain ⟨func, blocks, rfl, hreserved⟩ := i
    cases func with
    | none =>
        have : Leads m (Module.Open none blocks) b (fun _ => Module.Open none blocks) G :=
          ⟨fun h hm hopen => hb.run h hm .outside hopen⟩
        exact Leads.build (P := Module.Open none blocks)
    | some f =>
        have : Build.Steady m (some f.id) b G := hb
        have : Leads m (Module.Writing f.id blocks) b (fun _ => Module.Writing f.id blocks) G :=
          inferInstance
        exact Leads.build (P := Module.Writing f.id blocks)

instance Quiet.build {b : Build α} [hb : Build.Quiet m b G] : Quiet m (liftM b : Lower α) G where
  leads i := ⟨fun {s a s'} h hm hs => by
    obtain ⟨hwithin, hbindings⟩ := hs
    obtain ⟨m', hrun, rfl⟩ := build_eq_ok_iff.1 h
    obtain ⟨hm', hwithin', ha⟩ := Leads.run h hm hwithin
    exact ⟨hm', ⟨hwithin', hbindings⟩, ha⟩⟩

end Lower

/-! ### Attempts and loops -/

namespace Keeps

variable {α β ι : Type} {m : Module} {S : ι → Lowering → Prop} {x : Attempt α}
  {f : α → Attempt β} {G : Module → α → Prop} {H : Module → β → Prop}

/-- An attempt that succeeds at once. -/
theorem some {a : α} (ha : ∀ {m'}, m.Extends m' → G m' a) :
    Keeps m S (Pure.pure a : Attempt α).run (OnSome G) :=
  .pure fun hm b hb => by
    cases hb
    exact ha hm

/-- One attempt behind another; the first that fails is the last. -/
theorem andThen [hx : Keeps m S x.run (OnSome G)]
    (hf : ∀ a m₁, m.Extends m₁ → G m₁ a → Keeps m₁ S (f a).run (OnSome H)) :
    Keeps m S (x >>= f).run (OnSome H) := by
  rw [OptionT.run_bind]
  refine .bind fun o m₁ hm ho => ?_
  cases o with
  | none => exact .pure fun _ b hb => by cases hb
  | some a => exact hf a m₁ hm (ho a rfl)

/-- The same when the first attempt is given with a proof of its own. -/
theorem andSeq (hx : Keeps m S x.run (OnSome G))
    (hf : ∀ a m₁, m.Extends m₁ → G m₁ a → Keeps m₁ S (f a).run (OnSome H)) :
    Keeps m S (x >>= f).run (OnSome H) := .andThen hf

theorem either {p : Prop} [Decidable p] {y : Attempt α} (hx : Keeps m S x.run (OnSome G))
    (hy : Keeps m S y.run (OnSome G)) : Keeps m S (if p then x else y).run (OnSome G) := by
  split <;> assumption

instance (a : α) : Keeps m S (Pure.pure a : Attempt α).run (OnSome fun _ b => b = a) :=
  .some fun _ => rfl

instance : Keeps m S (failure : Attempt α).run (OnSome fun _ _ => False) :=
  .pure fun _ b hb => by cases hb

instance (o : Option α) : Keeps m S (Attempt.ofOption o).run (OnSome fun _ a => o = .some a) :=
  .pure fun _ _ hb => hb

/-- What cannot fail, as an attempt. -/
theorem lift {x : Lower α} [Keeps m S x G] :
    Keeps m S (x >>= fun a => Pure.pure (.some a) : Lower (Option α)) (OnSome G) where
  leads i := ⟨fun h hm hs => by
    obtain ⟨a, s₁, hx, ha⟩ := bind_eq_ok_iff.1 h
    cases ha
    obtain ⟨hm', hs', hG⟩ := (Keeps.leads i).run hx hm hs
    exact ⟨hm', hs', fun b hb => by
      cases hb
      exact hG⟩⟩

instance {x : Lower α} [Keeps m S x G] : Keeps m S (OptionT.lift x : Attempt α).run (OnSome G) :=
  lift

instance {x : Lower α} [Keeps m S x G] : Keeps m S (liftM x : Attempt α).run (OnSome G) := lift

instance {b : Build α} [Keeps m S (liftM b : Lower α) G] :
    Keeps m S (liftM b : Attempt α).run (OnSome G) :=
  lift (x := liftM b)

instance {x : Lower (Option α)} [hx : Keeps m S x (OnSome G)] :
    Keeps m S (OptionT.mk x : Attempt α).run (OnSome G) := hx

instance [Keeps m S x.run (OnSome G)] :
    Keeps m S (discard x : Attempt PUnit).run (OnSome fun _ _ => True) :=
  .andThen fun _ _ _ _ => .some fun _ => trivial

/-- An attempt whose answer may be missing, which counts as a failure. -/
theorem unwrap {x : Attempt (Option α)} [Keeps m S x.run (OnSome (OnSome G))]
    (hf : ∀ a m₁, m.Extends m₁ → G m₁ a → Keeps m₁ S (f a).run (OnSome H)) :
    Keeps m S (x >>= fun o => Attempt.ofOption o >>= f).run (OnSome H) := by
  refine .andThen fun o m₁ hm ho => ?_
  cases o with
  | none => exact .pure fun _ b hb => by cases hb
  | some a => exact hf a m₁ hm (ho a rfl)

theorem unwrapped {x : Attempt (Option α)} [Keeps m S x.run (OnSome (OnSome G))] :
    Keeps m S (x >>= fun o => Attempt.ofOption o).run (OnSome G) where
  leads i := ⟨fun {s o s'} h hm hs => by
    rw [OptionT.run_bind] at h
    obtain ⟨o₁, s₁, hx, hrest⟩ := bind_eq_ok_iff.1 h
    obtain ⟨hm', hs', ho⟩ := (Keeps.leads i).run hx hm hs
    cases o₁ with
    | none =>
        cases hrest
        exact ⟨hm', hs', fun b hb => by cases hb⟩
    | some o₂ =>
        cases hrest
        exact ⟨hm', hs', ho _ rfl⟩⟩

/-- What always fails may promise anything. -/
theorem refuse (hx : Keeps m S x.run (OnSome fun _ _ => False)) : Keeps m S x.run (OnSome G) :=
  hx.imp fun _ ho a ha => (ho a ha).elim

instance [Keeps m S x.run (OnSome G)]
    [hf : ∀ a m₁, Keeps m₁ S (f a).run (OnSome fun _ _ => False)] :
    Keeps m S (x >>= f).run (OnSome fun _ _ => False) :=
  .andThen fun a m₁ _ _ => hf a m₁

instance [Keeps m S x.run (OnSome fun _ _ => False)] :
    Keeps m S (x >>= f).run (OnSome fun _ _ => False) :=
  .andThen fun _ _ _ h => h.elim

theorem forIn {γ : Type} {xs : List γ} {g : γ → PUnit → Lower (ForInStep PUnit)}
    (hg : ∀ c ∈ xs, ∀ u m₁, m.Extends m₁ → Keeps m₁ S (g c u) fun _ _ => True) :
    Keeps m S (ForIn.forIn xs PUnit.unit g) fun _ _ => True := by
  induction xs generalizing m with
  | nil => exact .pure fun _ => trivial
  | cons c rest ih =>
      rw [List.forIn_cons]
      refine .seq (hg c List.mem_cons_self _ m (.refl m)) fun step m₁ hm _ => ?_
      cases step with
      | done _ => exact .pure fun _ => trivial
      | yield _ =>
          exact ih fun c hc u m₂ hm₂ => hg c (List.mem_cons_of_mem _ hc) u m₂ (hm.trans hm₂)

/-- A loop through a list that stops at the first attempt that fails. -/
theorem forAttempt {γ : Type} {xs : List γ} {g : γ → PUnit → Attempt (ForInStep PUnit)}
    (hg : ∀ c ∈ xs, ∀ u m₁, m.Extends m₁ → Keeps m₁ S (g c u).run (OnSome fun _ _ => True)) :
    Keeps m S (ForIn.forIn xs PUnit.unit g : Attempt PUnit).run (OnSome fun _ _ => True) := by
  induction xs generalizing m with
  | nil => exact .some fun _ => trivial
  | cons c rest ih =>
      rw [List.forIn_cons]
      refine .andSeq (hg c List.mem_cons_self _ m (.refl m)) fun step m₁ hm _ => ?_
      cases step with
      | done _ => exact .some fun _ => trivial
      | yield _ =>
          exact ih fun c hc u m₂ hm₂ => hg c (List.mem_cons_of_mem _ hc) u m₂ (hm.trans hm₂)

end Keeps

/-- What holds of an answer that is there. -/
def HasSome {α β : Type} (G : β → α → Prop) (b : β) (o : Option α) : Prop :=
  ∃ a, o = some a ∧ G b a

namespace Leads

variable {α β : Type} {m : Module} {P : Lowering → Prop} {x : Attempt α} {f : α → Attempt β}
  {Q : α → Lowering → Prop} {G : Module → α → Prop} {R : Option β → Lowering → Prop}
  {H : Module → Option β → Prop}

/-- An attempt that succeeds, and another one behind it. -/
theorem andThen [hx : Leads m P x.run (fun o s => HasSome (fun s a => Q a s) s o) (HasSome G)]
    (hf : ∀ a m₁, m.Extends m₁ → G m₁ a → Leads m₁ (Q a) (f a).run R H) :
    Leads m P (x >>= f).run R H where
  run h hm hP := by
    rw [OptionT.run_bind] at h
    obtain ⟨o, s₁, hx', hf'⟩ := bind_eq_ok_iff.1 h
    obtain ⟨hm₁, ⟨a, rfl, hQ⟩, a', heq, ha⟩ := hx.run hx' hm hP
    cases heq
    obtain ⟨hm₂, hR, hb⟩ := (hf a _ (hm.trans hm₁) ha).run hf' (.refl _) hQ
    exact ⟨hm₁.trans hm₂, hR, hb⟩

/-- The same when the first attempt is given with a proof of its own. -/
theorem andSeq (hx : Leads m P x.run (fun o s => HasSome (fun s a => Q a s) s o) (HasSome G))
    (hf : ∀ a m₁, m.Extends m₁ → G m₁ a → Leads m₁ (Q a) (f a).run R H) :
    Leads m P (x >>= f).run R H := .andThen hf

/-- An attempt that may fail and leads to the same kind of states either way. -/
theorem andTry {S : Lowering → Prop} [hx : Leads m P x.run (fun _ => S) (OnSome G)]
    (hf : ∀ a m₁, m.Extends m₁ → G m₁ a → Leads m₁ S (f a).run (fun _ => S) (OnSome fun _ _ => True)) :
    Leads m P (x >>= f).run (fun _ => S) (OnSome fun _ _ => True) where
  run h hm hP := by
    rw [OptionT.run_bind] at h
    obtain ⟨o, s₁, hx', hf'⟩ := bind_eq_ok_iff.1 h
    obtain ⟨hm₁, hS, ho⟩ := hx.run hx' hm hP
    cases o with
    | none =>
        cases hf'
        exact ⟨hm₁, hS, fun _ _ => trivial⟩
    | some a =>
        obtain ⟨hm₂, hR, -⟩ := (hf a _ (hm.trans hm₁) (ho a rfl)).run hf' (.refl _) hS
        exact ⟨hm₁.trans hm₂, hR, fun _ _ => trivial⟩

/-- What cannot fail, as an attempt. -/
theorem lift {x : Lower α} [hx : Leads m P x Q G] :
    Leads m P (x >>= fun a => Pure.pure (some a) : Lower (Option α))
      (fun o s => HasSome (fun s a => Q a s) s o) (HasSome G) where
  run h hm hP := by
    obtain ⟨a, s₁, hx', ha⟩ := bind_eq_ok_iff.1 h
    cases ha
    obtain ⟨hm₁, hQ, hG⟩ := hx.run hx' hm hP
    exact ⟨hm₁, ⟨a, rfl, hQ⟩, a, rfl, hG⟩

instance {x : Lower α} [Leads m P x Q G] : Leads m P (OptionT.lift x : Attempt α).run
    (fun o s => HasSome (fun s a => Q a s) s o) (HasSome G) := lift

instance {x : Lower α} [Leads m P x Q G] : Leads m P (liftM x : Attempt α).run
    (fun o s => HasSome (fun s a => Q a s) s o) (HasSome G) := lift

instance {b : Build α} [Leads m P (liftM b : Lower α) Q G] : Leads m P (liftM b : Attempt α).run
    (fun o s => HasSome (fun s a => Q a s) s o) (HasSome G) := lift (x := liftM b)

/-- The last of several attempts that succeed. -/
theorem last {S : Lowering → Prop}
    (hx : Leads m P x.run (fun o s => HasSome (fun s _ => S s) s o) (HasSome G)) :
    Leads m P x.run (fun _ => S) (OnSome fun _ _ => True) where
  run h hm hP := by
    obtain ⟨hm₁, ⟨a, -, hS⟩, -⟩ := hx.run h hm hP
    exact ⟨hm₁, hS, fun _ _ => trivial⟩

end Leads

/-! ### Questions about the state -/

namespace Lower

variable {α : Type} {m : Module} {scope : Option FunctionId}

instance : Quiet m (get : Lower Lowering) fun m s => ∃ scope, s.Sound m scope where
  leads _ := ⟨fun h _ hs => by
    cases h
    exact ⟨.refl _, hs, _, hs.1.2.1⟩⟩

instance : Straight m scope (get : Lower Lowering) fun m s => s.Sound m scope where
  leads i := ⟨fun h _ hs => by
    cases h
    exact ⟨.refl _, hs, i.inScope ▸ hs.2.1⟩⟩

instance {f : FunctionState} {P : Module → Prop} :
    Leads m (Lowering.Within (some f) P) (get : Lower Lowering)
      (fun _ => Lowering.Within (some f) P) fun m s => s.Sound m (some f.id) where
  run h _ hs := by
    cases h
    exact ⟨.refl _, hs, hs.2.1⟩

instance {ι : Type} {S : ι → Lowering → Prop} (c : Checked α) :
    Keeps m S (liftM c : Lower α) fun _ a => c = .ok a where
  leads _ := ⟨fun h _ hs => by
    cases c with
    | error e => cases h
    | ok a =>
        cases h
        exact ⟨.refl _, hs, rfl⟩⟩

instance {ι : Type} {S : ι → Lowering → Prop} {G : Module → Lowering → Prop}
    [Keeps m S (get : Lower Lowering) G] : Keeps m S (get : Attempt Lowering).run (OnSome G) :=
  Keeps.lift (x := get)

instance : Quiet m symbols fun _ _ => True := by
  unfold symbols
  exact .bind fun _ _ _ _ => .pure fun _ => trivial

/-- The variables that are visible are available. -/
instance : Straight m scope symbols fun m t =>
    t.bindings.All fun b => m.Avail scope b.storage := by
  unfold symbols
  refine .bind ?_
  intro s m₁ _ hs
  exact .pure fun _ => hs.bindings.imp fun _ => inferInstance

instance : Quiet m func fun _ _ => True := by
  unfold func
  exact .bind fun _ _ _ _ => .pure fun _ => trivial

instance : Straight m scope func fun _ f => f.map (·.id) = scope := by
  unfold func
  refine .bind ?_
  intro s m₁ _ hs
  exact .pure fun _ => hs.pass.inScope

instance : Quiet m thisTy fun _ _ => True := by
  unfold thisTy
  exact .bind fun _ _ _ _ => .pure fun _ => trivial

instance : Quiet m errorCount fun _ _ => True := by
  unfold errorCount
  exact .bind fun _ _ _ _ => .pure fun _ => trivial

instance : Quiet m isAbandoned fun _ _ => True := by
  unfold isAbandoned
  exact .bind fun _ _ _ _ => .pure fun _ => trivial

instance (n : Name) : Quiet m (nameText n) fun _ _ => True := by
  unfold nameText
  exact .bind fun _ _ _ _ => Keeps.imp inferInstance fun _ _ => trivial

instance (ty : TypeId) : Quiet m (describe ty) fun _ _ => True := by
  unfold describe
  exact .bind fun _ _ _ _ => Keeps.imp inferInstance fun _ _ => trivial

instance (tys : List TypeId) : Quiet m (describeList tys) fun _ _ => True := by
  unfold describeList
  exact .bind fun _ _ _ _ => Keeps.imp inferInstance fun _ _ => trivial

instance : Quiet m typeRelation fun _ _ => True := by
  unfold typeRelation
  exact .bind fun _ _ _ _ => .pure fun _ => trivial

/-! ### Changes of the state -/

instance (text : String) : Quiet m (intern text) fun _ _ => True where
  leads _ := ⟨fun h _ hs => by
    cases h
    obtain ⟨⟨hfunc, hsound, hopen⟩, hbindings⟩ := hs
    exact ⟨.refl _, ⟨⟨hfunc, ⟨hsound.context, hsound.bindings, hsound.pass⟩, hopen⟩, hbindings⟩,
      trivial⟩⟩

/-- A change of the tables that leaves the variables alone. -/
theorem Quiet.modifyContext {g : Context → Context}
    (hg : ∀ {m₁ c}, m.Extends m₁ → c.Sound m₁ → (g c).Sound m₁)
    (hbindings : ∀ c, (g c).symbols.bindings = c.symbols.bindings) :
    Quiet m (Lower.modifyContext g) fun _ _ => True where
  leads _ := ⟨fun {s a s'} h hm hs => by
    cases h
    obtain ⟨⟨hfunc, hsound, hopen⟩, hvars⟩ := hs
    refine ⟨.refl _, ⟨⟨hfunc, ⟨hg hm hsound.context, ?_, hsound.pass⟩, hopen⟩, ?_⟩, trivial⟩
    · exact (hbindings s.context).symm ▸ hsound.bindings
    · exact (hbindings s.context).trans hvars⟩

/-- A change of the symbols that leaves the variables alone. -/
theorem Quiet.modifySymbols {g : SymbolTable → SymbolTable}
    (hbindings : ∀ t, (g t).bindings = t.bindings) :
    Quiet m (Lower.modifySymbols g) fun _ _ => True :=
  .modifyContext (fun _ h => ⟨h.descriptors, h.templates⟩) fun c => hbindings c.symbols

theorem modifySymbols_leads {func : Option FunctionState} {P : Module → Prop}
    {g : SymbolTable → SymbolTable}
    (hg : ∀ {m₁ t}, m.Extends m₁ → t.bindings.All (fun b => m₁.Avail (func.map (·.id)) b.storage) →
      (g t).bindings.All fun b => m₁.Avail (func.map (·.id)) b.storage) :
    Leads m (Lowering.Within func P) (Lower.modifySymbols g) (fun _ => Lowering.Within func P)
      fun _ _ => True where
  run {s a s'} h hm hs := by
    cases h
    obtain ⟨hfunc, hsound, hP⟩ := hs
    exact ⟨.refl _, ⟨hfunc, ⟨⟨hsound.context.descriptors, hsound.context.templates⟩,
      hg hm hsound.bindings, hsound.pass⟩, hP⟩, trivial⟩

/-- A name is given to a place that is available. -/
theorem setVariable_leads {func : Option FunctionState} {P : Module → Prop} (name : Name)
    {binding : VarBinding} (hb : m.Avail (func.map (·.id)) binding.storage) :
    Leads m (Lowering.Within func P) (Lower.modifySymbols (·.setVariable name binding))
      (fun _ => Lowering.Within func P) fun _ _ => True :=
  modifySymbols_leads fun _ ht => ht.insert inferInstance

/-- A name is taken from its place. -/
theorem removeVariable_leads {func : Option FunctionState} {P : Module → Prop} (name : Name) :
    Leads m (Lowering.Within func P) (Lower.modifySymbols (·.removeVariable name))
      (fun _ => Lowering.Within func P) fun _ _ => True :=
  modifySymbols_leads fun _ ht => ht.erase

/-- A change of the walk, of which more may be known than at any time. -/
theorem modifyPass_leads {func : Option FunctionState} {P : Module → Prop} {g : Pass → Pass}
    (hg : ∀ {m₁ p}, m.Extends m₁ → p.Sound m₁ (func.map (·.id)) →
      (g p).Sound m₁ (func.map (·.id)))
    (hfunc : ∀ p, (g p).func = p.func) :
    Leads m (Lowering.Within func P) (Lower.modifyPass g) (fun _ => Lowering.Within func P)
      fun _ _ => True where
  run h hm hs := by
    cases h
    obtain ⟨hf, hsound, hP⟩ := hs
    exact ⟨.refl _, ⟨(hfunc _).trans hf, ⟨hsound.context, hsound.bindings, hg hm hsound.pass⟩, hP⟩,
      trivial⟩

/-- A change of the walk that leaves it in its function. -/
theorem Quiet.modifyPass {g : Pass → Pass}
    (hg : ∀ {m scope p}, p.Sound m scope → (g p).Sound m scope)
    (hfunc : ∀ p, (g p).func = p.func) : Quiet m (Lower.modifyPass g) fun _ _ => True where
  leads _ := ⟨fun h _ hs => by
    cases h
    obtain ⟨⟨hf, hsound, hopen⟩, hvars⟩ := hs
    exact ⟨.refl _, ⟨⟨(hfunc _).trans hf, ⟨hsound.context, hsound.bindings, hg hsound.pass⟩,
      hopen⟩, hvars⟩, trivial⟩⟩

instance (kind : DiagnosticKind) (message : String) (span : Span) :
    Quiet m (report kind message span) fun _ _ => True :=
  .modifyContext (fun _ h => ⟨h.descriptors, h.templates⟩) fun _ => rfl

instance (kind : DiagnosticKind) (message : String) (span : Span) :
    Quiet m (Attempt.reject kind message span : Attempt α).run (OnSome fun _ _ => False) := by
  unfold Attempt.reject
  exact .andThen fun _ _ _ _ => inferInstance

instance (e : InternalError) : Quiet m (abandon e) fun _ _ => True :=
  .modifyPass (fun h => ⟨h.inScope, h.entry, h.loops, h.tries, h.pending⟩) fun _ => rfl

instance (types : List TypeId) : Quiet m (noteThrows types) fun _ _ => True :=
  .modifyPass (fun h => ⟨h.inScope, h.entry, h.loops, h.tries, h.pending⟩) fun _ => rfl

instance : Quiet m pushThrowFrame fun _ _ => True :=
  .modifyPass (fun h => ⟨h.inScope, h.entry, h.loops, h.tries, h.pending⟩) fun _ => rfl

instance : Quiet m popThrowFrame fun _ _ => True := by
  unfold popThrowFrame
  refine .bind fun _ _ _ _ => ?_
  split
  · exact .pure fun _ => trivial
  · rename_i rest _
    have (m : Module) : Quiet m (Lower.modifyPass fun p => { p with throwStack := rest })
        fun _ _ => True :=
      .modifyPass (fun h => ⟨h.inScope, h.entry, h.loops, h.tries, h.pending⟩) fun _ => rfl
    exact .bind fun _ _ _ _ => .pure fun _ => trivial

/-! ### Blocks of the current function -/

variable {x : Lower α} {G : Module → α → Prop} {f : FunctionState} {blocks blocks' : List BlockId}
  {b : BlockId}

/-- Code is being written to a block of a function. -/
abbrev Busy (f : FunctionState) (blocks : List BlockId) : Lowering → Prop :=
  Lowering.Within (some f) (Module.Writing f.id blocks)

/-- The current block of a function has ended. -/
abbrev Idle (f : FunctionState) (blocks : List BlockId) : Lowering → Prop :=
  Lowering.Within (some f) (Module.Resting blocks)

/-- The block that makes room for variables is among the open ones. -/
class Reserved (f : FunctionState) (blocks : List BlockId) : Prop where
  mem : f.allocaBlock ∈ blocks

instance [hb : Reserved f blocks] : Reserved f (b :: blocks) where
  mem := List.mem_cons_of_mem b hb.mem

instance : Reserved f (f.allocaBlock :: blocks) where
  mem := List.mem_cons_self

instance {bs : List BlockId} [hb : Reserved f blocks] : Reserved f (bs ++ blocks) where
  mem := List.mem_append_right bs hb.mem

/-- Lowering goes straight on in a function when it does so among all open blocks. -/
theorem Straight.of_leads {g : FunctionId}
    (hx : ∀ f blocks, f.id = g → Reserved f blocks →
      Leads m (Busy f blocks) x (fun _ => Busy f blocks) G) : Straight m (some g) x G where
  leads i := by
    obtain ⟨func, blocks, hscope, hreserved⟩ := i
    cases func with
    | none => cases hscope
    | some f => exact hx f blocks (Option.some.inj hscope) ⟨hreserved rfl⟩

instance [hx : Straight m (some f.id) x G] [hb : Reserved f blocks] :
    Leads m (Busy f blocks) x (fun _ => Busy f blocks) G :=
  hx.leads ⟨some f, blocks, rfl, fun h => Option.some.inj h ▸ hb.mem⟩

instance [hx : Quiet m x G] : Leads m (Idle f blocks) x (fun _ => Idle f blocks) G where
  run {s a s'} h hm hs := by
    obtain ⟨hfunc, hsound, p, hopen⟩ := hs
    obtain ⟨hm', ⟨⟨hfunc', hsound', hopen'⟩, -⟩, ha⟩ :=
      (hx.leads ⟨some f, s.context.symbols.bindings, p, blocks⟩).run h hm
        ⟨⟨hfunc, hsound, hopen⟩, rfl⟩
    exact ⟨hm', ⟨hfunc', hsound', p, hopen'⟩, ha⟩

/-- In a function, a new block is one of that function. -/
theorem appendBlock_apply {s : Lowering} (hfunc : s.pass.func = some f) (name : String) :
    appendBlock name s = (liftM (Build.appendBlock f.id name) : Lower BlockId) s := by
  unfold appendBlock
  rw [bind_of_ok (func_apply s), hfunc]
  rfl

instance (name : String) : Leads m (Busy f blocks) (appendBlock name)
    (fun b => Busy f (b :: blocks)) fun m b => b ∉ blocks ∧ m.HasBlock f.id b where
  run h hm hs := by
    rw [appendBlock_apply hs.1] at h
    exact Leads.run h hm hs

instance (name : String) : Leads m (Idle f blocks) (appendBlock name)
    (fun b => Idle f (b :: blocks)) fun m b => b ∉ blocks ∧ m.HasBlock f.id b where
  run h hm hs := by
    rw [appendBlock_apply hs.1] at h
    exact Leads.run h hm hs

theorem takeUp_leads [m.HasBlock f.id b] (hmem : ∀ c, c ∈ blocks ↔ c = b ∨ c ∈ blocks')
    (hb : b ∉ blocks') :
    Leads m (Idle f blocks) (liftM (Build.positionAtEnd b) : Lower Unit)
      (fun _ => Busy f blocks') fun _ _ => True :=
  have := Build.positionAtEnd_leads (m := m) (f := f.id) hmem hb
  inferInstance

/-- The current block is open while code is being written. -/
theorem currentBlockTerminated_of_writing {g : FunctionId} (h : m.Writing g blocks) :
    m.currentBlockTerminated = .ok false := by
  obtain ⟨b, -, -, hopen⟩ := h
  exact Module.currentBlockTerminated_eq_false_iff.2
    ⟨b, hopen.position, hopen.isOpen.2 List.mem_cons_self⟩

instance : Leads m (Idle f blocks) startDeadBlock (fun _ => Busy f blocks) fun _ _ => True := by
  unfold startDeadBlock
  refine .bind ?_
  rintro b m₁ _ ⟨hfresh, hb⟩
  exact takeUp_leads (fun c => List.mem_cons) hfresh

/-! ### Code elsewhere -/

section

variable {func : Option FunctionState} {bindings : Table Name VarBinding} {g : FunctionId}
  {p : Option BlockId}

/-- Lowering is quiet when it comes back to every place where it may start. -/
theorem Quiet.of_leads (hx : ∀ func bindings p blocks,
    Leads m (Lowering.Holding func bindings (Module.Open p blocks)) x
      (fun _ => Lowering.Holding func bindings (Module.Open p blocks)) G) : Quiet m x G :=
  ⟨fun i => hx i.func i.bindings i.position i.blocks⟩

/-- A request to the module leads where it leads the module. -/
theorem elsewhere_leads {P : Module → Prop} {b : Build α} {Q : α → Module → Prop}
    (hb : Leads m P b Q G) :
    Leads m (Lowering.Holding func bindings P) (liftM b : Lower α)
      (fun a => Lowering.Holding func bindings (Q a)) G where
  run {s a s'} h hm hs := by
    obtain ⟨hwithin, hbindings⟩ := hs
    obtain ⟨m', hrun, rfl⟩ := build_eq_ok_iff.1 h
    obtain ⟨hm', hwithin', ha⟩ := Leads.run h hm hwithin
    exact ⟨hm', ⟨hwithin', hbindings⟩, ha⟩

instance {P : Module → Prop} {b : Build α} {Q : α → Module → Prop} [hb : Leads m P b Q G] :
    Leads m (Lowering.Holding func bindings P) (liftM b : Lower α)
      (fun a => Lowering.Holding func bindings (Q a)) G :=
  elsewhere_leads hb

instance [hx : Quiet m x G] : Leads m (Lowering.Holding func bindings (Module.Open p blocks)) x
    (fun _ => Lowering.Holding func bindings (Module.Open p blocks)) G :=
  hx.leads ⟨func, bindings, p, blocks⟩

instance [hx : Quiet m x G] : Leads m (Lowering.Holding func bindings (Module.Resting blocks)) x
    (fun _ => Lowering.Holding func bindings (Module.Resting blocks)) G where
  run {s a s'} h hm hs := by
    obtain ⟨⟨hfunc, hsound, p, hopen⟩, hbindings⟩ := hs
    obtain ⟨hm', ⟨⟨hfunc', hsound', hopen'⟩, hbindings'⟩, ha⟩ :=
      (hx.leads ⟨func, bindings, p, blocks⟩).run h hm ⟨⟨hfunc, hsound, hopen⟩, hbindings⟩
    exact ⟨hm', ⟨⟨hfunc', hsound', p, hopen'⟩, hbindings'⟩, ha⟩

instance [hx : Quiet m x G] : Leads m (Lowering.Holding func bindings (Module.Writing g blocks)) x
    (fun _ => Lowering.Holding func bindings (Module.Writing g blocks)) G where
  run {s a s'} h hm hs := by
    obtain ⟨⟨hfunc, hsound, b, hfresh, hb, hopen⟩, hbindings⟩ := hs
    obtain ⟨hm', ⟨⟨hfunc', hsound', hopen'⟩, hbindings'⟩, ha⟩ :=
      (hx.leads ⟨func, bindings, some b, b :: blocks⟩).run h hm
        ⟨⟨hfunc, hsound, hopen⟩, hbindings⟩
    have : s.module.Extends s'.module := hm'
    exact ⟨hm', ⟨⟨hfunc', hsound', b, hfresh, inferInstance, hopen'⟩, hbindings'⟩, ha⟩

/-- The state is what it is. -/
theorem get_leads {P : Lowering → Prop} :
    Leads m P get (fun _ => P) fun m s => P s ∧ s.module = m where
  run h _ hs := by
    cases h
    exact ⟨.refl _, hs, hs, rfl⟩

/-- The variables are those of the place. -/
theorem symbols_leads {P : Module → Prop} : Leads m (Lowering.Holding func bindings P) symbols
    (fun _ => Lowering.Holding func bindings P) fun _ t => t.bindings = bindings where
  run h _ hs := by
    cases h
    exact ⟨.refl _, hs, hs.2⟩

/-- Other symbols with the same variables. -/
theorem setSymbols_leads {P : Module → Prop} {table : SymbolTable}
    (htable : table.bindings = bindings) :
    Leads m (Lowering.Holding func bindings P) (Lower.modifySymbols fun _ => table)
      (fun _ => Lowering.Holding func bindings P) fun _ _ => True where
  run h _ hs := by
    cases h
    obtain ⟨⟨hfunc, hsound, hP⟩, hbindings⟩ := hs
    refine ⟨.refl _, ⟨⟨hfunc, ⟨⟨hsound.context.descriptors, hsound.context.templates⟩, ?_,
      hsound.pass⟩, hP⟩, htable⟩, trivial⟩
    exact (htable.trans hbindings.symm) ▸ hsound.bindings

/-- The current block is that of the place. -/
theorem position_leads : Leads m (Lowering.Holding func bindings (Module.Open p blocks)) position
    (fun _ => Lowering.Holding func bindings (Module.Open p blocks)) fun _ here => here = p where
  run h _ hs := by
    cases h
    exact ⟨.refl _, hs, hs.1.2.2.position⟩

end

/-- Room for a value is made in the first block of the function, and code goes on where it was. -/
instance (ty : TypeId) : Straight m scope (entryAlloca ty) fun m v => m.Avail scope v where
  leads i := ⟨fun {s v s'} h hm hs => by
    obtain ⟨hfunc, hsound, hwritten⟩ := hs
    obtain ⟨func, blocks, rfl, hreserved⟩ := i
    unfold entryAlloca at h
    rw [bind_of_ok (position_apply s), bind_of_ok (func_apply s)] at h
    cases func with
    | none =>
        have hposition : s.module.position = none := hwritten.position
        simp only [hfunc, hposition] at h
        have hslot : Straight m none (liftM (Build.alloca ty) >>= fun slot => pure slot)
            fun m v => m.Avail none v := by
          refine .bind ?_
          intro slot m₁ _ hslot
          exact .pure fun _ => inferInstance
        exact (hslot.leads ⟨none, blocks, rfl, hreserved⟩).run h hm ⟨hfunc, hsound, hwritten⟩
    | some f =>
        obtain ⟨b, hfresh, hb, hopen⟩ := hwritten
        have hposition : s.module.position = some b := hopen.position
        simp only [hfunc, hposition] at h
        have : s.module.HasBlock f.id f.allocaBlock := hsound.pass.entry hfunc
        have hslot : Leads s.module (Lowering.Within (some f) (Module.Open (some b) (b :: blocks)))
            (do
              Build.positionAtEnd f.allocaBlock
              let slot ← (liftM (Build.alloca ty) : Lower ValueId)
              Build.positionAtEnd b
              return slot)
            (fun _ => Lowering.Within (some f) (Module.Open (some b) (b :: blocks)))
            fun m v => m.Avail (some f.id) v := by
          refine .bind fun _ m₁ _ _ => ?_
          have halloca : Leads m₁ (Module.Open (some f.allocaBlock) (b :: blocks)) (Build.alloca ty)
              (fun _ => Module.Open (some f.allocaBlock) (b :: blocks))
              fun m v => m.Avail (some f.id) v :=
            Build.Steady.leads_open inferInstance (List.mem_cons_of_mem b (hreserved rfl))
          refine .bind ?_
          intro slot m₂ _ hslot
          refine .bind fun _ m₃ _ _ => ?_
          exact .pure id fun _ => inferInstance
        obtain ⟨hm', ⟨hfunc', hsound', hopen'⟩, hv⟩ :=
          hslot.run h (.refl _) ⟨hfunc, hsound, hopen⟩
        have : s.module.Extends s'.module := hm'
        exact ⟨hm', ⟨hfunc', hsound', b, hfresh, inferInstance, hopen'⟩, hv⟩⟩

end Lower

namespace Leads

open Lower

variable {α : Type} {m : Module} {f : FunctionState} {blocks : List BlockId} {b : BlockId}
  {G : Module → α → Prop}

/-- Another block is taken up, and what follows is written there. -/
theorem takeUp {k : Unit → Lower α} {Q : α → Lowering → Prop} [m.HasBlock f.id b]
    (blocks' : List BlockId) (hmem : ∀ c, c ∈ blocks ↔ c = b ∨ c ∈ blocks') (hb : b ∉ blocks')
    (hk : ∀ m₁, m.Extends m₁ → Leads m₁ (Busy f blocks') (k ()) Q G) :
    Leads m (Idle f blocks) ((liftM (Build.positionAtEnd b) : Lower Unit) >>= k) Q G :=
  .seq (takeUp_leads hmem hb) fun _ m₁ hm _ => hk m₁ hm

theorem andTakeUp {k : Unit → Attempt α} {Q : Option α → Lowering → Prop}
    {H : Module → Option α → Prop} [m.HasBlock f.id b] (blocks' : List BlockId)
    (hmem : ∀ c, c ∈ blocks ↔ c = b ∨ c ∈ blocks') (hb : b ∉ blocks')
    (hk : ∀ m₁, m.Extends m₁ → Leads m₁ (Busy f blocks') (k ()).run Q H) :
    Leads m (Idle f blocks) ((liftM (Build.positionAtEnd b) : Attempt Unit) >>= k).run Q H :=
  have := takeUp_leads (m := m) (f := f) hmem hb
  .andThen fun _ m₁ hm _ => hk m₁ hm

/-- Code elsewhere may start at any place. -/
theorem fromRest {func : Option FunctionState} {bindings : Table Name VarBinding}
    {p : Option BlockId} {x : Lower α} {Q : α → Lowering → Prop}
    (hx : Leads m (Lowering.Holding func bindings (Module.Resting blocks)) x Q G) :
    Leads m (Lowering.Holding func bindings (Module.Open p blocks)) x Q G where
  run h hm hs := hx.run h hm ⟨hs.1.imp fun hopen => ⟨p, hopen⟩, hs.2⟩

/-- A block of another function is taken up, and what follows is written there. -/
theorem takeUpElsewhere {func : Option FunctionState} {bindings : Table Name VarBinding}
    {k : Unit → Lower α} {Q : α → Lowering → Prop} (g : FunctionId) [m.HasBlock g b]
    (blocks' : List BlockId) (hmem : ∀ c, c ∈ blocks ↔ c = b ∨ c ∈ blocks') (hb : b ∉ blocks')
    (hk : ∀ m₁, m.Extends m₁ →
      Leads m₁ (Lowering.Holding func bindings (Module.Writing g blocks')) (k ()) Q G) :
    Leads m (Lowering.Holding func bindings (Module.Resting blocks))
      ((liftM (Build.positionAtEnd b) : Lower Unit) >>= k) Q G :=
  have := Build.positionAtEnd_leads (m := m) (f := g) hmem hb
  .seq inferInstance fun _ m₁ hm _ => hk m₁ hm

/-- While code is being written the current block has not ended. -/
theorem notEnded : Leads m (Busy f blocks)
    (liftM (Build.ask Module.currentBlockTerminated) : Lower Bool) (fun _ => Busy f blocks)
    fun _ ended => ended = false where
  run {s a s'} h _ hs := by
    rw [build_of_ok (Build.ask_of_ok (currentBlockTerminated_of_writing hs.2.2))] at h
    cases h
    exact ⟨.refl _, hs, rfl⟩

instance (target : BlockId) [m.HasBlock f.id target] :
    Leads m (Busy f blocks) (brIfOpen target) (fun _ => Idle f blocks) fun _ _ => True := by
  unfold brIfOpen
  refine .seq .notEnded ?_
  rintro _ m₁ _ rfl
  exact inferInstanceAs (Leads _ _ (liftM (Build.br target)) _ _)

end Leads

end SsaCompiler
