/-
# Where lowering leaves off

Lowering a node writes code, and afterwards code goes on somewhere else. But it does not go on in
another function: it goes on where it was, or in a block of the current function, or, if it went
nowhere, where that function makes room for variables. Declarations and instances of templates write
functions of their own and come back, so behind them code goes on exactly where it was, and the
variables are what they were.

All of this holds of every part that lowering is put together from, within the leeway that the part
has.
-/

import SsaCompiler.Proofs.Ir.Growth
import SsaCompiler.Proofs.Lower.Composed.Node
import SsaCompiler.Proofs.Lower.Later

namespace SsaCompiler

/-! ### Blocks -/

namespace Module

/-- A new block is one of its function. -/
theorem hasBlock_of_appendBlock {m m' : Module} {f : FunctionId} {name : String} {b : BlockId}
    (h : Build.appendBlock f name m = .ok (b, m')) : m'.HasBlock f b := by
  obtain ⟨d, m₁, hf, hend⟩ := bind_eq_ok_iff.1 h
  obtain ⟨-, rfl⟩ := Build.ask_eq_ok_iff.1 hf
  cases hend
  exact ⟨⟨name, f, #[], none⟩, Checked.at_push_size _ _, rfl⟩

end Module

namespace FunctionState

variable {f : FunctionState} {m m' m'' : Module}

/-- Code goes on where it was, in a block of a function, or where the function makes room for
variables if code went on nowhere before. -/
inductive GoesOn (f : FunctionState) (m m' : Module) : Prop
  | here (h : m'.position = m.position)
  | block {b : BlockId} (h : m'.position = some b) (hb : m'.HasBlock f.id b)
  | entry (h : m.position = none) (h' : m'.position = some f.allocaBlock)

/-- Code that goes on may go on further. -/
theorem GoesOn.trans (h : f.GoesOn m m') (hmore : m'.GrowsLoosely m'') (h' : f.GoesOn m' m'') :
    f.GoesOn m m'' := by
  cases h' with
  | block hat hb => exact .block hat hb
  | here hsame =>
      cases h with
      | here hbefore => exact .here (hsame.trans hbefore)
      | block hat hb => exact .block (hsame.trans hat) (hmore.hasBlock hb)
      | entry hnone hat => exact .entry hnone (hsame.trans hat)
  | entry hnone hat =>
      cases h with
      | here hbefore => exact .entry (hbefore.symm.trans hnone) hat
      | block hsome => cases hsome.symm.trans hnone
      | entry _ hsome => cases hsome.symm.trans hnone

end FunctionState

namespace Lowering

/-- What a computation leaves alone, within the leeway that it has. Without a block in which code
may go on it goes on where it was, and within the blocks of the current function it stays there
unless it writes others. -/
structure Keeps (L : Leeway) (s s' : Lowering) : Prop where
  position : L.blocks = none → s'.module.position = s.module.position
  bindings : L.binds = false → s'.context.symbols.bindings = s.context.symbols.bindings
  goesOn : L.apart = false → ∀ {f}, s.pass.func = some f →
    (∀ b, L.Offers b → s.module.HasBlock f.id b) → f.GoesOn s.module s'.module

variable {L : Leeway} {s s' s'' : Lowering}

/-- Code goes on where it was, and the variables are the same. -/
theorem Keeps.of_same (hposition : s'.module.position = s.module.position)
    (hbindings : s'.context.symbols.bindings = s.context.symbols.bindings) : s.Keeps L s' :=
  ⟨fun _ => hposition, fun _ => hbindings, fun _ _ _ _ => .here hposition⟩

theorem Keeps.trans (h : s.Keeps L s') (hlater : s.Later s') (hlater' : s'.Later s'')
    (h' : s'.Keeps L s'') : s.Keeps L s'' where
  position hL := (h'.position hL).trans (h.position hL)
  bindings hL := (h'.bindings hL).trans (h.bindings hL)
  goesOn hapart _ hf hb := by
    have hnext := h'.goesOn hapart (hlater.func.trans hf) fun b hL => hlater.blocks (hb b hL)
    exact (h.goesOn hapart hf hb).trans hlater'.module hnext

end Lowering

namespace Leeway

/-- Code goes on in blocks of its own only. -/
def inside : Leeway := { free with apart := false }

/-- Code goes on where it was, and the variables stay the same. -/
def still : Leeway := { free with blocks := none, apart := false, binds := false }

instance : inside.IsCode where
  binds := rfl
  blocks := rfl
  inBody := rfl

instance (b : BlockId) : inside.Targets b := ⟨Set.mem_univ b⟩

end Leeway

namespace Lower

variable {α : Type} {L : Leeway} {s s' : Lowering} {x : Lower α} {a : α}

/-! ### Single steps -/

/-- Behind a request that leaves it alone code goes on where it was. -/
theorem keeps_of_still {b : Build α} [hb : b.Preserves Module.position]
    (h : (liftM b : Lower α) s = .ok (a, s')) : s.Keeps L s' := by
  obtain ⟨m, hrun, rfl⟩ := build_eq_ok_iff.1 h
  exact .of_same (hb.same hrun) rfl

theorem keeps_of_goOn {b : BlockId} {u : Unit} (hL : L.Offers b)
    (h : (liftM (Build.positionAtEnd b) : Lower Unit) s = .ok (u, s')) : s.Keeps L s' := by
  obtain ⟨m, hrun, rfl⟩ := build_eq_ok_iff.1 h
  cases hrun
  refine ⟨fun hnone => ?_, fun _ => rfl, fun _ _ _ hb => .block rfl ⟨(hb b hL).block⟩⟩
  have := hL.blocks
  rw [hnone] at this
  cases this

/-- A choice at the start of a block. -/
theorem keeps_of_choose {b : BlockId} {ty : TypeId} {incoming : List (ValueId × BlockId)}
    {v : ValueId} (hL : L.Offers b)
    (h : (liftM (choose b ty incoming) : Lower ValueId) s = .ok (v, s')) : s.Keeps L s' := by
  rw [choose, build_bind] at h
  obtain ⟨⟨⟩, s₁, hgo, hphi⟩ := bind_eq_ok_iff.1 h
  obtain ⟨m, hrun, rfl⟩ := build_eq_ok_iff.1 hphi
  have hsame : m.position = s₁.module.position := Build.Preserves.same hrun
  have hgoes := keeps_of_goOn hL hgo
  have hmore : s₁.module.GrowsLoosely m := Build.GrowsLoosely.later hrun
  exact ⟨fun hnone => hsame.trans (hgoes.position hnone), hgoes.bindings, fun hapart _ hf hb =>
    (hgoes.goesOn hapart hf hb).trans hmore (.here hsame)⟩

/-- Where code went nowhere it goes on, behind room for a value, in the first block of the
function. -/
theorem keeps_of_entryAlloca [hL : L.Writes] {ty : TypeId} {slot : ValueId}
    (h : entryAlloca ty s = .ok (slot, s')) : s.Keeps L s' := by
  obtain ⟨m, hrun, rfl⟩ := entryAlloca_eq_ok h
  have hsame : m.position = (s.pass.func.map (·.allocaBlock)).or s.module.position :=
    Build.Preserves.same hrun
  refine ⟨fun hnone => ?_, fun _ => rfl, fun _ f hf _ => ?_⟩
  · have := hL.blocks
    rw [hnone] at this
    cases this
  · rw [hf] at hsame
    cases hhere : s.module.position with
    | none => exact .entry hhere hsame
    | some b => exact .here hhere.symm

/-- A part of lowering stays within its leeway. -/
theorem keeps_of_elementary (hx : Elementary L α x) (h : x s = .ok (a, s')) : s.Keeps L s' := by
  cases hx with
  | still b _ hlocal =>
      have : b.Preserves Module.position := ⟨fun hrun => congrArg Prod.fst (hlocal.same hrun)⟩
      exact keeps_of_still h
  | alloca ty => exact keeps_of_still h
  | choose b hb => exact keeps_of_choose hb h
  | entryAlloca ty => exact keeps_of_entryAlloca h
  | modifyContext hf hbinds =>
      cases h
      exact ⟨fun _ => rfl, fun hL => hbinds hL s.context, fun _ _ _ _ => .here rfl⟩
  | modifyPass =>
      cases h
      exact .of_same rfl rfl

/-- A new block is one of the current function, and code does not go on there yet. -/
theorem keeps_of_appendBlock {name : String} {b : BlockId}
    (h : appendBlock name s = .ok (b, s')) : s.Keeps L s' ∧
      ∀ {f}, s.pass.func = some f → s'.module.HasBlock f.id b := by
  unfold appendBlock at h
  rw [bind_of_ok (func_apply s)] at h
  cases hfunc : s.pass.func with
  | none =>
      rw [hfunc] at h
      obtain ⟨g, s₁, hask, h⟩ := bind_eq_ok_iff.1 h
      rw [pure_bind] at h
      obtain ⟨m, hrun, rfl⟩ := build_eq_ok_iff.1 hask
      obtain ⟨-, rfl⟩ := Build.ask_eq_ok_iff.1 hrun
      exact ⟨keeps_of_still h, fun hf => by cases hf⟩
  | some f =>
      rw [hfunc] at h
      refine ⟨keeps_of_still h, fun hf => ?_⟩
      cases hf
      obtain ⟨m, hrun, rfl⟩ := build_eq_ok_iff.1 h
      exact Module.hasBlock_of_appendBlock hrun

/-! ### All of lowering -/

/-- Whatever is put together from the steps of lowering stays within its leeway. -/
theorem Composed.keeps (hx : Composed Elementary L x) (h : x s = .ok (a, s')) : s.Keeps L s' := by
  induction hx generalizing s s' with
  | part hx => exact keeps_of_elementary hx h
  | pure =>
      cases h
      exact .of_same rfl rfl
  | seq hx hf ihx ihf =>
      obtain ⟨b, s₁, hfirst, hrest⟩ := bind_eq_ok_iff.1 h
      exact (ihx hfirst).trans (hx.later_of hfirst) ((hf b).later_of hrest) (ihf b hrest)
  | check c =>
      cases c with
      | error e => cases h
      | ok a =>
          cases h
          exact .of_same rfl rfl
  | ask | intern | report | note =>
      cases h
      exact .of_same rfl rfl
  | outer _ _ ih =>
      have hs := ih s (get_eq_ok h)
      exact ⟨hs.position, hs.bindings, fun hapart _ hf hb =>
        hs.goesOn hapart hf fun c hc => hb c ⟨hc.mem, hc.blocks⟩⟩
  | within _ _ ihx ihy =>
      rcases ifOutside_eq_ok h with ⟨-, h⟩ | ⟨-, h⟩
      · exact ihx h
      · have hs := ihy h
        exact ⟨hs.position, hs.bindings, fun hapart _ hf hb =>
          hs.goesOn hapart hf fun c hc => hb c ⟨hc.mem, hc.blocks⟩⟩
  | goOn b hb => exact keeps_of_goOn hb h
  | enter b hb _ hx ih =>
      obtain ⟨⟨⟩, s₁, hgo, hrest⟩ := bind_eq_ok_iff.1 h
      have hinside := ih hrest
      exact (keeps_of_goOn hb hgo).trans (later_of_build hgo) (hx.later_of hrest)
        ⟨fun _ => hinside.position rfl, hinside.bindings, fun _ _ _ _ => .here (hinside.position rfl)⟩
  | @fresh L _ _ name _ f hf ih =>
      obtain ⟨b, s₁, hblock, hrest⟩ := bind_eq_ok_iff.1 h
      obtain ⟨hnew, hhas⟩ := keeps_of_appendBlock (L := L) hblock
      have hlater := later_of_appendBlock hblock
      have hinside := ih b hrest
      refine hnew.trans hlater ((hf b).later_of hrest) ⟨fun hL => ?_, hinside.bindings, ?_⟩
      · exact hinside.position (by rw [Leeway.offering, hL]; rfl)
      · intro hapart g hg hblocks
        refine hinside.goesOn hapart hg fun c hc => ?_
        rcases Leeway.offers_offering hc with rfl | hc
        · exact hhas (hlater.func.symm.trans hg)
        · exact hblocks c hc
  | freshIn hL g _ _ hf ih | entryIn hL g hf ih =>
      obtain ⟨b, s₁, hblock, hrest⟩ := bind_eq_ok_iff.1 h
      have hinside := ih b hrest
      refine (keeps_of_still hblock).trans (later_of_build hblock) ((hf b).later_of hrest)
        ⟨fun hnone => ?_, hinside.bindings, fun hapart => ?_⟩
      · have := hL.blocks
        rw [hnone] at this
        cases this
      · cases hL.apart.symm.trans hapart
  | comingBack _ ih =>
      obtain ⟨⟨⟩, s₁, hx, hback⟩ := bind_eq_ok_iff.1 (comingBack_apply _ s ▸ h)
      cases hback
      exact ⟨fun _ => rfl, fun _ => (ih hx).bindings rfl, fun _ _ _ _ => .here rfl⟩
  | demand _ _ ih =>
      obtain ⟨s₁, hx, rfl | ⟨-, hreport⟩⟩ := demand_eq_ok h
      · exact ih hx
      · cases hreport
        exact ⟨(ih hx).position, (ih hx).bindings, (ih hx).goesOn⟩
  | collecting _ ih =>
      obtain ⟨s₁, hrun, -, rfl⟩ := collecting_eq_ok h
      exact ⟨(ih hrun).position, (ih hrun).bindings, (ih hrun).goesOn⟩
  | withTargets _ _ _ ih =>
      obtain ⟨s₁, hrun, rfl⟩ := withTargets_eq_ok h
      exact ⟨(ih hrun).position, (ih hrun).bindings, (ih hrun).goesOn⟩
  | withTry _ _ _ ih =>
      obtain ⟨s₁, hrun, -, rfl⟩ := withTry_eq_ok h
      exact ⟨(ih hrun).position, (ih hrun).bindings, (ih hrun).goesOn⟩
  | withBody =>
      obtain ⟨a, s₁, ha, h⟩ := bind_eq_ok_iff.1 h
      obtain ⟨b, s₂, hb, h⟩ := bind_eq_ok_iff.1 h
      obtain ⟨m₁, hentry, rfl⟩ := build_eq_ok_iff.1 ha
      obtain ⟨m₂, hbody, rfl⟩ := build_eq_ok_iff.1 hb
      obtain ⟨s₃, fatal, -, rfl, -⟩ := inFunction_eq_ok h
      have hsame : m₂.position = s.module.position :=
        (Build.Preserves.same hbody).trans (Build.Preserves.same hentry)
      exact .of_same hsame rfl
  | asNewPass _ ih =>
      obtain ⟨s₁, hrun, rfl⟩ := asNewPass_eq_ok h
      have hsame : s₁.module.position = s.module.position := (ih hrun).position rfl
      exact ⟨fun _ => hsame, fun _ => (ih hrun).bindings rfl, fun _ _ _ _ => .here hsame⟩

end Lower

/-! ### Nodes and instances -/

/-- A declaration of a function, an operator or an object. -/
inductive NodeKind.Declares {ν : Type} : NodeKind ν → Prop
  | function (decl : FunctionDecl ν) : Declares (.function decl)
  | operator (decl : OperatorDecl ν) : Declares (.operator decl)
  | object (decl : ObjectDecl ν) : Declares (.object decl)

namespace Lowering

/-- Code goes on in the current function, if it goes on anywhere. -/
def IsInside (s : Lowering) : Prop :=
  ∀ {f b}, s.pass.func = some f → s.module.position = some b → s.module.HasBlock f.id b

/-- The stacks of the walk are what they were, but for the exceptions of the innermost node. -/
structure SameStacks (s s' : Lowering) : Prop where
  loops : s'.pass.loops = s.pass.loops
  tries : s'.pass.tries = s.pass.tries
  func : s'.pass.func = s.pass.func
  depth : s'.pass.throwStack.length = s.pass.throwStack.length
  outer : s'.pass.throwStack.tail = s.pass.throwStack.tail

/-- Code still goes on, and in a block of the current function. Where it went nowhere before, that
may be the block in which the function makes room for variables. -/
structure StaysInside (s s' : Lowering) : Prop where
  block : ∀ {f b}, s.pass.func = some f → s'.module.position = some b →
    s'.module.HasBlock f.id b ∨ s.module.position = none ∧ b = f.allocaBlock
  isSome : s.pass.func.isSome → s.module.position.isSome → s'.module.position.isSome

/-- The variables are the same, and code goes on where it was. -/
structure SameScope (s s' : Lowering) : Prop where
  bindings : s'.context.symbols.bindings = s.context.symbols.bindings
  position : s'.module.position = s.module.position

variable {s s' : Lowering}

/-- The stacks are the same in a later state. -/
theorem Later.sameStacks (h : s.Later s') : s.SameStacks s' :=
  ⟨h.loops, h.tries, h.func, h.throwStack, h.outer⟩

/-- A computation that goes on in its own blocks only stays in the current function. -/
theorem Keeps.staysInside (h : s.Keeps .inside s') (hlater : s.Later s') (hs : s.IsInside) :
    s.StaysInside s' := by
  have hgoesOn {f : FunctionState} (hf : s.pass.func = some f) : f.GoesOn s.module s'.module :=
    h.goesOn rfl hf fun b hb => absurd (hb.mem rfl) (Set.notMem_empty b)
  refine ⟨fun {f b} hf hb => ?_, fun hf hsome => ?_⟩
  · cases hgoesOn hf with
    | here hsame => exact .inl (hlater.blocks (hs hf (hsame.symm.trans hb)))
    | block hat hc =>
        cases hat.symm.trans hb
        exact .inl hc
    | entry hnone hat =>
        cases hat.symm.trans hb
        exact .inr ⟨hnone, rfl⟩
  · obtain ⟨f, hf⟩ := Option.isSome_iff_exists.1 hf
    cases hgoesOn hf with
    | here hsame => rwa [hsame]
    | block hat =>
        rw [hat]
        rfl
    | entry hnone =>
        rw [hnone] at hsome
        cases hsome

end Lowering

open Lower

/-- A declaration is put together without going on anywhere and without a variable. -/
theorem NodeKind.Declares.composed {node : Node} (h : node.kind.Declares) (r : Recur)
    [r.IsComposed] (L : Leeway) : Composed Elementary L (r.lowerKind node) := by
  obtain ⟨id, span, kind⟩ := node
  unfold Recur.lowerKind
  cases h <;> infer_instance

/-- Whatever becomes of a node, and from whatever state of lowering, the loops and tries around it,
the current function and the exceptions that are collected around it are the same behind it, and
code still goes on in the current function. Behind a declaration of a function, an operator or an
object, and behind an instance of a template, the variables are the same as well, and code goes on
exactly where it was. -/
theorem Recur.leaves_off_where_it_began (n : Nat) {s s' : Lowering} (hs : s.IsInside) :
    (∀ node result, (within n).lowerNode node s = .ok (result, s') →
      s.SameStacks s' ∧ s.StaysInside s' ∧ (node.kind.Declares → s.SameScope s')) ∧
    ∀ name args span result, ((within n).instanceOf name args span).run s = .ok (result, s') →
      s.SameStacks s' ∧ s.SameScope s' := by
  have hscope {α : Type} {x : Lower α} {a : α} (hx : Composed Elementary .still x)
      (h : x s = .ok (a, s')) : s.SameScope s' :=
    ⟨(hx.keeps h).bindings rfl, (hx.keeps h).position rfl⟩
  refine ⟨fun node result h => ?_, fun name args span result h => ?_⟩
  · have hcomposed : Composed Elementary .inside ((within n).lowerNode node) := inferInstance
    have hlater := hcomposed.later_of h
    refine ⟨hlater.sameStacks, (hcomposed.keeps h).staysInside hlater hs, fun hkind => ?_⟩
    have := hkind.composed (within n) .still
    exact hscope (x := (within n).lowerNode node) inferInstance h
  · have hcomposed : Composed Elementary .still ((within n).instanceOf name args span).run :=
      inferInstance
    exact ⟨(hcomposed.later_of h).sameStacks, hscope hcomposed h⟩

/-- A loop with a jump out of it, in the first block of a function with three blocks. -/
theorem Recur.leaves_off_where_it_began_loop : ∃ s s' : Lowering, s.IsInside ∧
    s.module.position = some ⟨0⟩ ∧ s'.module.position = some ⟨5⟩ ∧ s.SameStacks s' ∧
    s.StaysInside s' := by
  let c := Compilation.new .standard "loop"
  let loop : Node := ⟨0, .unknown, .whileLoop (some ⟨1, .unknown, .boolLit true⟩)
    (some ⟨2, .unknown, .breakStmt⟩)⟩
  let start (m : Module) : Lowering := ⟨c.context, c.names, m,
    { Pass.new ⟨0⟩ with func := some ⟨⟨0⟩, "__probe", ⟨0⟩, false, none, ⟨0⟩⟩ }⟩
  obtain ⟨⟨_, m⟩, -, d, hblock, ⟨_, s'⟩, hloop, hfunction, hposition, hposition'⟩ :
      ∃ probe ∈ (probeFunction c.module).toOption, ∃ d ∈ (probe.2.block ⟨0⟩).toOption,
        ∃ run ∈ ((within 2).lowerNode loop (start probe.2)).toOption, d.function = ⟨0⟩ ∧
          probe.2.position = some ⟨0⟩ ∧ run.2.module.position = some ⟨5⟩ := by decide +kernel
  have hs : (start m).IsInside := by
    intro f b hf hb
    cases hf
    cases hposition.symm.trans hb
    exact ⟨d, mem_toOption_iff.1 hblock, hfunction⟩
  have hleaves := (leaves_off_where_it_began 2 hs).1 loop _ (mem_toOption_iff.1 hloop)
  exact ⟨start m, s', hs, hposition, hposition', hleaves.1, hleaves.2.1⟩

end SsaCompiler
