/-
# What lowering is put together from

Lowering a tree is a long computation, but it is made of few kinds of steps. It asks about the
state and makes requests to the module, it changes the tables and what belongs to the walk, it
reports, and it puts something around a part of the tree and takes it away again. What holds of
each of these steps, and of one computation behind another, holds of lowering as a whole.

The reports stand apart. No step asks about them but one: a child that has to have a value is
reported when it has none, unless there have been reports in the meantime.

Being put together in this way is a class, and the lowering of every kind of node is found to be
put together so by taking it apart. It is taken apart only once: which computations besides the
steps may be parts of others is left open, and whatever holds of the steps and of those parts holds
of the whole.
-/

import SsaCompiler.Proofs.Ir.LooseGrowth
import SsaCompiler.Proofs.Lower.Requests
import SsaCompiler.Proofs.Lower.Stepwise

namespace SsaCompiler

/-- The tables with other reports, and with the choice of the user that belongs to them. -/
def Context.withReports (c : Context) (q : DiagnosticQueue) : Context :=
  { c with options := { c.options with diagnostics := q.config }, diagnostics := q }

/-! ### Exceptions -/

namespace ThrowSet

variable {known new : ThrowSet} {ty : TypeId}

/-- One type more, unless it is there already. -/
theorem merge_cons (known : ThrowSet) (ty : TypeId) (new : List TypeId) :
    merge known (ty :: new) = merge (if ty ∈ known then known else known ++ [ty]) new := by
  simp [merge]

/-- What is known and what is new. -/
theorem mem_merge : ty ∈ merge known new ↔ ty ∈ known ∨ ty ∈ new := by
  induction new generalizing known with
  | nil => simp [merge]
  | cons other rest ih =>
      rw [merge_cons, ih]
      split
      · rename_i hknown
        constructor
        · exact Or.imp_right (List.mem_cons_of_mem _)
        · rintro (h | h)
          · exact .inl h
          · rcases List.mem_cons.1 h with rfl | h
            · exact .inl hknown
            · exact .inr h
      · simp [or_assoc]

/-- What is known stays known. -/
theorem subset_merge (known new : ThrowSet) : known ⊆ merge known new :=
  fun _ h => mem_merge.2 (.inl h)

/-- No type is added twice. -/
theorem nodup_merge (hknown : known.Nodup) : (merge known new).Nodup := by
  induction new generalizing known with
  | nil => exact hknown
  | cons ty rest ih =>
      rw [merge_cons]
      split
      · exact ih hknown
      · rename_i hnew
        exact ih (List.nodup_append.2 ⟨hknown, List.nodup_singleton ty, by grind⟩)

end ThrowSet

/-- The state with other reports. -/
def Lowering.withReports (s : Lowering) (q : DiagnosticQueue) : Lowering :=
  { s with context := s.context.withReports q }

/-- A change of the walk that leaves the place in the program as it is, and the reason for an
early end. -/
structure Pass.KeepsPlace (f : Pass → Pass) : Prop where
  func : ∀ p, (f p).func = p.func
  loops : ∀ p, (f p).loops = p.loops
  tries : ∀ p, (f p).tries = p.tries
  thisName : ∀ p, (f p).thisName = p.thisName
  fatal : ∀ p e, p.fatal = some e → (f p).fatal = some e
  throws : ∀ p, (f p).throwStack.length = p.throwStack.length
  outer : ∀ p, (f p).throwStack.tail = p.throwStack.tail

/-- The exceptions of the node that is being lowered, as far as they are known. -/
def Pass.thrown (p : Pass) : ThrowSet := p.throwStack.headD []

/-- A change of the walk that only notes something about the current node. The walk goes on, the
bodies that are left are the same, nothing is recorded about a node, and exceptions that are known
stay known. -/
structure Pass.Notes (f : Pass → Pass) : Prop extends Pass.KeepsPlace f where
  sameFatal : ∀ p, (f p).fatal = p.fatal
  pending : ∀ p, (f p).pending = p.pending
  nodeThrows : ∀ p, (f p).nodeThrows = p.nodeThrows
  thrown : ∀ p, p.thrown ⊆ (f p).thrown
  distinct : ∀ p, p.thrown.Nodup → (f p).thrown.Nodup

/-- A change of nothing that says where the walk is. -/
theorem Pass.KeepsPlace.of_same {f : Pass → Pass} (h : ∀ p : Pass, (f p).func = p.func ∧
    (f p).loops = p.loops ∧ (f p).tries = p.tries ∧ (f p).thisName = p.thisName ∧
    (f p).fatal = p.fatal ∧ (f p).throwStack = p.throwStack) : Pass.KeepsPlace f where
  func p := (h p).1
  loops p := (h p).2.1
  tries p := (h p).2.2.1
  thisName p := (h p).2.2.2.1
  fatal p _ he := (h p).2.2.2.2.1.trans he
  throws p := congrArg List.length (h p).2.2.2.2.2
  outer p := congrArg List.tail (h p).2.2.2.2.2

/-- A note that leaves the exceptions alone, too. -/
theorem Pass.Notes.of_same {f : Pass → Pass} (h : ∀ p : Pass, (f p).func = p.func ∧
    (f p).loops = p.loops ∧ (f p).tries = p.tries ∧ (f p).thisName = p.thisName ∧
    (f p).fatal = p.fatal ∧ (f p).throwStack = p.throwStack)
    (hpending : ∀ p, (f p).pending = p.pending)
    (hnodeThrows : ∀ p, (f p).nodeThrows = p.nodeThrows) : Pass.Notes f where
  toKeepsPlace := .of_same h
  sameFatal p := (h p).2.2.2.2.1
  pending := hpending
  nodeThrows := hnodeThrows
  thrown p := by
    unfold Pass.thrown
    rw [(h p).2.2.2.2.2]
    exact List.Subset.refl _
  distinct p hp := by
    unfold Pass.thrown at hp ⊢
    rwa [(h p).2.2.2.2.2]

/-! ### Jumps -/

/-- The blocks to which a jump out of a loop or a switch leads. -/
def JumpTargets.aims (t : JumpTargets) : Set BlockId := {b | b = t.breakTo ∨ t.continueTo = some b}

/-- The blocks to which an exception inside a `try` leads. -/
def TryFrame.aims (f : TryFrame) : Set BlockId := {b | b = f.landing ∨ b = f.dispatch}

namespace Pass

variable {p : Pass}

/-- The blocks to which jumps and exceptions lead where the walk is. -/
def aims (p : Pass) : Set BlockId :=
  {b | (∃ t ∈ p.loops, b ∈ t.aims) ∨ ∃ f ∈ p.tries, b ∈ f.aims}

/-- A jump out of the innermost loop or switch leads there. -/
theorem breakTo_mem_aims {t : JumpTargets} {rest : List JumpTargets} (h : p.loops = t :: rest) :
    t.breakTo ∈ p.aims := .inl ⟨t, h ▸ List.mem_cons_self, .inl rfl⟩

theorem continueTo_mem_aims {b : BlockId} (h : p.loops.findSome? (·.continueTo) = some b) :
    b ∈ p.aims := by
  obtain ⟨t, ht, hb⟩ := List.exists_of_findSome?_eq_some h
  exact .inl ⟨t, ht, .inr hb⟩

theorem mem_aims_of_tries {f : TryFrame} {rest : List TryFrame} (h : p.tries = f :: rest) :
    f.landing ∈ p.aims ∧ f.dispatch ∈ p.aims :=
  ⟨.inr ⟨f, h ▸ List.mem_cons_self, .inl rfl⟩, .inr ⟨f, h ▸ List.mem_cons_self, .inr rfl⟩⟩

end Pass

/-! ### Leeway -/

/-- What a computation may do besides what every one may: the blocks in which code may go on besides
new ones, none when it has to go on where it was, whether the new ones may belong to any function,
whether variables may change, the operators that may be called, the blocks to which control may be
sent, those that make room for variables, whether code goes on in one of these, and whether it
belongs to the body of a function. -/
structure Leeway where
  blocks : Option (Set BlockId)
  apart : Bool
  binds : Bool
  operators : Set Nat
  targets : Set BlockId
  entries : Set BlockId
  atEntry : Bool
  inBody : Bool

namespace Leeway

/-- Code may go on in one more block, and control may be sent there. -/
def offering (L : Leeway) (b : BlockId) : Leeway :=
  { L with blocks := L.blocks.map (insert b), targets := insert b L.targets }

/-- One more block makes room for variables. Code may go on there, but control is not sent there. -/
def entering (L : Leeway) (b : BlockId) : Leeway :=
  { L with blocks := L.blocks.map (insert b), entries := insert b L.entries }

/-- One more operator may be called. -/
def calling (L : Leeway) (index : Nat) : Leeway := { L with operators := insert index L.operators }

/-- Control may be sent where jumps and exceptions lead. Only in a body there is a `try` around. -/
def toward (L : Leeway) (p : Pass) : Leeway :=
  { L with targets := L.targets ∪ p.aims, inBody := L.inBody || !p.tries.isEmpty }

/-- What is written belongs to the body of a function. -/
def ofBody (L : Leeway) : Leeway := { L with inBody := true }

/-- Code goes on in a block that makes room for variables, and has to go on there. -/
def makingRoom (L : Leeway) : Leeway := { L with blocks := none, atEntry := true }

/-- Code is written apart from the code around it, in new blocks of any function. -/
def elsewhere (L : Leeway) : Leeway :=
  { L with blocks := some ∅, apart := true, binds := false, atEntry := false }

/-- Code has to go on where it was, and variables stay. -/
def nowhere (L : Leeway) : Leeway :=
  { L with blocks := none, binds := false, atEntry := false, inBody := false }

/-- The body of a function is written in blocks of its own, with variables of its own. -/
def inFunction (L : Leeway) : Leeway :=
  { L with blocks := some ∅, apart := false, binds := true, atEntry := false, inBody := true }

/-- Code may go on in new blocks of any function, and variables may change. -/
def free : Leeway where
  blocks := some ∅
  apart := true
  binds := true
  operators := ∅
  targets := .univ
  entries := ∅
  atEntry := false
  inBody := true

variable {L : Leeway} {b c : BlockId} {index other : Nat} {p : Pass}

/-- Code may go on in a block. -/
class Offers (L : Leeway) (b : BlockId) : Prop where
  mem : ∀ {B}, L.blocks = some B → b ∈ B
  blocks : L.blocks.isSome

/-- An operator may be called. -/
class Calls (L : Leeway) (index : Nat) : Prop where
  mem : index ∈ L.operators

/-- Control may be sent to a block. -/
class Targets (L : Leeway) (b : BlockId) : Prop where
  mem : b ∈ L.targets

/-- A block makes room for variables. -/
class Enters (L : Leeway) (b : BlockId) : Prop where
  mem : b ∈ L.entries

/-- Variables may change. -/
class Binds (L : Leeway) : Prop where
  binds : L.binds = true

/-- Code is written, and variables may change. -/
class Writes (L : Leeway) : Prop extends L.Binds where
  blocks : L.blocks.isSome

/-- What is written belongs to the body of a function. -/
class InBody (L : Leeway) : Prop where
  inBody : L.inBody = true

/-- Code is written in the body of a function. -/
class IsCode (L : Leeway) : Prop extends L.Writes, L.InBody

/-- Code goes on in a block that makes room for variables. -/
class MakesRoom (L : Leeway) : Prop where
  atEntry : L.atEntry = true

/-- Code may go on in new blocks of any function. -/
class IsApart (L : Leeway) : Prop where
  blocks : L.blocks.isSome
  apart : L.apart = true

instance [hL : L.Writes] : (L.offering b).Writes where
  binds := hL.binds
  blocks := by simp [offering, hL.blocks]

instance [hL : L.Writes] : (L.entering b).Writes where
  binds := hL.binds
  blocks := by simp [entering, hL.blocks]

instance [hL : L.Writes] : (L.calling index).Writes := { hL with }

instance [hL : L.Writes] : (L.toward p).Writes := { hL with }

instance [hL : L.InBody] : (L.offering b).InBody := ⟨hL.inBody⟩

instance [hL : L.InBody] : (L.entering b).InBody := ⟨hL.inBody⟩

instance [hL : L.InBody] : (L.calling index).InBody := ⟨hL.inBody⟩

instance [hL : L.InBody] : (L.toward p).InBody := ⟨by simp [toward, hL.inBody]⟩

instance [hL : L.IsCode] : (L.offering b).IsCode := {}

instance [hL : L.IsCode] : (L.entering b).IsCode := {}

instance [hL : L.IsCode] : (L.calling index).IsCode := {}

instance [hL : L.IsCode] : (L.toward p).IsCode := {}

instance : L.inFunction.IsCode where
  binds := rfl
  blocks := rfl
  inBody := rfl

instance : free.IsCode where
  binds := rfl
  blocks := rfl
  inBody := rfl

instance [hL : L.Writes] : L.ofBody.IsCode where
  binds := hL.binds
  blocks := hL.blocks
  inBody := rfl

/-- Where there is a `try` around, code is written in the body of a function. -/
theorem isCode_toward [L.Writes] {frame : TryFrame} {rest : List TryFrame}
    (h : p.tries = frame :: rest) : (L.toward p).IsCode where
  inBody := by simp [toward, h]

instance [hL : L.Binds] : L.makingRoom.Binds := ⟨hL.binds⟩

instance : L.makingRoom.MakesRoom := ⟨rfl⟩

instance [hL : L.IsApart] : (L.offering b).IsApart := ⟨by simp [offering, hL.blocks], hL.apart⟩

instance [hL : L.IsApart] : (L.entering b).IsApart := ⟨by simp [entering, hL.blocks], hL.apart⟩

instance [hL : L.IsApart] : (L.calling index).IsApart := ⟨hL.blocks, hL.apart⟩

instance : L.elsewhere.IsApart := ⟨rfl, rfl⟩

instance : free.IsApart := ⟨rfl, rfl⟩

/-- With one more block in which code may go on, it may go on in this one and in those before. -/
theorem mem_insert_of_map {B : Set BlockId} (h : L.blocks.map (insert b) = some B) :
    b ∈ B ∧ ∀ {c}, L.Offers c → c ∈ B := by
  obtain ⟨B, hB, rfl⟩ := Option.map_eq_some_iff.1 h
  exact ⟨Set.mem_insert b B, fun hc => Set.mem_insert_of_mem b (hc.mem hB)⟩

instance [hL : L.Writes] : (L.offering b).Offers b :=
  ⟨fun h => (mem_insert_of_map h).1, by simp [offering, hL.blocks]⟩

instance [hL : L.IsApart] : (L.offering b).Offers b :=
  ⟨fun h => (mem_insert_of_map h).1, by simp [offering, hL.blocks]⟩

instance [hL : L.Writes] : (L.entering b).Offers b :=
  ⟨fun h => (mem_insert_of_map h).1, by simp [entering, hL.blocks]⟩

instance [hL : L.IsApart] : (L.entering b).Offers b :=
  ⟨fun h => (mem_insert_of_map h).1, by simp [entering, hL.blocks]⟩

instance [hL : L.Offers b] : (L.offering c).Offers b :=
  ⟨fun h => (mem_insert_of_map h).2 hL, by simp [offering, hL.blocks]⟩

instance [hL : L.Offers b] : (L.entering c).Offers b :=
  ⟨fun h => (mem_insert_of_map h).2 hL, by simp [entering, hL.blocks]⟩

/-- Code may go on in a new block or where it might before. -/
theorem offers_of_map {L' : Leeway} (hL' : L'.blocks = L.blocks.map (insert b)) (h : L'.Offers c) :
    c = b ∨ L.Offers c := by
  obtain ⟨B, hB⟩ : ∃ B, L.blocks = some B := by
    have := h.blocks
    rwa [hL', Option.isSome_map, Option.isSome_iff_exists] at this
  have hmem : c ∈ insert b B := h.mem (by rw [hL', hB]; rfl)
  rcases Set.mem_insert_iff.1 hmem with rfl | hc
  · exact .inl rfl
  · refine .inr ⟨fun hB' => ?_, by rw [hB]; rfl⟩
    cases hB.symm.trans hB'
    exact hc

/-- With one more block code may go on there or where it might before. -/
theorem offers_offering (h : (L.offering b).Offers c) : c = b ∨ L.Offers c := offers_of_map rfl h

/-- With one more block that makes room, too. -/
theorem offers_entering (h : (L.entering b).Offers c) : c = b ∨ L.Offers c := offers_of_map rfl h

/-- Code that is written apart may only go on in new blocks. -/
theorem not_offers_elsewhere : ¬ L.elsewhere.Offers b := fun h => Set.notMem_empty b (h.mem rfl)

/-- The body of a function may only go on in new blocks. -/
theorem not_offers_inFunction : ¬ L.inFunction.Offers b := fun h => Set.notMem_empty b (h.mem rfl)

/-- Code that goes on where it was goes on in no other block. -/
theorem not_offers_nowhere : ¬ L.nowhere.Offers b := fun h => by cases h.blocks

theorem not_offers_makingRoom : ¬ L.makingRoom.Offers b := fun h => by cases h.blocks

instance [hL : L.Offers b] : (L.calling index).Offers b := ⟨hL.mem, hL.blocks⟩

instance [hL : L.Offers b] : (L.toward p).Offers b := ⟨hL.mem, hL.blocks⟩

instance : (L.calling index).Calls index := ⟨Set.mem_insert index _⟩

instance [hL : L.Calls index] : (L.calling other).Calls index := ⟨Set.mem_insert_of_mem _ hL.mem⟩

instance [hL : L.Calls index] : (L.offering b).Calls index := ⟨hL.mem⟩

instance [hL : L.Calls index] : (L.toward p).Calls index := ⟨hL.mem⟩

instance [hL : L.Calls index] : L.elsewhere.Calls index := ⟨hL.mem⟩

instance : (L.offering b).Targets b := ⟨Set.mem_insert b _⟩

instance [hL : L.Targets b] : (L.offering c).Targets b := ⟨Set.mem_insert_of_mem c hL.mem⟩

instance [hL : L.Targets b] : (L.entering c).Targets b := ⟨hL.mem⟩

instance [hL : L.Targets b] : (L.calling index).Targets b := ⟨hL.mem⟩

instance [hL : L.Targets b] : (L.toward p).Targets b := ⟨.inl hL.mem⟩

instance [hL : L.Targets b] : L.makingRoom.Targets b := ⟨hL.mem⟩

instance : free.Targets b := ⟨Set.mem_univ b⟩

instance [hL : L.Targets b] : Build.SendsTo L.targets (Build.br b) := Build.sendsTo_br hL.mem

instance (cond : ValueId) [hb : L.Targets b] [hc : L.Targets c] :
    Build.SendsTo L.targets (Build.condBr cond b c) := Build.sendsTo_condBr hb.mem hc.mem

instance (f : FunctionId) (args : List ValueId) [hb : L.Targets b] [hc : L.Targets c] :
    Build.SendsTo L.targets (Build.invoke f args b c) := Build.sendsTo_invoke hb.mem hc.mem

/-- Control may be sent where jumps and exceptions lead. -/
theorem targets_toward (h : b ∈ p.aims) : (L.toward p).Targets b := ⟨.inr h⟩

/-- Code may go on, and control may be sent, wherever it might. -/
structure IsWithin (L L' : Leeway) : Prop where
  offers : ∀ b [L.Offers b], L'.Offers b
  targets : ∀ b [L.Targets b], L'.Targets b

theorem IsWithin.refl (L : Leeway) : L.IsWithin L := ⟨fun _ => inferInstance, fun _ => inferInstance⟩

theorem IsWithin.offering (L : Leeway) (b : BlockId) : L.IsWithin (L.offering b) :=
  ⟨fun _ _ => inferInstance, fun _ _ => inferInstance⟩

/-- With more leeway, and then with more still. -/
theorem IsWithin.trans {L L' L'' : Leeway} (h : L.IsWithin L') (h' : L'.IsWithin L'') :
    L.IsWithin L'' where
  offers b _ := by
    have := h.offers b
    exact h'.offers b
  targets b _ := by
    have := h.targets b
    exact h'.targets b

instance : (L.entering b).Enters b := ⟨Set.mem_insert b _⟩

instance [hL : L.Enters b] : (L.entering c).Enters b := ⟨Set.mem_insert_of_mem c hL.mem⟩

instance [hL : L.Enters b] : (L.offering c).Enters b := ⟨hL.mem⟩

instance [hL : L.Enters b] : (L.calling index).Enters b := ⟨hL.mem⟩

end Leeway

/-- A computation that cannot fail, as the first of a sequence of attempts. -/
theorem Attempt.run_bind_lift {α β : Type} (x : Lower α) (f : α → Attempt β) :
    ((liftM x : Attempt α) >>= f).run = x >>= fun a => (f a).run := by
  rw [OptionT.run_bind]
  change (x >>= fun a => pure (some a)) >>= _ = _
  rw [bind_assoc]
  rfl

namespace Lower

variable {α β : Type}

/-- What is done about a part that has no value: it is reported if there are as many reports as
before and the walk has not ended. -/
def unlessReported (before : Nat) (span : Span) : Lower (Option Operand) := do
  if (← errorCount) = before ∧ (← isAbandoned) = false then
    report .typeMismatch "expression has no value" span
  return none

/-- A part that has to have a value. It is reported when it has none, unless something was reported
while it was lowered. -/
def demand (x : Lower (Option Operand)) (span : Span) : Lower (Option Operand) := do
  let before ← errorCount
  match ← x with
  | some op => return some op
  | none => unlessReported before span

/-- Runs something with a `try` around it. -/
def withTry (frame : TryFrame) (body : Lower Unit) : Lower ThrowSet := do
  modifyPass fun p => { p with tries := frame :: p.tries }
  pushThrowFrame
  body
  let thrown ← popThrowFrame
  modifyPass fun p => { p with tries := p.tries.tail }
  return thrown

/-- Runs something and collects the exceptions that it may let out. -/
def collecting (x : Lower α) : Lower (α × ThrowSet) := do
  pushThrowFrame
  let a ← x
  let throws ← popThrowFrame
  return (a, throws)

/-- What follows a frame of exceptions goes on with what was collected in it. -/
theorem frame_eq_collecting (x : Lower α) (f : α → ThrowSet → Lower β) :
    (do
      pushThrowFrame
      let a ← x
      let throws ← popThrowFrame
      f a throws) = collecting x >>= fun p => f p.1 p.2 := by
  simp [collecting]

/-- Goes on after something where code went before it. -/
def comingBack (x : Lower Unit) : Lower Unit := do
  let here ← position
  x
  Build.restorePosition here

/-- Code goes on where it was. -/
theorem comingBack_apply (x : Lower Unit) (s : Lowering) : comingBack x s =
    (x >>= fun _ => liftM (Build.restorePosition s.module.position)) s := rfl

/-- Writes a function that has one block to make room for variables and one to start the body. -/
def withBody (g : FunctionId) (f : BlockId → FunctionState)
    (body : BlockId → BlockId → Lower ThrowSet) : Lower ThrowSet := do
  let allocaBlock ← Build.appendBlock g "entry"
  let bodyBlock ← Build.appendBlock g "body"
  inFunction (f allocaBlock) (body allocaBlock bodyBlock)

/-- Goes on with an operator of the program. -/
def withOperator (index : Nat) (label : String) (k : OperatorEntry → Attempt α) : Attempt α := do
  match (← get).context.operators.get? index with
  | none =>
    abandon (.vanishedOverload label)
    failure
  | some entry => k entry

/-- A choice at the start of a block. -/
def choose (b : BlockId) (ty : TypeId) (incoming : List (ValueId × BlockId)) : Build ValueId := do
  Build.positionAtEnd b
  Build.phi ty incoming

section

variable (b : BlockId) (ty : TypeId) (incoming : List (ValueId × BlockId))

instance {R : Module → Module → Prop} [IsPreorder Module R] [Module.Allows R .position]
    [Module.Allows R (.code .choice)] : Build.Moves R (choose b ty incoming) := by
  unfold choose
  infer_instance

end

/-- Which computations may be parts of others, by the leeway that there is. -/
abbrev Parts : Type 1 := Leeway → (α : Type) → Lower α → Prop

/-- A computation that is put together, within a leeway, from the steps of lowering and from
computations of which `P` holds. -/
class inductive Composed (P : Parts) : Leeway → {α : Type} → Lower α → Prop
  | part {L : Leeway} {α : Type} {x : Lower α} (hx : P L α x) : Composed P L x
  | pure {L : Leeway} {α : Type} (a : α) : Composed P L (Pure.pure a)
  | seq {L : Leeway} {α β : Type} {x : Lower α} {f : α → Lower β} (hx : Composed P L x)
      (hf : ∀ a, Composed P L (f a)) : Composed P L (x >>= f)
  | check {L : Leeway} {α : Type} (c : Checked α) : Composed P L (liftM c)
  | ask {L : Leeway} {α : Type} (f : Lowering → α) (hf : ∀ s q, f (s.withReports q) = f s) :
      Composed P L (do return f (← get))
  | intern {L : Leeway} (text : String) : Composed P L (Lower.intern text)
  | report {L : Leeway} (kind : DiagnosticKind) (message : String) (span : Span) :
      Composed P L (Lower.report kind message span)
  | note {L : Leeway} (f : Pass → Pass) (hf : Pass.Notes f) : Composed P L (modifyPass f)
  | outer {L : Leeway} {α : Type} {f : Lowering → Lower α} (hf : ∀ s q, f (s.withReports q) = f s)
      (h : ∀ s, Composed P (L.toward s.pass) (f s)) : Composed P L (MonadState.get >>= f)
  | within {L : Leeway} {α : Type} {x y : Lower α} (hx : Composed P L x)
      (hy : Composed P L.ofBody y) : Composed P L (do if (← func).isNone then x else y)
  | goOn {L : Leeway} (b : BlockId) (hb : L.Offers b) :
      Composed P L (liftM (Build.positionAtEnd b) : Lower Unit)
  | enter {L : Leeway} {α : Type} (b : BlockId) (hb : L.Offers b) (hentry : L.Enters b) {x : Lower α}
      (hx : Composed P L.makingRoom x) : Composed P L (liftM (Build.positionAtEnd b) >>= fun _ => x)
  | fresh {L : Leeway} {α : Type} [hL : L.InBody] (name : String) (hname : name ≠ "entry")
      {f : BlockId → Lower α} (hf : ∀ b, Composed P (L.offering b) (f b)) : Composed P L (appendBlock name >>= f)
  | freshIn {L : Leeway} {α : Type} (hL : L.IsApart) (g : FunctionId) (name : String)
      (hname : name ≠ "entry") {f : BlockId → Lower α}
      (hf : ∀ b, Composed P (L.offering b) (f b)) :
      Composed P L (liftM (Build.appendBlock g name) >>= f)
  | entryIn {L : Leeway} {α : Type} (hL : L.IsApart) (g : FunctionId) {f : BlockId → Lower α}
      (hf : ∀ b, Composed P (L.entering b) (f b)) :
      Composed P L (liftM (Build.appendBlock g "entry") >>= f)
  | comingBack {L : Leeway} {x : Lower Unit} (hx : Composed P L.elsewhere x) :
      Composed P L (Lower.comingBack x)
  | demand {L : Leeway} {x : Lower (Option Operand)} (hx : Composed P L x) (span : Span) :
      Composed P L (Lower.demand x span)
  | collecting {L : Leeway} {α : Type} {x : Lower α} (hx : Composed P L x) :
      Composed P L (Lower.collecting x)
  | withTargets {L : Leeway} (targets : JumpTargets) (htargets : targets.aims ⊆ L.targets)
      {body : Lower Unit} (hbody : Composed P L body) : Composed P L (Lower.withTargets targets body)
  | withTry {L : Leeway} [hL : L.InBody] (frame : TryFrame) (hframe : frame.aims ⊆ L.targets)
      {body : Lower Unit} (hbody : Composed P L body) : Composed P L (Lower.withTry frame body)
  | withBody {L : Leeway} (g : FunctionId) {f : BlockId → FunctionState}
      (hf : ∀ a, (f a).allocaBlock = a) {body : BlockId → BlockId → Lower ThrowSet}
      (hbody : ∀ a b, Composed P ((L.inFunction.entering a).offering b) (body a b)) :
      Composed P L (Lower.withBody g f body)
  | asNewPass {L : Leeway} {body : Lower Unit} (hbody : Composed P L.nowhere body) :
      Composed P L (Lower.asNewPass body)

/-- A change of the tables to which the reports do not matter. -/
structure KeepsReports (f : Context → Context) : Prop where
  diagnostics : ∀ c, (f c).diagnostics = c.diagnostics
  withReports : ∀ c q, f (c.withReports q) = (f c).withReports q

/-- What expressions and statements do to the module and to the tables may be a part of other
computations. Code goes on where it was, or comes back there, and what is around it is left alone.
Control is sent where it may be, and room is only made in a block for that. A choice is only made at
the start of a block in which code may go on. An operator that is found may be called. -/
class HasSteps (P : Parts) : Prop where
  still : ∀ {L : Leeway} {α : Type} (b : Build α) [Stepwise b] [b.Edits]
    [b.Preserves Module.surroundings] [b.SendsTo L.targets], Composed P L (liftM b)
  alloca : ∀ {L : Leeway} [L.MakesRoom] (ty : TypeId), Composed P L (liftM (Build.alloca ty))
  choose : ∀ {L : Leeway} (b : BlockId) [L.Offers b] (ty : TypeId)
    (incoming : List (ValueId × BlockId)), Composed P L (liftM (choose b ty incoming))
  entryAlloca : ∀ {L : Leeway} [L.Writes] (ty : TypeId), Composed P L (entryAlloca ty)
  entries : ∀ {L : Leeway} [L.Binds] {f : Context → Context},
    (∀ c : Context, c.SameEntries (f c)) → (∀ c, (f c).templates = c.templates) →
      KeepsReports f → Composed P L (modifyContext f)
  support : ∀ {L : Leeway} (f : SupportFunction), Composed P L (support f)
  operator : ∀ {L : Leeway} {α : Type} {k : OperatorEntry → Attempt α} (index : Nat)
    [L.Calls index] (label : String), (∀ entry, Composed P L (k entry).run) →
      Composed P L (withOperator index label k).run
  found : ∀ {L : Leeway} {α : Type} {k : Option Nat → Attempt α} (key : OperatorKey) (span : Span),
    Composed P L (k none).run → (∀ index, Composed P (L.calling index) (k (some index)).run) →
      Composed P L (findOperator key span >>= k).run

attribute [instance] HasSteps.still HasSteps.alloca HasSteps.choose HasSteps.entryAlloca
  HasSteps.support

/-- A request to the module that leaves the blocks in their functions, a change of the tables to
which the reports do not matter, or a change of the walk that leaves its place alone. -/
inductive Elementary : Parts
  | still {L : Leeway} {α : Type} (b : Build α) (hb : b.GrowsLoosely)
      (hlocal : b.Preserves Module.surroundings) (hends : b.SendsTo L.targets) :
      Elementary L α (liftM b)
  | alloca {L : Leeway} (ty : TypeId) (hL : L.MakesRoom) :
      Elementary L ValueId (liftM (Build.alloca ty))
  | choose {L : Leeway} (b : BlockId) (hb : L.Offers b) (ty : TypeId)
      (incoming : List (ValueId × BlockId)) : Elementary L ValueId (liftM (choose b ty incoming))
  | entryAlloca {L : Leeway} (ty : TypeId) (hL : L.Writes) : Elementary L ValueId (entryAlloca ty)
  | modifyContext {L : Leeway} {f : Context → Context} (hf : KeepsReports f)
      (hbinds : L.binds = false → ∀ c, (f c).symbols.bindings = c.symbols.bindings) :
      Elementary L Unit (Lower.modifyContext f)
  | modifyPass {L : Leeway} {f : Pass → Pass} (hf : Pass.KeepsPlace f) :
      Elementary L Unit (Lower.modifyPass f)

variable {P : Parts} {L : Leeway}

/-! ### Sequences -/

namespace Composed

attribute [instance] pure check intern report

theorem bind {x : Lower α} {f : α → Lower β} [hx : Composed P L x] (hf : ∀ a, Composed P L (f a)) :
    Composed P L (x >>= f) := .seq hx hf

instance {x : Lower α} {f : α → Lower β} [Composed P L x] [hf : ∀ a, Composed P L (f a)] :
    Composed P L (x >>= f) := bind hf

/-- Where the answer is of no concern, what follows is looked at only once. -/
instance {x : Lower α} {y : Lower β} [Composed P L x] [hy : Composed P L y] :
    Composed P L (x >>= fun _ => y) := bind fun _ => hy

instance {x : Lower (Option Operand)} [hx : Composed P L x] (span : Span) :
    Composed P L (Lower.demand x span) := .demand hx span

instance (b : BlockId) [hb : L.Targets b] {body : Lower Unit} [hbody : Composed P L body] :
    Composed P L (Lower.withTargets ⟨b, none⟩ body) := by
  refine .withTargets _ ?_ hbody
  rintro _ (rfl | hc)
  · exact hb.mem
  · cases hc

instance (b c : BlockId) [hb : L.Targets b] [hc : L.Targets c] {body : Lower Unit}
    [hbody : Composed P L body] : Composed P L (Lower.withTargets ⟨b, some c⟩ body) := by
  refine .withTargets _ ?_ hbody
  rintro _ (rfl | heq)
  · exact hb.mem
  · exact Option.some.inj heq ▸ hc.mem

instance [L.InBody] (frame : TryFrame) [hlanding : L.Targets frame.landing]
    [hdispatch : L.Targets frame.dispatch] {body : Lower Unit} [hbody : Composed P L body] :
    Composed P L (Lower.withTry frame body) := by
  refine .withTry frame ?_ hbody
  rintro _ (rfl | rfl)
  · exact hlanding.mem
  · exact hdispatch.mem

instance {body : Lower Unit} [hbody : Composed P L.nowhere body] :
    Composed P L (Lower.asNewPass body) := .asNewPass hbody

instance {x : Lower Unit} [hx : Composed P L.elsewhere x] : Composed P L (Lower.comingBack x) :=
  .comingBack hx

instance (b : BlockId) [hb : L.Offers b] :
    Composed P L (liftM (Build.positionAtEnd b) : Lower Unit) := .goOn b hb

instance {p : Prop} [Decidable p] {x y : Lower α} [Composed P L x] [Composed P L y] :
    Composed P L (if p then x else y) := by
  split <;> assumption

instance {x : Lower α} [Composed P L x] : Composed P L (discard x) :=
  inferInstanceAs (Composed P L (x >>= fun _ => Pure.pure PUnit.unit))

/-- What follows may depend on all of the state but the reports. -/
theorem get {f : Lowering → Lower β} (hf : ∀ s q, f (s.withReports q) = f s)
    (h : ∀ s, Composed P L (f s)) : Composed P L (get >>= f) := by
  have hsame : (MonadState.get >>= f : Lower β) =
      (do return (← MonadState.get).withReports default : Lower Lowering) >>= f := by
    funext s
    exact congrFun (hf s default).symm s
  rw [hsame]
  exact .seq (.ask (·.withReports default) fun _ _ => rfl) h

/-- Code that is written in a block that makes room for variables, and what follows. -/
theorem enterThen {b : BlockId} [hb : L.Offers b] [hentry : L.Enters b] {x : Lower α}
    {f : α → Lower β} (hx : Composed P L.makingRoom x) (hf : ∀ a, Composed P L (f a)) :
    Composed P L (liftM (Build.positionAtEnd b) >>= fun _ => x >>= f) := by
  rw [← bind_assoc]
  exact .seq (.enter b hb hentry hx) hf

/-- A sequence of attempts stops at the first that fails. -/
theorem andThen {x : Attempt α} {f : α → Attempt β} [hx : Composed P L x.run]
    (hf : ∀ a, Composed P L (f a).run) : Composed P L (x >>= f).run := by
  rw [OptionT.run_bind]
  refine .bind fun o => ?_
  cases o with
  | none => exact .pure none
  | some a => exact hf a

instance {x : Attempt α} {f : α → Attempt β} [Composed P L x.run] [hf : ∀ a, Composed P L (f a).run] :
    Composed P L (x >>= f).run := andThen hf

theorem getThen {f : Lowering → Attempt β} (hf : ∀ s q, f (s.withReports q) = f s)
    (h : ∀ s, Composed P L (f s).run) : Composed P L ((MonadState.get : Attempt Lowering) >>= f).run :=
  .get (f := fun s => (f s).run) hf h

instance (a : α) : Composed P L (Pure.pure a : Attempt α).run := .pure (some a)

instance : Composed P L (failure : Attempt α).run := .pure none

instance (o : Option α) : Composed P L (Attempt.ofOption o).run := .pure o

instance {p : Prop} [Decidable p] {x y : Attempt α} [Composed P L x.run] [Composed P L y.run] :
    Composed P L (if p then x else y : Attempt α).run := by
  split <;> assumption

instance {x : Lower α} [Composed P L x] : Composed P L (OptionT.lift x : Attempt α).run :=
  inferInstanceAs (Composed P L (x >>= fun a => Pure.pure (some a)))

instance {x : Lower α} [Composed P L x] : Composed P L (liftM x : Attempt α).run :=
  inferInstanceAs (Composed P L (x >>= fun a => Pure.pure (some a)))

instance {x : Lower (Option α)} [hx : Composed P L x] :
    Composed P L (OptionT.mk x : Attempt α).run := hx

instance {x : Attempt α} [Composed P L x.run] : Composed P L (discard x : Attempt PUnit).run :=
  inferInstanceAs (Composed P L (x >>= fun _ => Pure.pure PUnit.unit : Attempt PUnit).run)

/-- A loop through a list. -/
instance {γ : Type} (xs : List γ) (b : β) (f : γ → β → Lower (ForInStep β))
    [∀ c b, Composed P L (f c b)] : Composed P L (forIn xs b f) := by
  induction xs generalizing b with
  | nil => exact .pure b
  | cons x xs ih =>
      rw [List.forIn_cons]
      refine .bind fun step => ?_
      cases step <;> infer_instance

/-- A loop through a list that stops at the first attempt that fails. -/
theorem forIn {γ : Type} {xs : List γ} {b : β} {f : γ → β → Attempt (ForInStep β)}
    (hf : ∀ c ∈ xs, ∀ b, Composed P L (f c b).run) :
    Composed P L (ForIn.forIn xs b f : Attempt β).run := by
  induction xs generalizing b with
  | nil => exact .pure (some b)
  | cons x xs ih =>
      obtain ⟨hfirst, hrest⟩ := List.forall_mem_cons.1 hf
      rw [List.forIn_cons]
      have := hfirst b
      refine andThen fun step => ?_
      cases step with
      | done b => exact .pure (some b)
      | yield b => exact ih hrest

instance {γ : Type} (xs : List γ) (b : β) (f : γ → β → Attempt (ForInStep β))
    [hf : ∀ c b, Composed P L (f c b).run] : Composed P L (ForIn.forIn xs b f : Attempt β).run :=
  forIn fun c _ => hf c

instance {γ : Type} (xs : List γ) (f : γ → Lower β) [∀ c, Composed P L (f c)] :
    Composed P L (xs.mapM f) := by
  induction xs with
  | nil => exact .pure []
  | cons x xs ih =>
      rw [List.mapM_cons]
      infer_instance

instance (c : Crash) : Composed P L (throw c : Lower α) := .check (.error c)

instance (b : Build α) [Composed P L (liftM b : Lower α)] : Composed P L (liftM b : Attempt α).run :=
  inferInstanceAs (Composed P L ((liftM b : Lower α) >>= fun a => Pure.pure (some a)))

/-- One request behind another. -/
instance (priority := low) {x : Build α} {f : α → Build β} [hx : Composed P L (liftM x : Lower α)]
    [hf : ∀ a, Composed P L (liftM (f a) : Lower β)] : Composed P L (liftM (x >>= f) : Lower β) := by
  rw [build_bind]
  exact .seq hx hf

/-- Where the answer is of no concern, the second request is looked at only once. -/
instance (priority := low) {x : Build α} {y : Build β} [hx : Composed P L (liftM x : Lower α)]
    [hy : Composed P L (liftM y : Lower β)] :
    Composed P L (liftM (x >>= fun _ => y) : Lower β) := by
  rw [build_bind]
  exact .seq hx fun _ => hy

/-- A computation for which exceptions are collected, and what follows. -/
theorem framed {x : Lower α} {f : α → ThrowSet → Lower β} [hx : Composed P L x]
    (hf : ∀ a throws, Composed P L (f a throws)) :
    Composed P L (do
      pushThrowFrame
      let a ← x
      let throws ← popThrowFrame
      f a throws) := by
  rw [frame_eq_collecting]
  exact .seq (.collecting hx) fun p => hf p.1 p.2

end Composed

/-! ### Reports, names and tables -/

instance (kind : DiagnosticKind) (message : String) (span : Span) :
    Composed P L (Attempt.reject kind message span : Attempt α).run := by
  unfold Attempt.reject
  infer_instance

instance : Composed P L isAbandoned := .ask (·.pass.fatal.isSome) fun _ _ => rfl

instance : Composed P L symbols := .ask (·.context.symbols) fun _ _ => rfl

instance : Composed P L func := .ask (·.pass.func) fun _ _ => rfl

instance : Composed P L thisTy := by
  unfold thisTy
  infer_instance

instance (n : Name) : Composed P L (nameText n) := .get (fun _ _ => rfl) fun _ => inferInstance

instance (ty : TypeId) : Composed P L (describe ty) := .get (fun _ _ => rfl) fun _ => inferInstance

instance (tys : List TypeId) : Composed P L (describeList tys) :=
  .get (fun _ _ => rfl) fun _ => inferInstance

instance : Composed P L typeRelation := .get (fun _ _ => rfl) fun _ => inferInstance

instance : Composed P L position := .ask (·.module.position) fun _ _ => rfl

instance (types : List TypeId) : Composed P L (noteThrows types) := by
  refine .note _ { func := fun _ => rfl, loops := fun _ => rfl, tries := fun _ => rfl,
                   thisName := fun _ => rfl, fatal := fun _ _ h => h, sameFatal := fun _ => rfl,
                   pending := fun _ => rfl, throws := ?_, outer := ?_,
                   nodeThrows := fun _ => rfl, thrown := ?_, distinct := ?_ }
  all_goals
    intro p
    cases hstack : p.throwStack <;>
      simp +contextual [Pass.thrown, hstack, ThrowSet.subset_merge, ThrowSet.nodup_merge]

instance (key : OperatorKey) (span : Span) : Composed P L (findOperator key span).run := by
  unfold findOperator
  refine .getThen (fun _ _ => rfl) fun _ => ?_
  dsimp only
  split
  · infer_instance
  · refine .andThen fun _ => ?_
    split <;> infer_instance

/-- Symbols that are made from those that are there, and what follows. -/
theorem Composed.symbolsThen {g : SymbolTable → SymbolTable} {k : SymbolTable → Lower α}
    (hg : Composed P L (Lower.modifySymbols g)) (hk : ∀ t, Composed P L (k t)) :
    Composed P L (do
      let t ← symbols
      Lower.modifySymbols fun _ => g t
      k t) := by
  have hsame : (do
      let t ← symbols
      Lower.modifySymbols fun _ => g t
      k t) = (do
      let t ← symbols
      Lower.modifySymbols g
      k t) := rfl
  rw [hsame]
  exact .bind fun t => .bind fun _ => hk t

/-! ### Blocks -/

/-- In a new block an attempt may go on as well. -/
theorem Composed.freshThen [L.InBody] {name : String} (hname : name ≠ "entry")
    {f : BlockId → Attempt α} (hf : ∀ b, Composed P (L.offering b) (f b).run) :
    Composed P L ((liftM (appendBlock name) : Attempt BlockId) >>= f).run := by
  rw [Attempt.run_bind_lift]
  exact .fresh name hname hf

theorem Composed.entryBuild [hL : L.IsApart] {g : FunctionId} {f : BlockId → Build α}
    (hf : ∀ b, Composed P (L.entering b) (liftM (f b) : Lower α)) :
    Composed P L (liftM (Build.appendBlock g "entry" >>= f) : Lower α) := by
  rw [build_bind]
  exact .entryIn hL g hf

section

variable [HasSteps P]

/-- A change of the symbols that only concerns variables. -/
theorem Composed.modifySymbols [L.Binds] {f : SymbolTable → SymbolTable}
    (hobjects : ∀ t, (f t).objects = t.objects) (hbyType : ∀ t, (f t).byType = t.byType)
    (hfunctions : ∀ t, (f t).functions = t.functions) : Composed P L (modifySymbols f) :=
  HasSteps.entries (fun _ => ⟨rfl, hobjects _, hbyType _, rfl, hfunctions _, rfl, rfl⟩)
    (fun _ => rfl) ⟨fun _ => rfl, fun _ _ => rfl⟩

instance [L.Binds] (name : Name) (b : VarBinding) :
    Composed P L (modifySymbols (·.setVariable name b)) :=
  .modifySymbols (fun _ => rfl) (fun _ => rfl) fun _ => rfl

instance [L.Binds] (name : Name) : Composed P L (modifySymbols (·.removeVariable name)) :=
  .modifySymbols (fun _ => rfl) (fun _ => rfl) fun _ => rfl

omit [HasSteps P] in
/-- An attempt that goes on where it was, behind code that is written somewhere else. -/
theorem Composed.comingBackThen {b : Build Unit} [Composed P L.elsewhere (liftM b)] {x : Attempt α}
    (hx : Composed P L x.run) :
    Composed P L (do
      let here := (← MonadState.get).module.position
      b
      Build.restorePosition here
      x : Attempt α).run := by
  have hsame : (do
      let here := (← MonadState.get).module.position
      b
      Build.restorePosition here
      x : Attempt α).run = Lower.comingBack b >>= fun _ => x.run := by
    simp only [Lower.comingBack, position, bind_assoc, pure_bind]
    refine (Attempt.run_bind_lift (MonadState.get : Lower Lowering) _).trans ?_
    refine bind_congr fun s => (Attempt.run_bind_lift _ _).trans (bind_congr fun _ => ?_)
    exact Attempt.run_bind_lift _ _
  rw [hsame]
  exact .bind fun _ => hx

/-- An attempt that starts in a block with a choice. -/
theorem Composed.chooseThen {b : BlockId} [L.Offers b] {ty : TypeId}
    {incoming : List (ValueId × BlockId)} {f : ValueId → Attempt α}
    (hf : ∀ v, Composed P L (f v).run) :
    Composed P L (do
      Build.positionAtEnd b
      let v ← Build.phi ty incoming
      f v : Attempt α).run := by
  have hsame : (do
      Build.positionAtEnd b
      let v ← Build.phi ty incoming
      f v : Attempt α).run = (liftM (choose b ty incoming) : Lower ValueId) >>= fun v =>
        (f v).run := by
    rw [choose, build_bind, bind_assoc]
    refine (Attempt.run_bind_lift _ _).trans (bind_congr fun _ => ?_)
    exact Attempt.run_bind_lift _ _
  rw [hsame]
  exact .bind hf

instance (target : BlockId) [L.Targets target] : Composed P L (brIfOpen target) := by
  unfold brIfOpen
  infer_instance

instance [L.IsCode] : Composed P L startDeadBlock := by
  unfold startDeadBlock
  exact .fresh "dead" (by decide) fun _ => inferInstance

end

/-- Which operators may be called says nothing about a computation if it says nothing about its
parts. -/
theorem Composed.withOperators (operators : Set Nat)
    (hP : ∀ {L : Leeway} {α : Type} {x : Lower α}, P L α x → P { L with operators := operators } α x)
    {x : Lower α} (hx : Composed P L x) : Composed P { L with operators := operators } x := by
  induction hx with
  | part hx => exact .part (hP hx)
  | pure a => exact .pure a
  | seq _ _ ihx ihf => exact .seq ihx ihf
  | check c => exact .check c
  | ask f hf => exact .ask f hf
  | outer hf _ ih => exact .outer hf ih
  | within _ _ ihx ihy => exact .within ihx ihy
  | intern text => exact .intern text
  | report kind message span => exact .report kind message span
  | note f hf => exact .note f hf
  | goOn b hb => exact .goOn b ⟨hb.mem, hb.blocks⟩
  | @enter L _ b hb hentry _ _ ih =>
      have hb' : ({ L with operators := operators } : Leeway).Offers b := ⟨hb.mem, hb.blocks⟩
      exact .enter b hb' ⟨hentry.mem⟩ ih
  | @fresh L _ hL name hname _ _ ih =>
      have hL' : ({ L with operators := operators } : Leeway).InBody := ⟨hL.inBody⟩
      exact .fresh name hname ih
  | @freshIn L _ hL g name hname _ _ ih =>
      have hL' : ({ L with operators := operators } : Leeway).IsApart := ⟨hL.blocks, hL.apart⟩
      exact .freshIn hL' g name hname ih
  | @entryIn L _ hL g _ _ ih =>
      have hL' : ({ L with operators := operators } : Leeway).IsApart := ⟨hL.blocks, hL.apart⟩
      exact .entryIn hL' g ih
  | comingBack _ ih => exact .comingBack ih
  | demand _ span ih => exact .demand ih span
  | collecting _ ih => exact .collecting ih
  | @withTargets L targets htargets _ _ ih =>
      have htargets' : targets.aims ⊆ ({ L with operators := operators } : Leeway).targets := htargets
      exact .withTargets targets htargets' ih
  | @withTry L hL frame hframe _ _ ih =>
      have hL' : ({ L with operators := operators } : Leeway).InBody := ⟨hL.inBody⟩
      have hframe' : frame.aims ⊆ ({ L with operators := operators } : Leeway).targets := hframe
      exact .withTry frame hframe' ih
  | withBody g hf _ ih => exact .withBody g hf ih
  | asNewPass _ ih => exact .asNewPass ih

/-- What follows a search for an operator, which may not be called in particular. -/
theorem Composed.found {k : Option Nat → Attempt α} (key : OperatorKey) (span : Span)
    (hP : ∀ {L : Leeway} {α : Type} {x : Lower α} (operators : Set Nat), P L α x →
      P { L with operators := operators } α x)
    (hnone : Composed P L (k none).run)
    (hsome : ∀ index, Composed P (L.calling index) (k (some index)).run) :
    Composed P L (findOperator key span >>= k).run := by
  refine .andThen fun o => ?_
  cases o with
  | none => exact hnone
  | some index => exact (hsome index).withOperators L.operators (hP L.operators)

/-! ### Elementary parts -/

namespace Elementary

instance (b : Build α) [hb : b.GrowsLoosely] [hlocal : b.Preserves Module.surroundings]
    [hends : b.SendsTo L.targets] : Composed Elementary L (liftM b : Lower α) :=
  .part (.still b hb hlocal hends)

instance (e : InternalError) : Composed Elementary L (abandon e) :=
  .part (.modifyPass ⟨fun _ => rfl, fun _ => rfl, fun _ => rfl, fun _ => rfl,
    fun p e he => by simp [he], fun _ => rfl, fun _ => rfl⟩)

/-- A change of the tables other than the variables. -/
theorem modifyTables {f : Context → Context} (hf : KeepsReports f)
    (hbinds : ∀ c, (f c).symbols.bindings = c.symbols.bindings) :
    Composed Elementary L (Lower.modifyContext f) :=
  .part (.modifyContext hf fun _ => hbinds)

/-- Which operators may be called says nothing about elementary parts. -/
theorem withOperators {α : Type} {x : Lower α} (operators : Set Nat) (hx : Elementary L α x) :
    Elementary { L with operators := operators } α x := by
  cases hx with
  | still b hb hlocal hends => exact .still b hb hlocal hends
  | alloca ty hL => exact .alloca ty ⟨hL.atEntry⟩
  | choose b hb ty incoming =>
      have hb' : ({ L with operators := operators } : Leeway).Offers b := ⟨hb.mem, hb.blocks⟩
      exact .choose b hb' ty incoming
  | entryAlloca ty hL => exact .entryAlloca ty { hL with }
  | modifyContext hf hbinds => exact .modifyContext hf hbinds
  | modifyPass hf => exact .modifyPass hf

end Elementary

instance : HasSteps Elementary where
  still b _ _ _ _ := by
    have : b.GrowsLoosely := .of_stepwise b
    infer_instance
  alloca ty := .part (.alloca ty inferInstance)
  choose b hb ty incoming := .part (.choose b hb ty incoming)
  entryAlloca ty := .part (.entryAlloca ty inferInstance)
  entries {L} hL _ _ _ hf := .part (.modifyContext hf fun h => by simp [hL.binds] at h)
  support {L} f := by
    have (table : SupportTable) :
        Composed Elementary L (modifyContext fun c => { c with support := table }) :=
      Elementary.modifyTables ⟨fun _ => rfl, fun _ _ => rfl⟩ fun _ => rfl
    exact .get (fun _ _ => rfl) fun _ => inferInstance
  operator index _ label hk := by
    unfold withOperator
    refine .getThen (fun _ _ => rfl) fun _ => ?_
    split
    · infer_instance
    · exact hk _
  found key span := .found key span Elementary.withOperators

end Lower

open Lower

/-! ### Parts of a tree -/

variable {P : Parts} {L : Leeway} {r : Recur}

/-- The search for the type that a type expression stands for may be a part of other
computations. -/
class Recur.HasTypes (r : Recur) (P : Parts) : Prop where
  type : ∀ {L : Leeway} span ty, Composed P L (r.type span ty).run

/-- What children of a node are lowered to may be a part of other computations, too. -/
class Recur.HasParts (r : Recur) (P : Parts) : Prop extends r.HasTypes P where
  operand : ∀ {L : Leeway} [L.Writes] node, Composed P L (r.operand node)
  condition : ∀ {L : Leeway} [L.IsCode] cond thenTo elseTo [L.Targets thenTo] [L.Targets elseTo],
    Composed P L (r.condition cond thenTo elseTo)

attribute [instance] Recur.HasTypes.type Recur.HasParts.operand Recur.HasParts.condition

/-- Lowering of parts that is put together from the steps of lowering. -/
class Recur.IsComposed (r : Recur) : Prop where
  operand : ∀ {L : Leeway} [L.Writes] node, Composed Elementary L (r.operand node)
  condition : ∀ {L : Leeway} [L.IsCode] cond thenTo elseTo [L.Targets thenTo] [L.Targets elseTo],
    Composed Elementary L (r.condition cond thenTo elseTo)
  instantiate : ∀ {L : Leeway} name args span, Composed Elementary L (r.instantiate name args span)

attribute [instance] Recur.IsComposed.instantiate

instance [r.HasParts P] [L.Writes] (c : Option Node) : Composed P L (r.child c) := by
  unfold Recur.child
  cases c <;> infer_instance

instance (c : Option Node) [Composed P L (r.child c)] : Composed P L (r.statement c) := by
  unfold Recur.statement
  infer_instance

/-- A child that has to have a value. -/
theorem Recur.required_run (r : Recur) (c : Option Node) :
    (r.required c).run = demand (r.child c) (childSpan c) := by
  unfold Recur.required demand
  rw [Attempt.run_bind_lift]
  refine bind_congr fun before => ?_
  refine (Attempt.run_bind_lift (r.child c) _).trans (bind_congr fun o => ?_)
  cases o with
  | some op => rfl
  | none =>
      rw [Attempt.run_bind_lift]
      refine bind_congr fun after => ?_
      rw [Attempt.run_bind_lift]
      refine bind_congr fun abandoned => ?_
      split
      · exact Attempt.run_bind_lift _ _
      · rfl

instance (c : Option Node) [Composed P L (r.child c)] : Composed P L (r.required c).run := by
  rw [Recur.required_run]
  infer_instance

end SsaCompiler
