/-
# What lowering leaves alone

Lowering a part of a tree writes where code goes on, in the block in which the current function
makes room for variables, and in new blocks, whether of the current function or of others that are
written in between. All other blocks are what they were, unless lowering was told to go on there. A
choice by the block from which control came is never added to a block that was there before, again
unless lowering was told to go on in it. All of this holds of every part that lowering is put
together from, within the leeway that the part has.

In a function code goes on in a block that is there, and so it does behind every part that is
lowered. A block that has been made for later stays empty while a part is lowered, unless code goes
on there.
-/

import SsaCompiler.Proofs.Lower.Composed.Node
import SsaCompiler.Proofs.Lower.Later
import SsaCompiler.Proofs.Lower.Position
import SsaCompiler.Proofs.Machine.Jump
import SsaCompiler.Proofs.Scalar.Condition

namespace SsaCompiler

/-! ### Surroundings -/

namespace Module

variable {m m' : Module} {c : BlockId}

/-- With the same surroundings another block has the same code. -/
theorem code_of_surroundings (h : m'.surroundings = m.surroundings) (hc : m.position ≠ some c) :
    m'.code c = m.code c := by
  have hposition : m'.position = m.position := congrArg Prod.fst h
  have hcode := congrFun (congrArg (·.2.1) h) c
  simp only [surroundings, hposition, if_neg hc] at hcode
  exact Option.some.inj hcode

/-- With the same surroundings a block has the same choices. -/
theorem choices_of_surroundings (h : m'.surroundings = m.surroundings) (c : BlockId) :
    m'.choices c = m.choices c := congrFun (congrArg (·.2.2) h) c

/-- The same block has the same code. -/
theorem code_congr (h : m'.block c = m.block c) : m'.code c = m.code c := by
  cases hget : m.blocks[c.index]? with
  | some d =>
      have hd : m.block c = .ok d := Checked.at_eq_ok_iff.2 hget
      rw [code_of_block hd, code_of_block (h.trans hd)]
  | none =>
      cases hget' : m'.blocks[c.index]? with
      | none => rw [code, code, hget, hget']
      | some d =>
          have hd : m.block c = .ok d := h.symm.trans (Checked.at_eq_ok_iff.2 hget')
          rw [Checked.at_eq_ok_iff.1 hd] at hget
          cases hget

/-- A choice is an instruction of the current block. -/
theorem block_of_phi {ty : TypeId} {incoming : List (ValueId × BlockId)} {v : ValueId}
    (h : Build.phi ty incoming m = .ok (v, m')) (hc : m.position ≠ some c) :
    m'.block c = m.block c := by
  unfold Build.phi at h
  rw [Build.pushInstr_run] at h
  split at h
  · rename_i b hb _
    cases h
    exact block_modify_ne fun heq => hc (heq ▸ hb)
  · cases h
    rfl
  · cases h
    rfl
  · cases h

end Module

namespace Lowering

/-- The block in which the current function makes room for variables. -/
def room (s : Lowering) : Option BlockId := s.pass.func.map (·.allocaBlock)

/-- The room for variables is where it was. -/
theorem Later.room {s s' : Lowering} (h : s.Later s') : s'.room = s.room := by
  rw [Lowering.room, h.func, Lowering.room]

/-- What a computation leaves alone, within the leeway that it has. Code goes on where it was, in a
block in which it may, in a new one or, if it went nowhere, where the function makes room for
variables. Other blocks are what they were, and no choice has been added to them. -/
structure Spares (L : Leeway) (s s' : Lowering) : Prop where
  position : ∀ {c}, s'.module.position = some c → s.module.position = some c ∨ L.Offers c ∨
    s.module.blocks.size ≤ c.index ∨ s.module.position = none ∧ s.room = some c
  isSome : s.module.position.isSome → s'.module.position.isSome
  code : ∀ {c}, c.index < s.module.blocks.size → s.module.position ≠ some c → s.room ≠ some c →
    ¬ L.Offers c → s'.module.code c = s.module.code c
  blocks : ∀ {c d}, s.module.block c = .ok d → ¬ L.Offers c →
    ∃ d', s'.module.block c = .ok d' ∧ s'.module.BlockGrows d d'

variable {L L' : Leeway} {s s' s'' : Lowering}

/-- A computation that leaves the surroundings of the current block alone. -/
theorem Spares.of_same (hlater : s.module.GrowsLoosely s'.module)
    (h : s'.module.surroundings = s.module.surroundings) : s.Spares L s' := by
  have hposition : s'.module.position = s.module.position := congrArg Prod.fst h
  refine ⟨fun hc => .inl (hposition.symm.trans hc), fun hsome => ?_, fun _ hc _ _ => ?_, fun hc _ => ?_⟩
  · rwa [hposition]
  · exact Module.code_of_surroundings h hc
  · exact hlater.blockGrows hc (Module.choices_of_surroundings h _)

/-- A computation that leaves the module alone. -/
theorem Spares.of_module (h : s'.module = s.module) : s.Spares L s' := by
  refine .of_same ?_ ?_
  · rw [h]
    exact .refl _
  · rw [h]

/-- A computation that may go on in fewer blocks. -/
theorem Spares.of_leeway (h : s.Spares L' s') (hL : ∀ {c}, L'.Offers c → L.Offers c) :
    s.Spares L s' where
  position hc := (h.position hc).imp_right (Or.imp_left hL)
  isSome := h.isSome
  code hc hhere hroomy hnot := h.code hc hhere hroomy (mt hL hnot)
  blocks hc hnot := h.blocks hc (mt hL hnot)

theorem Spares.trans (h : s.Spares L s') (hlater : s.Later s') (hlater' : s'.Later s'')
    (h' : s'.Spares L s'') : s.Spares L s'' := by
  have hroom := hlater.room
  have hsize := hlater.module.blocks_size
  refine ⟨fun {c} hc => ?_, fun hsome => h'.isSome (h.isSome hsome), fun {c} hc hhere hroomy hL => ?_,
    fun {c d} hc hL => ?_⟩
  · rcases h'.position hc with hc' | hL | hnew | ⟨hnone, hc'⟩
    · exact h.position hc'
    · exact .inr (.inl hL)
    · exact .inr (.inr (.inl (Nat.le_trans hsize hnew)))
    · refine .inr (.inr (.inr ⟨?_, hroom.symm.trans hc'⟩))
      cases hposition : s.module.position with
      | none => rfl
      | some b =>
          have := h.isSome (by rw [hposition]; rfl)
          rw [hnone] at this
          cases this
  · rw [h'.code (Nat.lt_of_lt_of_le hc hsize) (fun hc' => ?_) (by rwa [hroom]) hL,
      h.code hc hhere hroomy hL]
    rcases h.position hc' with hc' | hL' | hnew | ⟨-, hc'⟩
    · exact hhere hc'
    · exact hL hL'
    · omega
    · exact hroomy hc'
  · obtain ⟨d', hd', hgrows⟩ := h.blocks hc hL
    obtain ⟨d'', hd'', hgrows'⟩ := h'.blocks hd' hL
    exact ⟨d'', hd'', hgrows.trans hgrows' hlater'.module.values⟩

/-- What goes on inside something that is put around a part, in blocks that are new. -/
theorem Spares.of_inside {t t' : Lowering} (h : t.Spares L' t') (hlater : t.Later t')
    (hfirst : s.module.Grows t.module)
    (hcode : ∀ {c}, c.index < s.module.blocks.size → t.module.code c = s.module.code c)
    (hposition : t.module.position = s.module.position)
    (hroom : ∀ {c}, t.room = some c → s.room = some c ∨ s.module.blocks.size ≤ c.index)
    (hoffers : ∀ {c}, L'.Offers c → L.Offers c ∨ s.module.blocks.size ≤ c.index)
    (hmodule : s'.module = t'.module) : s.Spares L s' := by
  have hsize := hfirst.blocks_size
  have hnot {c : BlockId} (hc : c.index < s.module.blocks.size) (hL : ¬ L.Offers c) :
      ¬ L'.Offers c := fun hL' => (hoffers hL').elim hL fun hnew => by omega
  refine ⟨fun {c} hc => ?_, fun hsome => ?_, fun {c} hc hhere hroomy hL => ?_, fun {c d} hc hL => ?_⟩
  · rcases h.position (hmodule ▸ hc) with hc' | hL | hnew | ⟨hnone, hentry⟩
    · exact .inl (hposition ▸ hc')
    · exact (hoffers hL).elim (fun hL => .inr (.inl hL)) fun hnew => .inr (.inr (.inl hnew))
    · exact .inr (.inr (.inl (Nat.le_trans hsize hnew)))
    · exact (hroom hentry).elim (fun hentry => .inr (.inr (.inr ⟨hposition ▸ hnone, hentry⟩)))
        fun hnew => .inr (.inr (.inl hnew))
  · rw [hmodule]
    exact h.isSome (by rwa [hposition])
  · have hroom' : t.room ≠ some c := fun hentry => (hroom hentry).elim hroomy fun hnew => by omega
    rw [hmodule, h.code (Nat.lt_of_lt_of_le hc hsize) (hposition ▸ hhere) hroom' (hnot hc hL),
      hcode hc]
  · obtain ⟨d', hd', hgrows⟩ := hfirst.blocks hc
    obtain ⟨d'', hd'', hgrows'⟩ := h.blocks hd' (hnot (Module.block_lt hc) hL)
    rw [hmodule]
    exact ⟨d'', hd'', hgrows.trans hgrows' hlater.module.values⟩

/-- Going back to where code went on before. -/
theorem Spares.goingBack (h : s.Spares L s')
    (hmodule : s''.module = { s'.module with position := s.module.position }) : s.Spares L s'' := by
  refine ⟨fun hc => .inl ?_, fun hsome => ?_, fun hc hhere hroomy hL => ?_, fun hc hL => ?_⟩
  · rwa [hmodule] at hc
  · rwa [hmodule]
  · rw [hmodule]
    exact h.code hc hhere hroomy hL
  · obtain ⟨d', hd', hgrows⟩ := h.blocks hc hL
    rw [hmodule]
    exact ⟨d', hd', hgrows.function, hgrows.name, hgrows.instrs, hgrows.added, hgrows.ended⟩

end Lowering

namespace Lower

variable {α : Type} {L L' : Leeway} {s s' : Lowering} {x : Lower α} {a : α}

/-! ### Single steps -/

/-- A request that leaves the surroundings alone. -/
theorem spares_of_still {b : Build α} [hb : b.GrowsLoosely] [hlocal : b.Preserves Module.surroundings]
    (h : (liftM b : Lower α) s = .ok (a, s')) : s.Spares L s' := by
  obtain ⟨m, hrun, rfl⟩ := build_eq_ok_iff.1 h
  exact .of_same (hb.later hrun) (hlocal.same hrun)

theorem spares_of_goOn {b : BlockId} {u : Unit} (hL : L.Offers b)
    (h : (liftM (Build.positionAtEnd b) : Lower Unit) s = .ok (u, s')) : s.Spares L s' := by
  obtain ⟨m, hrun, rfl⟩ := build_eq_ok_iff.1 h
  cases hrun
  exact ⟨fun hc => .inr (.inl (Option.some.inj hc ▸ hL)), fun _ => rfl, fun _ _ _ _ => rfl,
    fun hc _ => ⟨_, hc, .refl _ _⟩⟩

/-- A choice at the start of a block. -/
theorem spares_of_choose {b : BlockId} {ty : TypeId} {incoming : List (ValueId × BlockId)}
    {v : ValueId} (hL : L.Offers b)
    (h : (liftM (choose b ty incoming) : Lower ValueId) s = .ok (v, s')) : s.Spares L s' := by
  rw [choose, build_bind] at h
  obtain ⟨⟨⟩, s₁, hgo, hphi⟩ := bind_eq_ok_iff.1 h
  obtain ⟨m, hrun, rfl⟩ := build_eq_ok_iff.1 hphi
  cases hgo
  have hrun : Build.phi ty incoming { s.module with position := some b } = .ok (v, m) := hrun
  have hposition : m.position = some b := Build.Preserves.same hrun
  have hblock {c : BlockId} (hc : ¬ L.Offers c) : m.block c = s.module.block c := by
    refine Module.block_of_phi (m := { s.module with position := some b }) hrun fun heq => hc ?_
    cases heq
    exact hL
  refine ⟨fun hc => .inr (.inl ?_), fun _ => ?_, fun _ _ _ hc => Module.code_congr (hblock hc),
    fun {c d} hd hc => ⟨d, (hblock hc).trans hd, .refl _ _⟩⟩
  · cases hposition.symm.trans hc
    exact hL
  · rw [hposition]
    rfl

/-- Room for a value, which may be where code goes on behind it. -/
theorem spares_of_entryAlloca {ty : TypeId} {slot : ValueId}
    (h : entryAlloca ty s = .ok (slot, s')) : s.Spares L s' := by
  have hlater := later_of_entryAlloca h
  obtain ⟨m, hrun, rfl⟩ := entryAlloca_eq_ok h
  have hsame := Build.Preserves.same (π := Module.surroundings) hrun
  have hposition : m.position = s.room.or s.module.position := congrArg Prod.fst hsame
  refine ⟨fun {c} hc => ?_, fun hsome => ?_, fun {c} _ hhere hroomy _ => ?_, fun hd _ => ?_⟩
  · cases hhere : s.module.position with
    | some b => exact .inl (by rw [← hc, hhere]; rfl)
    | none =>
        refine .inr (.inr (.inr ⟨rfl, ?_⟩))
        rwa [hhere, Option.none_or, hposition, hhere, Option.or_none] at hc
  · obtain ⟨b, hb⟩ := Option.isSome_iff_exists.1 hsome
    change (s.module.position.or m.position).isSome
    rw [hb]
    rfl
  · have hnot : s.room.or s.module.position ≠ some c := fun heq =>
      (Option.or_eq_some_iff.1 heq).elim hroomy fun hposition => hhere hposition.2
    have hcode : m.code c = s.module.code c := Module.code_of_surroundings
      (m := { s.module with position := s.room.or s.module.position }) hsame hnot
    exact hcode
  · exact hlater.module.blockGrows hd (Module.choices_of_surroundings hsame _)

/-- A part of lowering leaves alone what is not in its leeway. -/
theorem spares_of_elementary (hx : Elementary L α x) (h : x s = .ok (a, s')) : s.Spares L s' := by
  cases hx with
  | still b => exact spares_of_still h
  | alloca ty => exact spares_of_still h
  | choose b hb => exact spares_of_choose hb h
  | entryAlloca ty => exact spares_of_entryAlloca h
  | modifyContext hf hbinds =>
      cases h
      exact .of_module rfl
  | modifyPass =>
      cases h
      exact .of_module rfl

/-- A new block of the current function is one of some function. -/
theorem appendBlock_eq_build {name : String} {b : BlockId}
    (h : appendBlock name s = .ok (b, s')) :
    ∃ g, (liftM (Build.appendBlock g name) : Lower BlockId) s = .ok (b, s') := by
  unfold appendBlock at h
  rw [bind_of_ok (func_apply s)] at h
  cases hfunc : s.pass.func with
  | some f =>
      rw [hfunc] at h
      exact ⟨f.id, h⟩
  | none =>
      rw [hfunc] at h
      obtain ⟨g, s₁, hask, h⟩ := bind_eq_ok_iff.1 h
      rw [pure_bind] at h
      obtain ⟨m, hrun, rfl⟩ := build_eq_ok_iff.1 hask
      obtain ⟨-, rfl⟩ := Build.ask_eq_ok_iff.1 hrun
      exact ⟨_, h⟩

/-- What is made of a new block leaves the others alone. -/
theorem spares_of_appendBlock {g : FunctionId} {name : String} {b : BlockId} {s₁ : Lowering}
    (h : (liftM (Build.appendBlock g name) : Lower BlockId) s = .ok (b, s₁)) (hlater : s₁.Later s')
    (hL : L'.blocks = L.blocks.map (insert b)) (hs : s₁.Spares L' s') : s.Spares L s' := by
  obtain ⟨m, hrun, rfl⟩ := build_eq_ok_iff.1 h
  obtain ⟨rfl, rfl⟩ := Build.appendBlock_eq_ok hrun
  refine hs.of_inside hlater (Module.grows_withBlock _ _ _) (fun _ => Module.code_withBlock _ _ _ _)
    rfl .inl (fun hc => ?_) rfl
  rcases Leeway.offers_of_map hL hc with rfl | hc
  · exact .inr (Nat.le_refl _)
  · exact .inl hc

/-! ### All of lowering -/

/-- Whatever is put together from the steps of lowering leaves alone what is not in its leeway. -/
theorem Composed.spares (hx : Composed Elementary L x) (h : x s = .ok (a, s')) : s.Spares L s' := by
  induction hx generalizing s s' with
  | part hx => exact spares_of_elementary hx h
  | pure =>
      cases h
      exact .of_module rfl
  | seq hx hf ihx ihf =>
      obtain ⟨b, s₁, hfirst, hrest⟩ := bind_eq_ok_iff.1 h
      exact (ihx hfirst).trans (hx.later_of hfirst) ((hf b).later_of hrest) (ihf b hrest)
  | check c =>
      cases c with
      | error e => cases h
      | ok a =>
          cases h
          exact .of_module rfl
  | ask | intern | report | note =>
      cases h
      exact .of_module rfl
  | outer _ _ ih =>
      have hs := ih s (get_eq_ok h)
      exact hs.of_leeway fun hc => ⟨hc.mem, hc.blocks⟩
  | within _ _ ihx ihy =>
      rcases ifOutside_eq_ok h with ⟨-, h⟩ | ⟨-, h⟩
      · exact ihx h
      · exact (ihy h).of_leeway fun hc => ⟨hc.mem, hc.blocks⟩
  | goOn b hb => exact spares_of_goOn hb h
  | enter b hb _ hx ih =>
      obtain ⟨⟨⟩, s₁, hgo, hrest⟩ := bind_eq_ok_iff.1 h
      exact (spares_of_goOn hb hgo).trans (later_of_build hgo) (hx.later_of hrest)
        ((ih hrest).of_leeway fun hc => absurd hc Leeway.not_offers_makingRoom)
  | fresh name _ hf ih =>
      obtain ⟨b, s₁, hblock, hrest⟩ := bind_eq_ok_iff.1 h
      obtain ⟨g, hblock⟩ := appendBlock_eq_build hblock
      exact spares_of_appendBlock hblock ((hf b).later_of hrest) rfl (ih b hrest)
  | freshIn _ g _ _ hf ih | entryIn _ g hf ih =>
      obtain ⟨b, s₁, hblock, hrest⟩ := bind_eq_ok_iff.1 h
      exact spares_of_appendBlock hblock ((hf b).later_of hrest) rfl (ih b hrest)
  | comingBack hx' ih =>
      obtain ⟨⟨⟩, s₁, hx, hback⟩ := bind_eq_ok_iff.1 (comingBack_apply _ s ▸ h)
      cases hback
      have hinside {L : Leeway} : s.Spares L s₁ := (ih hx).of_inside (hx'.later_of hx) (.refl _)
        (fun _ => rfl) rfl .inl (fun hc => absurd hc Leeway.not_offers_elsewhere) rfl
      exact hinside.goingBack rfl
  | demand _ _ ih =>
      obtain ⟨s₁, hx, rfl | ⟨-, hreport⟩⟩ := demand_eq_ok h
      · exact ih hx
      · cases hreport
        have hs := ih hx
        exact ⟨hs.position, hs.isSome, hs.code, hs.blocks⟩
  | collecting _ ih =>
      obtain ⟨s₁, hrun, -, rfl⟩ := collecting_eq_ok h
      have hs := ih hrun
      exact ⟨hs.position, hs.isSome, hs.code, hs.blocks⟩
  | withTargets _ _ _ ih =>
      obtain ⟨s₁, hrun, rfl⟩ := withTargets_eq_ok h
      have hs := ih hrun
      exact ⟨hs.position, hs.isSome, hs.code, hs.blocks⟩
  | withTry _ _ _ ih =>
      obtain ⟨s₁, hrun, -, rfl⟩ := withTry_eq_ok h
      have hs := ih hrun
      exact ⟨hs.position, hs.isSome, hs.code, hs.blocks⟩
  | withBody g hf hinside ih =>
      obtain ⟨a, s₁, ha, h⟩ := bind_eq_ok_iff.1 h
      obtain ⟨b, s₂, hb, h⟩ := bind_eq_ok_iff.1 h
      obtain ⟨m₁, hentry, rfl⟩ := build_eq_ok_iff.1 ha
      obtain ⟨m₂, hbody, rfl⟩ := build_eq_ok_iff.1 hb
      obtain ⟨rfl, rfl⟩ := Build.appendBlock_eq_ok hentry
      obtain ⟨rfl, rfl⟩ := Build.appendBlock_eq_ok hbody
      obtain ⟨s₃, fatal, hrun, rfl, -⟩ := inFunction_eq_ok h
      have hnew : s.module.blocks.size ≤ (s.module.withBlock g "entry").nextBlock.index :=
        (Module.grows_withBlock _ _ _).blocks_size
      suffices hbody : ∀ {L : Leeway}, s.Spares L s₃ from hbody.goingBack rfl
      intro L
      refine (ih _ _ hrun).of_inside ((hinside _ _).later_of hrun)
        ((Module.grows_withBlock _ _ _).trans (Module.grows_withBlock _ _ _)) (fun _ => ?_) rfl ?_ ?_ rfl
      · exact (Module.code_withBlock _ _ _ _).trans (Module.code_withBlock _ _ _ _)
      · intro c hroom
        have hroom : some (_ : FunctionState).allocaBlock = some c := hroom
        rw [hf] at hroom
        cases hroom
        exact .inr (Nat.le_refl _)
      · intro c hc
        rcases Leeway.offers_offering hc with rfl | hc
        · exact .inr hnew
        · rcases Leeway.offers_entering hc with rfl | hc
          · exact .inr (Nat.le_refl _)
          · exact absurd hc Leeway.not_offers_inFunction
  | asNewPass hbody ih =>
      obtain ⟨s₁, hrun, rfl⟩ := asNewPass_eq_ok h
      exact (ih hrun).of_inside (hbody.later_of hrun) (.refl _) (fun _ => rfl) rfl
        (fun hroom => by cases hroom) (fun hc => absurd hc Leeway.not_offers_nowhere) rfl

end Lower

open Lower

namespace Lowering

/-- Code goes on in a function, in a block that is there. -/
structure IsPlaced (s : Lowering) : Prop where
  func : ∃ f, s.pass.func = some f ∧ f.allocaBlock.index < s.module.blocks.size
  position : ∃ b, s.module.position = some b ∧ b.index < s.module.blocks.size

/-- An empty block that has been made for later. -/
structure Reserves (s : Lowering) (c : BlockId) (named : String → Prop) : Prop where
  isVacant : s.module.IsVacant c named
  position : s.module.position ≠ some c
  room : s.room ≠ some c

/-- Nothing has happened but that the module has grown. -/
structure Wired (s s' : Lowering) : Prop where
  same : s' = { s with module := s'.module }
  grows : s.module.Grows s'.module

/-- A block has been made for later. -/
structure Prepares (s : Lowering) (c : BlockId) (named : String → Prop) (s' : Lowering) : Prop where
  wired : s.Wired s'
  placed : s'.IsPlaced
  reserves : s'.Reserves c named
  standsAt : ∀ {b k}, s.module.StandsAt b k → s'.module.StandsAt b k
  others : ∀ {c' named'}, s.Reserves c' named' → s'.Reserves c' named' ∧ c' ≠ c

variable {α : Type} {s s' s'' : Lowering} {x : Lower α} {a : α} {c c' : BlockId}
  {named named' : String → Prop} {name : String}

/-- The module may go on growing. -/
theorem Wired.trans (h : s.Wired s') (h' : s'.Wired s'') : s.Wired s'' where
  same := by rw [h'.same, h.same]
  grows := h.grows.trans h'.grows

/-! ### Lowering a part -/

/-- Lowering a part may only go on in new blocks. -/
theorem not_offers_inside : ¬ Leeway.inside.Offers c := fun h => Set.notMem_empty c (h.mem rfl)

/-- No choices come to blocks that were there. -/
theorem grows_of_composed [hx : Composed Elementary .inside x] (h : x s = .ok (a, s')) :
    s.module.Grows s'.module :=
  (hx.later_of h).module.grows fun hc => (hx.spares h).blocks hc not_offers_inside

/-- Behind a part code goes on in a block that is there. -/
theorem IsPlaced.of_composed [hx : Composed Elementary .inside x] (hs : s.IsPlaced)
    (h : x s = .ok (a, s')) : s'.IsPlaced := by
  obtain ⟨f, hf, hroom⟩ := hs.func
  obtain ⟨b, hb, hlt⟩ := hs.position
  have hlater := hx.later_of h
  have hsize := hlater.module.blocks_size
  refine ⟨⟨f, hlater.func.trans hf, Nat.lt_of_lt_of_le hroom hsize⟩, ?_⟩
  cases (hx.keeps h).goesOn rfl hf fun c hc => absurd hc not_offers_inside with
  | here hsame => exact ⟨b, hsame.trans hb, Nat.lt_of_lt_of_le hlt hsize⟩
  | @block c hc hhas =>
      obtain ⟨d, hd, -⟩ := hhas
      exact ⟨c, hc, Module.block_lt hd⟩
  | entry hnone => cases hb.symm.trans hnone

/-- A block that has been made for later is left alone. -/
theorem Reserves.of_composed [hx : Composed Elementary .inside x] (hc : s.Reserves c named)
    (h : x s = .ok (a, s')) : s'.Reserves c named := by
  have hspares := hx.spares h
  obtain ⟨d, hd, hopen, hempty, hname⟩ := hc.isVacant
  have hlt := Module.block_lt hd
  refine ⟨?_, fun hposition => ?_, fun hroom => hc.room ((hx.later_of h).room.symm.trans hroom)⟩
  · obtain ⟨d', hd', hmore⟩ := hspares.blocks hd not_offers_inside
    have hcode := hspares.code hlt hc.position hc.room not_offers_inside
    rw [Module.code_of_block hd, Module.code_of_block hd'] at hcode
    obtain ⟨hinstrs, hend⟩ := Prod.mk.inj hcode
    exact ⟨d', hd', hend.trans hopen, hinstrs ▸ hempty, hmore.name ▸ hname⟩
  · rcases hspares.position hposition with hhere | hoffers | hnew | ⟨-, hroom⟩
    · exact hc.position hhere
    · exact not_offers_inside hoffers
    · omega
    · exact hc.room hroom

/-! ### Making blocks -/

/-- Making a block leaves the others alone. -/
theorem IsPlaced.prepares (hs : s.IsPlaced) (hname : named name)
    (h : Lower.appendBlock name s = .ok (c, s')) : s.Prepares c named s' := by
  obtain ⟨f, hf, hroom⟩ := hs.func
  obtain ⟨b, hb, hlt⟩ := hs.position
  obtain ⟨rfl, rfl⟩ := Lower.appendBlock_eq_ok hf h
  have hsize : s.module.blocks.size ≤ (s.module.withBlock f.id name).blocks.size :=
    (Module.grows_withBlock s.module f.id name).blocks_size
  have hnew {c : BlockId} (hlt : c.index < s.module.blocks.size) : c ≠ s.module.nextBlock := by
    rintro rfl
    exact absurd hlt (Nat.lt_irrefl _)
  refine ⟨⟨rfl, Module.grows_withBlock _ _ _⟩,
    ⟨⟨f, hf, Nat.lt_of_lt_of_le hroom hsize⟩, b, hb, Nat.lt_of_lt_of_le hlt hsize⟩,
    ⟨Module.isVacant_withBlock f.id hname, fun hposition => ?_, fun hentry => ?_⟩,
    fun hat => ?_, fun hc => ⟨⟨?_, hc.position, hc.room⟩, hnew hc.isVacant.lt⟩⟩
  · exact hnew hlt (Option.some.inj (hb.symm.trans hposition))
  · refine hnew hroom (Option.some.inj (Eq.trans ?_ hentry))
    change _ = s.pass.func.map (·.allocaBlock)
    rw [hf]
    rfl
  · obtain ⟨d, hd, hrest⟩ := hat.block
    exact ⟨hat.position, d, Checked.at_push _ hd, hrest⟩
  · exact hc.isVacant.mono (Module.writes_withBlock [] s.module f.id name) List.not_mem_nil

/-! ### Going on -/

/-- Code goes on in the block that was made for it. -/
theorem Reserves.goOn (hs : s.IsPlaced) (hc : s.Reserves c named)
    (h : (liftM (Build.positionAtEnd c) : Lower Unit) s = .ok ((), s')) :
    s'.IsPlaced ∧ s.Wired s' ∧ s'.module = s.module.withPosition (some c) := by
  obtain ⟨f, hf, hroom⟩ := hs.func
  cases Lower.positionAtEnd_eq_ok h
  exact ⟨⟨⟨f, hf, hroom⟩, c, rfl, hc.isVacant.lt⟩, ⟨rfl, Module.grows_withPosition _ _⟩, rfl⟩

end Lowering

end SsaCompiler
