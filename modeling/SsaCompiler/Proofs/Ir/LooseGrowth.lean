/-
# Growth apart from choices

Whatever is asked of a module under construction, what is there stays there: values are what they
were, an open block may get further instructions, which are values of the module, a block that has
ended is the same ever after, and a function may get further blocks. Only a structure may get its
body.

Unlike growth this says nothing about choices, so that it holds of the requests that make them as
well. A module to whose blocks no choice has come has grown in the full sense.
-/

import SsaCompiler.Proofs.Ir.Growth
import SsaCompiler.Proofs.Ir.Preserved

namespace SsaCompiler

namespace Module

/-- A value of the module. -/
def IsKnown : Novelty := fun m _ _ id => ∃ d, m.value id = .ok d

instance : IsKnown.IsLasting where
  mono hvalues _ h := by
    obtain ⟨d, hd⟩ := h
    exact ⟨d, hvalues hd⟩

/-- A block lists values of the module, and each of them once. -/
structure ListsValues (m : Module) : Prop where
  value : ∀ {b d v}, m.block b = .ok d → v ∈ d.instrs → ∃ e, m.value v = .ok e
  nodup : ∀ {b d}, m.block b = .ok d → d.instrs.toList.Nodup

/-- A later module, with choices or without. -/
structure GrowsLoosely (m m' : Module) : Prop extends GrowsBy IsKnown m m' where
  size : m.types.size ≤ m'.types.size
  listed : m.ListsValues → m'.ListsValues

/-! ### Order -/

section Order

variable {m m' m'' : Module}

/-- A module is a later form of itself. -/
theorem GrowsLoosely.refl (m : Module) : m.GrowsLoosely m where
  toGrowsBy := .refl m
  size := Nat.le_refl _
  listed := id

theorem GrowsLoosely.trans (h : m.GrowsLoosely m') (h' : m'.GrowsLoosely m'') : m.GrowsLoosely m'' where
  toGrowsBy := h.toGrowsBy.trans h'.toGrowsBy
  size := Nat.le_trans h.size h'.size
  listed hm := h'.listed (h.listed hm)

/-- Every block is still in its function. -/
theorem GrowsLoosely.hasBlock (h : m.GrowsLoosely m') {f : FunctionId} {b : BlockId}
    (hb : m.HasBlock f b) : m'.HasBlock f b := by
  obtain ⟨d, hd, rfl⟩ := hb
  obtain ⟨d', hd', hmore⟩ := h.blocks hd
  exact ⟨d', hd', hmore.function⟩

end Order

/-! ### Single changes -/

section Changes

variable {m m' : Module}

/-- A block lists what it listed before, or nothing, and the values are still there. -/
theorem ListsValues.of_instrs (hm : m.ListsValues)
    (hinstrs : ∀ {b d'}, m'.block b = .ok d' →
      d'.instrs = #[] ∨ ∃ d, m.block b = .ok d ∧ d'.instrs = d.instrs)
    (hvalues : ∀ {v e}, m.value v = .ok e → m'.value v = .ok e) : m'.ListsValues where
  value {b d' v} hb hv := by
    rcases hinstrs hb with hnone | ⟨d, hd, hsame⟩
    · exact absurd hv (by simp [hnone])
    · obtain ⟨e, he⟩ := hm.value hd (hsame ▸ hv)
      exact ⟨e, hvalues he⟩
  nodup {b d'} hb := by
    rcases hinstrs hb with hnone | ⟨d, hd, hsame⟩
    · simp [hnone]
    · exact hsame ▸ hm.nodup hd

/-- A change that leaves the blocks alone. -/
theorem ListsValues.of_blocks (hm : m.ListsValues) (hblocks : m'.blocks = m.blocks)
    (hvalues : ∀ {v e}, m.value v = .ok e → m'.value v = .ok e) : m'.ListsValues := by
  refine hm.of_instrs (fun {b d'} hb => .inr ⟨d', ?_, rfl⟩) hvalues
  rwa [block, hblocks] at hb

/-- A change of the types is no change of blocks. -/
theorem growsLoosely_of_types {t : TypeTable} {hindexed : t.IsIndexed}
    (hsize : m.types.size ≤ t.size)
    (ht : ∀ {id ty}, m.types.get id = .ok ty → (∀ name, ty ≠ .named name none) →
      t.get id = .ok ty) : m.GrowsLoosely (m.withTypes t hindexed) where
  types := ht
  size := hsize
  values hv := hv
  blocks hb := ⟨_, hb, .refl _ _⟩
  functions hf := ⟨_, hf, .refl _⟩
  errors := Nat.le_refl _
  listed hm := hm.of_blocks rfl id

/-- A change of neither types nor values, blocks or functions. -/
theorem growsLoosely_of_same (htypes : m'.types = m.types) (hvalues : m'.values = m.values)
    (hblocks : m'.blocks = m.blocks) (hfunctions : m'.functions = m.functions)
    (herrors : m.codegenErrors ≤ m'.codegenErrors) : m.GrowsLoosely m' where
  types ht _ := htypes ▸ ht
  size := by rw [htypes]
  values := by
    intro v d hv
    rwa [value, hvalues]
  blocks := by
    intro b d hb
    exact ⟨d, by rwa [block, hblocks], .refl _ _⟩
  functions := by
    intro f d hf
    exact ⟨d, by rwa [function, hfunctions], .refl _⟩
  errors := herrors
  listed hm := hm.of_blocks hblocks fun {v e} hv => by rwa [value, hvalues]

/-- Going on elsewhere is no change of what is there. -/
theorem growsLoosely_withPosition (m : Module) (p : Option BlockId) :
    m.GrowsLoosely { m with position := p } := growsLoosely_of_same rfl rfl rfl rfl (Nat.le_refl _)

/-- A change of one function that keeps its signature and its blocks. -/
theorem growsLoosely_modifyFunction {f : FunctionId} {g : FunctionData → FunctionData}
    {hname : ∀ d, (g d).name = d.name} (hg : ∀ d, FunctionGrows d (g d)) :
    m.GrowsLoosely (m.modifyFunction f g hname) where
  types ht _ := ht
  size := Nat.le_refl _
  values hv := hv
  blocks hb := ⟨_, hb, .refl _ _⟩
  functions := by
    intro e d he
    refine ⟨if f.index = e.index then g d else d, Checked.at_eq_ok_iff.2 ?_, ?_⟩
    · change (m.functions.modify f.index g)[e.index]? = _
      rw [Array.getElem?_modify, Checked.at_eq_ok_iff.1 he]
      split <;> rfl
    · split
      · exact hg d
      · exact .refl d
  errors := Nat.le_refl _
  listed hm := hm.of_blocks rfl id

/-- An open block takes an instruction, a choice as well as any other. -/
theorem growsLoosely_withInstr {b : BlockId} {d : BlockData} (hb : m.block b = .ok d)
    (hopen : d.terminator = none) (ty : TypeId) (i : Instr) :
    m.GrowsLoosely (m.withInstr b ty i) where
  toGrowsBy := growsBy_withInstr hb hopen ty ⟨_, value_withValue_nextValue m ty (.instr i)⟩
  size := Nat.le_refl _
  listed hm := by
    refine ⟨fun {c e v} hc hv => ?_, fun {c e} hc => ?_⟩
    · obtain ⟨e₀, hc₀, rfl⟩ := exists_of_block_modify hc
      have hold {v : ValueId} (hv : v ∈ e₀.instrs) : ∃ x, (m.withInstr b ty i).value v = .ok x := by
        obtain ⟨x, hx⟩ := hm.value hc₀ hv
        exact ⟨x, value_withValue ty _ hx⟩
      split at hv
      · rcases Array.mem_push.1 hv with hv | rfl
        · exact hold hv
        · exact ⟨_, value_withValue_nextValue m ty (.instr i)⟩
      · exact hold hv
    · obtain ⟨e₀, hc₀, rfl⟩ := exists_of_block_modify hc
      split
      · have hnew : m.nextValue ∉ e₀.instrs := by
          intro hmem
          obtain ⟨x, hx⟩ := hm.value hc₀ hmem
          exact Nat.lt_irrefl _ (Array.getElem?_eq_some_iff.1 (Checked.at_eq_ok_iff.1 hx)).1
        rw [Array.toList_push]
        refine List.nodup_append.2 ⟨hm.nodup hc₀, List.nodup_singleton _, fun v hv w hw => ?_⟩
        rintro rfl
        exact hnew (List.mem_singleton.1 hw ▸ Array.mem_toList_iff.1 hv)
      · exact hm.nodup hc₀

/-- What has grown has grown loosely, if the instructions are values of the module. -/
theorem Grows.growsLoosely (h : m.Grows m') (hsize : m.types.size ≤ m'.types.size)
    (hlisted : m.ListsValues → m'.ListsValues)
    (hknown : ∀ {b d d' i id}, m.block b = .ok d → m'.block b = .ok d' → d.instrs.size ≤ i →
      d'.instrs[i]? = some id → ∃ e, m'.value id = .ok e) : m.GrowsLoosely m' where
  types := h.types
  size := hsize
  values := h.values
  blocks := by
    intro b d hb
    obtain ⟨d', hd', hgrows⟩ := h.blocks hb
    exact ⟨d', hd', hgrows.function, hgrows.name, hgrows.instrs, hknown hb hd', hgrows.ended⟩
  functions := h.functions
  errors := h.errors
  listed := hlisted

/-- What is there stays there whatever changes. -/
theorem Change.growsLoosely (h : m.Change m') : m.GrowsLoosely m' := by
  have hsame {b : BlockId} {d d' : BlockData} {i : Nat} {id : ValueId} (hb : m.block b = .ok d)
      (hb' : m.block b = .ok d') (hi : d.instrs.size ≤ i) (hid : d'.instrs[i]? = some id) :
      ∃ e, m'.value id = .ok e := by
    cases hb.symm.trans hb'
    exact absurd (Array.getElem?_eq_some_iff.1 hid).1 (Nat.not_lt.2 hi)
  cases h with
  | types ht =>
      refine growsLoosely_of_types ht.develops.size_le fun {id ty} hty hbody => ?_
      refine ht.develops.get_of_isOpaque_eq_false hty ?_
      cases ty with
      | named name body =>
          cases body with
          | none => exact absurd rfl (hbody name)
          | some fields => rfl
      | _ => rfl
  | value ty origin =>
      exact (grows_withValue m ty origin).growsLoosely (Nat.le_refl _)
        (fun hm => hm.of_blocks rfl fun hv => value_withValue ty _ hv) hsame
  | detached ty i =>
      exact ((grows_withValue m ty (.instr i)).growsLoosely (Nat.le_refl _)
        (fun hm => hm.of_blocks rfl fun hv => value_withValue ty _ hv) hsame).trans
        (growsLoosely_of_same rfl rfl rfl rfl (Nat.le_succ _))
  | instr _ hopen ty i =>
      obtain ⟨d, hd, hopen⟩ := hopen
      exact growsLoosely_withInstr hd hopen ty i
  | terminator _ hopen t =>
      obtain ⟨d, hd, hopen⟩ := hopen
      refine (grows_withTerminator hd hopen t).growsLoosely (Nat.le_refl _) (fun hm => ?_) ?_
      · refine hm.of_instrs (fun {c d'} hc => ?_) id
        obtain ⟨e, he, rfl⟩ := exists_of_block_modify hc
        refine .inr ⟨e, he, ?_⟩
        split <;> rfl
      · intro c e e' i id hc hc' hi hid
        cases (block_modify hc _).symm.trans hc'
        refine absurd (Array.getElem?_eq_some_iff.1 hid).1 (Nat.not_lt.2 ?_)
        split <;> exact hi
  | function =>
      exact (grows_withFunction m _ _).growsLoosely (Nat.le_refl _) (fun hm => hm.of_blocks rfl id) hsame
  | address f v => exact growsLoosely_modifyFunction fun _ => ⟨rfl, rfl, rfl, List.prefix_rfl⟩
  | personality f g => exact growsLoosely_modifyFunction fun _ => ⟨rfl, rfl, rfl, List.prefix_rfl⟩
  | block f name =>
      refine (grows_withBlock m f name).growsLoosely (Nat.le_refl _) (fun hm => ?_) ?_
      · refine hm.of_instrs (fun {b d'} hb => ?_) id
        rcases Checked.at_push_cases hb with hold | ⟨-, rfl⟩
        · exact .inr ⟨d', hold, rfl⟩
        · exact .inl rfl
      · intro b d d' i id hb hb' hi hid
        cases (Checked.at_push _ hb).symm.trans hb'
        exact absurd (Array.getElem?_eq_some_iff.1 hid).1 (Nat.not_lt.2 hi)
  | error | position | global | init =>
      exact growsLoosely_of_same rfl rfl rfl rfl (by first | exact Nat.le_succ _ | exact Nat.le_refl _)

end Changes

/-- What is there stays there in the whole history of a module. -/
theorem Evolves.growsLoosely {m m' : Module} (h : m.Evolves m') : m.GrowsLoosely m' := by
  induction h with
  | refl => exact .refl _
  | tail _ hchange ih => exact ih.trans hchange.growsLoosely

/-! ### Choices -/

section Choices

variable {m m' : Module} {b : BlockId} {d : BlockData}

/-- The instructions of a block that is there, and its end. -/
theorem code_of_block (hb : m.block b = .ok d) : m.code b = (d.instrs, d.terminator) := by
  rw [code, Checked.at_eq_ok_iff.1 hb]
  rfl

/-- Whether a value of the module is a choice. -/
theorem isChoice_of_value {v : ValueId} {e : ValueData} (hv : m.value v = .ok e) :
    m.isChoice v = e.origin.isChoice := by
  rw [isChoice, Checked.at_eq_ok_iff.1 hv]
  rfl

/-- What has grown loosely has grown where no choice has come to the blocks that are there. -/
theorem GrowsLoosely.grows (h : m.GrowsLoosely m')
    (hblocks : ∀ {b d}, m.block b = .ok d → ∃ d', m'.block b = .ok d' ∧ m'.BlockGrows d d') :
    m.Grows m' := ⟨h.types, h.values, hblocks, h.functions, h.errors⟩

theorem GrowsLoosely.isChoice (h : m.GrowsLoosely m') {v : ValueId} (hv : m.isChoice v = true) :
    m'.isChoice v = true := by
  cases hget : m.values[v.index]? with
  | none =>
      rw [Module.isChoice, hget] at hv
      cases hv
  | some e =>
      have he : m.value v = .ok e := Checked.at_eq_ok_iff.2 hget
      rwa [isChoice_of_value (h.values he), ← isChoice_of_value he]

/-- Where the choices of a block are the same, what has come to it are no choices. -/
theorem GrowsLoosely.blockGrows (h : m.GrowsLoosely m') (hb : m.block b = .ok d)
    (hchoices : m'.choices b = m.choices b) :
    ∃ d', m'.block b = .ok d' ∧ m'.BlockGrows d d' := by
  obtain ⟨d', hb', hmore⟩ := h.blocks hb
  refine ⟨d', hb', hmore.function, hmore.name, hmore.instrs, fun {i id} hi hid => .inl ?_, hmore.ended⟩
  obtain ⟨e, he⟩ := hmore.added hi hid
  refine ⟨e, he, fun incoming horigin => ?_⟩
  -- The choices that were there are still counted, so one more would make them too many.
  obtain ⟨extra, hextra⟩ := hmore.instrs
  have hmem : id ∈ extra.filter m'.isChoice := by
    refine List.mem_filter.2 ⟨?_, by rw [isChoice_of_value he, horigin]; rfl⟩
    rw [← Array.getElem?_toList, ← hextra, List.getElem?_append_right (by simpa using hi)] at hid
    exact List.mem_of_getElem? hid
  have hold : (d.instrs.toList.filter m.isChoice).length ≤
      (d.instrs.toList.filter m'.isChoice).length := by
    rw [← List.countP_eq_length_filter, ← List.countP_eq_length_filter]
    exact List.countP_mono_left fun v _ hv => h.isChoice hv
  have hsame : d'.instrs.toList.filter m'.isChoice = d.instrs.toList.filter m.isChoice := by
    simpa only [choices, code_of_block hb, code_of_block hb'] using hchoices
  have hlength := congrArg List.length hsame
  rw [← hextra, List.filter_append, List.length_append] at hlength
  have hpos := List.length_pos_of_mem hmem
  omega

end Choices

end Module

/-! ### Requests -/

namespace Module

instance : IsPreorder Module GrowsLoosely where
  refl := .refl
  trans _ _ _ := .trans

/-- A new type is no change of the others. -/
theorem growsLoosely_withType (m : Module) (ty : IrType) (hty : ty.description? = some ty) :
    m.GrowsLoosely (m.withType ty hty) := by
  refine growsLoosely_of_types ?_ fun hget _ => TypeTable.get_intern_of_ok ty hget
  unfold TypeTable.intern TypeTable.size
  split
  · exact Nat.le_refl _
  · rw [Array.size_push]
    exact Nat.le_succ _

instance (k : EditKind) : Allows GrowsLoosely k where
  edit {m m'} h := by
    by_cases hk : k = .compound
    · subst hk
      cases h with
      | compound ty hty => exact growsLoosely_withType m ty hty
    · exact (h.change hk).growsLoosely

end Module

namespace Build

variable {α : Type}

/-- A request that leaves there what is there. -/
abbrev GrowsLoosely (x : Build α) : Prop := Moves Module.GrowsLoosely x

theorem GrowsLoosely.later {x : Build α} [hx : GrowsLoosely x] {m m' : Module} {a : α}
    (h : x m = .ok (a, m')) : m.GrowsLoosely m' := hx.run h

/-- What is there stays there whenever a module evolves. -/
theorem GrowsLoosely.of_stepwise (x : Build α) [Stepwise x] : GrowsLoosely x :=
  ⟨fun h => (evolves h).growsLoosely⟩

instance (id : TypeId) (body : List TypeId) : GrowsLoosely (setStructBody id body) where
  run {m done m'} h := by
    obtain ⟨types, hset, rfl⟩ := setStructBody_eq_ok h
    cases done with
    | false =>
        cases TypeTable.eq_of_setStructBody hset
        exact .refl m
    | true =>
        refine Module.growsLoosely_of_types ?_ fun {other ty} hty hbody => ?_
        · obtain ⟨name, -, rfl⟩ := TypeTable.get_of_setStructBody hset
          exact Array.size_modify.ge
        · obtain ⟨name, hopaque, hget⟩ := TypeTable.get_setStructBody hset other
          rw [hget, if_neg, hty]
          rintro rfl
          cases hopaque.symm.trans hty
          exact hbody name rfl

end Build

end SsaCompiler
