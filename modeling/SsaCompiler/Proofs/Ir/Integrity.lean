/-
# Every instruction in its place

An instruction stands in one place: in the code of one block, or among those that were set aside
because no block was open, and each of these has been counted as an error. A block belongs to one
function, and a function is found under its name and under no other. Requests may come in any order,
with positions that lead nowhere, second ends of a block and names that are taken. Whatever a request
does is an edit, so it is enough to look at the edits.

What a request checks, it checks against the types as they are then. Later requests enter more types
and fill in the bodies of structures, so what was found has to be so still. It is, for no type that
is known becomes another one, and a structure whose fields have been looked at has its body. Every
instruction of a module without errors fits its operands, then, by the types that the module has in
the end, and so does the end of every block.
-/

import SsaCompiler.Proofs.Ir.Session

namespace SsaCompiler

namespace Module

variable {m m' : Module} {v : ValueId} {b : BlockId} {f : FunctionId} {ty : TypeId} {i : Instr}

/-! ### Places of instructions -/

/-- A value is what an instruction yields. -/
def IsInstr (m : Module) (v : ValueId) : Prop := ∃ d i, m.value v = .ok d ∧ d.origin = .instr i

/-- The instructions of all blocks in order, and then those that have been set aside. -/
def placements (m : Module) : List ValueId :=
  m.blocks.toList.flatMap (·.instrs.toList) ++ m.detached.toList

/-- Every instruction stands in one place, and nothing else stands there. -/
structure IsPlaced (m : Module) : Prop where
  once : ∀ {v}, m.IsInstr v → m.placements.count v = 1
  instr : ∀ {v}, v ∈ m.placements → m.IsInstr v

/-- A value that is no instruction changes nothing about the instructions. -/
theorem isInstr_withValue {origin : ValueDef} (horigin : ∀ i, origin ≠ .instr i) :
    (m.withValue ty origin).IsInstr v ↔ m.IsInstr v := by
  constructor
  · rintro ⟨d, i, hd, hi⟩
    rcases Checked.at_push_cases hd with hold | ⟨-, rfl⟩
    · exact ⟨d, i, hold, hi⟩
    · exact (horigin i hi).elim
  · rintro ⟨d, i, hd, hi⟩
    exact ⟨d, i, Checked.at_push _ hd, hi⟩

/-- A new instruction is one more. -/
theorem isInstr_withValue_instr (ty : TypeId) (i : Instr) :
    (m.withValue ty (.instr i)).IsInstr v ↔ v = m.nextValue ∨ m.IsInstr v := by
  constructor
  · rintro ⟨d, j, hd, hj⟩
    rcases Checked.at_push_cases hd with hold | ⟨hsize, -⟩
    · exact .inr ⟨d, j, hold, hj⟩
    · exact .inl (congrArg ValueId.mk hsize)
  · rintro (rfl | ⟨d, j, hd, hj⟩)
    · exact ⟨_, i, Checked.at_push_size _ _, rfl⟩
    · exact ⟨d, j, Checked.at_push _ hd, hj⟩

/-- The next value is not there yet. -/
theorem not_isInstr_nextValue (m : Module) : ¬ m.IsInstr m.nextValue := by
  rintro ⟨d, i, hd, -⟩
  exact Nat.lt_irrefl _ (Array.getElem?_eq_some_iff.1 (Checked.at_eq_ok_iff.1 hd)).1

/-- What is read off the entries of a table stays when an entry is changed in something else. -/
theorem map_modify {α β : Type} {g : α → α} {k : α → β} {xs : Array α} {n : Nat}
    (hg : ∀ x, k (g x) = k x) : (xs.modify n g).map k = xs.map k := by
  apply Array.ext_getElem?
  intro j
  rw [Array.getElem?_map, Array.getElem?_map, Array.getElem?_modify]
  split
  · rw [Option.map_map]
    exact congrArg (Option.map · _) (funext hg)
  · rfl

/-- An instruction at the end of a block is one more instruction of all blocks. -/
theorem flatMap_modify_push {blocks : List BlockData} {n : Nat} {block : BlockData}
    (hblock : blocks[n]? = some block) (v : ValueId) :
    ((blocks.modify n fun d => { d with instrs := d.instrs.push v }).flatMap
      (·.instrs.toList)).Perm (v :: blocks.flatMap (·.instrs.toList)) := by
  induction blocks generalizing n with
  | nil => cases hblock
  | cons d blocks ih =>
      cases n with
      | zero =>
          simp only [List.modify_zero_cons, List.flatMap_cons, Array.toList_push,
            List.append_assoc, List.singleton_append]
          exact List.perm_middle
      | succ n =>
          simp only [List.modify_succ_cons, List.flatMap_cons]
          exact ((ih hblock).append_left _).trans List.perm_middle

/-- The places of instructions are known from the lists of the blocks. -/
theorem placements_congr (hinstrs : m'.blocks.map (·.instrs) = m.blocks.map (·.instrs))
    (hdetached : m'.detached = m.detached) : m'.placements = m.placements := by
  have hlists := congrArg (·.toList.flatMap Array.toList) hinstrs
  simp only [Array.toList_map, List.flatMap_map] at hlists
  rw [placements, placements, hlists, hdetached]

theorem IsPlaced.congr (hm : m.IsPlaced) (hplaces : m'.placements = m.placements)
    (hinstr : ∀ v, m'.IsInstr v ↔ m.IsInstr v) : m'.IsPlaced where
  once hv := by rw [hplaces, hm.once ((hinstr _).1 hv)]
  instr hv := (hinstr _).2 (hm.instr (hplaces ▸ hv))

/-- A new instruction gets one place. -/
theorem IsPlaced.next (hm : m.IsPlaced) (hplaces : m'.placements.Perm (m.nextValue :: m.placements))
    (hinstr : ∀ v, m'.IsInstr v ↔ v = m.nextValue ∨ m.IsInstr v) : m'.IsPlaced where
  once {v} hv := by
    rw [hplaces.count_eq]
    rcases (hinstr v).1 hv with rfl | hold
    · have hnew : m.nextValue ∉ m.placements := fun h => m.not_isInstr_nextValue (hm.instr h)
      rw [List.count_cons_self, List.count_eq_zero_of_not_mem hnew]
    · have hne : m.nextValue ≠ v := by
        rintro rfl
        exact m.not_isInstr_nextValue hold
      rw [List.count_cons_of_ne hne, hm.once hold]
  instr {v} hv := by
    rw [hplaces.mem_iff, List.mem_cons] at hv
    exact (hinstr v).2 (hv.imp_right hm.instr)

/-- An edit gives a new instruction one place and leaves the others where they are. -/
theorem Edit.isPlaced {k : EditKind} (h : m.Edit k m') (hm : m.IsPlaced) : m'.IsPlaced := by
  cases h with
  | value ty horigin => exact hm.congr rfl fun _ => isInstr_withValue horigin
  | @instr b hb hopen ty i kind hk hfits =>
      obtain ⟨block, hblock, -⟩ := hopen
      refine hm.next ?_ fun _ => isInstr_withValue_instr ty i
      unfold placements
      simp only [withInstr, Array.toList_modify]
      have hblock : m.blocks.toList[b.index]? = some block := by
        rw [Array.getElem?_toList]
        exact Checked.at_eq_ok_iff.1 hblock
      exact List.Perm.append_right _ (flatMap_modify_push hblock m.nextValue)
  | @detached ty i kind hk =>
      refine hm.next ?_ fun _ => isInstr_withValue_instr ty i
      unfold placements
      simp only [withDetached, Array.toList_push, ← List.append_assoc]
      exact List.perm_append_singleton _ _
  | @terminator b hb hopen t hfits =>
      refine hm.congr (placements_congr ?_ rfl) fun _ => Iff.rfl
      exact map_modify (g := fun d : BlockData => { d with terminator := some t }) fun _ => rfl
  | block hf name =>
      refine hm.congr ?_ fun _ => Iff.rfl
      simp [placements, withBlock]
  | _ => exact hm.congr rfl fun _ => Iff.rfl

/-- What is set aside has been counted. -/
theorem Edit.detached_le {k : EditKind} (h : m.Edit k m')
    (hm : m.detached.size ≤ m.codegenErrors) :
    m'.detached.size ≤ m'.codegenErrors := by
  cases h with
  | detached =>
      change (m.detached.push _).size ≤ m.codegenErrors + 1
      rw [Array.size_push]
      exact Nat.succ_le_succ hm
  | error => exact Nat.le_succ_of_le hm
  | _ => exact hm

/-! ### Blocks of functions -/

/-- A block is listed once by the function that it names, and by no other. -/
structure IsListed (m : Module) : Prop where
  owner : ∀ {b block}, m.block b = .ok block → ∃ d, m.function block.function = .ok d
  count : ∀ {b block f d}, m.block b = .ok block → m.function f = .ok d →
    d.blocks.count b = if f = block.function then 1 else 0
  there : ∀ {f d b}, m.function f = .ok d → b ∈ d.blocks → ∃ block, m.block b = .ok block

/-- Where tables agree in what is read off them, an entry of one stands for one of the other. -/
theorem exists_at_of_map_eq {α β : Type} {k : α → β} {xs ys : Array α} {n : Nat} {x : α}
    (h : xs.map k = ys.map k) (hx : Checked.at xs n = .ok x) :
    ∃ y, Checked.at ys n = .ok y ∧ k y = k x := by
  have hget := congrArg (·[n]?) h
  simp only [Array.getElem?_map, Checked.at_eq_ok_iff.1 hx, Option.map_some] at hget
  obtain ⟨y, hy, heq⟩ := Option.map_eq_some_iff.1 hget.symm
  exact ⟨y, Checked.at_eq_ok_iff.2 hy, heq⟩

/-- Nothing changes for the blocks and their functions. -/
theorem IsListed.congr (hm : m.IsListed)
    (howners : m'.blocks.map (·.function) = m.blocks.map (·.function))
    (hlists : m'.functions.map (·.blocks) = m.functions.map (·.blocks)) : m'.IsListed where
  owner hb := by
    obtain ⟨block, hblock, heq⟩ := exists_at_of_map_eq howners hb
    obtain ⟨d, hd⟩ := hm.owner hblock
    obtain ⟨d', hd', -⟩ := exists_at_of_map_eq hlists.symm hd
    exact ⟨d', heq ▸ hd'⟩
  count hb hf := by
    obtain ⟨block, hblock, heq⟩ := exists_at_of_map_eq howners hb
    obtain ⟨d, hd, hlist⟩ := exists_at_of_map_eq hlists hf
    rw [← hlist, ← heq]
    exact hm.count hblock hd
  there hf hb := by
    obtain ⟨d, hd, hlist⟩ := exists_at_of_map_eq hlists hf
    obtain ⟨block, hblock⟩ := hm.there hd (hlist ▸ hb)
    obtain ⟨block', hblock', -⟩ := exists_at_of_map_eq howners.symm hblock
    exact ⟨block', hblock'⟩

/-- A new function lists no blocks. -/
theorem IsListed.withFunction (hm : m.IsListed) {d : FunctionData}
    (hnew : m.functionByName? d.name = none) (hd : d.blocks = []) :
    (m.withFunction d hnew).IsListed where
  owner hb := by
    obtain ⟨e, he⟩ := hm.owner hb
    exact ⟨e, Checked.at_push _ he⟩
  count {b block f e} hb hf := by
    rcases Checked.at_push_cases hf with hold | ⟨hsize, rfl⟩
    · exact hm.count hb hold
    · obtain ⟨e', he'⟩ := hm.owner hb
      have hlt := (Array.getElem?_eq_some_iff.1 (Checked.at_eq_ok_iff.1 he')).1
      have hne : f ≠ block.function := by
        rintro rfl
        omega
      rw [hd, if_neg hne, List.count_nil]
  there {f e b} hf hb := by
    rcases Checked.at_push_cases hf with hold | ⟨-, rfl⟩
    · exact hm.there hold hb
    · rw [hd] at hb
      cases hb

/-- A new block is listed by its function, behind the others. -/
theorem IsListed.withBlock (hm : m.IsListed) {d : FunctionData} (hf : m.function f = .ok d)
    (name : String) : (m.withBlock f name).IsListed where
  owner {b block} hb := by
    rcases Checked.at_push_cases hb with hold | ⟨-, rfl⟩
    · obtain ⟨e, he⟩ := hm.owner hold
      exact ⟨_, function_modify he⟩
    · exact ⟨_, function_modify hf⟩
  count {b block g e} hb hg := by
    obtain ⟨e, he, rfl⟩ := exists_of_function_modify hg
    have hnew : (⟨m.blocks.size⟩ : BlockId) ∉ e.blocks := by
      intro hmem
      obtain ⟨_, hthere⟩ := hm.there he hmem
      exact Nat.lt_irrefl _ (Array.getElem?_eq_some_iff.1 (Checked.at_eq_ok_iff.1 hthere)).1
    have hindex : f.index = g.index ↔ g = f := by
      cases f
      cases g
      simp [eq_comm]
    rcases Checked.at_push_cases hb with hold | ⟨hsize, rfl⟩
    · have hlt := (Array.getElem?_eq_some_iff.1 (Checked.at_eq_ok_iff.1 hold)).1
      have hne : (⟨m.blocks.size⟩ : BlockId) ≠ b := by
        rintro rfl
        exact Nat.lt_irrefl _ hlt
      rw [← hm.count hold he]
      split
      · rw [List.count_append, List.count_singleton, if_neg (by simpa using hne), Nat.add_zero]
      · rfl
    · obtain rfl : b = ⟨m.blocks.size⟩ := congrArg BlockId.mk hsize
      by_cases hgf : g = f
      · rw [if_pos (hindex.2 hgf), if_pos hgf, List.count_append,
          List.count_eq_zero_of_not_mem hnew, List.count_singleton_self]
      · rw [if_neg (hindex.not.2 hgf), if_neg hgf, List.count_eq_zero_of_not_mem hnew]
  there {g e b} hg hb := by
    obtain ⟨e, he, rfl⟩ := exists_of_function_modify hg
    split at hb
    · rcases List.mem_append.1 hb with hold | hlast
      · obtain ⟨block, hblock⟩ := hm.there he hold
        exact ⟨block, Checked.at_push _ hblock⟩
      · cases List.mem_singleton.1 hlast
        exact ⟨_, Checked.at_push_size _ _⟩
    · obtain ⟨block, hblock⟩ := hm.there he hb
      exact ⟨block, Checked.at_push _ hblock⟩

/-- After an edit every block is listed by its function. -/
theorem Edit.isListed {k : EditKind} (h : m.Edit k m') (hm : m.IsListed) : m'.IsListed := by
  cases h with
  | instr hb hopen hk hfits =>
      exact hm.congr (map_modify
        (g := fun d : BlockData => { d with instrs := d.instrs.push m.nextValue }) fun _ => rfl) rfl
  | @terminator b hb hopen t hfits =>
      exact hm.congr (map_modify (g := fun d : BlockData => { d with terminator := some t })
        fun _ => rfl) rfl
  | function hnew ty params => exact hm.withFunction hnew rfl
  | address f v =>
      exact hm.congr rfl
        (map_modify (g := fun d : FunctionData => { d with address := some v }) fun _ => rfl)
  | personality f g =>
      exact hm.congr rfl
        (map_modify (g := fun d : FunctionData => { d with personality := some g }) fun _ => rfl)
  | block hf name => exact hm.withBlock hf name
  | _ => exact hm.congr rfl rfl

/-! ### Modules under construction -/

/-- Everything in a module has its place. -/
structure IsOrderly (m : Module) : Prop extends m.IsPlaced, m.IsListed where
  detached : m.detached.size ≤ m.codegenErrors

/-- The module that only has a name. -/
theorem isOrderly_new (name : String) : (Module.new name).IsOrderly where
  once := by
    rintro v ⟨d, i, hd, -⟩
    cases hd
  instr hv := by cases hv
  owner hb := by cases hb
  count hb := by cases hb
  there hf := by cases hf
  detached := Nat.le_refl 0

/-- A request leaves everything in its place. -/
theorem Alters.isOrderly (h : m.Alters m') (hm : m.IsOrderly) : m'.IsOrderly := by
  cases h with
  | edit hedit =>
      exact ⟨hedit.isPlaced hm.toIsPlaced, hedit.isListed hm.toIsListed,
        hedit.detached_le hm.detached⟩
  | body =>
      exact ⟨hm.toIsPlaced.congr rfl fun _ => Iff.rfl, hm.toIsListed.congr rfl rfl, hm.detached⟩

end Module

namespace Build

open SsaCompiler.Module

/-- After any requests every instruction stands in one place and nothing else stands there, what has
been set aside has been counted, every block is listed once by the function that it names and by no
other, and every function is found under its name and under no other. From there on, whatever is
requested, a block that has ended and a value stay as they are. -/
theorem instructions_keep_their_place {title : String} {requests further : List Request}
    {m m' : Module} (hrequests : session requests (Module.new title) = .ok ((), m))
    (hfurther : session further m = .ok ((), m')) :
    (∀ v, m.IsInstr v → m.placements.count v = 1) ∧
      (∀ v ∈ m.placements, m.IsInstr v) ∧
      m.detached.size ≤ m.codegenErrors ∧
      (∀ b block, m.block b = .ok block → (∃ d, m.function block.function = .ok d) ∧
        ∀ f d, m.function f = .ok d → d.blocks.count b = if f = block.function then 1 else 0) ∧
      (∀ name f, m.functionIndex.get? name = some f ↔
        ∃ d, m.function f = .ok d ∧ d.name = name) ∧
      (∀ b block, m.block b = .ok block → block.terminator.isSome → m'.block b = .ok block) ∧
      ∀ v d, m.value v = .ok d → m'.value v = .ok d := by
  have hm : m.IsOrderly :=
    (continues_session hrequests).invariant (isOrderly_new title) Alters.isOrderly
  have hupholds := (continues_session hfurther).upholds
  exact ⟨fun v => hm.once, fun v => hm.instr, hm.detached,
    fun b block hb => ⟨hm.owner hb, fun f d => hm.count hb⟩,
    fun name f => functionByName?_eq_some_iff,
    fun b block => hupholds.block, fun v d => hupholds.value⟩

/-- A function with a block in which a slot is loaded from and stored to, and then the block ends
twice, another instruction comes too late, and the function is declared again. -/
def slotRequests : List Request :=
  [.intType 64, .functionType [⟨0⟩] ⟨0⟩ false, .declareFunction "slot" ⟨1⟩, .alloca ⟨0⟩,
    .appendBlock ⟨0⟩ "entry", .positionAtEnd ⟨0⟩, .alloca ⟨0⟩, .store ⟨0⟩ ⟨2⟩, .load ⟨2⟩,
    .ret (some ⟨4⟩), .unreachable, .load ⟨2⟩, .declareFunction "slot" ⟨0⟩]

/-- The session with that function and then one that goes on with its block, and where the
instructions stand in between. -/
def slotSession : Build (List ValueId) := do
  session slotRequests
  let m ← get
  session [.positionAtEnd ⟨0⟩, .load ⟨2⟩]
  return m.placements

/-- The session with that function, and the one that goes on with its block. -/
theorem instructions_keep_their_place_slot : ∃ m m',
    session slotRequests (Module.new "m") = .ok ((), m) ∧
      session [.positionAtEnd ⟨0⟩, .load ⟨2⟩] m = .ok ((), m') ∧
      m.placements = [⟨2⟩, ⟨3⟩, ⟨4⟩, ⟨1⟩, ⟨5⟩] ∧
      (∀ v, m.IsInstr v → m.placements.count v = 1) ∧
      ∀ b block, m.block b = .ok block → block.terminator.isSome → m'.block b = .ok block := by
  have hplaces : (slotSession (Module.new "m")).map Prod.fst =
      .ok [⟨2⟩, ⟨3⟩, ⟨4⟩, ⟨1⟩, ⟨5⟩] := by
    decide +kernel
  cases hrun : slotSession (Module.new "m") with
  | error e =>
      rw [hrun] at hplaces
      cases hplaces
  | ok answer =>
      rw [hrun] at hplaces
      obtain ⟨⟨⟩, m, hslot, hrest⟩ := bind_eq_ok_iff.1 hrun
      rw [bind_of_ok (get_apply m)] at hrest
      obtain ⟨⟨⟩, m', hlate, hend⟩ := bind_eq_ok_iff.1 hrest
      cases hend
      obtain ⟨honce, -, -, -, -, hended, -⟩ := instructions_keep_their_place hslot hlate
      exact ⟨m, m', hslot, hlate, Except.ok.inj hplaces, honce, hended⟩

end Build

namespace Module

variable {m m' : Module}

/-- All code fits: every instruction its operands and the type of its value, and so the ends of
blocks. -/
structure IsFitting (m : Module) : Prop where
  instr : ∀ {v d i}, m.value v = .ok d → d.origin = .instr i → m.Fits d.ty i
  terminator : ∀ {b block t}, m.block b = .ok block → block.terminator = some t → m.FitsEnd t

/-- Nothing is added to the code. -/
theorem IsFitting.mono (hm : m.IsFitting) (h : m.Upholds m')
    (hvalues : ∀ {v d i}, m'.value v = .ok d → d.origin = .instr i → m.value v = .ok d)
    (hblocks : ∀ {b block t}, m'.block b = .ok block → block.terminator = some t →
      ∃ old, m.block b = .ok old ∧ old.terminator = some t) : m'.IsFitting where
  instr hv hi := h.fits (hm.instr (hvalues hv hi) hi)
  terminator hb ht := by
    obtain ⟨old, hold, hend⟩ := hblocks hb ht
    exact h.fitsEnd (hm.terminator hold hend)

/-- As long as an edit is not counted as an error, what it adds fits. -/
theorem Edit.isFitting {k : EditKind} (h : m.Edit k m') (hm : m.codegenErrors = 0 → m.IsFitting)
    (hzero : m'.codegenErrors = 0) : m'.IsFitting := by
  have hupholds := h.upholds
  have hbefore : m.codegenErrors = 0 := Nat.le_zero.1 (hzero ▸ hupholds.errors)
  have hsame := hm hbefore
  cases h with
  | value ty horigin =>
      refine hsame.mono hupholds (fun hv hi => ?_) fun hb ht => ⟨_, hb, ht⟩
      rcases Checked.at_push_cases hv with hold | ⟨-, rfl⟩
      · exact hold
      · exact (horigin _ hi).elim
  | @instr b hb hopen ty i kind hk hfits =>
      constructor
      · intro v d j hv hj
        rcases Checked.at_push_cases hv with hold | ⟨-, rfl⟩
        · exact hupholds.fits (hsame.instr hold hj)
        · cases hj
          exact hupholds.fits (hfits hbefore)
      · intro c block t hc ht
        obtain ⟨old, hold, rfl⟩ := exists_of_block_modify hc
        refine hupholds.fitsEnd (hsame.terminator hold ?_)
        split at ht <;> exact ht
  | @terminator b hb hopen t hfits =>
      constructor
      · intro v d i hv hi
        exact hupholds.fits (hsame.instr hv hi)
      · intro c block t' hc ht
        obtain ⟨old, hold, rfl⟩ := exists_of_block_modify hc
        split at ht
        · cases ht
          exact hupholds.fitsEnd (hfits hbefore)
        · exact hupholds.fitsEnd (hsame.terminator hold ht)
  | block hf name =>
      refine hsame.mono hupholds (fun hv _ => hv) fun hb ht => ?_
      rcases Checked.at_push_cases hb with hold | ⟨-, rfl⟩
      · exact ⟨_, hold, ht⟩
      · cases ht
  | detached => cases hzero
  | error => cases hzero
  | _ => exact hsame.mono hupholds (fun hv _ => hv) fun hb ht => ⟨_, hb, ht⟩

/-- A structure that gets its body takes nothing away from the code that fits. -/
theorem Alters.isFitting (h : m.Alters m') (hm : m.codegenErrors = 0 → m.IsFitting)
    (hzero : m'.codegenErrors = 0) : m'.IsFitting := by
  cases h with
  | edit hedit => exact hedit.isFitting hm hzero
  | body hset =>
      exact (hm hzero).mono (upholds_setStructBody hset _) (fun hv _ => hv) fun hb ht => ⟨_, hb, ht⟩

/-- After any requests of which none has been counted as an error all code fits. -/
theorem Continues.isFitting {title : String} (h : (Module.new title).Continues m)
    (hzero : m.codegenErrors = 0) : m.IsFitting := by
  have hnew : (Module.new title).IsFitting :=
    ⟨fun hv _ => (by cases hv), fun hb _ => (by cases hb)⟩
  exact h.invariant (P := fun m => m.codegenErrors = 0 → m.IsFitting) (fun _ => hnew)
    Alters.isFitting hzero

end Module

namespace Build

open SsaCompiler.Module

/-- After any requests of which none has been counted as an error, every instruction that stands
anywhere fits its operands by the types as they are then, and so does the end of every block. -/
theorem code_fits_of_no_errors {title : String} {requests : List Request} {m : Module}
    (hrequests : session requests (Module.new title) = .ok ((), m))
    (hzero : m.codegenErrors = 0) :
    (∀ v ∈ m.placements, ∃ d i, m.value v = .ok d ∧ d.origin = .instr i ∧ m.Fits d.ty i) ∧
      ∀ b block t, m.block b = .ok block → block.terminator = some t → m.FitsEnd t := by
  have hcontinues := continues_session hrequests
  have horderly : m.IsOrderly := hcontinues.invariant (isOrderly_new title) Alters.isOrderly
  have hfitting : m.IsFitting := hcontinues.isFitting hzero
  refine ⟨fun v hv => ?_, fun b block t => hfitting.terminator⟩
  obtain ⟨d, i, hd, hi⟩ := horderly.instr hv
  exact ⟨d, i, hd, hi, hfitting.instr hd hi⟩

/-- A structure gets its body after a pointer to it has been handed out, and a function loads its
second field, doubles it, and calls another function with it if it was negative. -/
def fieldRequests : List Request :=
  [.intType 64, .namedStruct "Pair", .pointerType ⟨1⟩, .functionType [⟨2⟩] ⟨0⟩ false,
    .functionType [⟨0⟩] ⟨0⟩ false, .declareFunction "second" ⟨3⟩, .declareFunction "use" ⟨4⟩,
    .appendBlock ⟨0⟩ "entry", .appendBlock ⟨0⟩ "used", .appendBlock ⟨0⟩ "done",
    .positionAtEnd ⟨0⟩, .setStructBody ⟨1⟩ [⟨0⟩, ⟨0⟩], .structGep ⟨0⟩ 1, .load ⟨2⟩,
    .binary .add ⟨3⟩ ⟨3⟩, .icmp .slt ⟨4⟩ ⟨3⟩, .condBr ⟨5⟩ ⟨1⟩ ⟨2⟩, .positionAtEnd ⟨1⟩,
    .call ⟨1⟩ [⟨4⟩], .br ⟨2⟩, .positionAtEnd ⟨2⟩, .ret (some ⟨4⟩)]

/-- None of these requests is counted as an error, and the code fits. -/
theorem code_fits_of_no_errors_field : ∃ m,
    session fieldRequests (Module.new "m") = .ok ((), m) ∧ m.codegenErrors = 0 ∧
      m.placements = [⟨2⟩, ⟨3⟩, ⟨4⟩, ⟨5⟩, ⟨6⟩] ∧
      (∀ v ∈ m.placements, ∃ d i, m.value v = .ok d ∧ d.origin = .instr i ∧ m.Fits d.ty i) ∧
      ∀ b block t, m.block b = .ok block → block.terminator = some t → m.FitsEnd t := by
  have hplaces : (session fieldRequests (Module.new "m")).map
      (fun answer => (answer.2.codegenErrors, answer.2.placements)) =
        .ok (0, [⟨2⟩, ⟨3⟩, ⟨4⟩, ⟨5⟩, ⟨6⟩]) := by
    decide +kernel
  cases hrun : session fieldRequests (Module.new "m") with
  | error e =>
      rw [hrun] at hplaces
      cases hplaces
  | ok answer =>
      rw [hrun] at hplaces
      obtain ⟨hzero, hall⟩ := Prod.mk.inj (Except.ok.inj hplaces)
      obtain ⟨hinstrs, hends⟩ := code_fits_of_no_errors hrun hzero
      exact ⟨answer.2, rfl, hzero, hall, hinstrs, hends⟩

end Build

end SsaCompiler
