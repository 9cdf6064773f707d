/-
# Running the operators of the dynamic array

The code of each operator is followed from block to block, and the memory it leaves behind is read
off the changes that it makes. Blocks are taken from the last one to the first one, so that what
comes behind a block is known when the block is followed.
-/

import SsaCompiler.Proofs.DynamicArray.Code
import SsaCompiler.Proofs.DynamicArray.Contents
import SsaCompiler.Proofs.Machine.Ending

namespace SsaCompiler

open Lower MeetsLimit SsaCompiler.Module

/-! ### Numbers of elements as words -/

section Words

variable {n k : Nat}

theorem evalInt_succ (n : Nat) : evalInt .add (Int64.ofNat n) 1 64 = some (Int64.ofNat (n + 1)) := by
  rw [evalInt, normalizeInt_long, Int64.ofNat_add]
  rfl

theorem evalInt_double (n : Nat) :
    evalInt .mul (Int64.ofNat n) 2 64 = some (Int64.ofNat (n * 2)) := by
  rw [evalInt, normalizeInt_long, Int64.ofNat_mul]
  rfl

/-- A number that a word holds. -/
theorem toInt_ofNat_of_lt_half (hn : n < wordRange / 2) : (Int64.ofNat n).toInt = n :=
  Int64.toInt_ofNat_of_lt hn

/-- Numbers are compared as words. -/
theorem holds_eq_ofNat (hn : n < wordRange / 2) (hk : k < wordRange / 2) :
    IntPredicate.eq.holds (Int64.ofNat n) (Int64.ofNat k) = decide (n = k) := by
  have hsame : Int64.ofNat n = Int64.ofNat k ↔ n = k := by
    rw [← Int64.toInt_inj, toInt_ofNat_of_lt_half hn, toInt_ofNat_of_lt_half hk]
    exact Int.ofNat_inj
  rw [IntPredicate.holds, Bool.eq_iff_iff, beq_iff_eq, decide_eq_true_iff]
  exact hsame

/-- Numbers are ordered as words. -/
theorem holds_slt_ofNat (hn : n < wordRange / 2) (hk : k < wordRange / 2) :
    IntPredicate.slt.holds (Int64.ofNat n) (Int64.ofNat k) = decide (n < k) := by
  rw [IntPredicate.holds, Bool.eq_iff_iff, decide_eq_true_iff, decide_eq_true_iff,
    Int64.lt_iff_toInt_lt, toInt_ofNat_of_lt_half hn, toInt_ofNat_of_lt_half hk]
  exact Int.ofNat_lt

/-- A number of bytes as an argument. -/
theorem toInt_sizeWord (hk : k < wordRange / 2) : (sizeWord k).toInt = k := by
  have hword : k < 9223372036854775808 := hk
  rw [sizeWord, if_pos hword]
  exact toInt_ofNat_of_lt_half hk

/-- A number is zero as a word. -/
theorem holds_eq_zero (hn : n < wordRange / 2) :
    IntPredicate.eq.holds (Int64.ofNat n) 0 = decide (n = 0) :=
  holds_eq_ofNat hn (k := 0) (by decide)

/-- A number is not zero as a word. -/
theorem holds_ne_zero (hn : n < wordRange / 2) :
    IntPredicate.ne.holds (Int64.ofNat n) 0 = decide (n ≠ 0) := by
  have heq : (Int64.ofNat n == 0) = decide (n = 0) := holds_eq_zero hn
  change (!(Int64.ofNat n == 0)) = _
  rw [heq, decide_not]

end Words

namespace DynamicArray

open Exec Memory

variable {M : Module} {limits : Limits} {call : Caller} {name : String} {E : Stop → Memory → Prop}
  {Q : Val → Memory → Prop} {source : Option BlockId} {ty elem elemPtr long : TypeId}
  {size n level capacity : Nat} {a data : UInt64} {l : List Val} {x : Val} {μ μ₀ : Memory}

/-! ### Appending -/

section Append

variable {b : AppendBlocks} {v : AppendValues} {counter newData : UInt64} {capacity' : Nat}

/-- The shared values of the blocks, for an array of `n` elements with a capacity. -/
abbrev AppendValues.env (v : AppendValues) (a : UInt64) (x : Val) (counter : UInt64)
    (n capacity : Nat) : List (ValueId × Val) :=
  [(v.array, .ptr a), (v.value, x), (v.counter, .ptr counter),
    (v.dataPtr, .ptr (fieldAt a dataField)), (v.lengthPtr, .ptr (fieldAt a lengthField)),
    (v.capacityPtr, .ptr (fieldAt a capacityField)), (v.length, .int (Int64.ofNat n)),
    (v.capacity, .int (Int64.ofNat capacity))]

theorem AppendValues.mem_shared {a : UInt64} {p : ValueId × Val}
    (hp : p ∈ v.env a x counter n capacity) : p.1 ∈ v.shared :=
  List.mem_map_of_mem (f := Prod.fst) hp

/-- The new element is stored, and the array is the answer. -/
theorem enters_push (hcode : StoreCode M b v elem elemPtr long)
    (ht : M.types.HasArray ty elem elemPtr long size) (hμ : μ.IsBounded)
    (harray : Represents M.types elem elemPtr long size μ a l data capacity)
    (hlt : l.length < capacity) (hx : M.types.Conforms elem x)
    (hQ : ∀ μ', Represents M.types elem elemPtr long size μ' a (l ++ [x]) data capacity →
      μ'.IsBounded → μ'.live = μ.live → Q (.ptr a) μ') :
    Enters M limits call name E Q source b.push (v.env a x counter l.length capacity') μ := by
  obtain ⟨buffer, slot, stored, grown, stored', hlisting⟩ := hcode.push
  obtain ⟨μ₁, μ₂, hwrite₁, hwrite₂, harray', hμ₂, hlive⟩ := harray.push ht hμ hlt hx
  have := hcode.one
  refine .of_listing hlisting (by simp [Plain]) (fun p => AppendValues.mem_shared) ?_
  refine .load harray.fields.atData.read (.element ht.sizeOf ?_)
  rw [element_eq_slot]
  refine .store hwrite₁ (.binary rfl (evalInt_succ l.length) (.store hwrite₂ ?_))
  exact .ret (hQ μ₂ harray' hμ₂ hlive)

/-- The values that the blocks share once there is a new buffer. -/
abbrev AppendValues.movingEnv (v : AppendValues) (newId oldId capacityId : ValueId) (a : UInt64)
    (x : Val) (counter newData data : UInt64) (n capacity capacity' : Nat) :
    List (ValueId × Val) :=
  (newId, .ptr newData) :: (oldId, .ptr data) :: (capacityId, .int (Int64.ofNat capacity')) ::
    v.env a x counter n capacity

section Growing

variable {newId oldId capacityId : ValueId} {live : Nat}

theorem AppendValues.mem_moving {p : ValueId × Val}
    (hp : p ∈ v.movingEnv newId oldId capacityId a x counter newData data n capacity capacity') :
    p.1 ∈ v.moving newId oldId capacityId :=
  List.mem_map_of_mem (f := Prod.fst) hp

variable (hcode : ReplaceCode M b v elemPtr long newId oldId capacityId)
  (ht : M.types.HasArray ty elem elemPtr long size)
  (hgrowing : Growing M.types elem elemPtr long size μ₀ a l data capacity counter newData capacity')

include hcode ht hgrowing

/-- The new buffer is put into the array. -/
theorem enters_commit
    (hcopy : Copying M.types elem long size μ₀ counter newData capacity' l live l.length μ)
    (hnext : ∀ μ', Represents M.types elem elemPtr long size μ' a l newData capacity' →
      μ'.IsBounded → μ'.live = live → Enters M limits call name E Q (some b.commit) b.push
        (v.env a x counter l.length capacity) μ') :
    Enters M limits call name E Q source b.commit
      (v.movingEnv newId oldId capacityId a x counter newData data l.length capacity capacity')
      μ := by
  obtain ⟨stored, stored', hlisting⟩ := hcode.commit
  obtain ⟨μ₁, μ₂, hwrite₁, hwrite₂, harray, hμ₂, hlive⟩ := hgrowing.replace ht hcopy
  refine .of_listing hlisting (by simp [Plain]) (fun p => AppendValues.mem_moving) ?_
  exact .store hwrite₁ (.store hwrite₂ (.br (hnext μ₂ harray hμ₂ hlive) (by simp)))

/-- The old buffer is given back, and the new one is put into the array. -/
theorem enters_freeOld (hM : M.IsExternal "free") (hne : capacity ≠ 0)
    (hcopy : Copying M.types elem long size μ₀ counter newData capacity' l live l.length μ)
    (hnext : ∀ μ', Represents M.types elem elemPtr long size μ' a l newData capacity' →
      μ'.IsBounded → μ'.live = live - 1 →
      Enters M limits (callWithin M limits level) name E Q (some b.commit) b.push
        (v.env a x counter l.length capacity) μ') :
    Enters M limits (callWithin M limits level) name E Q source b.freeOld
      (v.movingEnv newId oldId capacityId a x counter newData data l.length capacity capacity')
      μ := by
  obtain ⟨free, raw, extra, freed, hfree, hextra, hlisting⟩ := hcode.freeOld
  have hdata : data ≠ 0 := by
    rintro rfl
    exact absurd (hgrowing.array.buffer hne).heap (by decide)
  refine .of_listing hlisting (plain_of_converts hextra (by simp [Plain]))
    (fun p => AppendValues.mem_moving)
    (.converts hextra (List.mem_cons_of_mem _ List.mem_cons_self) ?_)
  intro more hmem
  have : Frame.Settled M (more ++ v.movingEnv newId oldId capacityId a x counter newData data
      l.length capacity capacity') raw (.ptr data) := ⟨.inl hmem⟩
  refine .invoke (P := fun _ μ' => μ' = μ.free data) (.cons inferInstance .nil)
    (fun s hs => hs ▸ delivers_free hM hfree) ?_
  rintro y _ rfl
  exact .br (enters_commit hcode ht hgrowing (hcopy.free hdata) hnext)
    (List.subset_cons_of_subset _ (List.subset_append_right more _))

/-- When all elements have been copied, the old buffer is given back if there is one. -/
theorem enters_copyDone (hM : M.IsExternal "free") (hzero : M.Literal v.zero long (.int 0))
    (hcopy : Copying M.types elem long size μ₀ counter newData capacity' l live l.length μ)
    (hnext : ∀ μ', Represents M.types elem elemPtr long size μ' a l newData capacity' →
      μ'.IsBounded → μ'.live = live - blocksOf capacity →
      Enters M limits (callWithin M limits level) name E Q (some b.commit) b.push
        (v.env a x counter l.length capacity) μ') :
    Enters M limits (callWithin M limits level) name E Q source b.copyDone
      (v.movingEnv newId oldId capacityId a x counter newData data l.length capacity capacity')
      μ := by
  obtain ⟨hadBuffer, hlisting⟩ := hcode.copyDone
  have hsmall : capacity < wordRange / 2 :=
    Nat.lt_trans (hgrowing.array.capacity_lt hgrowing.space.bounded) (by decide)
  refine .of_listing hlisting (by simp [Plain]) (fun p => AppendValues.mem_moving) (.icmp ?_)
  rw [holds_ne_zero hsmall]
  by_cases hne : capacity = 0
  · refine .condBr (p := decide (capacity ≠ 0)) ?_ (List.subset_cons_self _ _)
    rw [if_neg (by simp [hne])]
    exact enters_commit hcode ht hgrowing hcopy fun μ' harray hμ' hlive =>
      hnext μ' harray hμ' (by rw [hlive, blocksOf, if_pos hne, Nat.sub_zero])
  · refine .condBr (p := decide (capacity ≠ 0)) ?_ (List.subset_cons_self _ _)
    rw [if_pos (by simp [hne])]
    exact enters_freeOld hcode ht hgrowing hM hne hcopy fun μ' harray hμ' hlive =>
      hnext μ' harray hμ' (by rw [hlive, blocksOf, if_neg hne])

/-- The elements that are left are copied. -/
theorem enters_copyCond (hcopyCode : CopyCode M b v elem long newId oldId capacityId)
    (hM : M.IsExternal "free") (hzero : M.Literal v.zero long (.int 0))
    (hone : M.Literal v.one long (.int 1)) {i : Nat} (hi : i ≤ l.length)
    (hcopy : Copying M.types elem long size μ₀ counter newData capacity' l live i μ)
    (hnext : ∀ μ', Represents M.types elem elemPtr long size μ' a l newData capacity' →
      μ'.IsBounded → μ'.live = live - blocksOf capacity →
      Enters M limits (callWithin M limits level) name E Q (some b.commit) b.push
        (v.env a x counter l.length capacity) μ') :
    Enters M limits (callWithin M limits level) name E Q source b.copyCond
      (v.movingEnv newId oldId capacityId a x counter newData data l.length capacity capacity')
      μ := by
  obtain ⟨i', more, hcond, source', moved, target, stored, next, counted, hbody⟩ :=
    hcopyCode.copyCond
  have hsmall : l.length < wordRange / 2 := Nat.lt_of_le_of_lt hgrowing.array.fits
    (Nat.lt_trans (hgrowing.array.capacity_lt hgrowing.space.bounded) (by decide))
  induction hleft : l.length - i generalizing i μ source with
  | zero =>
      obtain rfl : i = l.length := by omega
      refine .of_listing hcond (by simp [Plain]) (fun p => AppendValues.mem_moving)
        (.load hcopy.counter.read (.icmp ?_))
      rw [holds_slt_ofNat hsmall hsmall]
      refine .condBr ?_ (fun p hp => List.mem_append_right [_, _] hp)
      rw [if_neg (by simp)]
      exact enters_copyDone hcode ht hgrowing hM hzero hcopy hnext
  | succ left ih =>
      have hlt : i < l.length := by omega
      have hitem : l[i]? = some l[i] := List.getElem?_eq_getElem hlt
      have hold := (hgrowing.array.items i l[i] hitem).of_retains hcopy.retains hcopy.bounded
      obtain ⟨μ₁, μ₂, hwrite₁, hwrite₂, hcopy'⟩ :=
        hcopy.step ht hgrowing.space (Nat.le_of_lt hgrowing.larger) hitem hold.conforms
      refine .of_listing hcond (by simp [Plain]) (fun p => AppendValues.mem_moving)
        (.load hcopy.counter.read (.icmp ?_))
      rw [holds_slt_ofNat (Nat.lt_trans hlt hsmall) hsmall]
      refine .condBr ?_ (List.subset_cons_self _ _)
      rw [if_pos (by simpa using hlt)]
      refine .of_listing hbody (by simp [Plain]) ?_ (.element ht.sizeOf ?_)
      · rintro p (_ | ⟨_, hp⟩)
        · exact List.mem_cons_self
        · exact List.mem_cons_of_mem _ (AppendValues.mem_moving hp)
      rw [element_eq_slot]
      refine .load hold.read (.element ht.sizeOf ?_)
      rw [element_eq_slot]
      refine .store hwrite₁ (.binary rfl (evalInt_succ i) (.store hwrite₂ ?_))
      exact .br (ih hlt hcopy' (by omega))
        fun p hp => List.mem_append_right [_, _, _, _, _, _, _] hp

end Growing

section Alloc

variable {four doubled newId oldId capacityId w : ValueId} {src : BlockId}

/-- The new buffer is made, and then the elements are copied. -/
theorem enters_alloc (more : List (ValueId × Val))
    (hcode : BufferCode M b v elemPtr long (sizeWord (max size 1)) four doubled capacityId newId oldId)
    (hcopyCode : CopyCode M b v elem long newId oldId capacityId)
    (hreplace : ReplaceCode M b v elemPtr long newId oldId capacityId)
    (hzero : M.Literal v.zero long (.int 0)) (hone : M.Literal v.one long (.int 1))
    (ht : M.types.HasArray ty elem elemPtr long size) (hcalloc : M.IsExternal "calloc")
    (hfree : M.IsExternal "free") (hsource : [(four, b.first), (doubled, b.double)].find?
      (·.2 = src) = some (w, src))
    (hmore : ∀ p ∈ more, p.1 = doubled)
    [Frame.Settled M (more ++ v.env a x counter l.length capacity) w (.int (Int64.ofNat capacity'))]
    (hμ₀ : μ₀.IsBounded) (harray : Represents M.types elem elemPtr long size μ₀ a l data capacity)
    (hblock : μ₀.IsBlock counter 8 μ) (hlarger : l.length < capacity')
    (hgrown : ∃ k, capacity' = 4 * 2 ^ k) (hsmall : capacity' < wordRange / 2)
    (hunit : max size 1 < wordRange / 2)
    (hbytes : stackBase + capacity' * max size 1 + blockAlign < wordRange)
    (hnext : ∀ newData μ', Represents M.types elem elemPtr long size μ' a l newData capacity' →
      μ'.IsBounded → μ'.live = μ.live + 1 - blocksOf capacity →
      Enters M limits (callWithin M limits level) name E Q (some b.commit) b.push
        (v.env a x counter l.length capacity) μ') :
    Enters M limits (callWithin M limits level) name E Q (some src) b.alloc
      (more ++ v.env a x counter l.length capacity) μ := by
  obtain ⟨calloc, bytes, raw, extra, stored, hname, hsize, hextra, hlisting⟩ := hcode.alloc
  have hone' : 1 ≤ capacity' * max size 1 := Nat.mul_pos (Nat.zero_lt_of_lt hlarger)
    (Nat.lt_of_lt_of_le Nat.zero_lt_one (Nat.le_max_right size 1))
  have hrequest : min ((Int64.ofNat capacity').toInt.toNat * (sizeWord (max size 1)).toInt.toNat)
      (wordRange - 1) = capacity' * max size 1 := by
    rw [toInt_ofNat_of_lt_half hsmall, toInt_sizeWord hunit]
    exact Nat.min_eq_left (by simp only [Int.toNat_natCast]; omega)
  have hheap := allocHeap_of_isBounded hblock.bounded (by decide : 0 < blockAlign) hbytes
  refine .of_phi hlisting (by simp [Plain]) hsource ?_ ?_
  · intro p hp
    rcases List.mem_append.1 hp with hp | hp
    · rw [hmore p hp]
      exact List.mem_cons_self
    · exact List.mem_cons_of_mem _ (AppendValues.mem_shared hp)
  refine .invoke (P := fun y μ' => ∃ newData, y = .ptr newData ∧
      allocHeap (capacity' * max size 1) blockAlign μ = .ok newData μ')
    (.cons inferInstance (.cons inferInstance .nil)) (fun s hs => ?_) ?_
  · subst hs
    refine delivers_calloc hcalloc hname hrequest fun e μ' hfault => ?_
    rcases hheap with ⟨e', he, hlimit⟩ | ⟨_, _, halloc, -⟩
    · cases he.symm.trans hfault
      exact hlimit
    · cases halloc.symm.trans hfault
  rintro y μ₂ ⟨newData, rfl, halloc⟩
  rcases hheap with ⟨e, he, -⟩ | ⟨newData', μ₂', halloc', hnew, hlow, hhigh, -, hlive⟩
  · cases he.symm.trans halloc
  cases halloc'.symm.trans halloc
  rw [Nat.max_eq_left hone'] at hnew hhigh
  obtain ⟨hgrowing, μ₃, hwrite, hcopy⟩ :=
    harray.startCopying ht hμ₀ hblock hnew ⟨hlow, hhigh⟩ hlarger hgrown
  have hdata := (harray.fields.of_retains (hblock.retains.trans hnew.retains) hnew.bounded).atData
  refine .converts hextra List.mem_cons_self ?_
  intro more' hmem
  refine .load hdata.read (.store hwrite ?_)
  refine .br (enters_copyCond hreplace ht hgrowing hcopyCode hfree hzero hone (Nat.zero_le _) hcopy
    fun μ' harray' hμ' hlive' => hnext newData μ' harray' hμ' (by rw [hlive', hlive])) ?_
  rintro p (_ | ⟨_, _ | ⟨_, _ | ⟨_, hp⟩⟩⟩)
  · exact List.mem_cons_of_mem _ (List.mem_cons_of_mem _ hmem)
  · exact List.mem_cons_of_mem _ List.mem_cons_self
  · exact List.mem_append_right [_, _] (List.mem_append_right more'
      (List.mem_cons_of_mem _ List.mem_cons_self))
  · exact List.mem_append_right [_, _] (List.mem_append_right more'
      (List.mem_append_right [_, _] (List.mem_append_right more hp)))

end Alloc

/-- The capacity of the buffer behind one of a capacity. -/
def nextCapacity (capacity : Nat) : Nat := if capacity = 0 then 4 else capacity * 2

theorem lt_nextCapacity (capacity : Nat) : capacity < nextCapacity capacity := by
  unfold nextCapacity
  split <;> omega

theorem exists_nextCapacity (h : capacity = 0 ∨ ∃ k, capacity = 4 * 2 ^ k) :
    ∃ k, nextCapacity capacity = 4 * 2 ^ k := by
  rcases h with rfl | ⟨k, rfl⟩
  · exact ⟨0, rfl⟩
  · refine ⟨k + 1, ?_⟩
    rw [nextCapacity, if_neg (by positivity), pow_succ]
    ring

/-- The new buffer is not beyond every limit. -/
theorem nextCapacity_bounds (harray : Represents M.types elem elemPtr long size μ a l data capacity)
    (hμ : μ.IsBounded) (hunit : stackBase + 4 * max size 1 + blockAlign < wordRange) :
    nextCapacity capacity < wordRange / 2 ∧
      stackBase + nextCapacity capacity * max size 1 + blockAlign < wordRange := by
  have hsmall := harray.capacity_lt hμ
  have hbase : 8 * stackBase + blockAlign < wordRange / 2 := by decide
  unfold nextCapacity
  split
  · omega
  · rename_i hne
    have hfits := (harray.buffer hne).fits
    have hheap := hμ.heap
    have htwice : capacity * 2 * max size 1 = 2 * (capacity * max size 1) := by ring
    omega

/-- A buffer that is full is replaced by a larger one. -/
theorem enters_grow (hcode : AppendCode M b v (sizeWord (max size 1)) ty elem elemPtr long)
    (ht : M.types.HasArray ty elem elemPtr long size) (hcalloc : M.IsExternal "calloc")
    (hfree : M.IsExternal "free") (hμ₀ : μ₀.IsBounded)
    (hunit : stackBase + 4 * max size 1 + blockAlign < wordRange)
    (harray : Represents M.types elem elemPtr long size μ₀ a l data l.length)
    (hblock : μ₀.IsBlock counter 8 μ)
    (hnext : ∀ newData μ',
      Represents M.types elem elemPtr long size μ' a l newData (nextCapacity l.length) →
      μ'.IsBounded → μ'.live = μ.live + 1 - blocksOf l.length →
      Enters M limits (callWithin M limits level) name E Q (some b.commit) b.push
        (v.env a x counter l.length l.length) μ') :
    Enters M limits (callWithin M limits level) name E Q source b.grow
      (v.env a x counter l.length l.length) μ := by
  have hzero := hcode.entry.zero
  have hone := hcode.entry.one
  obtain ⟨four, doubled, capacityId, newId, oldId, hcapacity, hbuffer, hcopy, hreplace⟩ :=
    hcode.growth
  obtain ⟨isEmpty, hgrow⟩ := hcapacity.grow
  have hsmall : l.length < wordRange / 2 := Nat.lt_trans (harray.capacity_lt hμ₀) (by decide)
  obtain ⟨hnextSmall, hbytes⟩ := nextCapacity_bounds harray hμ₀ hunit
  have hunit' : max size 1 < wordRange / 2 := by
    have hbase : stackBase + blockAlign < wordRange := by decide
    unfold wordRange at hunit ⊢
    omega
  refine .of_listing hgrow (by simp [Plain]) (fun p => AppendValues.mem_shared) (.icmp ?_)
  rw [holds_eq_zero hsmall]
  refine .condBr ?_ (List.subset_cons_self _ _)
  by_cases hempty : l.length = 0
  · -- The first buffer.
    have hfour := hcapacity.four
    have hfind : [(four, b.first), (doubled, b.double)].find? (·.2 = b.first) =
        some (four, b.first) := by simp
    have hnew : nextCapacity l.length = 4 := if_pos hempty
    have : Frame.Settled M ([] ++ v.env a x counter l.length l.length) four
        (.int (Int64.ofNat (nextCapacity l.length))) := by
      rw [hnew]
      exact inferInstanceAs (Frame.Settled M (v.env a x counter l.length l.length) four (.int 4))
    rw [if_pos (by simpa using hempty)]
    refine .of_listing hcapacity.first (by simp) (fun p => AppendValues.mem_shared) ?_
    exact .br (enters_alloc [] hbuffer hcopy hreplace hzero hone ht hcalloc hfree hfind
      (by simp) hμ₀ harray hblock (lt_nextCapacity _) (exists_nextCapacity harray.grown)
      hnextSmall hunit' hbytes hnext) (List.Subset.refl _)
  · -- A further buffer.
    obtain ⟨two, htwo, hdouble⟩ := hcapacity.double
    have hfind : [(four, b.first), (doubled, b.double)].find? (·.2 = b.double) =
        some (doubled, b.double) := by simp [hcapacity.apart]
    have hnew : nextCapacity l.length = l.length * 2 := if_neg hempty
    have : Frame.Settled M ([(doubled, .int (Int64.ofNat (l.length * 2)))] ++
        v.env a x counter l.length l.length) doubled
        (.int (Int64.ofNat (nextCapacity l.length))) := by
      rw [hnew]
      exact inferInstanceAs (Frame.Settled M ((doubled, .int (Int64.ofNat (l.length * 2))) ::
        v.env a x counter l.length l.length) doubled _)
    rw [if_neg (by simpa using hempty)]
    refine .of_listing hdouble (by simp [Plain]) (fun p => AppendValues.mem_shared)
      (.binary rfl (evalInt_double l.length) ?_)
    exact .br (enters_alloc [(doubled, .int (Int64.ofNat (l.length * 2)))] hbuffer hcopy hreplace
      hzero hone ht hcalloc hfree hfind (by simp) hμ₀ harray hblock (lt_nextCapacity _)
      (exists_nextCapacity harray.grown) hnextSmall hunit' hbytes hnext)
      (List.Subset.refl _)

/-- The array is read, and the buffer is replaced first if it is full. -/
theorem enters_append (hcode : AppendCode M b v (sizeWord (max size 1)) ty elem elemPtr long)
    (ht : M.types.HasArray ty elem elemPtr long size) (hcalloc : M.IsExternal "calloc")
    (hfree : M.IsExternal "free") (hunit : stackBase + 4 * max size 1 + blockAlign < wordRange)
    {others : Nat}
    (hlist : ModelsList M.types elem elemPtr long size others μ a l)
    (hx : M.types.Conforms elem x)
    (hQ : ∀ μ', ModelsList M.types elem elemPtr long size others μ' a (l ++ [x]) → Q (.ptr a) μ') :
    Enters M limits (callWithin M limits level) name E Q source b.entry
      [(v.array, .ptr a), (v.value, x)] μ := by
  have hμ := hlist.bounded
  obtain ⟨data, capacity, harray, hlive⟩ := hlist.array
  obtain ⟨full, hentry⟩ := hcode.entry.entry
  have hsmall : capacity < wordRange / 2 := Nat.lt_trans (harray.capacity_lt hμ) (by decide)
  have hstack := allocStack_of_isBounded hμ (by decide : 0 < 8)
    (by decide : stackBase + 8 + 8 < wordRange)
  refine .of_listing hentry (by simp [Plain]) (by simp) ?_
  refine .alloca ht.isWord_long.2 ht.isWord_long.1 ?_ ?_
  · intro e μ' hfault
    rcases hstack with ⟨e', he, hlimit⟩ | ⟨_, _, halloc, -⟩
    · cases he.symm.trans hfault
      exact hlimit
    · cases halloc.symm.trans hfault
  intro counter μ₁ halloc
  rcases hstack with ⟨e, he, -⟩ | ⟨counter', μ₁', halloc', hblock, -, hlive₁⟩
  · cases he.symm.trans halloc
  cases halloc'.symm.trans halloc
  have harray₁ := harray.of_retains hblock.retains hblock.bounded
  refine .field (ht.fieldOffset_eq (by decide))
    (addressPlus_field (i := dataField) harray.fields.room (by decide)) ?_
  refine .field (ht.fieldOffset_eq (by decide))
    (addressPlus_field (i := lengthField) harray.fields.room (by decide)) ?_
  refine .field (ht.fieldOffset_eq (by decide))
    (addressPlus_field (i := capacityField) harray.fields.room (by decide)) ?_
  refine .load harray₁.fields.atLength.read (.load harray₁.fields.atCapacity.read (.icmp ?_))
  have hlength : l.length < wordRange / 2 := Nat.lt_of_le_of_lt harray.fits hsmall
  rw [holds_eq_ofNat hlength hsmall]
  refine .condBr ?_ (by simp : v.env a x counter l.length capacity ⊆ _)
  by_cases hfull : l.length = capacity
  · subst hfull
    rw [if_pos (by simp)]
    refine enters_grow hcode ht hcalloc hfree hμ hunit harray hblock ?_
    intro newData μ₂ harray₂ hμ₂ hlive₂
    refine enters_push hcode.store ht hμ₂ harray₂ (lt_nextCapacity _) hx ?_
    intro μ₃ harray₃ hμ₃ hlive₃
    refine hQ μ₃ ⟨hμ₃, newData, _, harray₃, ?_⟩
    have hnew : blocksOf (nextCapacity l.length) = 1 :=
      if_neg (Nat.ne_of_gt (Nat.zero_lt_of_lt (lt_nextCapacity _)))
    rw [hlive₃, hlive₂, hlive₁, hlive, hnew]
    unfold blocksOf
    omega
  · rw [if_neg (by simpa using hfull)]
    refine enters_push hcode.store ht hblock.bounded harray₁
      (Nat.lt_of_le_of_ne harray.fits hfull) hx ?_
    intro μ₂ harray₂ hμ₂ hlive₂
    exact hQ μ₂ ⟨hμ₂, data, capacity, harray₂, by rw [hlive₂, hlive₁, hlive]⟩

end Append

/-! ### Indexing -/

section Index

variable {entry outOfBounds inBounds : BlockId} {array index : ValueId} {i : Int64}

/-- An index is inside of the bounds. -/
def InBounds (i : Int64) (l : List Val) : Prop := 0 ≤ i.toInt ∧ i.toInt < l.length

instance : Decidable (InBounds i l) := inferInstanceAs (Decidable (_ ∧ _))

theorem InBounds.exists_getElem? (h : InBounds i l) : ∃ k x, i = Int64.ofNat k ∧ l[k]? = some x := by
  obtain ⟨hlow, hhigh⟩ := h
  have hlt : i.toInt.toNat < l.length := by omega
  refine ⟨i.toInt.toNat, l[i.toInt.toNat], ?_, List.getElem?_eq_getElem hlt⟩
  have hword : i.toInt.toNat < wordRange / 2 := by
    have := i.toInt_lt
    simp only [wordRange]
    omega
  rw [← Int64.toInt_inj, toInt_ofNat_of_lt_half hword]
  omega

/-- The two comparisons find the indices that are not. -/
theorem holds_bounds (hlength : l.length < wordRange / 2) :
    (IntPredicate.slt.holds i 0 || IntPredicate.sge.holds i (Int64.ofNat l.length)) =
      decide (¬InBounds i l) := by
  have hnegative : IntPredicate.slt.holds i 0 = decide (i.toInt < 0) := by
    rw [IntPredicate.holds, Bool.eq_iff_iff, decide_eq_true_iff, decide_eq_true_iff,
      Int64.lt_iff_toInt_lt]
    rfl
  have hbehind : IntPredicate.sge.holds i (Int64.ofNat l.length) =
      decide ((l.length : Int) ≤ i.toInt) := by
    rw [IntPredicate.holds, Bool.eq_iff_iff, decide_eq_true_iff, decide_eq_true_iff,
      Int64.le_iff_toInt_le, toInt_ofNat_of_lt_half hlength]
  rw [hnegative, hbehind, Bool.eq_iff_iff, Bool.or_eq_true, decide_eq_true_iff,
    decide_eq_true_iff, decide_eq_true_iff, InBounds]
  omega

theorem evalInt_or_truth (p q : Bool) :
    evalInt .or (if p then 1 else 0) (if q then 1 else 0) 1 = some (if p || q then 1 else 0) := by
  cases p <;> cases q <;> decide

/-- The array is asked for its length, and then for the place of the element. -/
theorem enters_index (hcode : IndexCode M entry outOfBounds inBounds array index ty elem elemPtr long)
    (ht : M.types.HasArray ty elem elemPtr long size) (habort : M.IsExternal "abort")
    {others : Nat} (hlist : ModelsList M.types elem elemPtr long size others μ a l)
    (hE : ¬InBounds i l → E (.failed .aborted) μ)
    (hQ : ∀ k x place, InBounds i l → i = Int64.ofNat k → l[k]? = some x →
      μ.Contains M.types place elem size x → Q (.ptr place) μ) :
    Enters M limits (callWithin M limits level) name E Q source entry
      [(array, .ptr a), (index, .int i)] μ := by
  obtain ⟨data, capacity, harray, -⟩ := hlist.array
  obtain ⟨lengthPtr, length, zero, negative, behind, bad, hzero, hentry⟩ := hcode.entry
  obtain ⟨abort, aborted, hname, hout⟩ := hcode.outOfBounds
  obtain ⟨dataPtr, buffer, slot, hin⟩ := hcode.inBounds
  have hlength : l.length < wordRange / 2 := Nat.lt_of_le_of_lt harray.fits
    (Nat.lt_trans (harray.capacity_lt hlist.bounded) (by decide))
  refine .of_listing hentry (by simp [Plain]) (by simp) ?_
  refine .field (ht.fieldOffset_eq (by decide))
    (addressPlus_field (i := lengthField) harray.fields.room (by decide)) ?_
  refine .load harray.fields.atLength.read (.icmp (.icmp ?_))
  refine .binary rfl (evalInt_or_truth _ _) ?_
  rw [holds_bounds hlength]
  change Runs M limits _ name E Q entry ((bad, truth (decide (¬InBounds i l))) :: _) [] _ μ
  by_cases hbounds : InBounds i l
  · refine .condBr (?_ : Enters M limits _ name E Q (some entry) _
      [(array, .ptr a), (index, .int i)] μ) (by simp)
    rw [if_neg (by simpa using hbounds)]
    obtain ⟨k, x, rfl, hx⟩ := hbounds.exists_getElem?
    have hitem := harray.items k x hx
    refine .of_listing hin (by simp [Plain]) (by simp) ?_
    refine .field (ht.fieldOffset_eq (by decide))
      (addressPlus_field (i := dataField) harray.fields.room (by decide)) ?_
    refine .load harray.fields.atData.read (.element ht.sizeOf ?_)
    rw [element_eq_slot]
    exact .ret (hQ k x _ hbounds rfl hx hitem)
  · refine .condBr (?_ : Enters M limits _ name E Q (some entry) _ [] μ) (List.nil_subset _)
    rw [if_pos (by simpa using hbounds)]
    refine .of_listing hout (by simp [Plain]) (by simp) ?_
    exact .invoke (P := fun _ _ => False) .nil
      (fun s hs => delivers_abort habort hname (hs ▸ hE hbounds)) fun _ _ => False.elim

end Index

/-! ### Deletion -/

section Delete

variable {entry freeBlock reset : BlockId} {v : DeleteValues} {others : Nat}

/-- The shared values of the blocks. -/
abbrev DeleteValues.env (v : DeleteValues) (a : UInt64) (capacity : Nat) : List (ValueId × Val) :=
  [(v.array, .ptr a), (v.dataPtr, .ptr (fieldAt a dataField)),
    (v.lengthPtr, .ptr (fieldAt a lengthField)), (v.capacityPtr, .ptr (fieldAt a capacityField)),
    (v.capacity, .int (Int64.ofNat capacity))]

theorem DeleteValues.mem_shared {a : UInt64} {p : ValueId × Val} (hp : p ∈ v.env a capacity) :
    p.1 ∈ v.shared :=
  List.mem_map_of_mem (f := Prod.fst) hp

variable (hcode : DeleteCode M entry freeBlock reset v ty elemPtr long)
  (ht : M.types.HasArray ty elem elemPtr long size)

include hcode ht

theorem enters_reset {n : Nat} (hμ : μ.IsBounded)
    (harray : Represents M.types elem elemPtr long size μ a l data capacity)
    (hQ : ∀ μ', ModelsList M.types elem elemPtr long size μ.live μ' a [] → Q .void μ') :
    Enters M limits call name E Q source reset (v.env a n) μ := by
  obtain ⟨null, stored, stored', stored'', hnull, hlisting⟩ := hcode.reset
  obtain ⟨μ₁, μ₂, μ₃, hwrite₁, hwrite₂, hwrite₃, hclear, hμ₃, hlive⟩ := harray.clear ht hμ
  have := hcode.zero
  refine .of_listing hlisting (by simp [Plain]) (fun p => DeleteValues.mem_shared) ?_
  exact .store hwrite₁ (.store hwrite₂ (.store hwrite₃ (.retVoid (hQ μ₃ ⟨hμ₃, 0, 0, hclear, hlive⟩))))

/-- The buffer is given back, and then the fields are cleared. -/
theorem enters_freeBlock (hfree : M.IsExternal "free") (hμ : μ.IsBounded)
    (harray : Represents M.types elem elemPtr long size μ a l data capacity) (hne : capacity ≠ 0)
    (hQ : ∀ μ', ModelsList M.types elem elemPtr long size (μ.live - 1) μ' a [] → Q .void μ') :
    Enters M limits (callWithin M limits level) name E Q source freeBlock (v.env a capacity) μ := by
  obtain ⟨buffer, free, raw, extra, freed, hname, hextra, hlisting⟩ := hcode.freeBlock
  have hdata : data ≠ 0 := by
    rintro rfl
    exact absurd (harray.buffer hne).heap (by decide)
  have hretains := retains_free μ data
  refine .of_listing hlisting (by simp [Plain]) (fun p => DeleteValues.mem_shared) ?_
  refine .load harray.fields.atData.read (.converts hextra List.mem_cons_self ?_)
  intro more hmem
  have : Frame.Settled M (more ++ (buffer, .ptr data) :: v.env a capacity) raw (.ptr data) :=
    ⟨.inl hmem⟩
  refine .invoke (P := fun _ μ' => μ' = μ.free data) (.cons inferInstance .nil)
    (fun s hs => hs ▸ delivers_free hfree hname) ?_
  rintro y _ rfl
  refine .br (enters_reset hcode ht (n := capacity) (hμ.free data)
    (harray.of_retains hretains (hμ.free data)) fun μ' hlist => ?_) ?_
  · exact hQ μ' (live_free μ hdata ▸ hlist)
  · exact List.subset_cons_of_subset _
      (List.subset_append_of_subset_right more (List.subset_cons_self _ _))

/-- The buffer is given back if there is one, and an empty array is left. -/
theorem enters_delete (hfree : M.IsExternal "free")
    (hlist : ModelsList M.types elem elemPtr long size others μ a l)
    (hQ : ∀ μ', ModelsList M.types elem elemPtr long size others μ' a [] → Q .void μ') :
    Enters M limits (callWithin M limits level) name E Q source entry [(v.array, .ptr a)] μ := by
  have hμ := hlist.bounded
  obtain ⟨data, capacity, harray, hlive⟩ := hlist.array
  obtain ⟨hadBuffer, hlisting⟩ := hcode.entry
  have hzero := hcode.zero
  have hsmall : capacity < wordRange / 2 := Nat.lt_trans (harray.capacity_lt hμ) (by decide)
  refine .of_listing hlisting (by simp [Plain]) (by simp) ?_
  refine .field (ht.fieldOffset_eq (by decide))
    (addressPlus_field (i := dataField) harray.fields.room (by decide)) ?_
  refine .field (ht.fieldOffset_eq (by decide))
    (addressPlus_field (i := lengthField) harray.fields.room (by decide)) ?_
  refine .field (ht.fieldOffset_eq (by decide))
    (addressPlus_field (i := capacityField) harray.fields.room (by decide)) ?_
  refine .load harray.fields.atCapacity.read (.icmp ?_)
  rw [holds_ne_zero hsmall]
  refine .condBr (?_ : Enters M limits _ name E Q (some entry) _ (v.env a capacity) μ) (by simp)
  by_cases hne : capacity = 0
  · rw [if_neg (by simpa using hne)]
    have hothers : μ.live = others := by rw [hlive, blocksOf, if_pos hne, Nat.add_zero]
    exact enters_reset hcode ht hμ harray fun μ' hlist' => hQ μ' (hothers ▸ hlist')
  · rw [if_pos (by simpa using hne)]
    have hothers : μ.live - 1 = others := by rw [hlive, blocksOf, if_neg hne, Nat.add_sub_cancel]
    exact enters_freeBlock hcode ht hfree hμ harray hne fun μ' hlist' => hQ μ' (hothers ▸ hlist')

end Delete

/-! ### Calls of the operators -/

section Calls

variable {f : FunctionId} {s : MachineState} {others : Nat}

/-- A call of a function that can be run. -/
theorem delivers_of_runnable {entry : BlockId} {params : List ValueId} {args : List Val}
    (hf : M.Runnable f entry params) (hlength : params.length ≤ args.length)
    (h : ∀ level name, Enters M limits (callWithin M limits level) name
      (fun e μ => E e (μ.resetStack s.memory.stack.size))
      (fun y μ => Q y (μ.resetStack s.memory.stack.size)) none entry (params.zip args) s.memory) :
    Delivers (Exec.call M limits f args s) E fun y s' => Q y s'.memory := by
  obtain ⟨d, hd, hentry, rfl⟩ := hf.function
  exact delivers_call hd hentry hlength hf.params fun level => h level d.name

/-- Appending answers with the array, which models the longer list. -/
theorem delivers_append {b : AppendBlocks} {v : AppendValues}
    (hf : M.Runnable f b.entry [v.array, v.value])
    (hcode : AppendCode M b v (sizeWord (max size 1)) ty elem elemPtr long)
    (ht : M.types.HasArray ty elem elemPtr long size) (hcalloc : M.IsExternal "calloc")
    (hfree : M.IsExternal "free") (hunit : stackBase + 4 * max size 1 + blockAlign < wordRange)
    (hlist : ModelsList M.types elem elemPtr long size others s.memory a l)
    (hx : M.types.Conforms elem x) :
    Delivers (Exec.call M limits f [.ptr a, x] s) (fun _ _ => False) fun y s' =>
      y = .ptr a ∧ ModelsList M.types elem elemPtr long size others s'.memory a (l ++ [x]) :=
  delivers_of_runnable (E := fun _ _ => False) (Q := fun y μ =>
      y = .ptr a ∧ ModelsList M.types elem elemPtr long size others μ a (l ++ [x])) hf
    (Nat.le_refl 2) fun _ _ => enters_append hcode ht hcalloc hfree hunit hlist hx
      fun _ hlist' => ⟨rfl, hlist'.resetStack hlist.le_stack⟩

/-- Indexing answers with the place of an element, or it ends the program. It leaves the memory
alone. -/
theorem delivers_index {entry outOfBounds inBounds : BlockId} {array index : ValueId} {i : Int64}
    (hf : M.Runnable f entry [array, index])
    (hcode : IndexCode M entry outOfBounds inBounds array index ty elem elemPtr long)
    (ht : M.types.HasArray ty elem elemPtr long size) (habort : M.IsExternal "abort")
    (hlist : ModelsList M.types elem elemPtr long size others s.memory a l) :
    Delivers (Exec.call M limits f [.ptr a, .int i] s)
      (fun e μ => e = .failed .aborted ∧ ¬InBounds i l ∧ μ = s.memory) fun y s' =>
      s'.memory = s.memory ∧ InBounds i l ∧ ∃ k x place, i = Int64.ofNat k ∧ l[k]? = some x ∧
        y = .ptr place ∧ s.memory.Contains M.types place elem size x := by
  refine delivers_of_runnable (E := fun e μ => e = .failed .aborted ∧ ¬InBounds i l ∧ μ = s.memory)
    (Q := fun y μ => μ = s.memory ∧ InBounds i l ∧ ∃ k x place, i = Int64.ofNat k ∧
      l[k]? = some x ∧ y = .ptr place ∧ s.memory.Contains M.types place elem size x)
    hf (Nat.le_refl 2) fun _ _ => ?_
  exact enters_index hcode ht habort hlist (fun hbounds => ⟨rfl, hbounds, resetStack_self _⟩)
    fun k x place hbounds hi hx hplace =>
      ⟨resetStack_self _, hbounds, k, x, place, hi, hx, rfl, hplace⟩

/-- Deletion leaves an empty array. -/
theorem delivers_delete {entry freeBlock reset : BlockId} {v : DeleteValues}
    (hf : M.Runnable f entry [v.array])
    (hcode : DeleteCode M entry freeBlock reset v ty elemPtr long)
    (ht : M.types.HasArray ty elem elemPtr long size) (hfree : M.IsExternal "free")
    (hlist : ModelsList M.types elem elemPtr long size others s.memory a l) :
    Delivers (Exec.call M limits f [.ptr a] s) (fun _ _ => False) fun y s' =>
      y = .void ∧ ModelsList M.types elem elemPtr long size others s'.memory a [] :=
  delivers_of_runnable (E := fun _ _ => False) (Q := fun y μ =>
      y = .void ∧ ModelsList M.types elem elemPtr long size others μ a []) hf (Nat.le_refl 1)
    fun _ _ => enters_delete hcode ht hfree hlist
      fun _ hlist' => ⟨rfl, hlist'.resetStack hlist.le_stack⟩

end Calls

end DynamicArray

end SsaCompiler
