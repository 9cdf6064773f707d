/-
# Blocks of memory

Memory is handed out behind what is there already, on the heap as on the stack. So a later memory
retains every byte of an earlier one until something is stored there, and a new block lies apart
from every place that existed before. This needs memory to be bounded, because the heap grows
towards the stack.
-/

import SsaCompiler.Proofs.Machine.Limit
import SsaCompiler.Proofs.Machine.Memory

namespace SsaCompiler

open MeetsLimit

/-! ### Regions -/

@[simp]
theorem size_extendZero (region : Array UInt8) (n : Nat) :
    (extendZero region n).size = region.size + n := by
  induction n generalizing region with
  | zero => rfl
  | succ n ih =>
      rw [extendZero, ih, Array.size_push]
      omega

/-- They leave those that were there. -/
theorem getElem?_extendZero {region : Array UInt8} {i : Nat} (hi : i < region.size) (n : Nat) :
    (extendZero region n)[i]? = region[i]? := by
  induction n generalizing region with
  | zero => rfl
  | succ n ih =>
      rw [extendZero, ih (by rw [Array.size_push]; omega), Array.getElem?_push,
        if_neg (by omega)]

/-- A block starts behind a region, and not far behind it. -/
theorem blockStart_bounds (region : Array UInt8) {align : Nat} (halign : 0 < align) :
    region.size ≤ Memory.blockStart region align ∧
      Memory.blockStart region align < region.size + align := by
  unfold Memory.blockStart
  have hmax : max align 1 = align := by omega
  rw [hmax]
  have hdiv := Nat.div_add_mod (region.size + align - 1) align
  have hmod := Nat.mod_lt (region.size + align - 1) halign
  rw [Nat.mul_comm] at hdiv
  omega

namespace Memory

variable {m m' m'' m₀ : Memory} {lo hi lo' hi' : Nat} {a : UInt64} {size align mark : Nat}
  {t : TypeTable} {ty : TypeId} {v w : Val}

/-! ### Bounded memories -/

/-- A memory that is within its limit, with a limit below which the heap does not reach the
stack. -/
structure IsBounded (m : Memory) : Prop where
  used : m.used ≤ m.limit
  limit : heapBase + m.limit ≤ stackBase

/-- A heap within the limit ends below the stack. -/
theorem IsBounded.heap (h : m.IsBounded) : heapBase + m.heap.size ≤ stackBase := by
  have hused := h.used
  have hlimit := h.limit
  unfold Memory.used at hused
  omega

/-- Storing does not use more memory. -/
theorem IsBounded.of_changesOnly (h : m.IsBounded) (hchange : m.ChangesOnly lo hi m') :
    m'.IsBounded := by
  have hheap : m'.heap.size = m.heap.size := hchange.size false
  have hstack : m'.stack.size = m.stack.size := hchange.size true
  have hused := h.used
  refine ⟨?_, hchange.limit ▸ h.limit⟩
  unfold Memory.used at hused ⊢
  rwa [hheap, hstack, hchange.limit]

/-! ### Later memories -/

/-- A later memory with every byte of an earlier one, and perhaps with more behind. -/
structure Retains (m m' : Memory) : Prop where
  bytes : ∀ isStack i, i < (m.region isStack).size →
    (m'.region isStack)[i]? = (m.region isStack)[i]?
  limit : m'.limit = m.limit

theorem Retains.refl (m : Memory) : m.Retains m := ⟨fun _ _ _ => rfl, rfl⟩

theorem Retains.size_le (h : m.Retains m') (isStack : Bool) :
    (m.region isStack).size ≤ (m'.region isStack).size := by
  refine Nat.le_of_not_lt fun hlt => ?_
  have hlast := h.bytes isStack (m'.region isStack).size hlt
  rw [Array.getElem?_eq_none (Nat.le_refl _), Array.getElem?_eq_getElem hlt] at hlast
  cases hlast

theorem Retains.trans (h : m.Retains m') (h' : m'.Retains m'') : m.Retains m'' where
  bytes isStack i hi :=
    (h'.bytes isStack i (Nat.lt_of_lt_of_le hi (h.size_le isStack))).trans (h.bytes isStack i hi)
  limit := h'.limit.trans h.limit

theorem HasRoom.of_retains (h : m.HasRoom lo hi) (hretains : m.Retains m') : m'.HasRoom lo hi := by
  obtain ⟨isStack, hbase, hsize, hword, htop⟩ := h
  have := hretains.size_le isStack
  exact ⟨isStack, hbase, by omega, hword, htop⟩

/-- Where there was room the bytes are the same. -/
theorem HasRoom.agreesOn (h : m.HasRoom lo hi) (hretains : m.Retains m') (hm' : m'.IsBounded) :
    m.AgreesOn lo hi m' := by
  obtain ⟨isStack, hbase, hsize, hword, htop⟩ := h
  intro isStack' i hlo hhi
  have hheap := hm'.heap
  have hgrows := hretains.size_le isStack'
  cases isStack <;> cases isStack' <;>
    simp only [base, Bool.false_eq_true, ↓reduceIte] at hbase hsize hlo hhi htop
  · exact hretains.bytes false i (by omega)
  · -- Heap below the stack.
    have := htop trivial
    omega
  · -- The heap ends below the stack, so it has no such byte.
    simp only [region, Bool.false_eq_true, ↓reduceIte] at hgrows ⊢
    rw [Array.getElem?_eq_none (by omega), Array.getElem?_eq_none (by omega)]
  · exact hretains.bytes true i (by omega)

/-! ### Fresh addresses -/

/-- The addresses from `lo` up to `hi` are behind the end of a region. -/
def IsFresh (m : Memory) (lo hi : Nat) : Prop :=
  ∃ isStack, base isStack + (m.region isStack).size ≤ lo ∧ (isStack = false → hi ≤ stackBase)

/-- What is fresh later was fresh before. -/
theorem IsFresh.of_retains (h : m'.IsFresh lo hi) (hretains : m.Retains m') : m.IsFresh lo hi := by
  obtain ⟨isStack, hbase, htop⟩ := h
  have := hretains.size_le isStack
  exact ⟨isStack, by omega, htop⟩

/-- Fresh addresses are apart from the places that exist. -/
theorem IsFresh.apart (h : m.IsFresh lo hi) (hm : m.IsBounded) (hroom : m.HasRoom lo' hi') :
    hi' ≤ lo ∨ hi ≤ lo' := by
  obtain ⟨isStack, hfresh, htop⟩ := h
  obtain ⟨isStack', hbase, hsize, -, htop'⟩ := hroom
  have hheap := hm.heap
  cases isStack <;> cases isStack' <;>
    simp only [base, region, Bool.false_eq_true, ↓reduceIte] at hfresh hbase hsize htop htop'
  · exact .inl (by omega)
  · exact .inr (by have := htop trivial; omega)
  · exact .inl (by have := htop' trivial; omega)
  · exact .inl (by omega)

/-- What is stored at fresh addresses does not touch what was there. -/
theorem Retains.of_changesOnly (h : m.Retains m') (hm : m.IsBounded) (hfresh : m.IsFresh lo hi)
    (hchange : m'.ChangesOnly lo hi m'') : m.Retains m'' where
  bytes isStack i hlt := by
    refine (hchange.bytes isStack i ?_).trans (h.bytes isStack i hlt)
    obtain ⟨isStack', hbase, htop⟩ := hfresh
    have hheap := hm.heap
    cases isStack <;> cases isStack' <;>
      simp only [base, region, Bool.false_eq_true, ↓reduceIte] at hlt hbase htop ⊢
    · exact .inl (by omega)
    · exact .inl (by omega)
    · exact .inr (by have := htop trivial; omega)
    · exact .inl (by omega)
  limit := hchange.limit.trans h.limit

/-! ### New blocks -/

/-- A block that has been handed out: it is behind everything that was there. -/
structure IsBlock (m : Memory) (a : UInt64) (size : Nat) (m' : Memory) : Prop where
  retains : m.Retains m'
  bounded : m'.IsBounded
  fresh : m.IsFresh a.toNat (a.toNat + size)
  room : m'.HasRoom a.toNat (a.toNat + size)

/-- A request is refused when its size and its alignment together pass the limit. -/
theorem checkLimit_eq (m : Memory) (size align : Nat)
    (hfits : m.used + (size + align) < wordRange) :
    m.checkLimit size align =
      if m.used + (size + align) > m.limit then
        Fallible.fail (.outOfMemory (size + align) m.limit)
      else pure () := by
  have hrequested : Checked.word (size + align) = .ok (size + align) :=
    Checked.word_eq_ok_iff.2 ⟨by omega, rfl⟩
  have htotal : Checked.word (m.used + (size + align)) = .ok (m.used + (size + align)) :=
    Checked.word_eq_ok_iff.2 ⟨hfits, rfl⟩
  unfold checkLimit
  rw [hrequested]
  change (liftM (Checked.word (m.used + (size + align))) >>= _ : Fallible Unit) = _
  rw [htotal]
  rfl

/-- A region that has been made longer for a block behind its end. -/
theorem size_grow {region : Array UInt8} {start : Nat} (hstart : region.size ≤ start) (size : Nat) :
    (grow region start size).size = start + max size 1 := by
  rw [grow, size_extendZero]
  omega

/-- A region that has been made longer holds a new block. -/
theorem isBlock_of_grow {b : Bool} {start : Nat} (hm' : m'.IsBounded)
    (hstart : (m.region b).size ≤ start) (hregion : m'.region b = grow (m.region b) start size)
    (hother : m'.region (!b) = m.region (!b)) (hlimit : m'.limit = m.limit)
    (ha : a.toNat = base b + start) (htop : b = false → a.toNat + max size 1 ≤ stackBase)
    (hword : a.toNat + max size 1 < wordRange) : m.IsBlock a (max size 1) m' where
  retains := by
    refine ⟨fun isStack i hi => ?_, hlimit⟩
    by_cases hsame : isStack = b
    · subst hsame
      rw [hregion]
      exact getElem?_extendZero hi _
    · obtain rfl : isStack = !b := by cases b <;> cases isStack <;> simp_all
      rw [hother]
  bounded := hm'
  fresh := ⟨b, by omega, htop⟩
  room := ⟨b, by omega, by rw [hregion, size_grow hstart]; omega, hword, htop⟩

/-- The memory is used by both regions. -/
theorem used_eq (m : Memory) (b : Bool) :
    m.used = (m.region b).size + (m.region (!b)).size := by
  cases b
  · rfl
  · exact Nat.add_comm _ _

/-- A new zeroed block of one of the two regions. -/
def allocate (b : Bool) (size align : Nat) : MemoryOp UInt64 :=
  if b then allocStack size align else allocHeap size align

/-- A memory in which one region has been made longer for a block at a start behind its end. -/
structure Grows (m : Memory) (b : Bool) (start size : Nat) (m' : Memory) : Prop where
  region : m'.region b = grow (m.region b) start size
  other : m'.region (!b) = m.region (!b)
  limit : m'.limit = m.limit
  live : m'.live = if b then m.live else m.live + 1

/-- Either region hands out a block right behind its end, or the request would pass the limit and
nothing changes. -/
theorem allocate_cases (hm : m.IsBounded) (halign : 0 < align)
    (hsize : stackBase + size + align < wordRange) (b : Bool) :
    allocate b size align m = .error (.failed (.outOfMemory (size + align) m.limit)) m ∨
      ∃ a m', allocate b size align m = .ok a m' ∧
        a.toNat = base b + blockStart (m.region b) align ∧
        m.Grows b (blockStart (m.region b) align) size m' ∧ m'.IsBounded := by
  obtain ⟨hstart, hclose⟩ := blockStart_bounds (m.region b) halign
  have hused := hm.used
  have hlimit := hm.limit
  have hregions := m.used_eq b
  have hcheck := m.checkLimit_eq size align (by omega)
  by_cases hmet : m.used + (size + align) > m.limit
  · left
    have hplace : m.place (m.region b) size align =
        .error (.failed (.outOfMemory (size + align) m.limit)) := by
      rw [place, hcheck, if_pos hmet]
      rfl
    cases b
    · change allocHeap size align m = _
      unfold allocHeap
      rw [show m.place m.heap size align = _ from hplace]
    · change allocStack size align m = _
      unfold allocStack
      rw [show m.place m.stack size align = _ from hplace]
  right
  have hbase : stackBase + stackBase < wordRange / 2 := by decide
  have hbound : base b ≤ stackBase := by cases b <;> decide
  have hplace : m.place (m.region b) size align = .ok (blockStart (m.region b) align) := by
    rw [place, hcheck, if_neg hmet]
    exact if_pos (by omega)
  have haddress : (UInt64.ofNat (base b + blockStart (m.region b) align)).toNat =
      base b + blockStart (m.region b) align :=
    UInt64.toNat_ofNat_of_lt' (by change _ < wordRange; omega)
  have hgrown := size_grow hstart size
  -- The run is taken apart for each region, what it leaves behind is bounded for both alike.
  have hbounded : ∀ {m'}, m.Grows b (blockStart (m.region b) align) size m' → m'.IsBounded := by
    intro m' hgrows
    have hused' := m'.used_eq b
    rw [hgrows.region, hgrows.other, hgrown] at hused'
    exact ⟨by rw [hgrows.limit]; omega, hgrows.limit ▸ hlimit⟩
  obtain ⟨heap, stack, limit, live⟩ := m
  cases b
  · have hgrows : Grows ⟨heap, stack, limit, live⟩ false (blockStart heap align) size
        ⟨grow heap (blockStart heap align) size, stack, limit, live + 1⟩ := ⟨rfl, rfl, rfl, rfl⟩
    refine ⟨_, _, ?_, haddress, hgrows, hbounded hgrows⟩
    change allocHeap size align _ = _
    unfold allocHeap
    rw [show place _ heap size align = _ from hplace]
    rfl
  · have hgrows : Grows ⟨heap, stack, limit, live⟩ true (blockStart stack align) size
        ⟨heap, grow stack (blockStart stack align) size, limit, live⟩ := ⟨rfl, rfl, rfl, rfl⟩
    refine ⟨_, _, ?_, haddress, hgrows, hbounded hgrows⟩
    change allocStack size align _ = _
    unfold allocStack
    rw [show place _ stack size align = _ from hplace]
    rfl

/-- The heap hands out a block behind everything that was there, or the limit is met. -/
theorem allocHeap_of_isBounded (hm : m.IsBounded) (halign : 0 < align)
    (hsize : stackBase + size + align < wordRange) :
    (∃ e, allocHeap size align m = .error e m ∧ IsLimit e) ∨
      ∃ a m', allocHeap size align m = .ok a m' ∧ m.IsBlock a (max size 1) m' ∧
        heapBase ≤ a.toNat ∧ a.toNat + max size 1 ≤ heapBase + m'.heap.size ∧
        m'.stack = m.stack ∧ m'.live = m.live + 1 := by
  rcases allocate_cases hm halign hsize false with herror | ⟨a, m', hrun, ha, hgrows, hm'⟩
  · exact .inl ⟨_, herror, trivial⟩
  obtain ⟨hstart, -⟩ := blockStart_bounds m.heap halign
  have hheap : m'.heap.size = blockStart m.heap align + max size 1 :=
    (congrArg Array.size hgrows.region).trans (size_grow hstart size)
  have hend := hm'.heap
  have hbase : stackBase < wordRange := by decide
  change a.toNat = heapBase + blockStart m.heap align at ha
  exact .inr ⟨a, m', hrun, isBlock_of_grow hm' hstart hgrows.region hgrows.other hgrows.limit ha
    (fun _ => by omega) (by omega), by omega, by omega, hgrows.other, hgrows.live⟩

theorem allocStack_of_isBounded (hm : m.IsBounded) (halign : 0 < align)
    (hsize : stackBase + size + align < wordRange) :
    (∃ e, allocStack size align m = .error e m ∧ IsLimit e) ∨
      ∃ a m', allocStack size align m = .ok a m' ∧ m.IsBlock a (max size 1) m' ∧
        m'.heap = m.heap ∧ m'.live = m.live := by
  rcases allocate_cases hm halign hsize true with herror | ⟨a, m', hrun, ha, hgrows, hm'⟩
  · exact .inl ⟨_, herror, trivial⟩
  obtain ⟨hstart, -⟩ := blockStart_bounds m.stack halign
  have hstack : m'.stack.size = blockStart m.stack align + max size 1 :=
    (congrArg Array.size hgrows.region).trans (size_grow hstart size)
  have hused := hm'.used
  have hlimit := hm'.limit
  have hbase : stackBase + stackBase < wordRange := by decide
  unfold used at hused
  change a.toNat = stackBase + blockStart m.stack align at ha
  exact .inr ⟨a, m', hrun, isBlock_of_grow hm' hstart hgrows.region hgrows.other hgrows.limit ha
    (fun hheap => by cases hheap) (by omega), hgrows.other, hgrows.live⟩

/-! ### Blocks that are given back -/

/-- Giving a block back takes no byte away. -/
theorem retains_free (m : Memory) (a : UInt64) : m.Retains (m.free a) := by
  unfold free
  split
  · exact .refl m
  · exact ⟨fun isStack _ _ => by cases isStack <;> rfl, rfl⟩

theorem IsBounded.free (h : m.IsBounded) (a : UInt64) : (m.free a).IsBounded := by
  unfold Memory.free
  split
  · exact h
  · exact ⟨h.used, h.limit⟩

theorem live_free (m : Memory) (ha : a ≠ 0) : (m.free a).live = m.live - 1 := by
  rw [free, if_neg ha]

/-! ### The end of a call -/

/-- The stack is cut back, and the rest is as it was. -/
theorem resetStack_eq (m : Memory) (mark : Nat) :
    m.resetStack mark = ⟨m.heap, m.stack.shrink mark, m.limit, m.live⟩ := rfl

/-- A shorter stack uses less memory. -/
theorem IsBounded.resetStack (h : m.IsBounded) (mark : Nat) : (m.resetStack mark).IsBounded := by
  have hused := h.used
  refine ⟨?_, h.limit⟩
  rw [resetStack_eq]
  unfold Memory.used at hused ⊢
  have hshrink : (m.stack.shrink mark).size ≤ m.stack.size := by
    rw [Array.size_shrink]
    omega
  dsimp only
  omega

/-- Room below the place where the stack is cut stays. -/
theorem HasRoom.resetStack (h : m.HasRoom lo hi) (hmark : hi ≤ stackBase + mark) :
    (m.resetStack mark).HasRoom lo hi := by
  obtain ⟨isStack, hbase, hsize, hword, htop⟩ := h
  refine ⟨isStack, hbase, ?_, hword, htop⟩
  cases isStack with
  | false => exact hsize
  | true =>
      simp only [base, region, ↓reduceIte] at hsize ⊢
      rw [resetStack_eq, Array.size_shrink]
      omega

/-- The bytes below the place where the stack is cut are the same. -/
theorem agreesOn_resetStack (m : Memory) (lo : Nat) (hmark : hi ≤ stackBase + mark) :
    m.AgreesOn lo hi (m.resetStack mark) := by
  intro isStack i hlo hhi
  cases isStack with
  | false => rfl
  | true =>
      simp only [base, region, ↓reduceIte] at hhi ⊢
      rw [resetStack_eq]
      by_cases hi' : i < m.stack.size
      · have hshrunk : i < (m.stack.shrink mark).size := by
          rw [Array.size_shrink]
          omega
        rw [Array.getElem?_eq_getElem hshrunk, Array.getElem?_eq_getElem hi', Array.getElem_shrink]
      · rw [Array.getElem?_eq_none (by rw [Array.size_shrink]; omega),
          Array.getElem?_eq_none (by omega)]

/-- Every place ends below the end of the stack. -/
theorem HasRoom.le_stack (h : m.HasRoom lo hi) (hm : m.IsBounded) :
    hi ≤ stackBase + m.stack.size := by
  obtain ⟨isStack, hbase, hsize, -, -⟩ := h
  have hheap := hm.heap
  cases isStack <;> simp only [base, region, Bool.false_eq_true, ↓reduceIte] at hsize <;> omega

/-- A stack that is cut at its end stays. -/
theorem resetStack_self (m : Memory) : m.resetStack m.stack.size = m := by
  have hsame : m.stack.shrink m.stack.size = m.stack :=
    Array.ext (by simp) fun i _ _ => Array.getElem_shrink _
  rw [resetStack_eq, hsame]

/-! ### Places with values -/

/-- A value of a type is at an address. -/
structure Contains (m : Memory) (t : TypeTable) (a : UInt64) (ty : TypeId) (size : Nat) (v : Val) :
    Prop where
  conforms : t.Conforms ty v
  sizeOf : t.sizeOf ty = .ok size
  room : m.HasRoom a.toNat (a.toNat + size)
  read : m.read t a ty = .ok v

namespace Contains

theorem of_agreesOn (h : m.Contains t a ty size v) (hroom : m'.HasRoom a.toNat (a.toNat + size))
    (hagrees : m.AgreesOn a.toNat (a.toNat + size) m') : m'.Contains t a ty size v :=
  ⟨h.conforms, h.sizeOf, hroom, readsOwnBytes t _ h.conforms h.sizeOf h.read hagrees⟩

theorem of_retains (h : m.Contains t a ty size v) (hretains : m.Retains m') (hm' : m'.IsBounded) :
    m'.Contains t a ty size v :=
  h.of_agreesOn (h.room.of_retains hretains) (h.room.agreesOn hretains hm')

theorem of_changesOnly (h : m.Contains t a ty size v) (hchange : m.ChangesOnly lo hi m')
    (hapart : a.toNat + size ≤ lo ∨ hi ≤ a.toNat) : m'.Contains t a ty size v :=
  h.of_agreesOn (h.room.of_changesOnly hchange) (hchange.agreesOn hapart)

theorem resetStack (h : m.Contains t a ty size v) (hmark : a.toNat + size ≤ stackBase + mark) :
    (m.resetStack mark).Contains t a ty size v :=
  h.of_agreesOn (h.room.resetStack hmark) (agreesOn_resetStack m _ hmark)

end Contains

/-- A value is stored where there is room for it, and nothing else changes. -/
theorem exists_contains (hv : t.Conforms ty v) (hsize : t.sizeOf ty = .ok size)
    (hroom : m.HasRoom a.toNat (a.toNat + size)) :
    ∃ m', write t a ty v m = .ok () m' ∧ m'.Contains t a ty size v ∧
      m.ChangesOnly a.toNat (a.toNat + size) m' := by
  obtain ⟨m', hwrite⟩ := exists_write hv hsize hroom
  obtain ⟨hread, hchange⟩ := readsBack t _ hv hsize hwrite
  exact ⟨m', hwrite, ⟨hv, hsize, hroom.of_changesOnly hchange, hread⟩, hchange⟩

end Memory

end SsaCompiler
