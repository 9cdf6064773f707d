/-
# Blocks do not overlap

A program asks for blocks on the heap and on the stack, gives blocks back, stores, and cuts the stack
back, in any order. A ledger is kept beside the memory of the ranges that have been handed out. What
is handed out next is in none of them, is zero in all its bytes and leaves the memory within its
limit; a request that is refused changes nothing.

The ledger forgets nothing on the heap, not even what has been given back. On the stack it forgets
what lies behind the place where the stack is cut.
-/

import SsaCompiler.Proofs.Machine.Allocation

namespace SsaCompiler

/-! ### New bytes -/

/-- The bytes behind a region that has been made longer are zero. -/
theorem getElem?_extendZero_of_ge {region : Array UInt8} {n i : Nat} (hi : region.size ≤ i)
    (hn : i < region.size + n) : (extendZero region n)[i]? = some 0 := by
  induction n generalizing region with
  | zero => omega
  | succ n ih =>
      rw [extendZero]
      rcases Nat.eq_or_lt_of_le hi with heq | hlt
      · rw [getElem?_extendZero (by rw [Array.size_push]; omega), ← heq, Array.getElem?_push_size]
      · exact ih (by rw [Array.size_push]; omega) (by rw [Array.size_push]; omega)

/-- A block starts at a multiple of its alignment. -/
theorem dvd_blockStart (region : Array UInt8) {align : Nat} (halign : 0 < align) :
    align ∣ Memory.blockStart region align := by
  unfold Memory.blockStart
  rw [Nat.max_eq_left halign]
  exact Nat.dvd_mul_left _ _

namespace Memory

variable {m m' m'' : Memory} {a : UInt64} {start size align mark bound : Nat} {b : Bool}

/-- A new block can be read, and all its bytes are zero. -/
theorem Grows.readBytes_eq (h : m.Grows b start size m') (hm' : m'.IsBounded)
    (hstart : (m.region b).size ≤ start) (ha : a.toNat = base b + start) {n : Nat}
    (hn : n ≤ max size 1) : m'.readBytes a n = .ok (List.replicate n 0) := by
  have hsize : (m'.region b).size = start + max size 1 :=
    (congrArg Array.size h.region).trans (size_grow hstart size)
  have hlocate : locate? a = some (b, start) := by
    have hheap := hm'.heap
    unfold locate?
    cases b with
    | false =>
        change a.toNat = heapBase + start at ha
        change m'.heap.size = _ at hsize
        rw [if_neg (by omega), if_pos (by omega), ha, Nat.add_sub_cancel_left]
    | true =>
        change a.toNat = stackBase + start at ha
        rw [if_pos (by omega), ha, Nat.add_sub_cancel_left]
  refine readBytes_eq_ok_iff.2 ⟨b, start, hlocate, by omega, ?_⟩
  refine List.ext_getElem? fun i => ?_
  by_cases hi : i < n
  · have hzero : (m'.region b)[start + i]? = some 0 := by
      rw [h.region]
      exact getElem?_extendZero_of_ge (by omega) (by omega)
    rw [List.getElem?_replicate_of_lt hi, getElem?_bytesFrom hi, Array.getD_eq_getD_getElem?, hzero]
    rfl
  · rw [List.getElem?_eq_none (by simpa using hi), List.getElem?_eq_none (by simpa using hi)]

/-! ### Storing takes no room -/

/-- A memory with as many bytes in both regions and below the same limit. -/
structure SameRoom (m m' : Memory) : Prop where
  size : ∀ b, (m'.region b).size = (m.region b).size
  limit : m'.limit = m.limit

theorem SameRoom.refl (m : Memory) : m.SameRoom m := ⟨fun _ => rfl, rfl⟩

theorem SameRoom.trans (h : m.SameRoom m') (h' : m'.SameRoom m'') : m.SameRoom m'' :=
  ⟨fun b => (h'.size b).trans (h.size b), h'.limit.trans h.limit⟩

/-- A memory with as much room is bounded as well. -/
theorem SameRoom.isBounded (h : m.SameRoom m') (hm : m.IsBounded) : m'.IsBounded := by
  have hused := hm.used
  refine ⟨?_, h.limit ▸ hm.limit⟩
  rw [h.limit, m'.used_eq true, h.size, h.size, ← m.used_eq true]
  exact hused

end Memory

namespace MemoryOp

variable {α β : Type}

/-- The memory that an operation leaves behind, whether it succeeds or not. -/
def after (x : MemoryOp α) (m : Memory) : Memory :=
  match x m with
  | .ok _ m' => m'
  | .error _ m' => m'

/-- An operation that takes no room and gives none back, however it ends. -/
def KeepsRoom (x : MemoryOp α) : Prop := ∀ m : Memory, m.SameRoom (x.after m)

theorem KeepsRoom.pure (a : α) : KeepsRoom (pure a : MemoryOp α) := fun m => .refl m

theorem KeepsRoom.lift (x : Checked α) : KeepsRoom (liftM x : MemoryOp α) := fun m => by
  cases x <;> exact .refl m

/-- A computation that does not look at the memory. -/
theorem KeepsRoom.ofFallible (x : Fallible α) : KeepsRoom (ofFallible x) := fun m => by
  cases x <;> exact .refl m

theorem KeepsRoom.bind {x : MemoryOp α} {f : α → MemoryOp β} (hx : KeepsRoom x)
    (hf : ∀ a, KeepsRoom (f a)) : KeepsRoom (x >>= f) := fun m => by
  have hfirst := hx m
  unfold after at hfirst ⊢
  change m.SameRoom (match EStateM.bind x f m with | .ok _ m' => m' | .error _ m' => m')
  unfold EStateM.bind
  cases hrun : x m with
  | error e m' =>
      rw [hrun] at hfirst
      exact hfirst
  | ok a m' =>
      rw [hrun] at hfirst
      exact hfirst.trans (hf a m')

end MemoryOp

namespace Memory

open MemoryOp

/-- Bytes are stored where there are bytes. -/
theorem keepsRoom_writeBytes (a : UInt64) (bytes : List UInt8) : KeepsRoom (writeBytes a bytes) := by
  intro m
  unfold after
  cases hrun : writeBytes a bytes m with
  | ok _ m' =>
      have hchange := (readBytes_of_writeBytes hrun).2
      exact ⟨hchange.size, hchange.limit⟩
  | error e m' => exact (writeBytes_eq_error hrun).2 ▸ .refl m

theorem storesWith_keepsRoom (t : TypeTable) : StoresWith t fun {_} x => KeepsRoom x where
  pure a := .pure a
  bind hx hf := .bind hx hf
  bytes a bytes := keepsRoom_writeBytes a bytes
  mismatch _ _ := .ofFallible _
  get _ := .lift _
  size _ := .lift _
  start _ _ := .lift _
  stop _ _ := .lift _
  place _ _ := .lift _

/-- A value is stored where there are bytes. -/
theorem keepsRoom_writeWithin (t : TypeTable) (n : Nat) (a : UInt64) (ty : TypeId) (v : Val) :
    KeepsRoom (writeWithin t n a ty v) :=
  (storesWith_keepsRoom t).writeWithin (fun m => .refl m) n a ty v

/-! ### Requests -/

/-- What a program may ask of its memory. -/
inductive Request where
  /-- A block of the stack or of the heap. -/
  | allocate (isStack : Bool) (size align : Nat)
  /-- A block is given back. -/
  | free (a : UInt64)
  /-- Bytes are stored. -/
  | writeBytes (a : UInt64) (bytes : List UInt8)
  /-- A value is stored as a type. -/
  | write (types : TypeTable) (a : UInt64) (ty : TypeId) (v : Val)
  /-- The stack is cut back. -/
  | resetStack (mark : Nat)

/-- Sizes are below half of what a word counts, and alignments are powers of two up to sixteen. -/
def Request.IsOrderly : Request → Prop
  | allocate _ size align => size < 2 ^ 63 ∧ align ∈ [1, 2, 4, 8, 16]
  | _ => True

/-- A range of addresses that has been handed out. -/
structure Range where
  /-- Whether the range is on the stack. -/
  isStack : Bool
  /-- The first address. -/
  lo : Nat
  /-- The address behind the last one. -/
  hi : Nat

/-- What is left of a range when the stack ends at an address. -/
def Range.cut (stop : Nat) (r : Range) : Range :=
  if r.isStack then { r with hi := min r.hi stop } else r

/-- A memory with the ranges that have been handed out and not been reset. -/
structure Ledger where
  /-- The memory. -/
  memory : Memory
  /-- The ranges, the latest first. -/
  ranges : List Range

namespace Ledger

/-- What becomes of memory and ranges with one request. A request that fails is over, and the program
goes on. -/
def step (l : Ledger) : Request → Ledger
  | .allocate isStack size align =>
    match Memory.allocate isStack size align l.memory with
    | .ok a m => ⟨m, ⟨isStack, a.toNat, a.toNat + max size 1⟩ :: l.ranges⟩
    | .error _ m => ⟨m, l.ranges⟩
  | .free a => ⟨l.memory.free a, l.ranges⟩
  | .writeBytes a bytes => ⟨after (Memory.writeBytes a bytes) l.memory, l.ranges⟩
  | .write types a ty v => ⟨after (Memory.write types a ty v) l.memory, l.ranges⟩
  | .resetStack mark => ⟨l.memory.resetStack mark, l.ranges.map (Range.cut (stackBase + mark))⟩

/-- What becomes of a new memory with a limit. -/
def run (bound : Nat) (requests : List Request) : Ledger :=
  requests.foldl step ⟨Memory.new bound, []⟩

/-- The memory is within its limit and every range lies inside its region. -/
structure IsSound (bound : Nat) (l : Ledger) : Prop where
  bounded : l.memory.IsBounded
  limit : l.memory.limit = bound
  ranges : ∀ r ∈ l.ranges,
    base r.isStack ≤ r.lo ∧ r.hi ≤ base r.isStack + (l.memory.region r.isStack).size

variable {l : Ledger} {m : Memory}

/-- Ranges stay inside of regions that do not get shorter. -/
theorem IsSound.of_size_le (h : l.IsSound bound) (hm : m.IsBounded) (hlimit : m.limit = l.memory.limit)
    (hsize : ∀ b, (l.memory.region b).size ≤ (m.region b).size) :
    IsSound bound ⟨m, l.ranges⟩ where
  bounded := hm
  limit := hlimit.trans h.limit
  ranges r hr := by
    obtain ⟨hlo, hhi⟩ := h.ranges r hr
    have := hsize r.isStack
    exact ⟨hlo, by change r.hi ≤ base r.isStack + (m.region r.isStack).size; omega⟩

/-- Storing leaves the ranges where they are. -/
theorem IsSound.of_sameRoom (h : l.IsSound bound) (hm : l.memory.SameRoom m) :
    IsSound bound ⟨m, l.ranges⟩ :=
  h.of_size_le (hm.isBounded h.bounded) hm.limit fun b => (hm.size b).ge

/-- The regions of a memory in which one has been made longer. -/
theorem size_le_of_grows (h : l.memory.Grows b start size m)
    (hstart : (l.memory.region b).size ≤ start) (c : Bool) :
    (l.memory.region c).size ≤ (m.region c).size := by
  by_cases hsame : c = b
  · subst hsame
    have hgrown := (congrArg Array.size h.region).trans (size_grow hstart size)
    omega
  · obtain rfl : c = !b := by cases b <;> cases c <;> simp_all
    exact (congrArg Array.size h.other).ge

/-- A new block is handed out inside its region. -/
theorem IsSound.allocate (h : l.IsSound bound) (halign : 0 < align)
    (hsize : stackBase + size + align < wordRange) (isStack : Bool) :
    (l.step (.allocate isStack size align)).IsSound bound := by
  rcases allocate_cases h.bounded halign hsize isStack with herror | ⟨a, m, hrun, ha, hgrows, hm⟩
  · rw [step, herror]
    exact h
  · obtain ⟨hstart, -⟩ := blockStart_bounds (l.memory.region isStack) halign
    have hsound := h.of_size_le hm hgrows.limit (size_le_of_grows hgrows hstart)
    have hgrown := (congrArg Array.size hgrows.region).trans (size_grow hstart size)
    rw [step, hrun]
    refine ⟨hm, hsound.limit, fun r hr => ?_⟩
    rcases List.mem_cons.1 hr with rfl | hr
    · exact ⟨by dsimp only; omega, by dsimp only; omega⟩
    · exact hsound.ranges r hr

/-- What is left of the ranges is inside of what is left of the stack. -/
theorem IsSound.resetStack (h : l.IsSound bound) (mark : Nat) :
    (l.step (.resetStack mark)).IsSound bound where
  bounded := h.bounded.resetStack mark
  limit := h.limit
  ranges r hr := by
    obtain ⟨old, hold, rfl⟩ := List.mem_map.1 hr
    obtain ⟨hlo, hhi⟩ := h.ranges old hold
    obtain ⟨isStack, lo, hi⟩ := old
    cases isStack with
    | false => exact ⟨hlo, hhi⟩
    | true =>
        refine ⟨hlo, ?_⟩
        change min hi (stackBase + mark) ≤ stackBase + (l.memory.stack.shrink mark).size
        change hi ≤ stackBase + l.memory.stack.size at hhi
        rw [Array.size_shrink]
        omega

/-- The alignments that may be asked for are divisors of the first address of either region. -/
theorem align_bounds (halign : align ∈ [1, 2, 4, 8, 16]) (isStack : Bool) :
    0 < align ∧ align ≤ 16 ∧ align ∣ base isStack := by
  simp only [List.mem_cons, List.not_mem_nil, or_false] at halign
  rcases halign with rfl | rfl | rfl | rfl | rfl <;> cases isStack <;> decide

/-- Every request leaves the ledger sound. -/
theorem IsSound.step (h : l.IsSound bound) {r : Request} (hr : r.IsOrderly) :
    (l.step r).IsSound bound := by
  cases r with
  | allocate isStack size align =>
      obtain ⟨hpos, hle, -⟩ := align_bounds hr.2 isStack
      have hsize : size < 2 ^ 63 := hr.1
      have hword : stackBase + 2 ^ 63 + 16 < wordRange := by decide
      exact h.allocate hpos (by omega) isStack
  | free a =>
      have hretains := retains_free l.memory a
      exact h.of_size_le (h.bounded.free a) hretains.limit hretains.size_le
  | writeBytes a bytes => exact h.of_sameRoom (keepsRoom_writeBytes a bytes l.memory)
  | write types a ty v => exact h.of_sameRoom (keepsRoom_writeWithin types _ a ty v l.memory)
  | resetStack mark => exact h.resetStack mark

theorem isSound_run (hbound : heapBase + bound ≤ stackBase) {requests : List Request}
    (horderly : ∀ r ∈ requests, r.IsOrderly) : (run bound requests).IsSound bound := by
  have hnew : IsSound bound ⟨Memory.new bound, []⟩ :=
    ⟨⟨Nat.zero_le _, hbound⟩, rfl, fun r hr => by cases hr⟩
  have hfold : ∀ (requests : List Request) (l : Ledger), l.IsSound bound →
      (∀ r ∈ requests, r.IsOrderly) → (requests.foldl Ledger.step l).IsSound bound := by
    intro requests
    induction requests with
    | nil => exact fun l hl _ => hl
    | cons r rest ih =>
        intro l hl hall
        exact ih _ (hl.step (hall r List.mem_cons_self)) fun r hr => hall r (List.mem_cons_of_mem _ hr)
  exact hfold requests _ hnew horderly

/-- A new block lies apart from every range. -/
theorem IsSound.apart (h : l.IsSound bound) (hm : m.IsBounded)
    (hgrows : l.memory.Grows b start size m) (hstart : (l.memory.region b).size ≤ start)
    {r : Range} (hr : r ∈ l.ranges) :
    r.hi ≤ base b + start ∨ base b + start + max size 1 ≤ r.lo := by
  obtain ⟨hlo, hhi⟩ := h.ranges r hr
  have hgrown := (congrArg Array.size hgrows.region).trans (size_grow hstart size)
  have hheap := h.bounded.heap
  have hheap' := hm.heap
  obtain ⟨isStack, lo, hi⟩ := r
  cases b <;> cases isStack <;>
    simp only [base, Memory.region, Bool.false_eq_true, ↓reduceIte] at hlo hhi hstart hgrown ⊢
  · exact .inl (by omega)
  · exact .inr (by omega)
  · exact .inl (by omega)
  · exact .inl (by omega)

/-! ### The next block -/

/-- After any sequence of requests to a memory whose limit keeps the heap below the stack: the memory
is within its limit, and the next request for a block is answered with an aligned address of a
zeroed block that lies apart from all ranges that were handed out and not reset, within the limit
again, or it is refused and nothing changes. -/
theorem allocate_after_run (bound : Nat) (hbound : bound ≤ 2 ^ 40 - 16) (requests : List Request)
    (horderly : ∀ r ∈ requests, r.IsOrderly) (isStack : Bool) (size align : Nat)
    (hsize : size < 2 ^ 63) (halign : align ∈ [1, 2, 4, 8, 16]) :
    (run bound requests).memory.used ≤ bound ∧
      match Memory.allocate isStack size align (run bound requests).memory with
      | .ok a m =>
        a ≠ 0 ∧ align ∣ a.toNat ∧ m.used ≤ bound ∧
          (∀ n ≤ max size 1, m.readBytes a n = .ok (List.replicate n 0)) ∧
          ∀ r ∈ (run bound requests).ranges, r.hi ≤ a.toNat ∨ a.toNat + max size 1 ≤ r.lo
      | .error e m =>
        e = .failed (.outOfMemory (size + align) bound) ∧ m = (run bound requests).memory := by
  have hbase : heapBase + (2 ^ 40 - 16) = stackBase := by decide
  have hsound := isSound_run (by omega : heapBase + bound ≤ stackBase) horderly
  generalize run bound requests = l at hsound ⊢
  obtain ⟨hpos, hle, hdvd⟩ := align_bounds halign isStack
  have hword : stackBase + 2 ^ 63 + 16 < wordRange := by decide
  have hrequest : stackBase + size + align < wordRange := by omega
  refine ⟨hsound.limit ▸ hsound.bounded.used, ?_⟩
  rcases allocate_cases hsound.bounded hpos hrequest isStack with
    herror | ⟨a, m, hrun, ha, hgrows, hm⟩
  · rw [herror]
    exact ⟨by rw [hsound.limit], rfl⟩
  · obtain ⟨hstart, -⟩ := blockStart_bounds (l.memory.region isStack) hpos
    rw [hrun]
    refine ⟨?_, ?_, ?_, fun n hn => hgrows.readBytes_eq hm hstart ha hn, fun r hr => ?_⟩
    · rintro rfl
      have hfirst : 0 < base isStack := by cases isStack <;> decide
      change 0 = _ at ha
      omega
    · rw [ha]
      exact Nat.dvd_add hdvd (dvd_blockStart _ hpos)
    · exact (hgrows.limit.trans hsound.limit) ▸ hm.used
    · rw [ha]
      exact hsound.apart hm hgrows hstart hr

/-- Three bytes of the heap and five of the stack; the stack is written to and cut back by one byte.
The next block of the stack lies behind what is left. -/
theorem allocate_after_run_reset :
    let requests : List Request :=
      [.allocate false 3 1, .allocate true 5 8, .writeBytes 1099511627776 [1, 2, 3, 4, 5],
        .resetStack 4, .free 16]
    (run 64 requests).memory.used ≤ 64 ∧
      match Memory.allocate true 2 2 (run 64 requests).memory with
      | .ok a m =>
        a ≠ 0 ∧ 2 ∣ a.toNat ∧ m.used ≤ 64 ∧
          (∀ n ≤ max 2 1, m.readBytes a n = .ok (List.replicate n 0)) ∧
          ∀ r ∈ (run 64 requests).ranges, r.hi ≤ a.toNat ∨ a.toNat + max 2 1 ≤ r.lo
      | .error e m =>
        e = .failed (.outOfMemory (2 + 2) 64) ∧ m = (run 64 requests).memory :=
  allocate_after_run 64 (by decide) _ (by simp [Request.IsOrderly]) true 2 2 (by decide) (by decide)

end Ledger

end Memory

end SsaCompiler
