/-
# Requests for blocks of the heap

The allocation functions ask the heap for as many bytes as the program says, `calloc` for a product
that is held to the largest word. The size, the alignment and what is in use are added up before the
sum is compared with the limit, so a request has three answers: a zeroed block behind everything that
was there, a refusal because of the limit, and a crash where the sum is no machine word.

Holding the product to a word does not keep it from the crash, since the largest word and an alignment
are no word together. The other two functions are given their size as a signed word and do not crash
in a memory whose limit keeps the heap below the stack.
-/

import SsaCompiler.Machine.External
import SsaCompiler.Proofs.Machine.Allocator

namespace SsaCompiler

namespace Memory

variable {m m' : Memory} {a : UInt64} {size align : Nat}

/-- The sums that are compared with the limit have to be machine words. -/
theorem checkLimit_eq_crashed (h : wordRange ≤ m.used + (size + align)) :
    m.checkLimit size align = .error (.crashed .overflow) := by
  unfold checkLimit
  by_cases hrequested : size + align < wordRange
  · rw [show Checked.word (size + align) = .ok (size + align) from if_pos hrequested]
    change (liftM (Checked.word (m.used + (size + align))) >>= _ : Fallible Unit) = _
    rw [show Checked.word (m.used + (size + align)) = .error .overflow from
      if_neg (Nat.not_lt.2 h)]
    rfl
  · rw [show Checked.word (size + align) = .error .overflow from if_neg hrequested]
    rfl

/-- A request for a block of the heap crashes, is refused or is met. -/
theorem allocHeap_eq (m : Memory) (size align : Nat) :
    allocHeap size align m =
      if wordRange ≤ m.used + (size + align) then .error (.crashed .overflow) m
      else if m.limit < m.used + (size + align) then
        .error (.failed (.outOfMemory (size + align) m.limit)) m
      else if 2 ^ 63 ≤ blockStart m.heap align + max size 1 then .error (.crashed .overflow) m
      else .ok (UInt64.ofNat (heapBase + blockStart m.heap align))
        { m with heap := grow m.heap (blockStart m.heap align) size, live := m.live + 1 } := by
  have hfails : ∀ e, m.place m.heap size align = .error e → allocHeap size align m = .error e m := by
    intro e hplace
    unfold allocHeap
    rw [hplace]
  by_cases hword : wordRange ≤ m.used + (size + align)
  · rw [if_pos hword]
    refine hfails _ ?_
    rw [place, checkLimit_eq_crashed hword]
    rfl
  have hcheck := m.checkLimit_eq size align (Nat.not_le.1 hword)
  rw [if_neg hword]
  by_cases hmet : m.limit < m.used + (size + align)
  · rw [if_pos hmet]
    refine hfails _ ?_
    rw [place, hcheck, if_pos hmet]
    rfl
  rw [if_neg hmet] at hcheck ⊢
  by_cases hlong : 2 ^ 63 ≤ blockStart m.heap align + max size 1
  · rw [if_pos hlong]
    refine hfails _ ?_
    rw [place, hcheck]
    exact if_neg (Nat.not_lt.2 hlong)
  · have hplace : m.place m.heap size align = .ok (blockStart m.heap align) := by
      rw [place, hcheck]
      exact if_pos (Nat.not_le.1 hlong)
    rw [if_neg hlong]
    unfold allocHeap
    rw [hplace]

/-- A zeroed block has been put behind everything that was on the heap. -/
structure Provides (m : Memory) (a : UInt64) (size : Nat) (m' : Memory) : Prop where
  /-- The block starts behind the heap as it was. -/
  behind : heapBase + m.heap.size ≤ a.toNat
  /-- It starts at a multiple of the alignment of blocks. -/
  aligned : blockAlign ∣ a.toNat
  /-- The heap ends with it. -/
  heap : heapBase + m'.heap.size = a.toNat + max size 1
  /-- Its bytes are zero. -/
  zero : ∀ i, a.toNat ≤ heapBase + i → i < m'.heap.size → m'.heap[i]? = some 0
  /-- The bytes in front of it are those that were there. -/
  bytes : ∀ i < m.heap.size, m'.heap[i]? = m.heap[i]?
  stack : m'.stack = m.stack
  limit : m'.limit = m.limit
  live : m'.live = m.live + 1
  used : m'.used ≤ m'.limit

/-- The heap made longer by a block. -/
def withBlock (m : Memory) (size : Nat) : Memory :=
  { m with heap := grow m.heap (blockStart m.heap blockAlign) size, live := m.live + 1 }

/-- The address of the next block of the heap. -/
def nextBlock (m : Memory) : UInt64 := UInt64.ofNat (heapBase + blockStart m.heap blockAlign)

/-- The address of a block is a word. -/
theorem toNat_nextBlock (h : blockStart m.heap blockAlign < 2 ^ 63) :
    m.nextBlock.toNat = heapBase + blockStart m.heap blockAlign :=
  UInt64.toNat_ofNat_of_lt' (by change _ < 2 ^ 64; unfold heapBase; omega)

/-- The heap made longer by a block within the limit provides it. -/
theorem provides_withBlock (hmet : m.used + (size + blockAlign) ≤ m.limit)
    (hlong : blockStart m.heap blockAlign + max size 1 < 2 ^ 63) :
    m.Provides m.nextBlock size (m.withBlock size) := by
  obtain ⟨hstart, hclose⟩ := @blockStart_bounds m.heap blockAlign (by decide)
  have haddress := m.toNat_nextBlock (by omega)
  have hsize : (m.withBlock size).heap.size = blockStart m.heap blockAlign + max size 1 :=
    size_grow hstart size
  refine ⟨by omega, ?_, by omega, fun i hlow hhigh => ?_, fun i hi => getElem?_extendZero hi _, rfl,
    rfl, rfl, ?_⟩
  · rw [haddress]
    exact Nat.dvd_add (by decide) (dvd_blockStart _ (by decide))
  · exact getElem?_extendZero_of_ge (by omega) (by omega)
  · change (m.withBlock size).heap.size + m.stack.size ≤ m.limit
    unfold used at hmet
    unfold blockAlign at hclose hmet hsize
    omega

/-- In a bounded memory a block within the limit is not too long. -/
theorem IsBounded.blockStart_lt (hm : m.IsBounded) (hmet : m.used + (size + blockAlign) ≤ m.limit) :
    blockStart m.heap blockAlign + max size 1 < 2 ^ 63 := by
  obtain ⟨-, hclose⟩ := @blockStart_bounds m.heap blockAlign (by decide)
  have hlimit := hm.limit
  have hword : stackBase < 2 ^ 63 := by decide
  unfold Memory.used at hmet
  unfold blockAlign at hclose hmet ⊢
  omega

/-- In a bounded memory the block is apart from every place that exists, and zeros are read in it. -/
theorem IsBounded.isBlock_withBlock (hm : m.IsBounded)
    (hmet : m.used + (size + blockAlign) ≤ m.limit) :
    m.IsBlock m.nextBlock (max size 1) (m.withBlock size) ∧
      ∀ n ≤ max size 1, (m.withBlock size).readBytes m.nextBlock n = .ok (List.replicate n 0) := by
  have hlong := hm.blockStart_lt hmet
  obtain ⟨hstart, -⟩ := @blockStart_bounds m.heap blockAlign (by decide)
  have haddress := m.toNat_nextBlock (by omega)
  have hprovides := provides_withBlock hmet hlong
  have hm' : (m.withBlock size).IsBounded := ⟨hprovides.used, hm.limit⟩
  have hend := hm'.heap
  have hheap := hprovides.heap
  have hword : stackBase < wordRange := by decide
  have hgrows : m.Grows false (blockStart m.heap blockAlign) size (m.withBlock size) :=
    ⟨rfl, rfl, rfl, rfl⟩
  exact ⟨isBlock_of_grow (b := false) hm' hstart rfl rfl rfl haddress (fun _ => by omega) (by omega),
    fun n hn => hgrows.readBytes_eq hm' hstart haddress hn⟩

end Memory

namespace External

/-- A size among the arguments of a function; below zero it counts as zero. -/
def sizeAt? (args : List Val) (i : Nat) : Option Nat :=
  (args[i]?.bind Val.asInt?).map (·.toInt.toNat)

/-- How many bytes an allocation function is asked for. -/
def requestedBytes? : External → List Val → Option Nat
  | calloc, args => do return (← sizeAt? args 0) * (← sizeAt? args 1)
  | malloc, args | allocateException, args => sizeAt? args 0
  | _, _ => none

/-- One size alone is a signed word. -/
theorem sizeAt?_lt {args : List Val} {i n : Nat} (h : sizeAt? args i = some n) : n < 2 ^ 63 := by
  obtain ⟨x, hx, rfl⟩ := Option.map_eq_some_iff.1 h
  have hlt := x.toInt_lt
  omega

/-- Only a product can be more than a signed word. -/
theorem requestedBytes?_lt {f : External} {args : List Val} {n : Nat}
    (h : f.requestedBytes? args = some n) (hf : f ≠ .calloc) : n < 2 ^ 63 := by
  unfold requestedBytes? at h
  split at h
  case h_1 => exact absurd rfl hf
  case h_2 | h_3 => exact sizeAt?_lt h
  case h_4 => cases h

end External

namespace Exec

variable {f : External} {args : List Val} {n : Nat}

/-- A size that is there is read. -/
theorem sizeArgument_of_sizeAt? {i : Nat} (h : External.sizeAt? args i = some n) (name : String) :
    sizeArgument name args i = pure n := by
  obtain ⟨x, hx, rfl⟩ := Option.map_eq_some_iff.1 h
  obtain ⟨v, hv, hint⟩ := Option.bind_eq_some_iff.1 hx
  have hargument : argument name args i = pure v := by
    unfold argument
    rw [hv]
  unfold sizeArgument intArgument
  rw [hargument]
  simp only [pure_bind, hint]

/-- An allocation function asks the heap for as many bytes as a word counts. -/
theorem provided_eq_newBlock (hn : f.requestedBytes? args = some n) (call : Caller)
    (name : String) : provided call f name args = newBlock (min n (wordRange - 1)) := by
  unfold External.requestedBytes? at hn
  split at hn
  case h_1 =>
    obtain ⟨count, hcount, hn⟩ := Option.bind_eq_some_iff.1 hn
    obtain ⟨size, hsize, hn⟩ := Option.bind_eq_some_iff.1 hn
    cases hn
    unfold provided
    simp only [sizeArgument_of_sizeAt? hcount, sizeArgument_of_sizeAt? hsize, pure_bind]
  case h_2 | h_3 =>
    have hlt := External.sizeAt?_lt hn
    unfold provided
    simp only [sizeArgument_of_sizeAt? hn, pure_bind]
    rw [Nat.min_eq_left (by unfold wordRange; omega)]
  case h_4 => cases hn

/-- A new block is asked for and its address is the answer. -/
theorem newBlock_eq (n : Nat) (s : MachineState) :
    newBlock n s =
      if wordRange ≤ s.memory.used + (n + blockAlign) then .error (.crashed .overflow) s
      else if s.memory.limit < s.memory.used + (n + blockAlign) then
        .error (.failed (.outOfMemory (n + blockAlign) s.memory.limit)) s
      else if 2 ^ 63 ≤ Memory.blockStart s.memory.heap blockAlign + max n 1 then
        .error (.crashed .overflow) s
      else .ok (.ptr s.memory.nextBlock) { s with memory := s.memory.withBlock n } := by
  have hfails : ∀ e, Memory.allocHeap n blockAlign s.memory = .error e s.memory →
      newBlock n s = .error (.ofFault e) s := by
    intro e h
    change EStateM.bind (onMemory _) _ s = _
    unfold EStateM.bind
    rw [onMemory_of_error h]
  have hrequest := Memory.allocHeap_eq s.memory n blockAlign
  by_cases hword : wordRange ≤ s.memory.used + (n + blockAlign)
  · rw [if_pos hword] at hrequest ⊢
    exact hfails _ hrequest
  rw [if_neg hword] at hrequest ⊢
  by_cases hmet : s.memory.limit < s.memory.used + (n + blockAlign)
  · rw [if_pos hmet] at hrequest ⊢
    exact hfails _ hrequest
  rw [if_neg hmet] at hrequest ⊢
  by_cases hlong : 2 ^ 63 ≤ Memory.blockStart s.memory.heap blockAlign + max n 1
  · rw [if_pos hlong] at hrequest ⊢
    exact hfails _ hrequest
  · rw [if_neg hlong] at hrequest ⊢
    change EStateM.bind (onMemory _) _ s = _
    unfold EStateM.bind
    rw [onMemory_of_ok hrequest]
    rfl

/-- Holding a request to a word makes no difference: what is no word crashes, and so does the largest
word. -/
theorem newBlock_min (n : Nat) (s : MachineState) :
    newBlock (min n (wordRange - 1)) s = newBlock n s := by
  by_cases hn : n ≤ wordRange - 1
  · rw [Nat.min_eq_left hn]
  · rw [Nat.min_eq_right (Nat.le_of_not_le hn), newBlock_eq, newBlock_eq,
      if_pos (by unfold blockAlign; omega), if_pos (by omega)]

/-- Calls of `calloc`, `malloc` and `__cxa_allocate_exception`, in every state and for all sizes. The
bytes that are asked for, the alignment and the bytes in use are added up. If the sum is no word the
call crashes; if it is above the limit the call is refused, and nothing changes. Otherwise there is a
new zeroed block of the size that was asked for behind the heap, unless the heap gets longer than a
signed word counts. Where the limit keeps the heap below the stack it does not get so long, and the
block lies apart from every place that exists and is read as zeros. -/
theorem provided_of_requestedBytes (hn : f.requestedBytes? args = some n) (call : Caller)
    (name : String) (s : MachineState) :
    let sum := s.memory.used + (n + blockAlign)
    let stop := Memory.blockStart s.memory.heap blockAlign + max n 1
    (wordRange ≤ sum → provided call f name args s = .error (.crashed .overflow) s) ∧
    (s.memory.limit < sum → sum < wordRange →
      provided call f name args s =
        .error (.failed (.outOfMemory (n + blockAlign) s.memory.limit)) s) ∧
    (sum ≤ s.memory.limit → sum < wordRange → 2 ^ 63 ≤ stop →
      provided call f name args s = .error (.crashed .overflow) s ∧ ¬ s.memory.IsBounded) ∧
    (sum ≤ s.memory.limit → sum < wordRange → stop < 2 ^ 63 →
      ∃ a m, provided call f name args s = .ok (.ptr a) { s with memory := m } ∧
        s.memory.Provides a n m ∧
        (s.memory.IsBounded → s.memory.IsBlock a (max n 1) m ∧
          ∀ k ≤ max n 1, m.readBytes a k = .ok (List.replicate k 0))) := by
  intro sum stop
  rw [provided_eq_newBlock hn, newBlock_min, newBlock_eq]
  refine ⟨fun hword => if_pos hword, fun hmet hword => ?_, fun hmet hword hlong => ⟨?_, fun hm => ?_⟩,
    fun hmet hword hlong => ⟨s.memory.nextBlock, s.memory.withBlock n, ?_,
      Memory.provides_withBlock hmet hlong, fun hm => hm.isBlock_withBlock hmet⟩⟩
  · rw [if_neg (Nat.not_le.2 hword), if_pos hmet]
  · rw [if_neg (Nat.not_le.2 hword), if_neg (Nat.not_lt.2 hmet), if_pos hlong]
  · exact absurd (hm.blockStart_lt hmet) (Nat.not_lt.2 hlong)
  · rw [if_neg (Nat.not_le.2 hword), if_neg (Nat.not_lt.2 hmet), if_neg (Nat.not_le.2 hlong)]

/-- Twenty-four bytes on a heap of three, of which the second block starts at the second multiple of
the alignment. -/
theorem provided_malloc :
    let s : MachineState := { (default : MachineState) with memory := ⟨#[1, 2, 3], #[], 64, 1⟩ }
    External.requestedBytes? .malloc [.int 24] = some 24 ∧
      s.memory.used + (24 + blockAlign) ≤ s.memory.limit ∧
      ∃ a m, provided (fun _ _ => fail .aborted) .malloc "malloc" [.int 24] s =
        .ok (.ptr a) { s with memory := m } ∧ s.memory.Provides a 24 m := by
  intro s
  have hn : External.requestedBytes? .malloc [.int 24] = some 24 := rfl
  obtain ⟨-, -, -, hmet⟩ := provided_of_requestedBytes hn (fun _ _ => fail .aborted) "malloc" s
  obtain ⟨a, m, hrun, hprovides, -⟩ := hmet (by decide) (by decide) (by decide)
  exact ⟨hn, by decide, a, m, hrun, hprovides⟩

/-- A product above every word is held to the largest one, and adding the alignment crashes. -/
theorem calloc_crashes :
    let s : MachineState := { (default : MachineState) with memory := .new 67108864 }
    s.memory.used ≤ s.memory.limit ∧
      provided (fun _ _ => fail .aborted) .calloc "calloc" [.int 4611686018427387904, .int 4] s =
        .error (.crashed .overflow) s := by
  intro s
  exact ⟨by decide, rfl⟩

/-- In a bounded memory a request crashes exactly if its sum is no word. -/
theorem newBlock_eq_crashed_iff {s : MachineState} (hm : s.memory.IsBounded) {k : Crash} :
    (∃ s', newBlock n s = .error (.crashed k) s') ↔
      k = .overflow ∧ wordRange ≤ s.memory.used + (n + blockAlign) := by
  rw [newBlock_eq]
  constructor
  · rintro ⟨s', h⟩
    split at h
    case isTrue hword =>
      cases h
      exact ⟨rfl, hword⟩
    case isFalse =>
      split at h
      · cases h
      · rename_i hmet
        rw [if_neg (Nat.not_le.2 (hm.blockStart_lt (Nat.not_lt.1 hmet)))] at h
        cases h
  · rintro ⟨rfl, hword⟩
    exact ⟨s, if_pos hword⟩

/-- A size alone does not crash in a bounded memory, so only the product that `calloc` makes can. -/
theorem eq_calloc_of_provided_eq_crashed {s s' : MachineState} {call : Caller} {name : String}
    {k : Crash} (hn : f.requestedBytes? args = some n) (hm : s.memory.IsBounded)
    (h : provided call f name args s = .error (.crashed k) s') :
    f = .calloc ∧ wordRange ≤ s.memory.used + (n + blockAlign) := by
  rw [provided_eq_newBlock hn, newBlock_min] at h
  obtain ⟨-, hword⟩ := (newBlock_eq_crashed_iff hm).1 ⟨s', h⟩
  refine ⟨?_, hword⟩
  by_contra hf
  have hlt := External.requestedBytes?_lt hn hf
  have hused := hm.used
  have hlimit := hm.limit
  have hsmall : stackBase < 2 ^ 62 := by decide
  unfold wordRange blockAlign at hword
  omega

end Exec

end SsaCompiler
