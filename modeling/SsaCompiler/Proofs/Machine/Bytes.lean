/-
# Numbers and bytes in memory

A number is stored as bytes, least significant first, and its bytes give back what fits in them.
Bytes that have been stored in a region are read back from it, and every other byte of the
memory is what it was. A later memory is compared with an earlier one on a range of addresses:
either it agrees there, or it differs only there.
-/

import SsaCompiler.Machine.Memory
import SsaCompiler.Proofs.Ir.Containment
import SsaCompiler.Proofs.Word

namespace SsaCompiler

/-! ### Numbers as bytes -/

/-- A number is stored in as many bytes as it is given. -/
@[simp]
theorem length_toLittleEndian (n v : Nat) : (toLittleEndian n v).length = n := by
  induction n generalizing v with
  | zero => rfl
  | succ n ih => simp [toLittleEndian, ih]

/-- The bytes of a number give back what fits in them. -/
theorem ofLittleEndian_toLittleEndian (n v : Nat) :
    ofLittleEndian (toLittleEndian n v) = v % 256 ^ n := by
  induction n generalizing v with
  | zero => simp [toLittleEndian, ofLittleEndian, Nat.mod_one]
  | succ n ih =>
      have hbyte : (UInt8.ofNat (v % 256)).toNat = v % 256 := by simp
      rw [toLittleEndian, ofLittleEndian, ih, hbyte, pow_succ', Nat.mod_mul]

/-! ### Regions -/

/-- Storing bytes does not change the length of a region. -/
@[simp]
theorem size_putBytes (region : Array UInt8) (start : Nat) (bytes : List UInt8) :
    (putBytes region start bytes).size = region.size := by
  induction bytes generalizing region start with
  | nil => rfl
  | cons b rest ih => simp [putBytes, ih]

/-- What a region holds after bytes have been stored in it. -/
theorem getElem?_putBytes {region : Array UInt8} {start : Nat} {bytes : List UInt8}
    (hfits : start + bytes.length ≤ region.size) (i : Nat) :
    (putBytes region start bytes)[i]? =
      if start ≤ i ∧ i < start + bytes.length then bytes[i - start]? else region[i]? := by
  induction bytes generalizing region start with
  | nil => simp [putBytes]
  | cons b rest ih =>
      simp only [List.length_cons] at hfits ⊢
      rw [putBytes, ih (by rw [Array.size_setIfInBounds]; omega)]
      rcases Nat.lt_trichotomy i start with hlt | rfl | hgt
      · rw [if_neg (by omega), if_neg (by omega), Array.getElem?_setIfInBounds_ne (by omega)]
      · rw [if_neg (by omega), if_pos (by omega), Nat.sub_self,
          Array.getElem?_setIfInBounds_self_of_lt (by omega)]
        rfl
      · by_cases hin : i < start + 1 + rest.length
        · rw [if_pos (by omega), if_pos (by omega), show i - start = i - (start + 1) + 1 by omega,
            List.getElem?_cons_succ]
        · rw [if_neg (by omega), if_neg (by omega), Array.getElem?_setIfInBounds_ne (by omega)]

/-- As many bytes are read as are asked for. -/
@[simp]
theorem length_bytesFrom (region : Array UInt8) (start n : Nat) :
    (bytesFrom region start n).length = n := by
  induction n generalizing start with
  | zero => rfl
  | succ n ih => simp [bytesFrom, ih]

/-- A byte that is read is the one at its place. -/
theorem getElem?_bytesFrom {region : Array UInt8} {start n i : Nat} (hi : i < n) :
    (bytesFrom region start n)[i]? = some (region.getD (start + i) 0) := by
  induction n generalizing start i with
  | zero => omega
  | succ n ih =>
      cases i with
      | zero => rfl
      | succ i =>
          rw [bytesFrom, List.getElem?_cons_succ, ih (by omega)]
          congr 2
          omega

/-- Two regions that hold the same at the places that are read. -/
theorem bytesFrom_congr {region region' : Array UInt8} {start n : Nat}
    (h : ∀ i, start ≤ i → i < start + n → region'[i]? = region[i]?) :
    bytesFrom region' start n = bytesFrom region start n := by
  refine List.ext_getElem? fun i => ?_
  by_cases hi : i < n
  · rw [getElem?_bytesFrom hi, getElem?_bytesFrom hi, Array.getD_eq_getD_getElem?,
      Array.getD_eq_getD_getElem?, h _ (by omega) (by omega)]
  · rw [List.getElem?_eq_none (by simpa using hi), List.getElem?_eq_none (by simpa using hi)]

/-- What has been stored is read back. -/
theorem bytesFrom_putBytes {region : Array UInt8} {start : Nat} {bytes : List UInt8}
    (hfits : start + bytes.length ≤ region.size) :
    bytesFrom (putBytes region start bytes) start bytes.length = bytes := by
  refine List.ext_getElem? fun i => ?_
  by_cases hi : i < bytes.length
  · rw [getElem?_bytesFrom hi, Array.getD_eq_getD_getElem?, getElem?_putBytes hfits,
      if_pos (by omega), Nat.add_sub_cancel_left, List.getElem?_eq_getElem hi]
    rfl
  · rw [List.getElem?_eq_none (by simpa using hi), List.getElem?_eq_none (by simpa using hi)]

namespace Memory

/-- The first address of a region. -/
def base (isStack : Bool) : Nat := if isStack then stackBase else heapBase

/-- Two memories that hold the same bytes at the addresses from `lo` up to `hi`. -/
def AgreesOn (lo hi : Nat) (m m' : Memory) : Prop :=
  ∀ isStack i, lo ≤ base isStack + i → base isStack + i < hi →
    (m'.region isStack)[i]? = (m.region isStack)[i]?

/-- A later memory in which only bytes at the addresses from `lo` up to `hi` have changed. -/
structure ChangesOnly (lo hi : Nat) (m m' : Memory) : Prop where
  bytes : ∀ isStack i, base isStack + i < lo ∨ hi ≤ base isStack + i →
    (m'.region isStack)[i]? = (m.region isStack)[i]?
  size : ∀ isStack, (m'.region isStack).size = (m.region isStack).size
  limit : m'.limit = m.limit
  live : m'.live = m.live

section Changes

variable {lo hi lo' hi' : Nat} {m m' m'' : Memory} {a : UInt64} {n : Nat} {bytes : List UInt8}

theorem ChangesOnly.refl (lo hi : Nat) (m : Memory) : m.ChangesOnly lo hi m :=
  ⟨fun _ _ _ => rfl, fun _ => rfl, rfl, rfl⟩

theorem ChangesOnly.trans (h : m.ChangesOnly lo hi m') (h' : m'.ChangesOnly lo hi m'') :
    m.ChangesOnly lo hi m'' where
  bytes isStack i hi := (h'.bytes isStack i hi).trans (h.bytes isStack i hi)
  size isStack := (h'.size isStack).trans (h.size isStack)
  limit := h'.limit.trans h.limit
  live := h'.live.trans h.live

/-- A change in a wider range. -/
theorem ChangesOnly.mono (h : m.ChangesOnly lo hi m') (hlo : lo' ≤ lo) (hhi : hi ≤ hi') :
    m.ChangesOnly lo' hi' m' :=
  ⟨fun isStack i hi => h.bytes isStack i (by omega), h.size, h.limit, h.live⟩

/-- Outside of a change the bytes are the same. -/
theorem ChangesOnly.agreesOn (h : m.ChangesOnly lo hi m') (hapart : hi' ≤ lo ∨ hi ≤ lo') :
    m.AgreesOn lo' hi' m' := fun isStack i hlow hhigh => h.bytes isStack i (by omega)

theorem AgreesOn.mono (h : m.AgreesOn lo hi m') (hlo : lo ≤ lo') (hhi : hi' ≤ hi) :
    m.AgreesOn lo' hi' m' := fun isStack i hlow hhigh => h isStack i (by omega) (by omega)

/-- An address points to its place in its region. -/
theorem toNat_of_locate? {isStack : Bool} {start : Nat} (h : locate? a = some (isStack, start)) :
    a.toNat = base isStack + start := by
  unfold locate? at h
  split at h
  · cases h
    simp only [base, if_true]
    omega
  · split at h
    · cases h
      simp only [base, Bool.false_eq_true, if_false]
      omega
    · cases h

/-- Bytes can be read where they all exist. -/
theorem readBytes_eq_ok_iff : m.readBytes a n = .ok bytes ↔
    ∃ isStack start, locate? a = some (isStack, start) ∧
      start + n ≤ (m.region isStack).size ∧ bytes = bytesFrom (m.region isStack) start n := by
  unfold readBytes
  split
  · rename_i hnone
    simp [hnone, Fallible.fail]
  · rename_i isStack start hplace
    rw [hplace]
    constructor
    · intro h
      split at h
      · cases h
        exact ⟨isStack, start, rfl, by assumption, rfl⟩
      · cases h
    · rintro ⟨_, _, hsame, hfits, rfl⟩
      cases hsame
      rw [if_pos hfits]

/-- Bytes that are there are read in the same way where they are the same. -/
theorem readBytes_of_agreesOn (hn : 0 < n) (h : m.readBytes a n = .ok bytes)
    (hagrees : m.AgreesOn a.toNat (a.toNat + n) m') : m'.readBytes a n = .ok bytes := by
  obtain ⟨isStack, start, hplace, hfits, rfl⟩ := readBytes_eq_ok_iff.1 h
  have haddress := toNat_of_locate? hplace
  have hsame : ∀ i, start ≤ i → i < start + n →
      (m'.region isStack)[i]? = (m.region isStack)[i]? := fun i hlow hhigh =>
    hagrees isStack i (by omega) (by omega)
  refine readBytes_eq_ok_iff.2 ⟨isStack, start, hplace, ?_, (bytesFrom_congr hsame).symm⟩
  -- The last byte is there, so all of them are.
  have hlast := (hsame (start + n - 1) (by omega) (by omega)).trans
    (Array.getElem?_eq_getElem (by omega))
  obtain ⟨hlt, -⟩ := Array.getElem?_eq_some_iff.1 hlast
  omega

/-- Bytes can be written where they all exist, and only they change. -/
theorem writeBytes_eq_ok_iff : writeBytes a bytes m = .ok () m' ↔
    ∃ isStack start, locate? a = some (isStack, start) ∧
      start + bytes.length ≤ (m.region isStack).size ∧
      m'.region isStack = putBytes (m.region isStack) start bytes ∧
      m'.region (!isStack) = m.region (!isStack) ∧ m'.limit = m.limit ∧ m'.live = m.live := by
  obtain ⟨heap, stack, limit, live⟩ := m
  obtain ⟨heap', stack', limit', live'⟩ := m'
  unfold writeBytes
  cases hplace : locate? a with
  | none => simp
  | some place =>
      obtain ⟨isStack, start⟩ := place
      cases isStack
      · simp only [region]
        split
        · simp_all
          grind
        · simp_all
      · simp only [region]
        split
        · simp_all
          grind
        · simp_all

/-- Bytes that cannot be written make a bad access, and nothing changes. -/
theorem writeBytes_eq_error {e : Fault} (h : writeBytes a bytes m = .error e m') :
    e = .failed (.badAccess a bytes.length) ∧ m' = m := by
  obtain ⟨heap, stack, limit, live⟩ := m
  unfold writeBytes at h
  dsimp only at h
  split at h
  · cases h
    exact ⟨rfl, rfl⟩
  all_goals
    split at h
    · cases h
    · cases h
      exact ⟨rfl, rfl⟩

/-- What has been written is there, and nothing else has changed. -/
theorem readBytes_of_writeBytes (h : writeBytes a bytes m = .ok () m') :
    m'.readBytes a bytes.length = .ok bytes ∧
      m.ChangesOnly a.toNat (a.toNat + bytes.length) m' := by
  obtain ⟨isStack, start, hplace, hfits, hwritten, hother, hlimit, hlive⟩ :=
    writeBytes_eq_ok_iff.1 h
  have haddress := toNat_of_locate? hplace
  refine ⟨readBytes_eq_ok_iff.2 ⟨isStack, start, hplace, ?_, ?_⟩, ?_, ?_, hlimit, hlive⟩
  · rwa [hwritten, size_putBytes]
  · rw [hwritten, bytesFrom_putBytes hfits]
  · intro isStack' i houtside
    by_cases hsame : isStack' = isStack
    · subst hsame
      rw [hwritten, getElem?_putBytes hfits, if_neg (by omega)]
    · obtain rfl : isStack' = !isStack := by cases isStack <;> cases isStack' <;> simp_all
      rw [hother]
  · intro isStack'
    by_cases hsame : isStack' = isStack
    · subst hsame
      rw [hwritten, size_putBytes]
    · obtain rfl : isStack' = !isStack := by cases isStack <;> cases isStack' <;> simp_all
      rw [hother]

end Changes

/-! ### Storing values -/

/-- A property of operations that storing a value has, since it is put together out of them: bytes
are stored, questions are asked about the types of a table and the places of parts, and one comes
after the other. -/
structure StoresWith (t : TypeTable) (P : {α : Type} → MemoryOp α → Prop) : Prop where
  pure : ∀ {α : Type} (a : α), P (Pure.pure a)
  bind : ∀ {α β : Type} {x : MemoryOp α} {f : α → MemoryOp β}, P x → (∀ a, P (f a)) → P (x >>= f)
  bytes : ∀ a bytes, P (writeBytes a bytes)
  mismatch : ∀ ty v, P (mismatch ty v)
  get : ∀ ty, P (liftM (t.get ty) : MemoryOp IrType)
  size : ∀ ty, P (liftM (t.sizeOf ty) : MemoryOp Nat)
  start : ∀ offset field, P (liftM (t.fieldStart offset field) : MemoryOp Nat)
  stop : ∀ start field, P (liftM (t.fieldEnd start field) : MemoryOp Nat)
  place : ∀ a n, P (liftM (addressPlus a n) : MemoryOp UInt64)

namespace StoresWith

variable {t : TypeTable} {P : {α : Type} → MemoryOp α → Prop} {n : Nat} {ty : TypeId}

theorem writeFields (h : StoresWith t P) {one : UInt64 → TypeId → Val → MemoryOp Unit}
    {fields : List TypeId} (hone : ∀ f ∈ fields, ∀ a v, P (one a f v)) (a : UInt64) (offset : Nat)
    (items : List Val) : P (Memory.writeFields t one a offset fields items) := by
  induction fields generalizing offset items with
  | nil => exact h.pure ()
  | cons field fields ih =>
      cases items with
      | nil => exact h.pure ()
      | cons v items =>
          have hrest := fun offset =>
            ih (fun f hf => hone f (List.mem_cons_of_mem field hf)) offset items
          refine h.bind (h.start offset field) fun start => h.bind (h.place a start) fun place =>
            h.bind (hone field List.mem_cons_self place v) fun _ => ?_
          dsimp only
          split
          · exact hrest start
          · exact h.bind (h.stop start field) hrest

theorem writeItems (h : StoresWith t P) {one : UInt64 → Val → MemoryOp Unit}
    (hone : ∀ a v, P (one a v)) (a : UInt64) (size i : Nat) (items : List Val) :
    P (Memory.writeItems one a size i items) := by
  induction items generalizing i with
  | nil => exact h.pure ()
  | cons v items ih =>
      exact h.bind (h.place a (i * size)) fun place => h.bind (hone place v) fun _ => ih (i + 1)

/-- A value of a type whose parts can be stored. -/
theorem writeWithin_succ (h : StoresWith t P)
    (hparts : ∀ p, t.Contains ty p → ∀ a v, P (writeWithin t n a p v)) (a : UInt64) (v : Val) :
    P (writeWithin t (n + 1) a ty v) := by
  unfold writeWithin
  cases hty : t.get ty with
  | error c =>
      have herror := h.bind (h.get ty) fun _ => h.pure ()
      rw [hty] at herror
      exact herror
  | ok kind =>
      have hpart : ∀ p ∈ kind.parts, ∀ a v, P (writeWithin t n a p v) :=
        fun p hp => hparts p ⟨kind, hty, hp⟩
      change P ((Pure.pure kind : MemoryOp IrType) >>= _)
      rw [pure_bind]
      cases kind with
      | int bits =>
          dsimp only
          split
          · exact h.bytes _ _
          · exact h.mismatch _ _
      | float bits =>
          dsimp only
          split
          · split <;> exact h.bytes _ _
          · exact h.mismatch _ _
      | pointer _ | function _ _ _ =>
          dsimp only
          split
          · exact h.bytes _ _
          · exact h.mismatch _ _
      | record fields =>
          cases v with
          | agg items => exact h.writeFields hpart a 0 items
          | _ => exact h.mismatch _ _
      | named name body =>
          cases body with
          | none => cases v <;> first | exact h.mismatch _ _ | exact h.pure ()
          | some fields =>
              cases v with
              | agg items => exact h.writeFields hpart a 0 items
              | _ => exact h.mismatch _ _
      | array elem length =>
          cases v with
          | agg items =>
              exact h.bind (h.size elem) fun size =>
                h.writeItems (hpart elem List.mem_cons_self) a size 0 items
          | _ => exact h.mismatch _ _
      | void => exact h.pure ()

/-- A value of any type, if it does not matter how storing it ends where a type contains itself. -/
theorem writeWithin (h : StoresWith t P) (hendless : P (throw (.crashed .endless) : MemoryOp Unit))
    (n : Nat) (a : UInt64) (ty : TypeId) (v : Val) : P (Memory.writeWithin t n a ty v) := by
  induction n generalizing a ty v with
  | zero => exact hendless
  | succ n ih => exact h.writeWithin_succ (fun p _ a v => ih a p v) a v

end StoresWith

end Memory

/-! ### Integers of a width -/

/-- An integer of a width fits the bytes that hold numbers of that width. -/
theorem le_bytesForBits {bits : Nat} (hbits : bits ≤ 64) : bits ≤ 8 * bytesForBits bits := by
  unfold bytesForBits
  split_ifs <;> omega

/-- A number is held by at least one byte and at most eight. -/
theorem bytesForBits_bounds (bits : Nat) : 0 < bytesForBits bits ∧ bytesForBits bits ≤ 8 := by
  unfold bytesForBits
  split_ifs <;> omega

/-- The bytes of a normal form keep all that its width keeps. -/
theorem normalizeInt_of_stored {v : Int64} {bits : Nat} (hnormal : normalizeInt v bits = v) :
    normalizeInt (UInt64.ofNat
      (ofLittleEndian (toLittleEndian (bytesForBits bits) v.toUInt64.toNat))).toInt64 bits = v := by
  rw [ofLittleEndian_toLittleEndian, ← Int64.toInt_inj, toInt_normalizeInt]
  rw [normalizeInt_eq_self_iff] at hnormal
  obtain ⟨-, hhigh⟩ := bytesForBits_bounds bits
  have hpow : 256 ^ bytesForBits bits = 2 ^ (8 * bytesForBits bits) := by rw [pow_mul]; rfl
  have hwide : 2 ^ (8 * bytesForBits bits) ≤ 2 ^ 64 := Nat.pow_le_pow_right (by omega) (by omega)
  have hword := v.toBitVec.isLt
  have hstored : (UInt64.ofNat (v.toUInt64.toNat % 256 ^ bytesForBits bits)).toInt64.toBitVec.toNat =
      v.toBitVec.toNat % 2 ^ (8 * bytesForBits bits) := by
    rw [hpow]
    change v.toBitVec.toNat % 2 ^ (8 * bytesForBits bits) % 2 ^ 64 = _
    refine Nat.mod_eq_of_lt ?_
    have := Nat.mod_lt v.toBitVec.toNat (show 0 < 2 ^ (8 * bytesForBits bits) by positivity)
    omega
  by_cases hbits : bits ≤ 64
  · have hdvd : 2 ^ bits ∣ 2 ^ (8 * bytesForBits bits) := pow_dvd_pow 2 (le_bytesForBits hbits)
    rw [wrapTo_toInt _ hbits, hstored, ← wrapTo_mod, Nat.mod_mod_of_dvd _ hdvd, wrapTo_mod,
      ← wrapTo_toInt _ hbits, hnormal]
  · have hall : 8 * bytesForBits bits = 64 := by
      unfold bytesForBits
      split_ifs <;> omega
    have hsame : (UInt64.ofNat (v.toUInt64.toNat % 256 ^ bytesForBits bits)).toInt64 = v := by
      apply Int64.toBitVec_inj.1
      apply BitVec.eq_of_toNat_eq
      rw [hstored, hall, Nat.mod_eq_of_lt hword]
    rw [hsame, hnormal]

end SsaCompiler
