/-
# Values in memory

A value of a type is stored part by part, each part at its own place. Storing a later part never
touches an earlier one, so a value that has been stored is read back as it was, however deep its
type is nested and whatever bytes lie between its parts. The induction is on the number of levels
that are followed; in it, structures and arrays are lists of parts.

Two facts carry it: what is read of a value depends on its own bytes alone, and what is stored
changes no other byte.
-/

import SsaCompiler.Proofs.Ir.Placement
import SsaCompiler.Proofs.Machine.Bytes

namespace SsaCompiler

/-! ### Sequences -/

/-- A question about the types answers a reader when it answers. -/
theorem Fallible.lift_eq_ok_iff {α : Type} {x : Checked α} {a : α} :
    (liftM x : Fallible α) = .ok a ↔ x = .ok a := by
  cases x with
  | ok b =>
      change Except.ok b = Except.ok a ↔ _
      simp
  | error c =>
      change Except.error (Fault.crashed c) = Except.ok a ↔ _
      simp

namespace MemoryOp

variable {α β : Type} {m m' : Memory}

/-- A sequence succeeds when its parts do, one in the memory that the other leaves behind. -/
theorem bind_eq_ok_iff {x : MemoryOp α} {f : α → MemoryOp β} {b : β} :
    (x >>= f) m = .ok b m' ↔ ∃ a m₁, x m = .ok a m₁ ∧ f a m₁ = .ok b m' := by
  change EStateM.bind x f m = _ ↔ _
  unfold EStateM.bind
  cases x m <;> simp

theorem pure_eq_ok_iff {a b : α} : (pure a : MemoryOp α) m = .ok b m' ↔ a = b ∧ m = m' := by
  change EStateM.Result.ok a m = .ok b m' ↔ _
  simp

/-- A question about the types leaves the memory as it is. -/
theorem lift_eq_ok_iff {x : Checked α} {a : α} :
    (liftM x : MemoryOp α) m = .ok a m' ↔ x = .ok a ∧ m = m' := by
  cases x with
  | ok b =>
      change EStateM.Result.ok b m = .ok a m' ↔ _
      simp
  | error c =>
      change EStateM.Result.error (Fault.crashed c) m = .ok a m' ↔ _
      simp

end MemoryOp

/-- An address that has been moved up. -/
theorem toNat_of_addressPlus {a b : UInt64} {n : Nat} (h : addressPlus a n = .ok b) :
    b.toNat = a.toNat + n := by
  obtain ⟨w, hw, h⟩ := answer_bind_eq_ok_iff.1 h
  cases h
  obtain ⟨hlt, rfl⟩ := Checked.word_eq_ok_iff.1 hw
  exact UInt64.toNat_ofNat_of_lt' (by simpa [wordRange] using hlt)

namespace TypeTable

/-! ### Values of a type -/

/-- A value of a type, apart from floating point numbers: an integer in the normal form of its
width, an address, or as many parts as the type has, each of its type. -/
inductive Conforms (t : TypeTable) : TypeId → Val → Prop where
  | int {ty : TypeId} {bits : Nat} {v : Int64} (hty : t.get ty = .ok (.int bits))
      (hnormal : normalizeInt v bits = v) : Conforms t ty (.int v)
  | address {ty : TypeId} {kind : IrType} {a : UInt64} (hty : t.get ty = .ok kind)
      (hkind : kind.isAddress = true) : Conforms t ty (.ptr a)
  | array {ty elem : TypeId} {items : List Val}
      (hty : t.get ty = .ok (.array elem items.length))
      (hitems : ∀ item ∈ items, Conforms t elem item) : Conforms t ty (.agg items)
  | struct {ty : TypeId} {kind : IrType} {fields : List TypeId} {items : List Val}
      (hty : t.get ty = .ok kind) (hfields : kind.fields? = some fields)
      (hitems : List.Forall₂ (Conforms t) fields items) : Conforms t ty (.agg items)
  | void {ty : TypeId} (hty : t.get ty = .ok .void) : Conforms t ty .void

end TypeTable

/-! ### Reading and writing values -/

namespace Memory

variable {t : TypeTable} {n : Nat} {a : UInt64} {ty : TypeId} {v : Val} {size : Nat}
  {m m' : Memory} {fields : List TypeId} {items : List Val} {offset stop : Nat}

/-- A number that can be read is the same where its bytes are. -/
theorem readWord_of_agreesOn {k w : Nat} (hk : 0 < k) (h : m.readWord a k = .ok w)
    (hagrees : m.AgreesOn a.toNat (a.toNat + k) m') : m'.readWord a k = .ok w := by
  obtain ⟨bytes, hbytes, h⟩ := answer_bind_eq_ok_iff.1 h
  rw [readWord, readBytes_of_agreesOn hk hbytes hagrees]
  exact h

/-- A number that has been written is read as what its bytes keep of it. -/
theorem readWord_of_writeWord {k w : Nat} (h : writeWord a k w m = .ok () m') :
    m'.readWord a k = .ok (ofLittleEndian (toLittleEndian k w)) ∧
      m.ChangesOnly a.toNat (a.toNat + k) m' := by
  obtain ⟨hread, hframe⟩ := readBytes_of_writeBytes h
  rw [length_toLittleEndian] at hread hframe
  rw [readWord, hread]
  exact ⟨rfl, hframe⟩

/-! #### One level of a type -/

section Levels

/-- A question about a type that is known. -/
theorem lift_get_bind {α : Type} {kind : IrType} {f : IrType → Fallible α}
    (hty : t.get ty = .ok kind) : (liftM (t.get ty) >>= f : Fallible α) = f kind := by
  rw [hty]
  rfl

/-- An integer is read as the normal form of its bytes. -/
theorem readWithin_int {bits : Nat} (hty : t.get ty = .ok (.int bits)) :
    m.readWithin t (n + 1) a ty = (m.readWord a (bytesForBits bits) >>= fun raw =>
      pure (.int (normalizeInt (UInt64.ofNat raw).toInt64 bits))) := by
  rw [readWithin, lift_get_bind hty]

/-- An address is read as a whole word. -/
theorem readWithin_address {kind : IrType} (hty : t.get ty = .ok kind)
    (hkind : kind.isAddress = true) :
    m.readWithin t (n + 1) a ty = (m.readWord a pointerSize >>= fun raw =>
      pure (.ptr (UInt64.ofNat raw))) := by
  rw [readWithin, lift_get_bind hty]
  cases kind with
  | pointer _ | function _ _ _ => rfl
  | _ => cases hkind

/-- A structure is read field by field. -/
theorem readWithin_struct {kind : IrType} (hty : t.get ty = .ok kind)
    (hfields : kind.fields? = some fields) :
    m.readWithin t (n + 1) a ty =
      (readFields t (m.readWithin t n) a 0 fields >>= fun items => pure (.agg items)) := by
  rw [readWithin, lift_get_bind hty]
  cases kind with
  | record _ => cases hfields; rfl
  | named name body => cases hfields; rfl
  | _ => cases hfields

/-- An array is read item by item. -/
theorem readWithin_array {elem : TypeId} {length : Nat}
    (hty : t.get ty = .ok (.array elem length)) (hsize : t.sizeOf elem = .ok size) :
    m.readWithin t (n + 1) a ty =
      (readItems (fun b => m.readWithin t n b elem) a size length 0 >>= fun items =>
        pure (.agg items)) := by
  rw [readWithin, lift_get_bind hty]
  change (liftM (t.sizeOf elem) >>= fun size => readItems _ a size length 0 >>= fun items =>
    pure (.agg items) : Fallible Val) = _
  rw [hsize]
  rfl

/-- An integer is stored as its bytes. -/
theorem writeWithin_int {bits : Nat} {v : Int64} (hty : t.get ty = .ok (.int bits)) :
    writeWithin t (n + 1) a ty (.int v) = writeWord a (bytesForBits bits) v.toUInt64.toNat := by
  unfold writeWithin
  rw [hty]
  rfl

/-- An address is stored as a whole word. -/
theorem writeWithin_address {kind : IrType} {p : UInt64} (hty : t.get ty = .ok kind)
    (hkind : kind.isAddress = true) :
    writeWithin t (n + 1) a ty (.ptr p) = writeWord a pointerSize p.toNat := by
  unfold writeWithin
  rw [hty]
  cases kind with
  | pointer _ | function _ _ _ => rfl
  | _ => cases hkind

/-- A structure is stored field by field. -/
theorem writeWithin_struct {kind : IrType} (hty : t.get ty = .ok kind)
    (hfields : kind.fields? = some fields) :
    writeWithin t (n + 1) a ty (.agg items) =
      writeFields t (writeWithin t n) a 0 fields items := by
  rw [writeWithin, hty]
  cases kind with
  | record _ => cases hfields; rfl
  | named name body => cases hfields; rfl
  | _ => cases hfields

/-- An array is stored item by item. -/
theorem writeWithin_array {elem : TypeId} {length : Nat}
    (hty : t.get ty = .ok (.array elem length)) (hsize : t.sizeOf elem = .ok size) :
    writeWithin t (n + 1) a ty (.agg items) =
      writeItems (fun b item => writeWithin t n b elem item) a size 0 items := by
  rw [writeWithin, hty]
  change (liftM (t.sizeOf elem) >>= fun size => writeItems _ a size 0 items : MemoryOp Unit) = _
  rw [hsize]
  rfl

end Levels

/-! #### Fields and items -/

section Parts

variable {field : TypeId} {rest : List TypeId} {start next : Nat} {v : Val} {vs : List Val}

/-- The first field is read at its place, and the others behind it. -/
theorem readFields_cons_eq_ok_iff {one : UInt64 → TypeId → Fallible Val}
    (hstart : t.fieldStart offset field = .ok start) (hnext : t.fieldEnd start field = .ok next) :
    readFields t one a offset (field :: rest) = .ok items ↔
      ∃ b v vs, addressPlus a start = .ok b ∧ one b field = .ok v ∧
        readFields t one a next rest = .ok vs ∧ items = v :: vs := by
  rw [readFields, hstart]
  change (liftM (addressPlus a start) >>= _ : Fallible (List Val)) = _ ↔ _
  refine Iff.trans (b := ∃ b, addressPlus a start = .ok b ∧ ∃ v, one b field = .ok v ∧
    ∃ vs, readFields t one a next rest = .ok vs ∧ pure (v :: vs) = (.ok items : Fallible _)) ?_ ?_
  · refine answer_bind_eq_ok_iff.trans (exists_congr fun b => ?_)
    refine and_congr Fallible.lift_eq_ok_iff (answer_bind_eq_ok_iff.trans (exists_congr fun v => ?_))
    refine and_congr_right fun _ => ?_
    refine Iff.trans (Eq.congr_left ?_) (answer_bind_eq_ok_iff
      (x := readFields t one a next rest) (k := fun vs => pure (v :: vs)))
    cases rest with
    | nil => rfl
    | cons _ _ =>
        rw [hnext]
        rfl
  · constructor
    · rintro ⟨b, hb, v, hv, vs, hvs, heq⟩
      exact ⟨b, v, vs, hb, hv, hvs, (Except.ok.inj heq).symm⟩
    · rintro ⟨b, v, vs, hb, hv, hvs, rfl⟩
      exact ⟨b, hb, v, hv, vs, hvs, rfl⟩

/-- The first field is stored at its place, and the others behind it. -/
theorem writeFields_cons_eq_ok_iff {one : UInt64 → TypeId → Val → MemoryOp Unit}
    (hstart : t.fieldStart offset field = .ok start) (hnext : t.fieldEnd start field = .ok next) :
    writeFields t one a offset (field :: rest) (v :: vs) m = .ok () m' ↔
      ∃ b m₁, addressPlus a start = .ok b ∧ one b field v m = .ok () m₁ ∧
        writeFields t one a next rest vs m₁ = .ok () m' := by
  rw [writeFields, hstart]
  change (liftM (addressPlus a start) >>= _ : MemoryOp Unit) m = _ ↔ _
  constructor
  · intro h
    obtain ⟨b, _, hlift, h⟩ := MemoryOp.bind_eq_ok_iff.1 h
    obtain ⟨hb, rfl⟩ := MemoryOp.lift_eq_ok_iff.1 hlift
    obtain ⟨⟨⟩, m₁, hone, h⟩ := MemoryOp.bind_eq_ok_iff.1 h
    refine ⟨b, m₁, hb, hone, ?_⟩
    cases rest with
    | nil => simpa [writeFields] using h
    | cons _ _ =>
        cases vs with
        | nil => simpa [writeFields] using h
        | cons _ _ =>
            rw [hnext] at h
            exact h
  · rintro ⟨b, m₁, hb, hone, h⟩
    refine MemoryOp.bind_eq_ok_iff.2 ⟨b, m, MemoryOp.lift_eq_ok_iff.2 ⟨hb, rfl⟩,
      MemoryOp.bind_eq_ok_iff.2 ⟨(), m₁, hone, ?_⟩⟩
    cases rest with
    | nil => simpa [writeFields] using h
    | cons _ _ =>
        cases vs with
        | nil => simpa [writeFields] using h
        | cons _ _ =>
            rw [hnext]
            exact h

/-- The first item is read at its place, and the others behind it. -/
theorem readItems_succ_eq_ok_iff {one : UInt64 → Fallible Val} {left i : Nat} :
    readItems one a size (left + 1) i = .ok items ↔
      ∃ b v vs, addressPlus a (i * size) = .ok b ∧ one b = .ok v ∧
        readItems one a size left (i + 1) = .ok vs ∧ items = v :: vs := by
  rw [readItems]
  constructor
  · intro h
    obtain ⟨b, hb, h⟩ := answer_bind_eq_ok_iff.1 h
    obtain ⟨v, hv, h⟩ := answer_bind_eq_ok_iff.1 h
    obtain ⟨vs, hvs, h⟩ := answer_bind_eq_ok_iff.1 h
    exact ⟨b, v, vs, Fallible.lift_eq_ok_iff.1 hb, hv, hvs, (Except.ok.inj h).symm⟩
  · rintro ⟨b, v, vs, hb, hv, hvs, rfl⟩
    exact answer_bind_eq_ok_iff.2 ⟨b, Fallible.lift_eq_ok_iff.2 hb,
      answer_bind_eq_ok_iff.2 ⟨v, hv, answer_bind_eq_ok_iff.2 ⟨vs, hvs, rfl⟩⟩⟩

/-- The first item is stored at its place, and the others behind it. -/
theorem writeItems_cons_eq_ok_iff {one : UInt64 → Val → MemoryOp Unit} {i : Nat} :
    writeItems one a size i (v :: vs) m = .ok () m' ↔
      ∃ b m₁, addressPlus a (i * size) = .ok b ∧ one b v m = .ok () m₁ ∧
        writeItems one a size (i + 1) vs m₁ = .ok () m' := by
  rw [writeItems]
  constructor
  · intro h
    obtain ⟨b, _, hlift, h⟩ := MemoryOp.bind_eq_ok_iff.1 h
    obtain ⟨hb, rfl⟩ := MemoryOp.lift_eq_ok_iff.1 hlift
    obtain ⟨⟨⟩, m₁, hone, h⟩ := MemoryOp.bind_eq_ok_iff.1 h
    exact ⟨b, m₁, hb, hone, h⟩
  · rintro ⟨b, m₁, hb, hone, h⟩
    exact MemoryOp.bind_eq_ok_iff.2 ⟨b, m, MemoryOp.lift_eq_ok_iff.2 ⟨hb, rfl⟩,
      MemoryOp.bind_eq_ok_iff.2 ⟨(), m₁, hone, h⟩⟩

end Parts

/-! #### Reading depends on the bytes of a value alone -/

/-- Whether reading at a level depends only on the bytes that a value takes. -/
def ReadsOwnBytes (t : TypeTable) (n : Nat) : Prop :=
  ∀ ⦃a : UInt64⦄ ⦃ty : TypeId⦄ ⦃v : Val⦄ ⦃size : Nat⦄ ⦃m m' : Memory⦄, t.Conforms ty v →
    t.sizeOf ty = .ok size → m.readWithin t n a ty = .ok v →
    m.AgreesOn a.toNat (a.toNat + size) m' → m'.readWithin t n a ty = .ok v

/-- The fields of a structure are the same where their bytes are. -/
theorem readFields_of_agreesOn (hone : ReadsOwnBytes t n)
    (hitems : List.Forall₂ t.Conforms fields items)
    (hend : t.fieldsEnd offset fields = .ok stop)
    (h : readFields t (m.readWithin t n) a offset fields = .ok items)
    (hagrees : m.AgreesOn (a.toNat + offset) (a.toNat + stop) m') :
    readFields t (m'.readWithin t n) a offset fields = .ok items := by
  induction hitems generalizing offset with
  | nil => rfl
  | @cons field v rest vs hv hvs ih =>
      obtain ⟨start, size, hstart, hsize, hnext, hle, hrest⟩ :=
        TypeTable.fieldsEnd_cons_eq_ok hend
      have hle' := TypeTable.le_of_fieldsEnd hrest
      obtain ⟨b, _, _, hb, hread, hreads, ⟨⟩⟩ := (readFields_cons_eq_ok_iff hstart hnext).1 h
      have haddress := toNat_of_addressPlus hb
      have hfirst := hone hv hsize hread (hagrees.mono (by omega) (by omega))
      have hothers := ih hrest hreads (hagrees.mono (by omega) (Nat.le_refl _))
      exact (readFields_cons_eq_ok_iff hstart hnext).2 ⟨b, v, vs, hb, hfirst, hothers, rfl⟩

/-- The items of an array are the same where their bytes are. -/
theorem readItems_of_agreesOn {elem : TypeId} {i : Nat} (hone : ReadsOwnBytes t n)
    (hitems : ∀ item ∈ items, t.Conforms elem item) (hsize : t.sizeOf elem = .ok size)
    (h : readItems (fun b => m.readWithin t n b elem) a size items.length i = .ok items)
    (hagrees : m.AgreesOn (a.toNat + i * size) (a.toNat + (i + items.length) * size) m') :
    readItems (fun b => m'.readWithin t n b elem) a size items.length i = .ok items := by
  induction items generalizing i with
  | nil => rfl
  | cons v vs ih =>
      rw [List.length_cons] at h hagrees ⊢
      have hplaces : (i + (vs.length + 1)) * size = i * size + size + vs.length * size := by ring
      have hnext : (i + 1) * size = i * size + size := by ring
      have hrest : (i + 1 + vs.length) * size = i * size + size + vs.length * size := by ring
      obtain ⟨b, _, _, hb, hread, hreads, ⟨⟩⟩ := readItems_succ_eq_ok_iff.1 h
      have haddress := toNat_of_addressPlus hb
      have hfirst := hone (hitems v List.mem_cons_self) hsize hread
        (hagrees.mono (by omega) (by omega))
      have hothers := ih (fun item hitem => hitems item (List.mem_cons_of_mem _ hitem)) hreads
        (hagrees.mono (by omega) (by omega))
      exact readItems_succ_eq_ok_iff.2 ⟨b, v, vs, hb, hfirst, hothers, rfl⟩

/-- At every level, what is read of a value depends on its own bytes alone. -/
theorem readsOwnBytes (t : TypeTable) (n : Nat) : ReadsOwnBytes t n := by
  induction n with
  | zero => intro a ty v size m m' _ _ h _; cases h
  | succ n ih =>
      intro a ty v size m m' hconforms hsize h hagrees
      cases hconforms with
      | @int _ bits w hty hnormal =>
          obtain rfl := Except.ok.inj (hsize.symm.trans (TypeTable.sizeOf_flat hty rfl))
          rw [readWithin_int hty] at h ⊢
          obtain ⟨raw, hraw, h⟩ := answer_bind_eq_ok_iff.1 h
          rw [readWord_of_agreesOn (bytesForBits_bounds bits).1 hraw hagrees]
          exact h
      | @address _ kind p hty hkind =>
          have hword := TypeTable.sizeOf_flat hty (IrType.shape_of_isAddress hkind)
          obtain rfl := Except.ok.inj (hsize.symm.trans hword)
          rw [readWithin_address hty hkind] at h ⊢
          obtain ⟨raw, hraw, h⟩ := answer_bind_eq_ok_iff.1 h
          rw [readWord_of_agreesOn (by decide) hraw hagrees]
          exact h
      | @array _ elem items hty hitems =>
          obtain ⟨k, hk, rfl⟩ := TypeTable.exists_sizeOf_elem hty hsize
          rw [readWithin_array hty hk] at h ⊢
          obtain ⟨_, hread, ⟨⟩⟩ := answer_bind_eq_ok_iff.1 h
          rw [readItems_of_agreesOn ih hitems hk hread
            (hagrees.mono (by omega) (by rw [Nat.zero_add, Nat.mul_comm]))]
          rfl
      | @struct _ kind fields items hty hfields hitems =>
          obtain ⟨stop, hle, hend⟩ := TypeTable.exists_fieldsEnd hty hfields hsize
          rw [readWithin_struct hty hfields] at h ⊢
          obtain ⟨_, hread, ⟨⟩⟩ := answer_bind_eq_ok_iff.1 h
          rw [readFields_of_agreesOn ih hitems hend hread (hagrees.mono (by omega) (by omega))]
          rfl
      | void hty =>
          rw [readWithin, lift_get_bind hty]
          rfl

/-! #### What is stored is read back -/

/-- Whether at a level every value of a type that is stored is read back, and nothing beside
it has changed. -/
def ReadsBack (t : TypeTable) (n : Nat) : Prop :=
  ∀ ⦃a : UInt64⦄ ⦃ty : TypeId⦄ ⦃v : Val⦄ ⦃size : Nat⦄ ⦃m m' : Memory⦄, t.Conforms ty v →
    t.sizeOf ty = .ok size → writeWithin t n a ty v m = .ok () m' →
    m'.readWithin t n a ty = .ok v ∧ m.ChangesOnly a.toNat (a.toNat + size) m'

/-- The fields of a structure that are stored one behind the other are all read back. -/
theorem readFields_of_writeFields (hone : ReadsBack t n)
    (hitems : List.Forall₂ t.Conforms fields items)
    (hend : t.fieldsEnd offset fields = .ok stop)
    (h : writeFields t (writeWithin t n) a offset fields items m = .ok () m') :
    readFields t (m'.readWithin t n) a offset fields = .ok items ∧
      m.ChangesOnly (a.toNat + offset) (a.toNat + stop) m' := by
  induction hitems generalizing offset m with
  | nil =>
      obtain ⟨-, rfl⟩ := MemoryOp.pure_eq_ok_iff.1 h
      exact ⟨rfl, .refl _ _ _⟩
  | @cons field v rest vs hv hvs ih =>
      obtain ⟨start, size, hstart, hsize, hnext, hle, hrest⟩ :=
        TypeTable.fieldsEnd_cons_eq_ok hend
      have hle' := TypeTable.le_of_fieldsEnd hrest
      obtain ⟨b, m₁, hb, hwrite, hwrites⟩ := (writeFields_cons_eq_ok_iff hstart hnext).1 h
      have haddress := toNat_of_addressPlus hb
      obtain ⟨hread, hchange⟩ := hone hv hsize hwrite
      obtain ⟨hreads, hchanges⟩ := ih hrest hwrites
      -- The fields behind the first one are stored behind its bytes.
      have hkept := readsOwnBytes t n hv hsize hread (hchanges.agreesOn (by omega))
      exact ⟨(readFields_cons_eq_ok_iff hstart hnext).2 ⟨b, v, vs, hb, hkept, hreads, rfl⟩,
        (hchange.mono (by omega) (by omega)).trans (hchanges.mono (by omega) (Nat.le_refl _))⟩

/-- The items of an array that are stored one behind the other are all read back. -/
theorem readItems_of_writeItems {elem : TypeId} {i : Nat} (hone : ReadsBack t n)
    (hitems : ∀ item ∈ items, t.Conforms elem item) (hsize : t.sizeOf elem = .ok size)
    (h : writeItems (fun b item => writeWithin t n b elem item) a size i items m = .ok () m') :
    readItems (fun b => m'.readWithin t n b elem) a size items.length i = .ok items ∧
      m.ChangesOnly (a.toNat + i * size) (a.toNat + (i + items.length) * size) m' := by
  induction items generalizing i m with
  | nil =>
      obtain ⟨-, rfl⟩ := MemoryOp.pure_eq_ok_iff.1 h
      exact ⟨rfl, .refl _ _ _⟩
  | cons v vs ih =>
      rw [List.length_cons]
      have hplaces : (i + (vs.length + 1)) * size = i * size + size + vs.length * size := by ring
      have hnext : (i + 1) * size = i * size + size := by ring
      have hrest : (i + 1 + vs.length) * size = i * size + size + vs.length * size := by ring
      have hv := hitems v List.mem_cons_self
      obtain ⟨b, m₁, hb, hwrite, hwrites⟩ := writeItems_cons_eq_ok_iff.1 h
      have haddress := toNat_of_addressPlus hb
      obtain ⟨hread, hchange⟩ := hone hv hsize hwrite
      obtain ⟨hreads, hchanges⟩ :=
        ih (fun item hitem => hitems item (List.mem_cons_of_mem _ hitem)) hwrites
      -- The items behind the first one are stored behind its bytes.
      have hkept := readsOwnBytes t n hv hsize hread (hchanges.agreesOn (by omega))
      exact ⟨readItems_succ_eq_ok_iff.2 ⟨b, v, vs, hb, hkept, hreads, rfl⟩,
        (hchange.mono (by omega) (by omega)).trans (hchanges.mono (by omega) (by omega))⟩

/-- At every level, what is stored is read back. -/
theorem readsBack (t : TypeTable) (n : Nat) : ReadsBack t n := by
  induction n with
  | zero => intro a ty v size m m' _ _ h; cases h
  | succ n ih =>
      intro a ty v size m m' hconforms hsize h
      cases hconforms with
      | @int _ bits w hty hnormal =>
          obtain rfl := Except.ok.inj (hsize.symm.trans (TypeTable.sizeOf_flat hty rfl))
          rw [writeWithin_int hty] at h
          obtain ⟨hread, hchange⟩ := readWord_of_writeWord h
          rw [readWithin_int hty, hread]
          exact ⟨congrArg (fun w => Except.ok (Val.int w)) (normalizeInt_of_stored hnormal), hchange⟩
      | @address _ kind p hty hkind =>
          have hword := TypeTable.sizeOf_flat hty (IrType.shape_of_isAddress hkind)
          obtain rfl := Except.ok.inj (hsize.symm.trans hword)
          rw [writeWithin_address hty hkind] at h
          obtain ⟨hread, hchange⟩ := readWord_of_writeWord h
          have hwhole : ofLittleEndian (toLittleEndian pointerSize p.toNat) = p.toNat :=
            (ofLittleEndian_toLittleEndian _ _).trans (Nat.mod_eq_of_lt p.toNat_lt)
          rw [readWithin_address hty hkind, hread, hwhole]
          refine ⟨congrArg (fun w => Except.ok (Val.ptr w)) ?_, hchange⟩
          exact UInt64.ofNat_toNat
      | @array _ elem items hty hitems =>
          obtain ⟨k, hk, rfl⟩ := TypeTable.exists_sizeOf_elem hty hsize
          rw [writeWithin_array hty hk] at h
          obtain ⟨hreads, hchanges⟩ := readItems_of_writeItems ih hitems hk h
          rw [readWithin_array hty hk, hreads]
          exact ⟨rfl, hchanges.mono (by omega) (by rw [Nat.zero_add, Nat.mul_comm])⟩
      | @struct _ kind fields items hty hfields hitems =>
          obtain ⟨stop, hle, hend⟩ := TypeTable.exists_fieldsEnd hty hfields hsize
          rw [writeWithin_struct hty hfields] at h
          obtain ⟨hreads, hchanges⟩ := readFields_of_writeFields ih hitems hend h
          rw [readWithin_struct hty hfields, hreads]
          exact ⟨rfl, hchanges.mono (by omega) (by omega)⟩
      | void hty =>
          unfold writeWithin at h
          rw [hty] at h
          obtain ⟨-, rfl⟩ := MemoryOp.pure_eq_ok_iff.1 h
          rw [readWithin, lift_get_bind hty]
          exact ⟨rfl, .refl _ _ _⟩

/-! #### Where values can be stored -/

/-- The bytes at the addresses from `lo` up to `hi` all exist, in one region. -/
def HasRoom (m : Memory) (lo hi : Nat) : Prop :=
  ∃ isStack, base isStack ≤ lo ∧ hi ≤ base isStack + (m.region isStack).size ∧
    hi < wordRange ∧ (isStack = false → hi ≤ stackBase)

section Room

variable {lo hi lo' hi' : Nat}

theorem HasRoom.mono (h : m.HasRoom lo hi) (hlo : lo ≤ lo') (hhi : hi' ≤ hi) :
    m.HasRoom lo' hi' := by
  obtain ⟨isStack, hbase, hsize, hword, htop⟩ := h
  exact ⟨isStack, by omega, by omega, by omega, fun hheap => by have := htop hheap; omega⟩

/-- A change of some bytes leaves the room as it is. -/
theorem HasRoom.of_changesOnly (h : m.HasRoom lo hi) (hchange : m.ChangesOnly lo' hi' m') :
    m'.HasRoom lo hi := by
  obtain ⟨isStack, hbase, hsize, hword, htop⟩ := h
  exact ⟨isStack, hbase, by rwa [hchange.size], hword, htop⟩

/-- An address with room behind it is in a region that goes far enough. -/
theorem HasRoom.exists_locate? {k : Nat} (h : m.HasRoom a.toNat (a.toNat + k)) (hk : 0 < k) :
    ∃ isStack start, locate? a = some (isStack, start) ∧ start + k ≤ (m.region isStack).size := by
  obtain ⟨isStack, hbase, hsize, hword, htop⟩ := h
  unfold locate?
  cases isStack with
  | true =>
      refine ⟨true, _, if_pos hbase, ?_⟩
      simp only [base, if_true] at hbase hsize
      omega
  | false =>
      have hlow : a.toNat < stackBase := by have := htop rfl; omega
      refine ⟨false, _, (if_neg (by omega)).trans (if_pos hbase), ?_⟩
      simp only [base, Bool.false_eq_true, if_false] at hbase hsize
      omega

/-- An address with room behind it can be moved up inside of it. -/
theorem HasRoom.exists_addressPlus {k : Nat} (h : m.HasRoom lo hi) (hk : a.toNat + k ≤ hi) :
    ∃ b, addressPlus a k = .ok b := by
  obtain ⟨isStack, -, -, hword, -⟩ := h
  exact ⟨_, answer_bind_eq_ok_iff.2 ⟨_, Checked.word_eq_ok_iff.2 ⟨by omega, rfl⟩, rfl⟩⟩

/-- A number can be stored where there is room for its bytes. -/
theorem exists_writeWord {k w : Nat} (hk : 0 < k) (h : m.HasRoom a.toNat (a.toNat + k)) :
    ∃ m', writeWord a k w m = .ok () m' := by
  obtain ⟨isStack, start, hplace, hfits⟩ := h.exists_locate? hk
  have hfits' : start + (toLittleEndian k w).length ≤ (m.region isStack).size := by simpa
  obtain ⟨heap, stack, limit, live⟩ := m
  unfold writeWord writeBytes
  rw [hplace]
  cases isStack with
  | true => exact ⟨_, if_pos hfits'⟩
  | false => exact ⟨_, if_pos hfits'⟩

/-- Whether at a level every value of a type with a size at that level can be stored where
there is room for it. -/
def Storable (t : TypeTable) (n : Nat) : Prop :=
  ∀ ⦃a : UInt64⦄ ⦃ty : TypeId⦄ ⦃v : Val⦄ ⦃size : Nat⦄ ⦃m : Memory⦄, t.Conforms ty v →
    t.sizeWithin n ty = .ok size → m.HasRoom a.toNat (a.toNat + size) →
    ∃ m', writeWithin t n a ty v m = .ok () m'

/-- All fields of a structure can be stored where there is room for them. -/
theorem exists_writeFields (hn : n ≤ t.size + 1) (hone : Storable t n)
    (hitems : List.Forall₂ t.Conforms fields items)
    (hsizes : ∀ field ∈ fields, ∃ k, t.sizeWithin n field = .ok k)
    (hend : t.fieldsEnd offset fields = .ok stop)
    (hroom : m.HasRoom (a.toNat + offset) (a.toNat + stop)) :
    ∃ m', writeFields t (writeWithin t n) a offset fields items m = .ok () m' := by
  induction hitems generalizing offset m with
  | nil => exact ⟨m, rfl⟩
  | @cons field v rest vs hv hvs ih =>
      obtain ⟨start, size, hstart, hsize, hnext, hle, hrest⟩ :=
        TypeTable.fieldsEnd_cons_eq_ok hend
      have hle' := TypeTable.le_of_fieldsEnd hrest
      obtain ⟨k, hk⟩ := hsizes field List.mem_cons_self
      obtain rfl := Except.ok.inj (hsize.symm.trans (TypeTable.sizeOf_of_sizeWithin hn hk))
      obtain ⟨b, hb⟩ := hroom.exists_addressPlus (a := a) (k := start) (by omega)
      have haddress := toNat_of_addressPlus hb
      have hfirst : m.HasRoom b.toNat (b.toNat + size) := hroom.mono (by omega) (by omega)
      obtain ⟨m₁, hwrite⟩ := hone hv hk hfirst
      obtain ⟨-, hchange⟩ := readsBack t n hv hsize hwrite
      obtain ⟨m', hwrites⟩ :=
        ih (fun field hfield => hsizes field (List.mem_cons_of_mem _ hfield)) hrest
          ((hroom.of_changesOnly hchange).mono (by omega) (Nat.le_refl _))
      exact ⟨m', (writeFields_cons_eq_ok_iff hstart hnext).2 ⟨b, m₁, hb, hwrite, hwrites⟩⟩

/-- All items of an array can be stored where there is room for them. -/
theorem exists_writeItems {elem : TypeId} {i : Nat} (hn : n ≤ t.size + 1) (hone : Storable t n)
    (hitems : ∀ item ∈ items, t.Conforms elem item) (hsize : t.sizeWithin n elem = .ok size)
    (hroom : m.HasRoom (a.toNat + i * size) (a.toNat + (i + items.length) * size)) :
    ∃ m', writeItems (fun b item => writeWithin t n b elem item) a size i items m = .ok () m' := by
  induction items generalizing i m with
  | nil => exact ⟨m, rfl⟩
  | cons v vs ih =>
      rw [List.length_cons] at hroom
      have hplaces : (i + (vs.length + 1)) * size = i * size + size + vs.length * size := by ring
      have hnext : (i + 1) * size = i * size + size := by ring
      have hrest : (i + 1 + vs.length) * size = i * size + size + vs.length * size := by ring
      have hv := hitems v List.mem_cons_self
      obtain ⟨b, hb⟩ := hroom.exists_addressPlus (a := a) (k := i * size) (by omega)
      have haddress := toNat_of_addressPlus hb
      have hfirst : m.HasRoom b.toNat (b.toNat + size) := hroom.mono (by omega) (by omega)
      obtain ⟨m₁, hwrite⟩ := hone hv hsize hfirst
      obtain ⟨-, hchange⟩ := readsBack t n hv (TypeTable.sizeOf_of_sizeWithin hn hsize) hwrite
      obtain ⟨m', hwrites⟩ :=
        ih (i := i + 1) (fun item hitem => hitems item (List.mem_cons_of_mem _ hitem))
          ((hroom.of_changesOnly hchange).mono (by omega) (by omega))
      exact ⟨m', writeItems_cons_eq_ok_iff.2 ⟨b, m₁, hb, hwrite, hwrites⟩⟩

/-- At every level that a table has, values can be stored where there is room for them. -/
theorem storable (hn : n ≤ t.size + 1) : Storable t n := by
  induction n with
  | zero => intro a ty v size m _ h; cases h
  | succ n ih =>
      have hn' : n ≤ t.size + 1 := by omega
      intro a ty v size m hconforms hwithin hroom
      have hsize := TypeTable.sizeOf_of_sizeWithin hn hwithin
      cases hconforms with
      | @int _ bits w hty _ =>
          obtain rfl := Except.ok.inj (hsize.symm.trans (TypeTable.sizeOf_flat hty rfl))
          rw [writeWithin_int hty]
          exact exists_writeWord (bytesForBits_bounds bits).1 hroom
      | @address _ kind p hty hkind =>
          have hword := TypeTable.sizeOf_flat hty (IrType.shape_of_isAddress hkind)
          obtain rfl := Except.ok.inj (hsize.symm.trans hword)
          rw [writeWithin_address hty hkind]
          exact exists_writeWord (by decide) hroom
      | @array _ elem items hty hitems =>
          rw [TypeTable.sizeWithin_succ, hty] at hwithin
          change (t.sizeWithin n elem >>= fun k => Checked.word (k * items.length)) = _ at hwithin
          obtain ⟨k, hk, hwithin⟩ := answer_bind_eq_ok_iff.1 hwithin
          obtain ⟨-, rfl⟩ := Checked.word_eq_ok_iff.1 hwithin
          rw [writeWithin_array hty (TypeTable.sizeOf_of_sizeWithin hn' hk)]
          exact exists_writeItems hn' (ih hn') hitems hk
            (hroom.mono (by omega) (by rw [Nat.zero_add, Nat.mul_comm]))
      | @struct _ kind fields items hty hfields hitems =>
          obtain ⟨stop, hle, hend⟩ := TypeTable.exists_fieldsEnd hty hfields hsize
          rw [TypeTable.sizeWithin_succ, hty] at hwithin
          have hparts := Shape.exists_of_size_eq_ok hwithin
          rw [IrType.shape_of_fields? hfields] at hparts
          rw [writeWithin_struct hty hfields]
          exact exists_writeFields hn' (ih hn') hitems hparts hend
            (hroom.mono (by omega) (by omega))
      | void hty =>
          unfold writeWithin
          rw [hty]
          exact ⟨m, rfl⟩

/-- A value of a type can be stored where there is room for it. -/
theorem exists_write (hconforms : t.Conforms ty v) (hsize : t.sizeOf ty = .ok size)
    (hroom : m.HasRoom a.toNat (a.toNat + size)) : ∃ m', write t a ty v m = .ok () m' :=
  storable (Nat.le_refl _) hconforms hsize hroom

end Room

/-! #### The whole value -/

/-- A value that has been stored is read back as it was, and only its own bytes have changed:
those at every other address are what they were, and both regions are as long as before. -/
theorem read_of_write (hconforms : t.Conforms ty v) (hsize : t.sizeOf ty = .ok size)
    (hwrite : write t a ty v m = .ok () m') :
    m'.read t a ty = .ok v ∧ m.ChangesOnly a.toNat (a.toNat + size) m' :=
  readsBack t (t.size + 1) hconforms hsize hwrite

/-- The types of `{ i8, i17, [3 x i8], i17* }` and of two of these structures side by side. -/
def paddedTypes : TypeTable :=
  .ofTypes [.int 17, .int 8, .array ⟨1⟩ 3, .pointer ⟨0⟩,
    .named "Padded" (some [⟨1⟩, ⟨0⟩, ⟨2⟩, ⟨3⟩]), .array ⟨4⟩ 2]

/-- Two structures with room between their fields and behind their items. -/
def paddedValue : Val :=
  .agg [.agg [.int (-128), .int (-65536), .agg [.int 1, .int (-2), .int 3], .ptr 18446744073709551615],
    .agg [.int 127, .int 65535, .agg [.int 0, .int 5, .int (-1)], .ptr 0]]

/-- The padded structures are stored in the middle of a heap full of ones and read back. -/
theorem read_of_write_padded : ∃ m', paddedTypes.Conforms ⟨5⟩ paddedValue ∧
    paddedTypes.sizeOf ⟨5⟩ = .ok 48 ∧
    write paddedTypes 24 ⟨5⟩ paddedValue ⟨Array.replicate 64 255, #[], 100, 0⟩ = .ok () m' ∧
    m'.read paddedTypes 24 ⟨5⟩ = .ok paddedValue ∧
    ChangesOnly 24 (24 + 48) ⟨Array.replicate 64 255, #[], 100, 0⟩ m' := by
  have hbytes : ∀ x y z : Int64, normalizeInt x 8 = x → normalizeInt y 8 = y →
      normalizeInt z 8 = z → paddedTypes.Conforms ⟨2⟩ (.agg [.int x, .int y, .int z]) := by
    intro x y z hx hy hz
    have hty : paddedTypes.get ⟨2⟩ = .ok (.array ⟨1⟩ 3) := rfl
    refine .array hty fun item hitem => ?_
    simp only [List.mem_cons, List.not_mem_nil, or_false] at hitem
    rcases hitem with rfl | rfl | rfl
    · exact .int rfl hx
    · exact .int rfl hy
    · exact .int rfl hz
  have hstruct : ∀ (a b : Int64) (items : Val) (p : UInt64), normalizeInt a 8 = a →
      normalizeInt b 17 = b → paddedTypes.Conforms ⟨2⟩ items →
      paddedTypes.Conforms ⟨4⟩ (.agg [.int a, .int b, items, .ptr p]) := by
    intro a b items p ha hb hitems
    have hty : paddedTypes.get ⟨4⟩ = .ok (.named "Padded" (some [⟨1⟩, ⟨0⟩, ⟨2⟩, ⟨3⟩])) := rfl
    have hpointer : paddedTypes.get ⟨3⟩ = .ok (.pointer ⟨0⟩) := rfl
    exact .struct hty rfl (.cons (.int rfl ha) (.cons (.int rfl hb)
      (.cons hitems (.cons (.address hpointer rfl) .nil))))
  have hconforms : paddedTypes.Conforms ⟨5⟩ paddedValue := by
    have hty : paddedTypes.get ⟨5⟩ = .ok (.array ⟨4⟩ 2) := rfl
    refine .array hty fun item hitem => ?_
    rcases List.mem_pair.1 hitem with rfl | rfl
    · exact hstruct _ _ _ _ (by decide) (by decide) (hbytes _ _ _ (by decide) (by decide) (by decide))
    · exact hstruct _ _ _ _ (by decide) (by decide) (hbytes _ _ _ (by decide) (by decide) (by decide))
  have hsize : paddedTypes.sizeOf ⟨5⟩ = .ok 48 := by rfl
  have hroom : HasRoom ⟨Array.replicate 64 255, #[], 100, 0⟩ 24 (24 + 48) :=
    ⟨false, by decide, by decide, by decide, by decide⟩
  obtain ⟨m', hwrite⟩ := exists_write (a := 24) hconforms hsize hroom
  exact ⟨m', hconforms, hsize, hwrite, read_of_write hconforms hsize hwrite⟩

end Memory

end SsaCompiler
