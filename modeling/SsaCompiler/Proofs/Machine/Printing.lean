/-
# Printing

A text is kept in memory as its bytes with a zero behind them, and it is read back from there as
it was, whatever characters it has, if the character zero is not among them. So what is printed for
a string is the string itself: a format is looked through for conversions, but the texts that are
put into it are not.

A format that is put together from conversions writes what each of them writes, with what stands
between them in the format between their texts.
-/

import SsaCompiler.Proofs.Machine.Bytes
import SsaCompiler.Proofs.Machine.Emission
import SsaCompiler.Proofs.Machine.Ending
import SsaCompiler.Proofs.Machine.Format
import SsaCompiler.Text.Utf8

namespace SsaCompiler

/-! ### The bytes of a text -/

namespace Text

variable {rest : List UInt8} {b n payload low high : Nat} {l : Lead}

/-- A byte that is a character. -/
theorem decodeFrom_ascii (hb : b < 0x80) :
    decodeFrom .between (UInt8.ofNat b :: rest) = Char.ofNat b :: decodeFrom .between rest := by
  have hbyte : (UInt8.ofNat b).toNat = b := by simp; omega
  rw [decodeFrom, hbyte]
  simp [decodeFirst, hb]

/-- A lead byte opens a character. -/
theorem decodeFrom_lead (hb : 0x80 ≤ b ∧ b < 0x100) (hlead : lead? b = some l) :
    decodeFrom .between (UInt8.ofNat b :: rest) =
      decodeFrom (.inside l.following l.payload l.low l.high) rest := by
  have hbyte : (UInt8.ofNat b).toNat = b := by simp; omega
  have hfirst : ¬ b < 0x80 := by omega
  rw [decodeFrom, hbyte]
  simp [decodeFirst, hfirst, hlead]

/-- A byte that a character expects before its last one. -/
theorem decodeFrom_inner (hlow : low ≤ n + 0x80) (hhigh : n + 0x80 ≤ high) (hn : n < 64) {k : Nat} :
    decodeFrom (.inside (k + 2) payload low high) (UInt8.ofNat (n + 0x80) :: rest) =
      decodeFrom (.inside (k + 1) (payload * 64 + n) 0x80 0xBF) rest := by
  have hbyte : (UInt8.ofNat (n + 0x80)).toNat = n + 0x80 := by simp; omega
  rw [decodeFrom, hbyte, if_pos ⟨hlow, hhigh⟩]
  simp

/-- The last byte of a character. -/
theorem decodeFrom_last (hlow : low ≤ n + 0x80) (hhigh : n + 0x80 ≤ high) (hn : n < 64) :
    decodeFrom (.inside 1 payload low high) (UInt8.ofNat (n + 0x80) :: rest) =
      Char.ofNat (payload * 64 + n) :: decodeFrom .between rest := by
  have hbyte : (UInt8.ofNat (n + 0x80)).toNat = n + 0x80 := by simp; omega
  rw [decodeFrom, hbyte, if_pos ⟨hlow, hhigh⟩]
  simp

/-- A character is read back from its bytes. -/
theorem decodeFrom_encodeChar (c : Char) (rest : List UInt8) :
    decodeFrom .between (String.utf8EncodeChar c ++ rest) = c :: decodeFrom .between rest := by
  have hvalid : c.val.toNat < 0xD800 ∨ 0xDFFF < c.val.toNat ∧ c.val.toNat < 0x110000 := c.valid
  have hchar : ∀ {n}, n = c.val.toNat → Char.ofNat n = c := by
    rintro n rfl
    exact Char.ofNat_toNat c
  unfold String.utf8EncodeChar
  generalize c.val.toNat = v at hvalid hchar
  -- The four lengths of an encoding; within a length the lead byte settles the second byte's range.
  simp only
  split_ifs with h₁ h₂ h₃
  · rw [List.singleton_append, decodeFrom_ascii (by omega), hchar rfl]
  · have hlead : lead? (v / 64 % 32 + 0xC0) = some ⟨1, v / 64 % 32, 0x80, 0xBF⟩ := by
      unfold lead?
      rw [if_pos (by omega), Nat.add_sub_cancel]
    rw [List.cons_append, List.singleton_append, decodeFrom_lead (by omega) hlead,
      decodeFrom_last (by simp) (by simp only; omega) (by omega), hchar (by simp only; omega)]
  · obtain ⟨low, high, hlead, hlow, hhigh⟩ : ∃ low high,
        lead? (v / 4096 % 16 + 0xE0) = some ⟨2, v / 4096 % 16, low, high⟩ ∧
          low ≤ v / 64 % 64 + 0x80 ∧ v / 64 % 64 + 0x80 ≤ high := by
      unfold lead?
      by_cases hzero : v / 4096 = 0
      · exact ⟨0xA0, 0xBF, by simp [hzero], by omega, by omega⟩
      · by_cases hsurrogate : v / 4096 = 0xD
        · exact ⟨0x80, 0x9F, by simp [hsurrogate], by omega, by omega⟩
        · refine ⟨0x80, 0xBF, ?_, by omega, by omega⟩
          rw [if_neg (by omega), if_neg (by omega), if_neg (by omega), if_pos (by omega),
            Nat.add_sub_cancel]
    rw [List.cons_append, List.cons_append, List.singleton_append, decodeFrom_lead (by omega) hlead,
      decodeFrom_inner hlow hhigh (by omega), decodeFrom_last (by omega) (by omega) (by omega),
      hchar (by simp only; omega)]
  · obtain ⟨low, high, hlead, hlow, hhigh⟩ : ∃ low high,
        lead? (v / 262144 % 8 + 0xF0) = some ⟨3, v / 262144 % 8, low, high⟩ ∧
          low ≤ v / 4096 % 64 + 0x80 ∧ v / 4096 % 64 + 0x80 ≤ high := by
      unfold lead?
      by_cases hzero : v / 262144 = 0
      · exact ⟨0x90, 0xBF, by simp [hzero], by omega, by omega⟩
      · by_cases hlast : v / 262144 = 4
        · exact ⟨0x80, 0x8F, by simp [hlast], by omega, by omega⟩
        · refine ⟨0x80, 0xBF, ?_, by omega, by omega⟩
          rw [if_neg (by omega), if_neg (by omega), if_neg (by omega), if_neg (by omega),
            if_neg (by omega), if_pos (by omega), Nat.add_sub_cancel]
    rw [List.cons_append, List.cons_append, List.cons_append, List.singleton_append,
      decodeFrom_lead (by omega) hlead, decodeFrom_inner hlow hhigh (by omega),
      decodeFrom_inner (by omega) (by omega) (by omega),
      decodeFrom_last (by omega) (by omega) (by omega), hchar (by simp only; omega)]

/-- The bytes of a text are those of its characters. -/
theorem encode_eq_flatMap (s : String) : encode s = s.toList.flatMap String.utf8EncodeChar := by
  have hloop : ∀ (bytes : ByteArray) (i : Nat) (acc : List UInt8),
      ByteArray.toList.loop bytes i acc = acc.reverse ++ bytes.data.toList.drop i := by
    intro bytes i acc
    fun_induction ByteArray.toList.loop bytes i acc with
    | case1 i acc hi ih =>
        have hi' : i < bytes.data.toList.length := by simpa using hi
        rw [ih, List.drop_eq_getElem_cons hi']
        simp [ByteArray.get!, hi]
    | case2 i acc hi =>
        rw [List.drop_eq_nil_of_le (by simpa using Nat.le_of_not_lt hi)]
        simp
  unfold encode ByteArray.toList
  rw [hloop, String.toUTF8_eq_toByteArray, ← String.utf8Encode_toList]
  simp [List.utf8Encode]

/-- A text is read back from its bytes. -/
theorem decode_encode (s : String) : decode (encode s) = s := by
  have hlist : ∀ cs : List Char, decodeFrom .between (cs.flatMap String.utf8EncodeChar) = cs := by
    intro cs
    induction cs with
    | nil => rfl
    | cons c cs ih => rw [List.flatMap_cons, decodeFrom_encodeChar, ih]
  rw [decode, encode_eq_flatMap, hlist, String.ofList_toList]

/-- Only the character zero has a zero among its bytes. -/
theorem zero_notMem_encodeChar {c : Char} (hc : c ≠ Char.ofNat 0) :
    0 ∉ String.utf8EncodeChar c := by
  have hpos : 0 < c.val.toNat := by
    apply Nat.pos_of_ne_zero
    intro hzero
    apply hc
    rw [← Char.ofNat_toNat c]
    exact congrArg Char.ofNat hzero
  have hbyte : ∀ {n : Nat}, 0 < n → n < 256 → (0 : UInt8) ≠ UInt8.ofNat n := by
    intro n hn hlt heq
    have hnat := congrArg UInt8.toNat heq
    simp only [UInt8.toNat_ofNat'] at hnat
    change 0 = n % 256 at hnat
    omega
  unfold String.utf8EncodeChar
  generalize c.val.toNat = v at hpos
  simp only
  split_ifs <;> simp only [List.mem_cons, List.not_mem_nil, or_false, not_or]
  · exact hbyte hpos (by omega)
  · exact ⟨hbyte (by omega) (by omega), hbyte (by omega) (by omega)⟩
  · exact ⟨hbyte (by omega) (by omega), hbyte (by omega) (by omega), hbyte (by omega) (by omega)⟩
  · exact ⟨hbyte (by omega) (by omega), hbyte (by omega) (by omega), hbyte (by omega) (by omega),
      hbyte (by omega) (by omega)⟩

/-- A text without the character zero has no zero among its bytes. -/
theorem zero_notMem_encode {s : String} (hs : Char.ofNat 0 ∉ s.toList) : 0 ∉ encode s := by
  rw [encode_eq_flatMap, List.mem_flatMap]
  rintro ⟨c, hc, hzero⟩
  exact zero_notMem_encodeChar (ne_of_mem_of_not_mem hc hs) hzero

end Text

/-! ### Texts in memory -/

namespace Memory

variable {mem : Memory} {a : UInt64}

/-- The bytes of a region up to the first zero. -/
theorem untilZero_eq_ok {region : Array UInt8} {bytes : List UInt8} (hbytes : 0 ∉ bytes)
    {start n : Nat} {acc : List UInt8}
    (hregion : ∀ i ≤ bytes.length, region[start + i]? = (bytes ++ [0])[i]?)
    (hn : bytes.length < n) : untilZero region n start acc = .ok (acc.reverse ++ bytes) := by
  induction bytes generalizing start n acc with
  | nil =>
      obtain ⟨n, rfl⟩ := Nat.exists_eq_add_one_of_ne_zero (Nat.ne_of_gt hn)
      have hzero : region[start]? = some 0 := hregion 0 (Nat.zero_le _)
      simp [untilZero, hzero]
  | cons b bytes ih =>
      have hhead : region[start]? = some b := hregion 0 (Nat.zero_le _)
      have hb : b ≠ 0 := fun h => hbytes (h ▸ List.mem_cons_self)
      obtain ⟨n, rfl⟩ := Nat.exists_eq_add_one_of_ne_zero (Nat.ne_zero_of_lt hn)
      have htail : ∀ i ≤ bytes.length, region[start + 1 + i]? = (bytes ++ [0])[i]? := by
        intro i hi
        have hnext := hregion (i + 1) (by simpa using hi)
        rwa [← Nat.add_assoc, Nat.add_right_comm] at hnext
      rw [untilZero, hhead]
      simp only [hb, if_false]
      rw [ih (fun h => hbytes (List.mem_cons_of_mem _ h)) htail (by simpa using hn)]
      simp

/-- A text that is in memory with a closing zero is read back, if it has no zero itself. -/
theorem readText_eq_ok {s : String} (hs : Char.ofNat 0 ∉ s.toList)
    (h : mem.readBytes a (Text.encode s ++ [0]).length = .ok (Text.encode s ++ [0])) :
    mem.readText a = .ok s := by
  obtain ⟨isStack, start, hplace, hfits, hbytes⟩ := readBytes_eq_ok_iff.1 h
  simp only [List.length_append, List.length_singleton] at hfits
  have hregion : ∀ i ≤ (Text.encode s).length,
      (mem.region isStack)[start + i]? = (Text.encode s ++ [0])[i]? := by
    intro i hi
    have hlt : start + i < (mem.region isStack).size := by omega
    rw [hbytes, getElem?_bytesFrom (by simpa using Nat.lt_succ_of_le hi),
      Array.getD_eq_getD_getElem?, Array.getElem?_eq_getElem hlt]
    rfl
  have hsearch : untilZero (mem.region isStack) ((mem.region isStack).size - start + 1) start [] =
      .ok (Text.encode s) :=
    untilZero_eq_ok (Text.zero_notMem_encode hs) hregion (by omega)
  unfold readText
  simp only [hplace, hsearch, Text.decode_encode]

end Memory

/-- A global of a module starts with given bytes. -/
def Module.StartsWith (m : Module) (i : Nat) (bytes : List UInt8) : Prop :=
  ∃ g init ty, m.globals[i]? = some g ∧ g.init = some init ∧
    m.value init = .ok ⟨ty, .const (.bytes bytes)⟩

/-- A value of a module is the address of a text, which has a zero behind it. -/
def Module.IsText (m : Module) (v : ValueId) (text : String) : Prop :=
  ∃ ty byte i, m.value v = .ok ⟨ty, .global i⟩ ∧ m.types.get ty = .ok (.pointer byte) ∧
    m.types.get byte = .ok (.int 8) ∧ m.StartsWith i (Text.encode text ++ [0])

/-- The bytes that a global starts with, if it starts with bytes. -/
def Module.startBytes? (m : Module) (i : Nat) : Option (List UInt8) := do
  let g ← m.globals[i]?
  let init ← g.init
  match (← (m.value init).toOption).origin with
  | .const (.bytes bytes) => some bytes
  | _ => none

/-- A global starts with the bytes that it is found to start with. -/
theorem Module.StartsWith.startBytes? {m : Module} {i : Nat} {bytes : List UInt8}
    (h : m.StartsWith i bytes) : m.startBytes? i = some bytes := by
  obtain ⟨g, init, ty, hg, hinit, hvalue⟩ := h
  unfold Module.startBytes?
  simp [hg, hinit, hvalue, Except.toOption]

section

variable {m m' : Module} {v : ValueId} {text : String}

/-- A global starts with the same bytes in a later module. -/
theorem Module.StartsWith.mono {i : Nat} {bytes : List UInt8} (h : m.StartsWith i bytes)
    (hgrows : m.Grows m') (hglobals : m.globals.toList <+: m'.globals.toList) :
    m'.StartsWith i bytes := by
  obtain ⟨g, init, ty, hg, hinit, hvalue⟩ := h
  obtain ⟨more, hmore⟩ := hglobals
  refine ⟨g, init, ty, ?_, hinit, hgrows.values hvalue⟩
  rw [← Array.getElem?_toList] at hg ⊢
  rw [← hmore, List.getElem?_append_left (List.getElem?_eq_some_iff.1 hg).1, hg]

/-- A text is one in a later module. -/
theorem Module.IsText.mono (h : m.IsText v text) (hgrows : m.Grows m')
    (hglobals : m.globals.toList <+: m'.globals.toList) : m'.IsText v text := by
  obtain ⟨ty, byte, i, hvalue, hty, hbyte, hstarts⟩ := h
  exact ⟨ty, byte, i, hgrows.values hvalue, hgrows.types hty (by simp),
    hgrows.types hbyte (by simp), hstarts.mono hgrows hglobals⟩

/-- The address of a text is there. -/
theorem Module.IsText.value_lt (h : m.IsText v text) : v.index < m.values.size := by
  obtain ⟨ty, byte, i, hvalue, -⟩ := h
  exact Module.value_lt hvalue

/-- The address of a text that is added. -/
theorem Build.isText_globalString {text : String} {m m' : Module} {v : ValueId}
    (h : Build.globalString text m = .ok (v, m')) : m'.IsText v text := by
  let bytes := Text.encode text ++ [0]
  let m₁ := m.withType (.int 8)
  let byteTy := (m.types.intern (.int 8)).1
  let m₂ := m₁.withType (.array byteTy bytes.length)
  let arrayTy := (m₁.types.intern (.array byteTy bytes.length)).1
  let m₃ := m₂.withValue arrayTy (.const (.bytes bytes))
  let m₄ := { m₃ with
    globals := m₃.globals.push ⟨s!".str.{m₃.stringCount}", arrayTy, some m₂.nextValue⟩
    stringCount := m₃.stringCount + 1 }
  let m₅ := m₄.withType (.pointer byteTy)
  let ptrTy := (m₄.types.intern (.pointer byteTy)).1
  have hrun : Build.globalString text m =
      .ok (m₅.nextValue, m₅.withValue ptrTy (.global m₃.globals.size)) := rfl
  obtain ⟨rfl, rfl⟩ := Prod.mk.inj (Except.ok.inj (hrun.symm.trans h))
  have hbyte : m₂.types.get byteTy = .ok (.int 8) :=
    TypeTable.get_intern_of_ok _ (Module.get_intern _ _)
  have hinit : m₃.value m₂.nextValue = .ok ⟨arrayTy, .const (.bytes bytes)⟩ :=
    Module.value_withValue_nextValue _ _ _
  exact ⟨ptrTy, byteTy, m₃.globals.size, Module.value_withValue_nextValue _ _ _,
    Module.get_intern _ _, TypeTable.get_intern_of_ok _ hbyte, _, m₂.nextValue, arrayTy,
    Array.getElem?_push_size, rfl, Checked.at_push _ hinit⟩

end

/-- The bytes that globals of a module start with are in memory, as long as the program has not
written over them. -/
def MachineState.HoldsTexts (s : MachineState) (m : Module) : Prop :=
  ∀ ⦃i bytes⦄, m.StartsWith i bytes →
    ∃ a, s.globals[i]? = some a ∧ s.memory.readBytes a bytes.length = .ok bytes

/-- The address of a text, and what is read there. -/
theorem MachineState.HoldsTexts.exists_readText {m M : Module} {s : MachineState} {v : ValueId}
    {text : String} (h : s.HoldsTexts m) (hv : m.IsText v text) (hM : m.Grows M)
    (htext : Char.ofNat 0 ∉ text.toList) (frame : Frame) :
    ∃ a, frame.operand M s.globals v = .ok (.ptr a) ∧ s.memory.readText a = .ok text := by
  obtain ⟨ty, byte, i, hvalue, -, -, hstarts⟩ := hv
  obtain ⟨a, ha, hread⟩ := h hstarts
  refine ⟨a, ?_, Memory.readText_eq_ok htext hread⟩
  have hvalue' := hM.values hvalue
  rw [Frame.operand_of_constant hvalue' rfl, Module.constantVal_global _ hvalue',
    Checked.at_eq_ok_iff.2 ha]
  rfl

/-- What is in memory stays there in what comes before. -/
theorem MachineState.HoldsTexts.mono {s : MachineState} {m m' : Module} (h : s.HoldsTexts m')
    (hgrows : m.Grows m') (hglobals : m.globals.toList <+: m'.globals.toList) : s.HoldsTexts m :=
  fun _ _ hstarts => h (hstarts.mono hgrows hglobals)

/-- Code that only counts steps leaves the texts in memory. -/
theorem MachineState.HoldsTexts.keeps {m M : Module} {p q : Point} {low : Nat}
    (h : p.state.HoldsTexts m) (hkeeps : p.Keeps M low q) : q.state.HoldsTexts m := by
  unfold HoldsTexts
  rw [hkeeps.globals, hkeeps.memory]
  exact h

/-! ### Formats that are put together -/

namespace Format

variable {mem : Memory} {format format' s s' : String} {args args' : List Val}

/-- Formats are put together with their arguments and their texts. -/
theorem Writes.append (h : Writes mem format args s) (h' : Writes mem format' args' s') :
    Writes mem (format ++ format') (args ++ args') (s ++ s') := by
  have happend := textFrom_append h format'.toList args'
  unfold Writes at h' ⊢
  rw [String.toList_append, happend, List.nil_append, h', String.toList_append]
  rfl

theorem writes_literal (mem : Memory) {s : String} (hs : '%' ∉ s.toList) : Writes mem s [] s := by
  have hlist : ∀ cs : List Char, '%' ∉ cs → textFrom mem .text cs [] = .ok (cs, []) := by
    intro cs hcs
    induction cs with
    | nil => rfl
    | cons c cs ih =>
        have hc : c ≠ '%' := fun h => hcs (h ▸ List.mem_cons_self)
        have hstep : FormatStep.ofChar .text c = .ok (.literal c) := by
          simp [FormatStep.ofChar, hc]
        rw [textFrom_of_literal hstep, ih fun h => hcs (List.mem_cons_of_mem _ h)]
        rfl
  exact hlist s.toList hs

/-- A conversion that asks for nothing but its letter. -/
theorem writes_convert (cs : List Char) (mode : FormatMode) {letter : Char} {x : Val}
    (hletter : takesArg letter = true) (htext : argText mem .plain letter x = .ok s)
    (hmode : ∀ rest, textFrom mem .text (cs ++ rest) [x] = textFrom mem mode rest [x])
    (hstep : FormatStep.ofChar mode letter = .ok (.convert .plain letter)) :
    textFrom mem .text (cs ++ [letter]) [x] = .ok (s.toList, []) := by
  have hpercent : letter ≠ '%' := by
    rintro rfl
    cases hletter
  have hconvert : convert mem .plain letter [x] = .ok (s, []) := by
    unfold convert
    rw [if_neg hpercent, if_pos hletter]
    change (argText mem .plain letter x >>= fun s => pure (s, [])) = _
    rw [htext]
    rfl
  rw [hmode, textFrom_of_convert hstep hconvert]
  simp [textFrom, inFront, Except.map]

/-- A text that is not brought to a width. -/
theorem pad_plain (body : String) (numeric : Bool) : FormatSpec.plain.pad body numeric = .ok body :=
  if_pos (Nat.zero_le _)

theorem signedText_plain (w : Int64) : signedText .plain w = .ok (toString w.toInt) := by
  unfold signedText
  rw [pad_plain]
  congr 1
  cases w.toInt with
  | ofNat n =>
      have hsign : FormatSpec.plain.sign (decide (Int.ofNat n < 0)) = "" := by
        simp [FormatSpec.sign, FormatSpec.plain]
      rw [hsign, String.empty_append]
      rfl
  | negSucc n =>
      have hsign : FormatSpec.plain.sign (decide (Int.negSucc n < 0)) = "-" := by
        simp [FormatSpec.sign, Int.negSucc_lt_zero]
      rw [hsign]
      rfl

theorem writes_d (mem : Memory) (w : Int64) : Writes mem "%d" [.int w] (toString w.toInt) := by
  have htext : argText mem .plain 'd' (.int w) = .ok (toString w.toInt) := by
    change (liftM (signedText .plain w) : Fallible String) = _
    rw [signedText_plain]
    rfl
  apply writes_convert ['%'] (.flags .plain) rfl htext (fun rest => ?_) rfl
  exact textFrom_of_next rfl

/-- The conversion of a long word. -/
theorem writes_ld (mem : Memory) (w : Int64) : Writes mem "%ld" [.int w] (toString w.toInt) := by
  have htext : argText mem .plain 'd' (.int w) = .ok (toString w.toInt) := by
    change (liftM (signedText .plain w) : Fallible String) = _
    rw [signedText_plain]
    rfl
  apply writes_convert ['%', 'l'] (.length .plain) rfl htext (fun rest => ?_) rfl
  exact (textFrom_of_next rfl).trans (textFrom_of_next rfl)

theorem writes_c (mem : Memory) (w : Int64) :
    Writes mem "%c" [.int w] (String.singleton (Char.ofNat (w.toUInt64.toNat % 256))) := by
  have htext : argText mem .plain 'c' (.int w) =
      .ok (String.singleton (Char.ofNat (w.toUInt64.toNat % 256))) := by
    change (liftM (FormatSpec.plain.pad _ false) : Fallible String) = _
    rw [pad_plain]
    rfl
  apply writes_convert ['%'] (.flags .plain) rfl htext (fun rest => ?_) rfl
  exact textFrom_of_next rfl

/-- The conversion of a text. What the text is does not matter. -/
theorem writes_s {a : UInt64} (ha : mem.readText a = .ok s) : Writes mem "%s" [.ptr a] s := by
  have htext : argText mem .plain 's' (.ptr a) = .ok s := by
    change (mem.readText a >>= fun s => (liftM (FormatSpec.plain.pad s false) : Fallible String)) = _
    rw [ha]
    change (liftM (FormatSpec.plain.pad s false) : Fallible String) = _
    rw [pad_plain]
    rfl
  apply writes_convert ['%'] (.flags .plain) rfl htext (fun rest => ?_) rfl
  exact textFrom_of_next rfl

/-- Formats with blanks between them write their texts with blanks between them. -/
theorem writes_intercalate {entries : List (String × Val)} {texts : List String}
    (h : List.Forall₂ (fun entry text => Writes mem entry.1 [entry.2] text) entries texts) :
    Writes mem (" ".intercalate (entries.map Prod.fst)) (entries.map Prod.snd)
      (" ".intercalate texts) := by
  have hblank : Writes mem " " [] " " := writes_literal mem (by decide)
  induction h with
  | nil => exact writes_literal mem (by decide)
  | @cons entry text entries texts hentry hrest ih =>
      cases hrest with
      | nil => simpa using hentry
      | cons hnext hrest =>
          simp only [List.map_cons, String.intercalate_cons_cons] at ih ⊢
          exact (hentry.append hblank).append ih

end Format

/-! ### Calls that print -/

namespace Exec

variable {m : Module} {limits : Limits} {s : MachineState} {a : UInt64} {format text : String}
  {args : List Val} {n : Nat} {f : FunctionId}

/-- A format in memory is printed with its arguments. -/
theorem printFormat_eq_ok (hformat : s.memory.readText a = .ok format)
    (hwrites : Format.Writes s.memory format args text) :
    printFormat a args s = .ok (.int (Int64.ofNat text.utf8ByteSize))
      { s with output := s.output ++ text } := by
  have htext : (do Format.text s.memory (← s.memory.readText a) args : Fallible String) =
      .ok text := by
    rw [hformat]
    exact hwrites.text_eq
  have hask : askMemory (fun memory => do Format.text memory (← memory.readText a) args) s =
      .ok text s := by
    unfold askMemory
    simp only [htext]
  exact (bind_of_ok hask).trans rfl

/-- Too deep in other calls no function is called. -/
theorem callWithin_of_depth (hdepth : limits.maxCallDepth ≤ s.depth) :
    callWithin m limits n f args s = .error (.failed (.callDepth limits.maxCallDepth)) s := by
  cases n with
  | zero => rfl
  | succ n =>
      rw [callWithin]
      refine (bind_of_ok (rfl : _ = EStateM.Result.ok _ s)).trans ?_
      rw [if_pos hdepth]
      rfl

/-- A call of the printing function that the machine provides. -/
theorem callWithin_printf (hdepth : s.depth < limits.maxCallDepth)
    (hexternal : m.IsExternal "printf") (hf : m.functionByName? "printf" = some f)
    (hformat : s.memory.readText a = .ok format)
    (hwrites : Format.Writes s.memory format args text) :
    callWithin m limits (n + 1) f (.ptr a :: args) s =
      .ok (.int (Int64.ofNat text.utf8ByteSize)) { s with output := s.output ++ text } := by
  obtain ⟨d, hd, hname, hdeclared⟩ := hexternal.exists_function hf
  have hsymbol : External.ofSymbol? "printf" = some .printf := rfl
  rw [callWithin]
  refine (bind_of_ok (rfl : _ = EStateM.Result.ok _ s)).trans ?_
  rw [if_neg (Nat.not_le.2 hdepth), hd]
  refine (bind_of_ok (liftM_checked_ok d s)).trans ?_
  rw [if_pos hdeclared, external, hname, hsymbol]
  exact printFormat_eq_ok hformat hwrites

end Exec
end SsaCompiler
