/-
# Integers in a format

The conversion of a signed integer makes a numeral of it: a sign, if one is asked for, and decimal
digits. Up to its width the numeral is padded, with blanks on one of its sides or with zeros
behind the sign, and it always comes out as long as the width or, if that is longer, as the
numeral. Without the blanks at its ends it reads as the integer again.

Zeros go behind a minus and behind a plus, but a blank that stands for the sign is taken for the
first of the digits, so that zeros stand in front of it. This is the only case in which what is
written is not a numeral.
-/

import SsaCompiler.Proofs.Machine.Conversion

namespace SsaCompiler

variable {mem : Memory} {cs flags : List Char} {spec : FormatSpec} {n w : Nat} {v : Int64}

/-! ### Reading numerals -/

namespace Text

/-- The number that decimal digits stand for, none if there are no digits or something else. -/
def readNat? (cs : List Char) : Option Nat :=
  if cs ≠ [] ∧ cs.all Char.isDigit then some (Nat.ofDigitChars 10 cs 0) else none

/-- The integer that a numeral stands for: digits, perhaps behind a sign. -/
def readInt? : List Char → Option Int
  | '-' :: ds => (readNat? ds).map fun n : Nat => -(n : Int)
  | '+' :: ds => (readNat? ds).map fun n : Nat => (n : Int)
  | ds => (readNat? ds).map fun n : Nat => (n : Int)

theorem readInt?_minus (ds : List Char) :
    readInt? ('-' :: ds) = (readNat? ds).map fun n : Nat => -(n : Int) :=
  rfl

theorem readInt?_plus (ds : List Char) :
    readInt? ('+' :: ds) = (readNat? ds).map fun n : Nat => (n : Int) :=
  rfl

/-- Characters without the blanks at both ends. -/
def trimmed (cs : List Char) : List Char :=
  ((cs.dropWhile (· == ' ')).reverse.dropWhile (· == ' ')).reverse

/-- Digits may have zeros in front of them. -/
theorem readNat?_zeros_append (k n : Nat) :
    readNat? (List.replicate k '0' ++ Nat.toDigits 10 n) = some n := by
  have hdigits : ∀ c ∈ List.replicate k '0' ++ Nat.toDigits 10 n, c.isDigit := by
    intro c hc
    rcases List.mem_append.1 hc with hc | hc
    · rw [List.eq_of_mem_replicate hc]
      rfl
    · exact isDigit_of_mem_toDigits hc
  have hne : List.replicate k '0' ++ Nat.toDigits 10 n ≠ [] :=
    List.append_ne_nil_of_right_ne_nil _ Nat.toDigits_ne_nil
  rw [readNat?, if_pos ⟨hne, List.all_eq_true.2 hdigits⟩, Nat.ofDigitChars_append, Nat.ofDigitChars_replicate_zero,
    Nat.mul_zero, Nat.ofDigitChars_ten_toDigits]

/-- Digits alone are a numeral. -/
theorem readInt?_of_readNat? (h : readNat? cs = some n) : readInt? cs = some (n : Int) := by
  have hdigits : ∀ c ∈ cs, c.isDigit := by
    unfold readNat? at h
    split at h
    case isTrue hall => exact List.all_eq_true.1 hall.2
    case isFalse => cases h
  unfold readInt?
  split
  · exact absurd (hdigits '-' List.mem_cons_self) (by decide)
  · exact absurd (hdigits '+' List.mem_cons_self) (by decide)
  · rw [h]
    rfl

/-- A blank is part of no numeral. -/
theorem readInt?_eq_none (h : ' ' ∈ cs) : readInt? cs = none := by
  have hnone : ∀ ds : List Char, ' ' ∈ ds → readNat? ds = none := fun ds hds =>
    if_neg fun hall => absurd (List.all_eq_true.1 hall.2 ' ' hds) (by decide)
  unfold readInt?
  split
  case h_1 ds => rw [hnone ds (by simpa using h), Option.map_none]
  case h_2 ds => rw [hnone ds (by simpa using h), Option.map_none]
  case h_3 => rw [hnone cs h, Option.map_none]

/-- Blanks in front of something else are dropped. -/
theorem dropWhile_blanks (k : Nat) (h : ∀ c ∈ cs.head?, c ≠ ' ') :
    (List.replicate k ' ' ++ cs).dropWhile (· == ' ') = cs := by
  rw [List.dropWhile_append_of_pos fun c hc => by simp [List.eq_of_mem_replicate hc]]
  cases cs with
  | nil => rfl
  | cons c cs => exact List.dropWhile_cons_of_neg (by simpa using h c rfl)

/-- Blanks on both sides of something that neither begins nor ends with one. -/
theorem trimmed_blanks (hne : cs ≠ []) (hhead : ∀ c ∈ cs.head?, c ≠ ' ')
    (hlast : ∀ c ∈ cs.getLast?, c ≠ ' ') (before behind : Nat) :
    trimmed (List.replicate before ' ' ++ cs ++ List.replicate behind ' ') = cs := by
  have hfront : ∀ c ∈ (cs ++ List.replicate behind ' ').head?, c ≠ ' ' := by
    rwa [List.head?_append_of_ne_nil _ hne]
  rw [trimmed, List.append_assoc, dropWhile_blanks before hfront, List.reverse_append,
    List.reverse_replicate, dropWhile_blanks behind (by rwa [List.head?_reverse]),
    List.reverse_reverse]

end Text

/-! ### Layout of padded numerals -/

namespace Format

/-- Blanks, a sign, zeros, the digits of a number, and blanks again. -/
def laidOut (before : Nat) (sign : List Char) (zeros n behind : Nat) : List Char :=
  List.replicate before ' ' ++ (sign ++ (List.replicate zeros '0' ++ Nat.toDigits 10 n)) ++
    List.replicate behind ' '

/-- Zeros go in front of digits. -/
theorem zeroFilled_toDigits (fill n : Nat) :
    FormatSpec.zeroFilled fill (Nat.toDigits 10 n) =
      List.replicate fill '0' ++ Nat.toDigits 10 n := by
  match h : Nat.toDigits 10 n with
  | [] => exact absurd h Nat.toDigits_ne_nil
  | c :: cs =>
    have hmem : c ∈ Nat.toDigits 10 n := h ▸ List.mem_cons_self
    have hdigit := isDigit_of_mem_toDigits hmem
    refine if_neg ?_
    rintro (rfl | rfl) <;> cases hdigit

/-- A number that is not negative may have no sign. -/
theorem sign_cases (spec : FormatSpec) (negative : Bool) :
    (negative = true ∧ spec.sign negative = "-") ∨
      (negative = false ∧ (spec.sign negative = "+" ∨ spec.sign negative = " " ∨
        spec.sign negative = "")) := by
  unfold FormatSpec.sign
  cases negative <;> cases spec.plus <;> cases spec.space <;> simp

/-- The sign is a blank where nothing else is asked for. -/
theorem sign_eq_blank_iff {negative : Bool} :
    spec.sign negative = " " ↔
      negative = false ∧ spec.plus = false ∧ spec.space = true := by
  unfold FormatSpec.sign
  cases negative <;> cases spec.plus <;> cases spec.space <;> simp

/-- What is filled into a numeral stands at its ends or between its sign and its digits, unless it
is zeros and the sign is a blank. -/
theorem toList_filled (spec : FormatSpec) (negative : Bool) (fill n : Nat)
    (hmark : spec.zero = true → spec.left = false → spec.sign negative = " " → fill = 0) :
    ∃ before zeros behind, (spec.filled fill (spec.sign negative ++ toString n) true).toList =
      laidOut before (spec.sign negative).toList zeros n behind := by
  have hbody : (spec.sign negative ++ toString n).toList =
      (spec.sign negative).toList ++ Nat.toDigits 10 n := by
    rw [String.toList_append, Nat.toString_eq_ofList_toDigits, String.toList_ofList]
  cases hleft : spec.left with
  | true =>
      refine ⟨0, 0, fill, ?_⟩
      rw [FormatSpec.filled, if_pos hleft, String.toList_append, hbody, String.toList_ofList]
      simp [laidOut]
  | false =>
      cases hzero : spec.zero with
      | true =>
          refine ⟨0, fill, 0, ?_⟩
          rw [FormatSpec.filled, if_neg (by simp [hleft]), if_pos (by simp [hzero]),
            String.toList_ofList, hbody]
          rcases sign_cases spec negative with ⟨-, hsign⟩ | ⟨-, hsign | hsign | hsign⟩
          · simp [hsign, FormatSpec.zeroFilled, laidOut]
          · simp [hsign, FormatSpec.zeroFilled, laidOut]
          · simp [hmark hzero hleft hsign, laidOut]
          · simp [hsign, zeroFilled_toDigits, laidOut]
      | false =>
          refine ⟨fill, 0, 0, ?_⟩
          rw [FormatSpec.filled, if_neg (by simp [hleft]), if_neg (by simp [hzero]),
            String.toList_append, hbody, String.toList_ofList]
          simp [laidOut]

/-- A blank in the place of a sign is one more blank in front. -/
theorem laidOut_blank (before zeros n behind : Nat) :
    laidOut before [' '] zeros n behind = laidOut (before + 1) [] zeros n behind := by
  simp [laidOut, List.replicate_succ']

/-- The blanks around a numeral are dropped. -/
theorem trimmed_laidOut {sign : List Char} (hsign : ' ' ∉ sign) (before zeros n behind : Nat) :
    Text.trimmed (laidOut before sign zeros n behind) =
      sign ++ (List.replicate zeros '0' ++ Nat.toDigits 10 n) := by
  have hblank : ' ' ∉ sign ++ (List.replicate zeros '0' ++ Nat.toDigits 10 n) := by
    intro hmem
    rcases List.mem_append.1 hmem with hmem | hmem
    · exact hsign hmem
    · rcases List.mem_append.1 hmem with hmem | hmem
      · exact absurd (List.eq_of_mem_replicate hmem) (by decide)
      · exact absurd (isDigit_of_mem_toDigits hmem) (by decide)
  refine Text.trimmed_blanks (by simp [Nat.toDigits_ne_nil]) (fun c hc => ?_) (fun c hc => ?_)
    before behind
  · rintro rfl
    exact hblank (List.mem_of_mem_head? hc)
  · rintro rfl
    exact hblank (List.mem_of_mem_getLast? hc)

/-- A sign and digits read as the integer, whatever blanks stand at the ends. -/
theorem readInt?_trimmed_laidOut (spec : FormatSpec) (v : Int64) (before zeros behind : Nat) :
    Text.readInt? (Text.trimmed
      (laidOut before (spec.sign (v.toInt < 0)).toList zeros v.toInt.natAbs behind)) =
      some v.toInt := by
  have hdigits := Text.readNat?_zeros_append zeros v.toInt.natAbs
  rcases sign_cases spec (v.toInt < 0) with ⟨hneg, hsign⟩ | ⟨hnonneg, hsign⟩
  · have hvalue : -(v.toInt.natAbs : Int) = v.toInt := by
      have hlt := of_decide_eq_true hneg
      omega
    rw [hsign, show "-".toList = ['-'] from rfl, trimmed_laidOut (by decide),
      List.singleton_append, Text.readInt?_minus, hdigits, Option.map_some, hvalue]
  · have hvalue : (v.toInt.natAbs : Int) = v.toInt := by
      have hge := of_decide_eq_false hnonneg
      omega
    rcases hsign with hsign | hsign | hsign
    · rw [hsign, show "+".toList = ['+'] from rfl, trimmed_laidOut (by decide),
        List.singleton_append, Text.readInt?_plus, hdigits, Option.map_some, hvalue]
    · rw [hsign, show " ".toList = [' '] from rfl, laidOut_blank, trimmed_laidOut List.not_mem_nil,
        List.nil_append, Text.readInt?_of_readNat? hdigits, hvalue]
    · rw [hsign, show "".toList = [] from rfl, trimmed_laidOut List.not_mem_nil, List.nil_append,
        Text.readInt?_of_readNat? hdigits, hvalue]

/-! ### What is written and what is read -/

/-- The conversion of a signed integer with flags and a width. -/
def conversion (flags : List Char) (w : Nat) : String :=
  String.ofList ('%' :: (flags ++ (widthChars w ++ ['d'])))

/-- An integer with its sign, before it is padded. -/
def bareText (flags : List Char) (v : Int64) : String :=
  (FormatSpec.ofFlags flags 0).sign (v.toInt < 0) ++ toString v.toInt.natAbs

/-- Zeros are filled in and the sign is a blank. -/
def ZerosFirst (flags : List Char) (w : Nat) (v : Int64) : Prop :=
  ('0' ∈ flags ∧ ' ' ∈ flags ∧ '-' ∉ flags ∧ '+' ∉ flags) ∧ 0 ≤ v.toInt ∧
    (bareText flags v).utf8ByteSize < w

instance : Decidable (ZerosFirst flags w v) := inferInstanceAs (Decidable (_ ∧ _ ∧ _))

/-- An integer with its sign is padded up to the width. -/
def paddedText (flags : List Char) (w : Nat) (v : Int64) : String :=
  (FormatSpec.ofFlags flags w).filled (w - (bareText flags v).utf8ByteSize) (bareText flags v) true

/-- Decimal digits are as long as there are many. -/
theorem utf8ByteSize_toString (n : Nat) :
    (toString n).utf8ByteSize = (Nat.toDigits 10 n).length := by
  have hone : ∀ c ∈ Nat.toDigits 10 n, c.utf8Size = 1 := by
    intro c hc
    have hdigit := isDigit_of_mem_toDigits hc
    have hsmall := (Char.isDigit_iff_toNat.1 hdigit).2
    rw [Char.utf8Size_eq_one_iff, UInt32.le_iff_toNat_le]
    exact Nat.le_trans hsmall (by decide)
  rw [Nat.toString_eq_ofList_toDigits, utf8ByteSize_ofList, List.map_congr_left hone,
    List.map_const', List.sum_replicate_nat, Nat.mul_one]

/-- An integer with its sign has at most twenty characters. -/
theorem utf8ByteSize_bareText_le (flags : List Char) (v : Int64) :
    (bareText flags v).utf8ByteSize ≤ 20 := by
  have hsign : ((FormatSpec.ofFlags flags 0).sign (v.toInt < 0)).utf8ByteSize ≤ 1 := by
    rcases sign_cases (FormatSpec.ofFlags flags 0) (v.toInt < 0) with ⟨-, h⟩ | ⟨-, h | h | h⟩ <;>
      rw [h] <;> decide
  have hdigits : (Nat.toDigits 10 v.toInt.natAbs).length ≤ 19 := by
    rw [Nat.length_toDigits_le_iff (by decide) (by decide)]
    have hlow := v.le_toInt
    have hhigh := v.toInt_lt
    omega
  rw [bareText, String.utf8ByteSize_append, utf8ByteSize_toString]
  omega

/-- A conversion of a signed integer writes the padded text of it, as long as what is filled in
has a length that fits a signed word. -/
theorem text_conversion_eq (hflags : flags ⊆ FormatSpec.flagChars) (w : Nat) (v : Int64)
    (mem : Memory) :
    text mem (conversion flags w) [.int v] =
      if w < 2 ^ 63 + (bareText flags v).utf8ByteSize then .ok (paddedText flags w v)
      else .error (.crashed .overflow) := by
  have hsize := utf8ByteSize_bareText_le flags v
  have hletter : FormatStep.ofChar (.width (.ofFlags flags w)) 'd' =
      .ok (.convert (.ofFlags flags w) 'd') := rfl
  have hpad : signedText (.ofFlags flags w) v = _ := FormatSpec.pad_eq _ (bareText flags v) true
  have hconvert : convert mem (.ofFlags flags w) 'd' [.int v] =
      (Fallible.ofChecked (signedText (.ofFlags flags w) v)).map fun s => (s, []) := rfl
  rw [hpad] at hconvert
  rw [text_eq_map, conversion, String.toList_ofList, textFrom_percent hflags (by decide)]
  by_cases hfit : w < 2 ^ 63 + (bareText flags v).utf8ByteSize
  · have hword : w < wordRange :=
      Nat.lt_of_lt_of_le hfit (Nat.le_trans (Nat.add_le_add_left hsize _) (by decide))
    rw [if_pos (show (FormatSpec.ofFlags flags w).width < _ from hfit)] at hconvert
    rw [if_pos hword, if_pos hfit, textFrom_of_convert hletter hconvert,
      textFrom_nil_eq_ok_iff.2 ⟨rfl, rfl, rfl⟩]
    simp only [inFront, Except.map, List.append_nil, String.ofList_toList]
    rfl
  · rw [if_neg (show ¬ (FormatSpec.ofFlags flags w).width < _ from hfit)] at hconvert
    rw [textFrom_of_convert_error hletter hconvert, ite_self, if_neg hfit]
    rfl

/-- Where zeros are filled in and the sign is a blank, the zeros stand in front of the blank. -/
theorem paddedText_of_zerosFirst (h : ZerosFirst flags w v) :
    paddedText flags w v =
      String.ofList (List.replicate (w - (bareText flags v).utf8ByteSize) '0' ++
        ' ' :: Nat.toDigits 10 v.toInt.natAbs) := by
  obtain ⟨⟨hzero, hspace, hleft, hplus⟩, hnonneg, -⟩ := h
  have hsign : (FormatSpec.ofFlags flags 0).sign (v.toInt < 0) = " " :=
    sign_eq_blank_iff.2 ⟨by simpa using hnonneg, by simpa [FormatSpec.ofFlags] using hplus,
      by simpa [FormatSpec.ofFlags] using hspace⟩
  have hbare : (bareText flags v).toList = ' ' :: Nat.toDigits 10 v.toInt.natAbs := by
    rw [bareText, hsign, String.toList_append, show " ".toList = [' '] from rfl,
      Nat.toString_eq_ofList_toDigits, String.toList_ofList, List.singleton_append]
  rw [paddedText, FormatSpec.filled, if_neg (by simpa [FormatSpec.ofFlags] using hleft),
    if_pos (by simpa [FormatSpec.ofFlags] using hzero), hbare, FormatSpec.zeroFilled,
    if_neg (by decide)]

/-- Zeros in front of a blank are no numeral. -/
theorem readInt?_paddedText_of_zerosFirst (h : ZerosFirst flags w v) :
    Text.readInt? (Text.trimmed (paddedText flags w v).toList) = none := by
  obtain ⟨k, hk⟩ := Nat.exists_eq_succ_of_ne_zero (Nat.sub_ne_zero_of_lt h.2.2)
  -- Zeros stand in front and digits at the end, so no blank is dropped.
  have hlast : ∀ c ∈ (List.replicate (k + 1) '0' ++ ' ' :: Nat.toDigits 10 v.toInt.natAbs).getLast?,
      c ≠ ' ' := by
    rw [List.append_cons, List.getLast?_append_of_ne_nil _ Nat.toDigits_ne_nil]
    rintro c hc rfl
    exact absurd (isDigit_of_mem_toDigits (List.mem_of_mem_getLast? hc)) (by decide)
  have htrimmed := Text.trimmed_blanks (by simp) (by simp [List.replicate_succ]) hlast 0 0
  rw [List.replicate_zero, List.nil_append, List.append_nil] at htrimmed
  rw [paddedText_of_zerosFirst h, String.toList_ofList, hk, htrimmed]
  exact Text.readInt?_eq_none (by simp)

/-- Everywhere else what is filled in stands at the ends or between the sign and the digits. -/
theorem toList_paddedText (h : ¬ ZerosFirst flags w v) :
    ∃ before zeros behind, (paddedText flags w v).toList =
      laidOut before ((FormatSpec.ofFlags flags w).sign (v.toInt < 0)).toList zeros v.toInt.natAbs
        behind := by
  refine toList_filled (.ofFlags flags w) (v.toInt < 0) _ v.toInt.natAbs fun hzero hleft hsign => ?_
  obtain ⟨hnonneg, hplus, hspace⟩ := sign_eq_blank_iff.1 hsign
  refine Nat.sub_eq_zero_of_le (Nat.not_lt.1 fun hlong => h ⟨⟨?_, ?_, ?_, ?_⟩, ?_, hlong⟩)
  · simpa [FormatSpec.ofFlags] using hzero
  · simpa [FormatSpec.ofFlags] using hspace
  · simpa [FormatSpec.ofFlags] using hleft
  · simpa [FormatSpec.ofFlags] using hplus
  · simpa using hnonneg

/-- The conversion of a signed integer. What it writes has the length of the width or, if that is
longer, of the integer with its sign. The sign stands behind blanks and in front of all digits, and
without the blanks at both ends the text reads as the integer again. Only where zeros are filled in
and the sign is a blank do the zeros stand in front of the blank, so that the text is no numeral. A
width that asks for more than a signed word can count is not met at all. -/
theorem text_conversion (hflags : flags ⊆ FormatSpec.flagChars) (w : Nat) (v : Int64)
    (mem : Memory) :
    text mem (conversion flags 0) [.int v] = .ok (bareText flags v) ∧
      (w < 2 ^ 63 + (bareText flags v).utf8ByteSize →
        ∃ s, text mem (conversion flags w) [.int v] = .ok s ∧
          s.utf8ByteSize = max w (bareText flags v).utf8ByteSize ∧
          (¬ ZerosFirst flags w v →
            (∃ before behind, s.toList =
              before ++ ((FormatSpec.ofFlags flags w).sign (v.toInt < 0)).toList ++ behind ∧
              (∀ c ∈ before, c = ' ') ∧ ∀ c ∈ behind, c.isDigit ∨ c = ' ') ∧
            Text.readInt? (Text.trimmed s.toList) = some v.toInt) ∧
          (ZerosFirst flags w v →
            s = String.ofList (List.replicate (w - (bareText flags v).utf8ByteSize) '0' ++
              ' ' :: Nat.toDigits 10 v.toInt.natAbs) ∧
            Text.readInt? (Text.trimmed s.toList) = none)) ∧
      (2 ^ 63 + (bareText flags v).utf8ByteSize ≤ w →
        text mem (conversion flags w) [.int v] = .error (.crashed .overflow)) := by
  refine ⟨?_, fun hfit => ⟨paddedText flags w v, ?_, ?_, fun hnot => ?_, fun hzeros =>
    ⟨paddedText_of_zerosFirst hzeros, readInt?_paddedText_of_zerosFirst hzeros⟩⟩, fun hwide => ?_⟩
  · rw [text_conversion_eq hflags, if_pos (by omega), paddedText, Nat.zero_sub,
      FormatSpec.filled_zero]
  · rw [text_conversion_eq hflags, if_pos hfit]
  · rw [paddedText, FormatSpec.utf8ByteSize_filled]
    omega
  · obtain ⟨before, zeros, behind, hlaid⟩ := toList_paddedText hnot
    rw [hlaid]
    refine ⟨⟨List.replicate before ' ',
      List.replicate zeros '0' ++ Nat.toDigits 10 v.toInt.natAbs ++ List.replicate behind ' ',
      by simp [laidOut], fun c => List.eq_of_mem_replicate, fun c hc => ?_⟩,
      readInt?_trimmed_laidOut _ v before zeros behind⟩
    rcases List.mem_append.1 hc with hc | hc
    · rcases List.mem_append.1 hc with hc | hc
      · rw [List.eq_of_mem_replicate hc]
        exact .inl rfl
      · exact .inl (isDigit_of_mem_toDigits hc)
    · exact .inr (List.eq_of_mem_replicate hc)
  · rw [text_conversion_eq hflags, if_neg (by omega)]

/-- The least integer with zeros behind its sign. -/
theorem text_conversion_least :
    let v : Int64 := -9223372036854775808
    [' ', '0'] ⊆ FormatSpec.flagChars ∧ ¬ ZerosFirst [' ', '0'] 25 v ∧
      ∃ s, text (.new 64) "% 025d" [.int v] = .ok s ∧ s.utf8ByteSize = 25 ∧
        Text.readInt? (Text.trimmed s.toList) = some (-9223372036854775808) := by
  intro v
  have hflags : [' ', '0'] ⊆ FormatSpec.flagChars := by decide
  have hnot : ¬ ZerosFirst [' ', '0'] 25 v := by decide
  have hbare : (bareText [' ', '0'] v).utf8ByteSize = 20 := by decide
  obtain ⟨s, htext, hsize, hreads, -⟩ :=
    (text_conversion hflags 25 v (.new 64)).2.1 (by rw [hbare]; decide)
  exact ⟨hflags, hnot, s, htext, by rw [hsize, hbare]; rfl, (hreads hnot).2⟩

/-- With a blank for the sign and zeros to fill, what is written is not a numeral: the zeros stand
in front of the blank. -/
theorem not_numeral_of_zerosFirst :
    text (.new 64) "% d" [.int 7] = .ok " 7" ∧ text (.new 64) "% 05d" [.int 7] = .ok "000 7" ∧
      Text.readInt? (Text.trimmed "000 7".toList) = none :=
  ⟨rfl, rfl, rfl⟩

end Format

end SsaCompiler
