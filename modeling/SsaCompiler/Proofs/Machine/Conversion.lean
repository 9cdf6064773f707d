/-
# Flags, widths and padding

Behind a percent sign stand flags, in any order and as often as they like, and the digits of a
width, which do not begin with zero, since zero is a flag. Reading them comes down to what they
ask for, and crashes when the width is no machine word.

A text is brought to the width with blanks or zeros, which are one byte long, so its length is the
width or, if the text is longer, its own. What is filled in has to fit a signed word.
-/

import SsaCompiler.Proofs.Machine.Format
import Mathlib.Tactic

namespace SsaCompiler

variable {mem : Memory} {c : Char} {cs ds flags : List Char} {args : List Val} {spec : FormatSpec}
  {n w : Nat}

/-! ### Flags -/

namespace FormatSpec

/-- The characters of flags. -/
def flagChars : List Char := ['-', '0', '+', ' ']

/-- What flags and a width ask for. -/
def ofFlags (flags : List Char) (width : Nat) : FormatSpec where
  left := flags.contains '-'
  zero := flags.contains '0'
  plus := flags.contains '+'
  space := flags.contains ' '
  width := width
  precision := none

/-- What one more flag asks for. -/
def withFlag (spec : FormatSpec) (c : Char) : FormatSpec where
  left := spec.left || '-' = c
  zero := spec.zero || '0' = c
  plus := spec.plus || '+' = c
  space := spec.space || ' ' = c
  width := spec.width
  precision := spec.precision

/-- What flags ask for does not depend on their order. -/
theorem foldl_withFlag (flags : List Char) (spec : FormatSpec) :
    flags.foldl withFlag spec =
      ⟨spec.left || flags.contains '-', spec.zero || flags.contains '0',
        spec.plus || flags.contains '+', spec.space || flags.contains ' ', spec.width,
        spec.precision⟩ := by
  induction flags generalizing spec with
  | nil => simp
  | cons c flags ih =>
      rw [List.foldl_cons, ih]
      simp [withFlag, Bool.or_assoc]

/-- Flags where nothing was asked for before. -/
theorem foldl_withFlag_plain (flags : List Char) :
    flags.foldl withFlag plain = ofFlags flags 0 := by
  rw [foldl_withFlag]
  simp [plain, ofFlags]

end FormatSpec

namespace FormatStep

/-- A flag changes what is asked for. -/
theorem ofChar_flag (hc : c ∈ FormatSpec.flagChars) :
    ofChar (.flags spec) c = .ok (.next (.flags (spec.withFlag c))) := by
  rcases spec with ⟨left, zero, plus, space, width, precision⟩
  simp only [FormatSpec.flagChars, List.mem_cons, List.not_mem_nil, or_false] at hc
  rcases hc with rfl | rfl | rfl | rfl <;> simp [ofChar, inFlags, FormatSpec.withFlag]

/-- Behind flags stands what may stand in a width, unless it is one more flag. -/
theorem ofChar_flags (hc : c ∉ FormatSpec.flagChars) :
    ofChar (.flags spec) c = ofChar (.width spec) c := by
  simp only [FormatSpec.flagChars, List.mem_cons, List.not_mem_nil, or_false, not_or] at hc
  obtain ⟨hleft, hzero, hplus, hspace⟩ := hc
  rw [ofChar, inFlags, if_neg hleft, if_neg hzero, if_neg hplus, if_neg hspace]
  rfl

end FormatStep

/-- Flags are read one after the other. -/
theorem Format.textFrom_flags (hflags : flags ⊆ FormatSpec.flagChars) :
    textFrom mem (.flags spec) (flags ++ cs) args =
      textFrom mem (.flags (flags.foldl .withFlag spec)) cs args := by
  induction flags generalizing spec with
  | nil => rfl
  | cons c flags ih =>
      obtain ⟨hc, hflags⟩ := List.cons_subset.1 hflags
      rw [List.cons_append, textFrom_of_next (FormatStep.ofChar_flag hc), ih hflags,
        List.foldl_cons]

/-! ### The width -/

/-- A number with one more digit is a machine word or overflows. -/
theorem appendDigit_eq_word (n d : Nat) : appendDigit n d = Checked.word (n * 10 + d) := by
  unfold appendDigit Checked.word
  split
  case isTrue => rfl
  case isFalse hwide => exact (if_neg (by omega)).symm

theorem FormatStep.ofChar_digit (hc : c.isDigit) :
    ofChar (.width spec) c =
      (Checked.word (spec.width * 10 + (c.toNat - 48))).map
        fun width => next (.width { spec with width := width }) := by
  have hvalue : digitValue? c = some (c.toNat - 48) := by
    rw [digitValue?, if_pos]
    simpa [Char.isDigit, Char.le_def] using hc
  rw [ofChar, inWidth, hvalue, ← appendDigit_eq_word]
  change (appendDigit spec.width (c.toNat - 48) >>= fun width =>
    .ok (next (.width { spec with width := width }))) = _
  cases appendDigit spec.width (c.toNat - 48) <;> rfl

/-- Numbers are written with digits. -/
theorem isDigit_of_mem_toDigits (hc : c ∈ Nat.toDigits 10 n) : c.isDigit :=
  Nat.isDigit_of_mem_toDigits (by decide) (by decide) hc

namespace Format

/-- The characters of a width. A width of zero is not written. -/
def widthChars (w : Nat) : List Char := if w = 0 then [] else Nat.toDigits 10 w

/-- A width is written with digits. -/
theorem isDigit_of_mem_widthChars (hc : c ∈ widthChars w) : c.isDigit := by
  unfold widthChars at hc
  split at hc
  · cases hc
  · exact isDigit_of_mem_toDigits hc

/-- The digits of a width stand for it. -/
theorem ofDigitChars_widthChars (w : Nat) : Nat.ofDigitChars 10 (widthChars w) 0 = w := by
  unfold widthChars
  split
  case isTrue hzero => exact hzero.symm
  case isFalse => exact Nat.ofDigitChars_ten_toDigits

/-- The digits of a positive number do not begin with zero. -/
theorem head_toDigits_ne_zero (hn : 0 < n) : ∀ c ∈ (Nat.toDigits 10 n).head?, c ≠ '0' := by
  induction n using Nat.strongRecOn with
  | ind n ih =>
      intro c hc
      by_cases hsmall : n < 10
      · rw [Nat.toDigits_of_lt_base hsmall] at hc
        obtain rfl := Option.some.inj hc
        simpa using Nat.ne_of_gt hn
      · rw [Nat.toDigits_of_base_le (by decide) (by omega),
          List.head?_append_of_ne_nil _ Nat.toDigits_ne_nil] at hc
        exact ih (n / 10) (by omega) (by omega) c hc

/-- A width does not begin with a flag. -/
theorem head_widthChars_notMem (w : Nat) :
    ∀ c ∈ (widthChars w).head?, c ∉ FormatSpec.flagChars := by
  intro c hc hmem
  have hdigit := isDigit_of_mem_widthChars (List.mem_of_mem_head? hc)
  have hzero : c = '0' := by
    simp only [FormatSpec.flagChars, List.mem_cons, List.not_mem_nil, or_false] at hmem
    rcases hmem with rfl | rfl | rfl | rfl
    · cases hdigit
    · rfl
    · cases hdigit
    · cases hdigit
  unfold widthChars at hc
  split at hc
  case isTrue => cases hc
  case isFalse hw => exact head_toDigits_ne_zero (Nat.pos_of_ne_zero hw) c hc hzero

/-- Reading more digits does not make a number smaller. -/
theorem le_ofDigitChars (ds : List Char) (n : Nat) : n ≤ Nat.ofDigitChars 10 ds n := by
  induction ds generalizing n with
  | nil => exact Nat.le_refl n
  | cons c ds ih =>
      rw [Nat.ofDigitChars_cons]
      exact Nat.le_trans (by omega) (ih _)

/-- Digits of a width are read one after the other as long as they stand for a machine word. -/
theorem textFrom_width (hds : ∀ c ∈ ds, c.isDigit) (hwidth : spec.width < wordRange) :
    textFrom mem (.width spec) (ds ++ cs) args =
      if Nat.ofDigitChars 10 ds spec.width < wordRange then
        textFrom mem (.width { spec with width := Nat.ofDigitChars 10 ds spec.width }) cs args
      else .error (.crashed .overflow) := by
  induction ds generalizing spec with
  | nil => exact (if_pos hwidth).symm
  | cons c ds ih =>
      have hmore : ∀ c ∈ ds, c.isDigit := fun c hc => hds c (List.mem_cons_of_mem _ hc)
      have hdigit : FormatStep.ofChar (.width spec) c = _ :=
        FormatStep.ofChar_digit (hds c List.mem_cons_self)
      have hnext : 10 * spec.width + (c.toNat - '0'.toNat) = spec.width * 10 + (c.toNat - 48) := by
        rw [Nat.mul_comm]
        rfl
      rw [Nat.ofDigitChars_cons, hnext, List.cons_append]
      by_cases hfit : spec.width * 10 + (c.toNat - 48) < wordRange
      · rw [Checked.word, if_pos hfit] at hdigit
        rw [textFrom_of_next hdigit, ih hmore hfit]
      · -- Once the number is too great it stays so, whatever digits follow.
        rw [Checked.word, if_neg hfit] at hdigit
        rw [textFrom_of_error hdigit, if_neg]
        exact fun hlt => hfit (Nat.lt_of_le_of_lt (le_ofDigitChars ds _) hlt)

/-- A conversion is read up to the letter behind its flags and its width. -/
theorem textFrom_percent (hflags : flags ⊆ FormatSpec.flagChars) (hc : c ∉ FormatSpec.flagChars) :
    textFrom mem .text ('%' :: (flags ++ (widthChars w ++ c :: cs))) args =
      if w < wordRange then textFrom mem (.width (.ofFlags flags w)) (c :: cs) args
      else .error (.crashed .overflow) := by
  have hpercent : FormatStep.ofChar .text '%' = .ok (.next (.flags .plain)) := rfl
  have hfirst : ∀ c' ∈ (widthChars w ++ c :: cs).head?, c' ∉ FormatSpec.flagChars := by
    intro c' hc'
    rw [List.head?_append, Option.mem_def, Option.or_eq_some_iff] at hc'
    rcases hc' with hc' | ⟨-, hc'⟩
    · exact head_widthChars_notMem w c' hc'
    · exact Option.some.inj hc' ▸ hc
  have hsame : textFrom mem (.flags (.ofFlags flags 0)) (widthChars w ++ c :: cs) args =
      textFrom mem (.width (.ofFlags flags 0)) (widthChars w ++ c :: cs) args := by
    match hchars : widthChars w ++ c :: cs with
    | [] => simp at hchars
    | c' :: cs' =>
      rw [hchars] at hfirst
      rw [textFrom, textFrom, FormatStep.ofChar_flags (hfirst c' rfl)]
  have hvalue : Nat.ofDigitChars 10 (widthChars w) (FormatSpec.ofFlags flags 0).width = w :=
    ofDigitChars_widthChars w
  rw [textFrom_of_next hpercent, textFrom_flags hflags, FormatSpec.foldl_withFlag_plain, hsame,
    textFrom_width (fun c => isDigit_of_mem_widthChars) (show 0 < wordRange by decide), hvalue]
  rfl

end Format

/-! ### Padding -/

/-- The length of a text is the sum of the lengths of its characters. -/
theorem utf8ByteSize_ofList (cs : List Char) :
    (String.ofList cs).utf8ByteSize = (cs.map Char.utf8Size).sum := by
  induction cs with
  | nil => rfl
  | cons c cs ih =>
      rw [← List.singleton_append, String.ofList_append, String.utf8ByteSize_append, ih,
        ← String.singleton_eq_ofList, String.utf8ByteSize_singleton, List.map_append,
        List.sum_append_nat, List.map_singleton, List.sum_singleton]

/-- The length of a text of one character alone. -/
theorem utf8ByteSize_replicate (n : Nat) (c : Char) :
    (String.ofList (List.replicate n c)).utf8ByteSize = n * c.utf8Size := by
  rw [utf8ByteSize_ofList, List.map_replicate, List.sum_replicate_nat]

namespace FormatSpec

/-- Zeros are added, wherever they are put. -/
theorem zeroFilled_perm (n : Nat) (cs : List Char) :
    (zeroFilled n cs).Perm (List.replicate n '0' ++ cs) := by
  cases cs with
  | nil => simp [zeroFilled]
  | cons c cs =>
      rw [zeroFilled]
      split
      · exact List.perm_middle.symm
      · exact List.Perm.refl _

@[simp]
theorem zeroFilled_zero (cs : List Char) : zeroFilled 0 cs = cs := by
  cases cs <;> simp [zeroFilled]

@[simp]
theorem filled_zero (spec : FormatSpec) (body : String) (numeric : Bool) :
    spec.filled 0 body numeric = body := by
  unfold filled
  split
  · simp
  · split <;> simp

/-- What is filled in makes a text longer by its number of characters. -/
theorem utf8ByteSize_filled (spec : FormatSpec) (fill : Nat) (body : String) (numeric : Bool) :
    (spec.filled fill body numeric).utf8ByteSize = body.utf8ByteSize + fill := by
  have hblanks : (String.ofList (List.replicate fill ' ')).utf8ByteSize = fill := by
    rw [utf8ByteSize_replicate, show ' '.utf8Size = 1 from rfl, Nat.mul_one]
  unfold filled
  split
  · rw [String.utf8ByteSize_append, hblanks]
  · split
    · have hzeros := ((zeroFilled_perm fill body.toList).map Char.utf8Size).sum_nat
      rw [utf8ByteSize_ofList, hzeros, ← utf8ByteSize_ofList, String.ofList_append,
        String.ofList_toList, String.utf8ByteSize_append, utf8ByteSize_replicate,
        show '0'.utf8Size = 1 from rfl, Nat.mul_one, Nat.add_comm]
    · rw [String.utf8ByteSize_append, hblanks, Nat.add_comm]

/-- A text is brought to the width as long as what is filled in has a length that fits a signed
word. -/
theorem pad_eq (spec : FormatSpec) (body : String) (numeric : Bool) :
    spec.pad body numeric =
      if spec.width < 2 ^ 63 + body.utf8ByteSize then
        .ok (spec.filled (spec.width - body.utf8ByteSize) body numeric)
      else .error .overflow := by
  have hhalf : wordRange / 2 = 2 ^ 63 := by decide
  unfold pad
  split
  case isTrue hlong => rw [if_pos (by omega), Nat.sub_eq_zero_of_le hlong, filled_zero]
  case isFalse hshort =>
    rw [hhalf]
    exact if_congr (by omega) rfl rfl

end FormatSpec

end SsaCompiler
