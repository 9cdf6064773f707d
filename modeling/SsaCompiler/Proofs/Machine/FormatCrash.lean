/-
# Where formatting crashes

Making a text of a format and its arguments fails with an error of the machine where the two do
not fit together. It crashes in four places only: where the digits of a width or a precision stand
for no machine word, where a number is to be written with more places than sixteen bits count,
where a width asks for more than a signed word can count, and where a text is cut inside one of its
characters.

A format is read from left to right, so it crashes exactly if the reader comes to such a place.
Whether it comes there depends on the arguments and, for the cut of a text, on the bytes that are
stored in memory. If the numbers in a format are small, only the cut is left.
-/

import SsaCompiler.Proofs.Ir.Containment
import SsaCompiler.Proofs.Machine.Conversion

namespace SsaCompiler

variable {mem : Memory} {mode mode' : FormatMode} {spec : FormatSpec} {c letter : Char}
  {cs cs' : List Char} {args left : List Val} {v : Val} {k : Crash} {n : Nat}

/-- A lifted computation crashes as it does alone. -/
theorem Fallible.liftM_eq_crashed_iff {α : Type} {x : Checked α} :
    (liftM x : Fallible α) = .error (.crashed k) ↔ x = .error k := by
  cases x with
  | ok a => exact ⟨nofun, nofun⟩
  | error e =>
      change (Except.error (Fault.crashed e) : Fallible α) = _ ↔ _
      simp

/-! ### Cuts -/

namespace Text

/-- A number of bytes that ends inside a character. -/
def Splits (cs : List Char) (n : Nat) : Prop :=
  ∃ before c behind, cs = before ++ c :: behind ∧ (before.map Char.utf8Size).sum < n ∧
    n < (before.map Char.utf8Size).sum + c.utf8Size

/-- A number of bytes ends inside the first character or inside a later one. -/
theorem splits_cons_iff :
    Splits (c :: cs) n ↔
      (0 < n ∧ n < c.utf8Size) ∨ (c.utf8Size ≤ n ∧ Splits cs (n - c.utf8Size)) := by
  constructor
  · rintro ⟨before, c', behind, heq, hlow, hhigh⟩
    cases before with
    | nil =>
        obtain ⟨rfl, rfl⟩ := List.cons.inj heq
        simp only [List.map_nil, List.sum_nil, Nat.zero_add] at hlow hhigh
        exact .inl ⟨hlow, hhigh⟩
    | cons d before =>
        obtain ⟨rfl, rfl⟩ := List.cons.inj heq
        rw [List.map_cons, List.sum_cons] at hlow hhigh
        exact .inr ⟨by omega, before, c', behind, rfl, by omega, by omega⟩
  · rintro (⟨hpos, hlt⟩ | ⟨hle, before, c', behind, rfl, hlow, hhigh⟩)
    · exact ⟨[], c, cs, rfl, by simpa using hpos, by simpa using hlt⟩
    · refine ⟨c :: before, c', behind, rfl, ?_, ?_⟩ <;> rw [List.map_cons, List.sum_cons] <;> omega

/-- Taking bytes crashes exactly if their number ends inside a character. -/
theorem takeBytes_eq_error_iff :
    takeBytes n cs = .error k ↔ k = .splitCharacter ∧ Splits cs n := by
  induction cs generalizing n with
  | nil =>
      have hnone : ¬ Splits [] n := by
        rintro ⟨before, c, behind, heq, -⟩
        simp at heq
      cases n <;> simp [takeBytes, hnone]
  | cons c cs ih =>
      rw [splits_cons_iff]
      cases n with
      | zero =>
          have hpos := c.utf8Size_pos
          simp only [takeBytes, reduceCtorEq, Nat.not_lt_zero, false_and, false_or, false_iff,
            not_and]
          intro _ hle
          omega
      | succ n =>
          rw [takeBytes]
          split
          case isTrue hlt =>
            have hle : ¬ c.utf8Size ≤ n + 1 := Nat.not_le.2 hlt
            simp [hlt, hle, eq_comm]
          case isFalse hge =>
            have hle : c.utf8Size ≤ n + 1 := Nat.not_lt.1 hge
            rw [answer_bind_eq_error_iff, ih]
            simp [hge, hle, pure, Except.pure]

/-- A text is cut off between two of its characters or the cut crashes. -/
theorem truncate_eq_error_iff {s : String} :
    truncate s n = .error k ↔ k = .splitCharacter ∧ Splits s.toList n := by
  unfold truncate
  rw [answer_bind_eq_error_iff, takeBytes_eq_error_iff]
  simp [pure, Except.pure]

end Text

/-! ### Numbers of a format -/

namespace FormatStep

/-- A digit with which a number is no machine word. -/
def Exceeds (n : Nat) (c : Char) : Prop := c.isDigit ∧ wordRange ≤ n * 10 + (c.toNat - 48)

/-- A digit with which a width or a precision is no machine word. Behind a percent sign a zero is a
flag. -/
def Overflows : FormatMode → Char → Prop
  | .flags spec, c => c ≠ '0' ∧ Exceeds spec.width c
  | .width spec, c => Exceeds spec.width c
  | .precision spec, c => Exceeds (spec.precision.getD 0) c
  | .text, _ | .length _, _ => False

/-- A character is a digit or has no value. -/
theorem digitValue?_eq (c : Char) :
    digitValue? c = if c.isDigit then some (c.toNat - 48) else none := by
  unfold digitValue?
  simp [Char.isDigit, Char.le_def]

/-- A number that is no machine word is the only reason for which a digit cannot be appended. -/
theorem appendDigit_eq_error_iff {d : Nat} :
    appendDigit n d = .error k ↔ k = .overflow ∧ wordRange ≤ n * 10 + d := by
  rw [appendDigit_eq_word, Checked.word]
  split
  case isTrue h => simp [h]
  case isFalse h => simp [Nat.not_lt.1 h, eq_comm]

/-- Where a number goes on with a digit, a character crashes if it is a digit too many. -/
theorem number_eq_error_iff {x : Checked FormatStep} {longer : Nat → FormatStep}
    {ended : FormatStep} (hdigit : ∀ d, digitValue? c = some d →
      x = appendDigit n d >>= fun m => .ok (longer m))
    (hother : digitValue? c = none → x = .ok ended) :
    x = .error k ↔ k = .overflow ∧ Exceeds n c := by
  rw [digitValue?_eq] at hdigit hother
  unfold Exceeds
  cases hc : c.isDigit with
  | true =>
      rw [hdigit _ (if_pos hc), answer_bind_eq_error_iff, appendDigit_eq_error_iff]
      simp
  | false =>
      rw [hother (if_neg (by simp [hc]))]
      simp

/-- A character in a width crashes if it is a digit too many. -/
theorem inWidth_eq_error_iff :
    inWidth spec c = .error k ↔ k = .overflow ∧ Exceeds spec.width c := by
  unfold inWidth
  exact number_eq_error_iff (fun d hd => by rw [hd]; rfl) fun hnone => by rw [hnone]; rfl

/-- A character in a precision crashes if it is a digit too many. -/
theorem inPrecision_eq_error_iff :
    inPrecision spec c = .error k ↔ k = .overflow ∧ Exceeds (spec.precision.getD 0) c := by
  unfold inPrecision
  exact number_eq_error_iff (fun d hd => by rw [hd]; rfl) fun hnone => by rw [hnone]; rfl

/-- Of the flags only the zero is a digit. -/
theorem eq_zero_of_isDigit_flag (hc : c.isDigit) (hflag : c ∈ FormatSpec.flagChars) : c = '0' := by
  simp only [FormatSpec.flagChars, List.mem_cons, List.not_mem_nil, or_false] at hflag
  rcases hflag with rfl | rfl | rfl | rfl
  · cases hc
  · rfl
  · cases hc
  · cases hc

/-- Reading a character crashes exactly if it is a digit too many. -/
theorem ofChar_eq_error_iff : ofChar mode c = .error k ↔ k = .overflow ∧ Overflows mode c := by
  cases mode with
  | text => simp [ofChar, Overflows]
  | flags spec =>
      by_cases hflag : c ∈ FormatSpec.flagChars
      · rw [ofChar_flag hflag]
        constructor
        · intro h
          cases h
        · rintro ⟨-, hzero, hc, -⟩
          exact absurd (eq_zero_of_isDigit_flag hc hflag) hzero
      · have hzero : c ≠ '0' := by
          rintro rfl
          exact hflag (by decide)
        rw [ofChar_flags hflag, ofChar, inWidth_eq_error_iff]
        simp [Overflows, hzero]
  | width spec => exact inWidth_eq_error_iff
  | precision spec => exact inPrecision_eq_error_iff
  | length spec => simp [ofChar, Overflows]

end FormatStep

/-! ### One conversion -/

namespace FormatSpec

/-- What a conversion asks for without its width. -/
def unpadded (spec : FormatSpec) : FormatSpec := { spec with width := 0 }

@[simp]
theorem unpadded_precision (spec : FormatSpec) : spec.unpadded.precision = spec.precision := rfl

/-- Without a width nothing is filled in. -/
theorem pad_unpadded (spec : FormatSpec) (body : String) (numeric : Bool) :
    spec.unpadded.pad body numeric = .ok body :=
  if_pos (Nat.zero_le _)

/-- Bringing a text to the width crashes exactly if a signed word does not count what is to be filled
in. -/
theorem pad_eq_error_iff {body : String} {numeric : Bool} :
    spec.pad body numeric = .error k ↔ k = .overflow ∧ 2 ^ 63 + body.utf8ByteSize ≤ spec.width := by
  rw [pad_eq]
  split
  case isTrue h => exact ⟨nofun, fun ⟨_, hle⟩ => absurd h (Nat.not_lt.2 hle)⟩
  case isFalse h =>
    rw [Except.error.injEq]
    exact ⟨fun heq => ⟨heq.symm, Nat.not_lt.1 h⟩, fun heq => heq.1.symm⟩

end FormatSpec

namespace Format

/-- Whether a conversion is one of numbers, which may be filled with zeros. -/
def isNumeric (letter : Char) : Bool := letter ≠ 'c' ∧ letter ≠ 's' ∧ letter ≠ 'p'

/-- The text of a conversion is its text without the width, brought to the width. -/
theorem argText_eq_pad (mem : Memory) (spec : FormatSpec) (letter : Char) (v : Val) :
    argText mem spec letter v =
      argText mem spec.unpadded letter v >>= fun body => liftM (spec.pad body (isNumeric letter)) := by
  have hbare : ∀ (body : String) (numeric : Bool),
      (liftM (spec.unpadded.pad body numeric) : Fallible String) = pure body := fun body numeric => by
    rw [FormatSpec.pad_unpadded]
    rfl
  have hsigned : ∀ i, (liftM (signedText spec.unpadded i) : Fallible String) =
      pure (spec.sign (i.toInt < 0) ++ toString i.toInt.natAbs) := fun i => hbare _ _
  unfold argText
  split
  case h_7 =>
    cases v.asPtr? with
    | none => rfl
    | some a =>
        rw [FormatSpec.unpadded_precision]
        cases spec.precision <;> simp [hbare, isNumeric]
  case h_15 => rfl
  -- The other conversions differ in what is brought to the width.
  all_goals
    simp only [hbare, hsigned, bind_assoc, pure_bind]
    rfl

/-- The places with which a conversion writes a number in the shorter notation. -/
def generalPlaces (x : Double) (digits : Nat) : Nat :=
  let digits := max digits 1
  if x.isZero then 0
  else if logExponent x < -4 ∨ logExponent x ≥ toInt32 digits then digits - 1
  else (toInt32 digits - 1 - logExponent x).toNat

/-- The places with which a conversion writes a number. -/
def placesOf (spec : FormatSpec) (letter : Char) (x : Double) : Nat :=
  if letter ∈ ['f', 'F', 'e', 'E'] then spec.precision.getD 6
  else if letter ∈ ['g', 'G'] then generalPlaces x (spec.precision.getD 6)
  else 0

/-- Sixteen bits count no more places. -/
theorem places_eq_error_iff : places n = .error k ↔ k = .overflow ∧ 65536 ≤ n := by
  unfold places
  split
  case isTrue h => exact ⟨nofun, fun ⟨_, hle⟩ => absurd h (Nat.not_lt.2 hle)⟩
  case isFalse h =>
    rw [Except.error.injEq]
    exact ⟨fun heq => ⟨heq.symm, Nat.not_lt.1 h⟩, fun heq => heq.1.symm⟩

/-- Only the places make the notation without exponent crash. -/
theorem fixedText_eq_error_iff {x : Double} :
    fixedText x n = .error k ↔ k = .overflow ∧ 65536 ≤ n := by
  unfold fixedText
  rw [answer_bind_eq_error_iff, places_eq_error_iff]
  simp [pure, Except.pure]

/-- Only the places make the notation with an exponent crash. -/
theorem exponentText_eq_error_iff {x : Double} {capital : Bool} :
    exponentText x n capital = .error k ↔ k = .overflow ∧ 65536 ≤ n := by
  unfold exponentText
  rw [answer_bind_eq_error_iff, places_eq_error_iff, or_iff_left]
  rintro ⟨m, -, h⟩
  cases hspecial : Text.special? x <;> simp [hspecial, pure, Except.pure] at h

/-- Only the places make the shorter notation crash. -/
theorem generalText_eq_error_iff {x : Double} :
    generalText x n = .error k ↔ k = .overflow ∧ 65536 ≤ generalPlaces x n := by
  have hrest : ∀ {body : Checked String} {f : String → String},
      (body >>= fun s => pure (f s)) = .error k ↔ body = .error k := by
    intro body f
    rw [answer_bind_eq_error_iff]
    simp [pure, Except.pure]
  unfold generalText generalPlaces
  cases hzero : x.isZero with
  | true => simp [pure, Except.pure]
  | false =>
      simp only [Bool.false_eq_true, if_false]
      split
      case isTrue h => rw [hrest, exponentText_eq_error_iff]
      case isFalse h => rw [hrest, fixedText_eq_error_iff]

/-- Why the conversion of an argument crashes. -/
inductive ConversionCrash (mem : Memory) (spec : FormatSpec) (letter : Char) (v : Val) :
    Crash → Prop
  /-- A text is cut inside one of its characters. -/
  | cut {a : UInt64} {s : String} {n : Nat} (hletter : letter = 's') (hptr : v.asPtr? = some a)
      (htext : mem.readText a = .ok s) (hprecision : spec.precision = some n)
      (hsplits : Text.Splits s.toList n) : ConversionCrash mem spec letter v .splitCharacter
  /-- A number is written with more places than sixteen bits count. -/
  | places {x : Double} (hnumber : floatArg letter v = .ok x)
      (hplaces : 65536 ≤ placesOf spec letter x) : ConversionCrash mem spec letter v .overflow
  /-- The width asks for more than a signed word counts. -/
  | width {body : String} (hbody : argText mem spec.unpadded letter v = .ok body)
      (hwidth : 2 ^ 63 + body.utf8ByteSize ≤ spec.width) : ConversionCrash mem spec letter v .overflow

/-- Reading a text in memory fails where the memory ends and never crashes. -/
theorem readText_ne_crashed (a : UInt64) : mem.readText a ≠ .error (.crashed k) := by
  intro h
  unfold Memory.readText at h
  split at h
  · cases h
  · dsimp only at h
    split at h <;> cases h

/-- Without its width a conversion crashes only in the cut of a text and in the places of a
number. -/
theorem argText_unpadded_eq_crashed_iff :
    argText mem spec.unpadded letter v = .error (.crashed k) ↔
      (k = .splitCharacter ∧ letter = 's' ∧ ∃ a s n, v.asPtr? = some a ∧ mem.readText a = .ok s ∧
        spec.precision = some n ∧ Text.Splits s.toList n) ∨
      (k = .overflow ∧ ∃ x, floatArg letter v = .ok x ∧ 65536 ≤ placesOf spec letter x) := by
  have hint : intArg letter v ≠ .error (.crashed k) := by
    unfold intArg
    cases v.asInt? <;> exact nofun
  have hfloat : floatArg letter v ≠ .error (.crashed k) := by
    unfold floatArg
    cases v <;> exact nofun
  unfold argText
  split
  case h_7 =>
    simp only [FormatSpec.pad_unpadded, FormatSpec.unpadded_precision, placesOf]
    cases v.asPtr? with
    | none => simp [Fallible.fail]
    | some a =>
        cases spec.precision with
        | none => simp [answer_bind_eq_error_iff, readText_ne_crashed, Fallible.liftM_eq_crashed_iff]
        | some n =>
            simp only [answer_bind_eq_error_iff, readText_ne_crashed, Fallible.liftM_eq_crashed_iff,
              Text.truncate_eq_error_iff]
            grind
  case h_15 => simp_all [Fallible.fail, placesOf]
  -- Numbers need places where they have a point; integers, characters and addresses have none.
  all_goals
    simp only [answer_bind_eq_error_iff, hint, hfloat, Fallible.liftM_eq_crashed_iff,
      FormatSpec.pad_unpadded, FormatSpec.unpadded_precision, placesOf, signedText,
      fixedText_eq_error_iff, exponentText_eq_error_iff, generalText_eq_error_iff]
    grind

/-- A conversion crashes for one of three reasons. -/
theorem argText_eq_crashed_iff :
    argText mem spec letter v = .error (.crashed k) ↔ ConversionCrash mem spec letter v k := by
  rw [argText_eq_pad, answer_bind_eq_error_iff, argText_unpadded_eq_crashed_iff]
  simp only [Fallible.liftM_eq_crashed_iff, FormatSpec.pad_eq_error_iff]
  constructor
  · rintro ((⟨rfl, hletter, a, s, n, hptr, htext, hprecision, hsplits⟩ | ⟨rfl, x, hx, hplaces⟩) |
      ⟨body, hbody, rfl, hwidth⟩)
    · exact .cut hletter hptr htext hprecision hsplits
    · exact .places hx hplaces
    · exact .width hbody hwidth
  · rintro (⟨hletter, hptr, htext, hprecision, hsplits⟩ | ⟨hx, hplaces⟩ | ⟨hbody, hwidth⟩)
    · exact .inl (.inl ⟨rfl, hletter, _, _, _, hptr, htext, hprecision, hsplits⟩)
    · exact .inl (.inr ⟨rfl, _, hx, hplaces⟩)
    · exact .inr ⟨_, hbody, rfl, hwidth⟩

/-- Letters that are no conversion of an argument make none. -/
theorem argText_eq_unsupported (h : takesArg letter = false) :
    argText mem spec letter v = Fallible.fail (.badFormat (.unsupported letter)) := by
  unfold argText
  split
  case h_15 => rfl
  all_goals cases h

/-- A conversion crashes exactly if there is an argument for it and its text crashes. -/
theorem convert_eq_crashed_iff :
    convert mem spec letter args = .error (.crashed k) ↔
      ∃ v rest, args = v :: rest ∧ ConversionCrash mem spec letter v k := by
  have hnone : takesArg letter = false →
      ¬ ∃ v rest, args = v :: rest ∧ ConversionCrash mem spec letter v k := by
    rintro hletter ⟨v, rest, -, hcrash⟩
    have herror := argText_eq_crashed_iff.2 hcrash
    rw [argText_eq_unsupported hletter] at herror
    cases herror
  unfold convert
  split
  case isTrue hpercent =>
    subst hpercent
    exact ⟨nofun, fun h => absurd h (hnone rfl)⟩
  case isFalse =>
    split
    case isTrue =>
      cases args with
      | nil => exact ⟨nofun, nofun⟩
      | cons v rest =>
          change (argText mem spec letter v >>= fun s => pure (s, rest)) = _ ↔ _
          rw [answer_bind_eq_error_iff, argText_eq_crashed_iff]
          simp [pure, Except.pure]
    case isFalse hletter =>
      exact ⟨nofun, fun h => absurd h (hnone (Bool.eq_false_iff.2 hletter))⟩

/-! ### Whole formats -/

/-- Where the reader of a format comes to. It stands in a mode, in front of characters that are
left, with arguments that are left, and later it stands so further to the right. -/
inductive Reaches (mem : Memory) : FormatMode → List Char → List Val →
    FormatMode → List Char → List Val → Prop
  | here {mode : FormatMode} {cs : List Char} {args : List Val} :
      Reaches mem mode cs args mode cs args
  | literal {mode mode' : FormatMode} {c letter : Char} {cs cs' : List Char} {args left : List Val}
      (hstep : FormatStep.ofChar mode c = .ok (.literal letter))
      (hlater : Reaches mem .text cs args mode' cs' left) :
      Reaches mem mode (c :: cs) args mode' cs' left
  | next {mode between mode' : FormatMode} {c : Char} {cs cs' : List Char} {args left : List Val}
      (hstep : FormatStep.ofChar mode c = .ok (.next between))
      (hlater : Reaches mem between cs args mode' cs' left) :
      Reaches mem mode (c :: cs) args mode' cs' left
  | convert {mode mode' : FormatMode} {c letter : Char} {spec : FormatSpec} {piece : String}
      {cs cs' : List Char} {args between left : List Val}
      (hstep : FormatStep.ofChar mode c = .ok (.convert spec letter))
      (hconvert : Format.convert mem spec letter args = .ok (piece, between))
      (hlater : Reaches mem .text cs between mode' cs' left) :
      Reaches mem mode (c :: cs) args mode' cs' left

/-- Why the reader crashes at a character. -/
inductive CrashesAt (mem : Memory) (mode : FormatMode) (c : Char) : List Val → Crash → Prop
  /-- The character is a digit with which a number is no machine word. -/
  | number {args : List Val} (h : FormatStep.Overflows mode c) : CrashesAt mem mode c args .overflow
  /-- The character completes a conversion that crashes. -/
  | conversion {spec : FormatSpec} {letter : Char} {v : Val} {rest : List Val} {k : Crash}
      (hstep : FormatStep.ofChar mode c = .ok (.convert spec letter))
      (h : ConversionCrash mem spec letter v k) : CrashesAt mem mode c (v :: rest) k

/-- Writing something in front does not make a difference to a crash. -/
theorem inFront_eq_error_iff {out : List Char} {later : Fallible (List Char × List Val)}
    {fault : Fault} : inFront out later = .error fault ↔ later = .error fault := by
  cases later <;> simp [inFront, Except.map]

/-- When reading a format crashes, the reader has come to a character at which it crashes. -/
theorem exists_crashesAt (h : textFrom mem mode cs args = .error (.crashed k)) :
    ∃ mode' c cs' left, Reaches mem mode cs args mode' (c :: cs') left ∧
      CrashesAt mem mode' c left k := by
  induction cs generalizing mode args with
  | nil => cases mode <;> cases h
  | cons c cs ih =>
      cases hstep : FormatStep.ofChar mode c with
      | error e =>
          obtain ⟨rfl, hoverflows⟩ := FormatStep.ofChar_eq_error_iff.1 hstep
          rw [textFrom_of_error hstep] at h
          cases h
          exact ⟨mode, c, cs, args, .here, .number hoverflows⟩
      | ok step =>
          cases step with
          | literal letter =>
              rw [textFrom_of_literal hstep, inFront_eq_error_iff] at h
              obtain ⟨mode', c', cs', left, hreaches, hcrash⟩ := ih h
              exact ⟨mode', c', cs', left, .literal hstep hreaches, hcrash⟩
          | next between =>
              rw [textFrom_of_next hstep] at h
              obtain ⟨mode', c', cs', left, hreaches, hcrash⟩ := ih h
              exact ⟨mode', c', cs', left, .next hstep hreaches, hcrash⟩
          | convert spec letter =>
              cases hconvert : convert mem spec letter args with
              | error fault =>
                  rw [textFrom_of_convert_error hstep hconvert] at h
                  cases h
                  obtain ⟨v, rest, rfl, hcrash⟩ := convert_eq_crashed_iff.1 hconvert
                  exact ⟨mode, c, cs, v :: rest, .here, .conversion hstep hcrash⟩
              | ok r =>
                  rw [textFrom_of_convert hstep hconvert, inFront_eq_error_iff] at h
                  obtain ⟨mode', c', cs', left, hreaches, hcrash⟩ := ih h
                  exact ⟨mode', c', cs', left, .convert hstep hconvert hreaches, hcrash⟩

/-- Reading fails in front of a place as it does from there on. -/
theorem Reaches.textFrom_eq_error {mode' : FormatMode} {cs' : List Char} {left : List Val}
    {fault : Fault} (h : Reaches mem mode cs args mode' cs' left)
    (hlater : textFrom mem mode' cs' left = .error fault) :
    textFrom mem mode cs args = .error fault := by
  induction h with
  | here => exact hlater
  | literal hstep _ ih =>
      rw [textFrom_of_literal hstep, inFront_eq_error_iff]
      exact ih hlater
  | next hstep _ ih =>
      rw [textFrom_of_next hstep]
      exact ih hlater
  | convert hstep hconvert _ ih =>
      rw [textFrom_of_convert hstep hconvert, inFront_eq_error_iff]
      exact ih hlater

/-- The reader crashes at such a character. -/
theorem CrashesAt.textFrom_eq_crashed (h : CrashesAt mem mode c args k) :
    textFrom mem mode (c :: cs) args = .error (.crashed k) := by
  cases h with
  | number h => exact textFrom_of_error (FormatStep.ofChar_eq_error_iff.2 ⟨rfl, h⟩)
  | conversion hstep h =>
      exact textFrom_of_convert_error hstep (convert_eq_crashed_iff.2 ⟨_, _, rfl, h⟩)

/-- A format crashes exactly if the reader comes to a character at which it crashes. -/
theorem textFrom_eq_crashed_iff :
    textFrom mem mode cs args = .error (.crashed k) ↔
      ∃ mode' c cs' left, Reaches mem mode cs args mode' (c :: cs') left ∧
        CrashesAt mem mode' c left k := by
  refine ⟨exists_crashesAt, ?_⟩
  rintro ⟨mode', c, cs', left, hreaches, hcrash⟩
  exact hreaches.textFrom_eq_error hcrash.textFrom_eq_crashed

/-- The text of a format crashes as reading it does. -/
theorem text_eq_error_iff {format : String} {fault : Fault} :
    text mem format args = .error fault ↔
      textFrom mem .text format.toList args = .error fault := by
  rw [text_eq_map]
  cases textFrom mem .text format.toList args <;> simp [Except.map]

/-- Making a text of a format, whatever its arguments and the memory are, crashes exactly if the
reader comes to a digit with which a width or a precision is no machine word, or to the letter of a
conversion that cuts a text inside one of its characters, needs more places than sixteen bits count
or has to fill in more than a signed word counts. In all other cases it gives a text or fails with an
error. -/
theorem text_eq_crashed_iff (mem : Memory) (format : String) (args : List Val) (k : Crash) :
    text mem format args = .error (.crashed k) ↔
      ∃ mode c cs left, Reaches mem .text format.toList args mode (c :: cs) left ∧
        CrashesAt mem mode c left k :=
  text_eq_error_iff.trans textFrom_eq_crashed_iff

/-- One byte of a text that begins with a character of two bytes cannot be cut off. -/
theorem text_splits_character :
    let mem : Memory := ⟨#[0xC3, 0xA9, 0], #[], 64, 1⟩
    mem.readText 16 = .ok "é" ∧ text mem "%.2s" [.ptr 16] = .ok "é" ∧
      text mem "%.1s" [.ptr 16] = .error (.crashed .splitCharacter) :=
  ⟨rfl, rfl, rfl⟩

/-! ### Small numbers -/

/-- All numbers in a format are so small that no width overflows and that the places suffice for
every conversion; the shorter notation needs up to three places more than it is asked for. -/
def HasSmallNumbers (format : List Char) : Prop :=
  ∀ ds, ds <:+: format → (∀ c ∈ ds, c.isDigit) → Nat.ofDigitChars 10 ds 0 < 65533

/-- Digits that have just been read stand for a number. -/
def HasRead (format : List Char) (n : Nat) (cs : List Char) : Prop :=
  ∃ ds, (∀ c ∈ ds, c.isDigit) ∧ ds ++ cs <:+ format ∧ n = Nat.ofDigitChars 10 ds 0

/-- A width and a precision that are small. -/
def IsSmall (spec : FormatSpec) : Prop := spec.width < 65533 ∧ spec.precision.getD 0 < 65533

/-- What the reader has asked for was read in the format. -/
def ReadIn (format : List Char) : FormatMode → List Char → Prop
  | .text, cs => cs <:+ format
  | .flags spec, cs => cs <:+ format ∧ spec.width = 0 ∧ spec.precision = none
  | .width spec, cs => HasRead format spec.width cs ∧ spec.precision = none
  | .precision spec, cs => HasRead format (spec.precision.getD 0) cs ∧ spec.width < 65533
  | .length spec, cs => cs <:+ format ∧ IsSmall spec

variable {format : List Char}

theorem HasRead.start (h : cs <:+ format) : HasRead format 0 cs := ⟨[], by simp, h, rfl⟩

/-- What is left is left of the format. -/
theorem HasRead.isSuffix (h : HasRead format n cs) : cs <:+ format := by
  obtain ⟨ds, -, hsuffix, -⟩ := h
  exact (List.suffix_append ds cs).trans hsuffix

/-- What has been read is small. -/
theorem HasRead.lt (h : HasRead format n cs) (hsmall : HasSmallNumbers format) : n < 65533 := by
  obtain ⟨ds, hds, hsuffix, rfl⟩ := h
  exact hsmall ds ((List.prefix_append ds cs).isInfix.trans hsuffix.isInfix) hds

theorem HasRead.digit (h : HasRead format n (c :: cs)) (hc : c.isDigit) :
    HasRead format (n * 10 + (c.toNat - 48)) cs := by
  obtain ⟨ds, hds, hsuffix, rfl⟩ := h
  refine ⟨ds ++ [c], fun d hd => ?_, by simpa using hsuffix, ?_⟩
  · rcases List.mem_append.1 hd with hd | hd
    · exact hds d hd
    · rw [List.mem_singleton.1 hd]
      exact hc
  · rw [Nat.ofDigitChars_append, Nat.ofDigitChars_cons, Nat.mul_comm]
    rfl

/-- A small number takes one more digit. -/
theorem HasRead.not_exceeds (h : HasRead format n (c :: cs)) (hsmall : HasSmallNumbers format) :
    ¬ FormatStep.Exceeds n c := by
  rintro ⟨hc, hle⟩
  exact absurd ((h.digit hc).lt hsmall) (by unfold wordRange at hle; omega)

/-- Small numbers do not overflow. -/
theorem ReadIn.not_overflows (h : ReadIn format mode (c :: cs)) (hsmall : HasSmallNumbers format) :
    ¬ FormatStep.Overflows mode c := by
  cases mode with
  | text => exact id
  | flags spec =>
      obtain ⟨hsuffix, hwidth, -⟩ := h
      rintro ⟨-, hexceeds⟩
      exact (HasRead.start hsuffix).not_exceeds hsmall (hwidth ▸ hexceeds)
  | width spec => exact h.1.not_exceeds hsmall
  | precision spec => exact h.1.not_exceeds hsmall
  | length spec => exact id

/-- What a character amounts to in a format with small numbers: the reader goes on with what it has
read, or it has read a conversion with small numbers. -/
def StepsIn (format cs : List Char) : FormatStep → Prop
  | .literal _ => cs <:+ format
  | .next mode => ReadIn format mode cs
  | .convert spec _ => cs <:+ format ∧ IsSmall spec

/-- Behind small numbers stands a length mark or a letter. -/
theorem stepsIn_afterNumbers (hsuffix : cs <:+ format) (hspec : IsSmall spec) (c : Char) :
    StepsIn format cs (FormatStep.afterNumbers spec c) := by
  unfold FormatStep.afterNumbers
  split <;> exact ⟨hsuffix, hspec⟩

/-- A digit of a width or what stands behind the width. -/
theorem stepsIn_inWidth {step : FormatStep} (h : HasRead format spec.width (c :: cs))
    (hprecision : spec.precision = none) (hsmall : HasSmallNumbers format)
    (hstep : FormatStep.inWidth spec c = .ok step) : StepsIn format cs step := by
  have hsuffix : cs <:+ format := (List.suffix_cons c cs).trans h.isSuffix
  by_cases hc : c.isDigit
  · have hword : spec.width * 10 + (c.toNat - 48) < wordRange :=
      Nat.not_le.1 fun hle => h.not_exceeds hsmall ⟨hc, hle⟩
    have hdigit : FormatStep.inWidth spec c = _ := FormatStep.ofChar_digit hc
    rw [Checked.word, if_pos hword] at hdigit
    cases hdigit.symm.trans hstep
    exact ⟨h.digit hc, hprecision⟩
  · rw [FormatStep.inWidth, FormatStep.digitValue?_eq, if_neg hc] at hstep
    cases hstep
    unfold FormatStep.afterWidth
    split
    · exact ⟨.start hsuffix, h.lt hsmall⟩
    · exact stepsIn_afterNumbers hsuffix ⟨h.lt hsmall, by simp [hprecision]⟩ c

/-- A digit of a precision or what stands behind the precision. -/
theorem stepsIn_inPrecision {step : FormatStep}
    (h : HasRead format (spec.precision.getD 0) (c :: cs)) (hwidth : spec.width < 65533)
    (hsmall : HasSmallNumbers format) (hstep : FormatStep.inPrecision spec c = .ok step) :
    StepsIn format cs step := by
  have hsuffix : cs <:+ format := (List.suffix_cons c cs).trans h.isSuffix
  unfold FormatStep.inPrecision at hstep
  rw [FormatStep.digitValue?_eq] at hstep
  by_cases hc : c.isDigit
  · have hword : spec.precision.getD 0 * 10 + (c.toNat - 48) < wordRange :=
      Nat.not_le.1 fun hle => h.not_exceeds hsmall ⟨hc, hle⟩
    rw [if_pos hc] at hstep
    dsimp only at hstep
    rw [appendDigit_eq_word, Checked.word, if_pos hword] at hstep
    cases hstep
    exact ⟨h.digit hc, hwidth⟩
  · rw [if_neg hc] at hstep
    cases hstep
    exact stepsIn_afterNumbers hsuffix ⟨hwidth, h.lt hsmall⟩ c

/-- One step in a format with small numbers. -/
theorem ReadIn.step {step : FormatStep} (h : ReadIn format mode (c :: cs))
    (hsmall : HasSmallNumbers format) (hstep : FormatStep.ofChar mode c = .ok step) :
    StepsIn format cs step := by
  cases mode with
  | text =>
      have hsuffix : cs <:+ format := (List.suffix_cons c cs).trans h
      unfold FormatStep.ofChar at hstep
      cases hstep
      split
      · exact ⟨hsuffix, rfl, rfl⟩
      · exact hsuffix
  | flags spec =>
      obtain ⟨hcons, hwidth, hprecision⟩ := h
      by_cases hflag : c ∈ FormatSpec.flagChars
      · rw [FormatStep.ofChar_flag hflag] at hstep
        cases hstep
        exact ⟨(List.suffix_cons c cs).trans hcons, hwidth, hprecision⟩
      · rw [FormatStep.ofChar_flags hflag] at hstep
        exact stepsIn_inWidth (hwidth ▸ .start hcons) hprecision hsmall hstep
  | width spec => exact stepsIn_inWidth h.1 h.2 hsmall hstep
  | precision spec => exact stepsIn_inPrecision h.1 h.2 hsmall hstep
  | length spec =>
      unfold FormatStep.ofChar at hstep
      cases hstep
      exact stepsIn_afterNumbers ((List.suffix_cons c cs).trans h.1) h.2 c

/-- What the reader has asked for was read in the format wherever it comes to. -/
theorem Reaches.readIn (h : Reaches mem mode cs args mode' cs' left)
    (hread : ReadIn format mode cs) (hsmall : HasSmallNumbers format) :
    ReadIn format mode' cs' := by
  induction h with
  | here => exact hread
  | literal hstep _ ih => exact ih (hread.step hsmall hstep)
  | next hstep _ ih => exact ih (hread.step hsmall hstep)
  | convert hstep _ _ ih => exact ih (hread.step hsmall hstep).1

/-- A conversion with small numbers needs few places. -/
theorem placesOf_lt (hspec : IsSmall spec) (x : Double) : placesOf spec letter x < 65536 := by
  have hprecision : spec.precision.getD 6 < 65533 := by
    have hlt := hspec.2
    cases hp : spec.precision with
    | none => decide
    | some n => rwa [hp] at hlt
  have hgeneral : ∀ n < 65533, generalPlaces x n < 65536 := by
    intro n hn
    have hword : toInt32 (max n 1) = (max n 1 : Nat) := by
      unfold toInt32
      rw [Int32.toInt_ofNat_of_lt (by omega)]
    unfold generalPlaces
    dsimp only
    rw [hword]
    split
    · decide
    · split <;> omega
  unfold placesOf
  split
  · omega
  · split
    · exact hgeneral _ hprecision
    · decide

/-- A format with small numbers crashes only where it cuts a text inside one of its characters, which
takes a precision, a text in memory and a character of it that is longer than one byte. -/
theorem cut_of_text_eq_crashed {format : String} (hsmall : HasSmallNumbers format.toList)
    (h : text mem format args = .error (.crashed k)) :
    k = .splitCharacter ∧ ∃ mode c cs a rest spec s n,
      Reaches mem .text format.toList args mode (c :: cs) (a :: rest) ∧
      FormatStep.ofChar mode c = .ok (.convert spec 's') ∧ spec.precision = some n ∧
      (∃ p, a.asPtr? = some p ∧ mem.readText p = .ok s) ∧ Text.Splits s.toList n := by
  rw [text_eq_error_iff, textFrom_eq_crashed_iff] at h
  obtain ⟨mode, c, cs, left, hreaches, hcrash⟩ := h
  have hread : ReadIn format.toList mode (c :: cs) :=
    hreaches.readIn (List.suffix_refl format.toList) hsmall
  cases hcrash with
  | number hoverflows => exact absurd hoverflows (hread.not_overflows hsmall)
  | conversion hstep hconversion =>
      have hspec := (hread.step hsmall hstep).2
      cases hconversion with
      | cut hletter hptr htext hprecision hsplits =>
          subst hletter
          exact ⟨rfl, mode, c, cs, _, _, _, _, _, hreaches, hstep, hprecision, ⟨_, hptr, htext⟩,
            hsplits⟩
      | places hnumber hplaces => exact absurd hplaces (Nat.not_le.2 (placesOf_lt hspec _))
      | width hbody hwidth =>
          have hlt := hspec.1
          omega

end Format

end SsaCompiler
