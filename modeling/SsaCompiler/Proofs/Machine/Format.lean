/-
# Reading a format

What is left of a format is read from a mode on with the arguments that are left, and nothing else
is kept from one character to the next. A format that has been read to its end leaves the reader
outside conversions, where it began, so what comes behind is read as if it stood alone.

The reader looks at one character at a time. It writes the character, changes its mode, or writes
a conversion; there is one equation for each, and every statement about whole formats is an
induction on the characters that follows them.
-/

import SsaCompiler.Machine.Format
import Mathlib.Tactic.SplitIfs

namespace SsaCompiler

variable {mem : Memory} {mode mode' : FormatMode} {c letter : Char} {cs out : List Char}
  {args left more : List Val} {spec : FormatSpec} {piece : String}

namespace Format

/-- Characters that have been written, in front of what is still to be written. -/
def inFront (out : List Char) (later : Fallible (List Char × List Val)) :
    Fallible (List Char × List Val) :=
  later.map fun r => (out ++ r.1, r.2)

@[simp]
theorem inFront_nil (later : Fallible (List Char × List Val)) : inFront [] later = later := by
  cases later <;> rfl

/-- What was written first stands first. -/
@[simp]
theorem inFront_inFront (out out' : List Char) (later : Fallible (List Char × List Val)) :
    inFront out (inFront out' later) = inFront (out ++ out') later := by
  cases later <;> simp [inFront, Except.map]

/-- What is written later does not undo what has been written. -/
theorem inFront_eq_ok_iff {later : Fallible (List Char × List Val)} {all : List Char} :
    inFront out later = .ok (all, left) ↔ ∃ out', later = .ok (out', left) ∧ all = out ++ out' := by
  cases later with
  | error e => simp [inFront, Except.map]
  | ok r =>
      obtain ⟨out', left'⟩ := r
      simp only [inFront, Except.map, Except.ok.injEq, Prod.mk.injEq]
      constructor
      · rintro ⟨rfl, rfl⟩
        exact ⟨out', ⟨rfl, rfl⟩, rfl⟩
      · rintro ⟨_, ⟨rfl, rfl⟩, rfl⟩
        exact ⟨rfl, rfl⟩

/-! ### One character -/

/-- A character that stands for itself. -/
theorem textFrom_of_literal (h : FormatStep.ofChar mode c = .ok (.literal letter)) :
    textFrom mem mode (c :: cs) args = inFront [letter] (textFrom mem .text cs args) := by
  rw [textFrom, h]
  change (textFrom mem .text cs args >>= fun r => pure (letter :: r.1, r.2)) = _
  cases textFrom mem .text cs args <;> rfl

/-- A character that only changes the mode. -/
theorem textFrom_of_next (h : FormatStep.ofChar mode c = .ok (.next mode')) :
    textFrom mem mode (c :: cs) args = textFrom mem mode' cs args := by
  rw [textFrom, h]
  rfl

/-- A character that completes a conversion. -/
theorem textFrom_of_convert (h : FormatStep.ofChar mode c = .ok (.convert spec letter))
    (hconvert : convert mem spec letter args = .ok (piece, left)) :
    textFrom mem mode (c :: cs) args = inFront piece.toList (textFrom mem .text cs left) := by
  rw [textFrom, h]
  change (convert mem spec letter args >>= fun r => textFrom mem .text cs r.2 >>= fun r' =>
    pure (r.1.toList ++ r'.1, r'.2)) = _
  rw [hconvert]
  change (textFrom mem .text cs left >>= fun r' => pure (piece.toList ++ r'.1, r'.2)) = _
  cases textFrom mem .text cs left <;> rfl

/-- A character that cannot be read. -/
theorem textFrom_of_error {crash : Crash} (h : FormatStep.ofChar mode c = .error crash) :
    textFrom mem mode (c :: cs) args = .error (.crashed crash) := by
  rw [textFrom, h]
  rfl

theorem textFrom_of_convert_error {fault : Fault}
    (h : FormatStep.ofChar mode c = .ok (.convert spec letter))
    (hconvert : convert mem spec letter args = .error fault) :
    textFrom mem mode (c :: cs) args = .error fault := by
  rw [textFrom, h]
  change (convert mem spec letter args >>= _) = _
  rw [hconvert]
  rfl

/-- A format that ends inside a conversion is not read to its end. -/
theorem textFrom_nil_eq_ok_iff :
    textFrom mem mode [] args = .ok (out, left) ↔ mode = .text ∧ out = [] ∧ left = args := by
  cases mode <;> simp [textFrom, Fallible.fail, eq_comm]

/-- What a character amounted to in a format that was read to its end. -/
inductive Reads (mem : Memory) (mode : FormatMode) (c : Char) (cs : List Char) (args : List Val) :
    List Char → List Val → Prop
  | literal {letter : Char} {out : List Char} {left : List Val}
      (hstep : FormatStep.ofChar mode c = .ok (.literal letter))
      (hlater : textFrom mem .text cs args = .ok (out, left)) :
      Reads mem mode c cs args (letter :: out) left
  | next {mode' : FormatMode} {out : List Char} {left : List Val}
      (hstep : FormatStep.ofChar mode c = .ok (.next mode'))
      (hlater : textFrom mem mode' cs args = .ok (out, left)) : Reads mem mode c cs args out left
  | convert {spec : FormatSpec} {letter : Char} {piece : String} {out : List Char}
      {between left : List Val} (hstep : FormatStep.ofChar mode c = .ok (.convert spec letter))
      (hconvert : Format.convert mem spec letter args = .ok (piece, between))
      (hlater : textFrom mem .text cs between = .ok (out, left)) :
      Reads mem mode c cs args (piece.toList ++ out) left

/-- A format that is read to its end is read one character after the other. -/
theorem reads_of_textFrom (h : textFrom mem mode (c :: cs) args = .ok (out, left)) :
    Reads mem mode c cs args out left := by
  cases hstep : FormatStep.ofChar mode c with
  | error e =>
      rw [textFrom_of_error hstep] at h
      cases h
  | ok step =>
      cases step with
      | literal letter =>
          rw [textFrom_of_literal hstep] at h
          obtain ⟨out', hlater, rfl⟩ := inFront_eq_ok_iff.1 h
          exact .literal hstep hlater
      | next mode' =>
          rw [textFrom_of_next hstep] at h
          exact .next hstep h
      | convert spec letter =>
          cases hconvert : convert mem spec letter args with
          | error e =>
              rw [textFrom_of_convert_error hstep hconvert] at h
              cases h
          | ok r =>
              rw [textFrom_of_convert hstep hconvert] at h
              obtain ⟨out', hlater, rfl⟩ := inFront_eq_ok_iff.1 h
              exact .convert hstep hconvert hlater

/-! ### One format behind another -/

/-- A conversion takes its argument from the front and does not look at the others. -/
theorem convert_append (h : convert mem spec letter args = .ok (piece, left)) (more : List Val) :
    convert mem spec letter (args ++ more) = .ok (piece, left ++ more) := by
  unfold convert at h ⊢
  split_ifs at h ⊢ with hpercent htakes
  · cases h
    rfl
  · cases args with
    | nil => cases h
    | cons v rest =>
        change (argText mem spec letter v >>= fun s => pure (s, rest)) = _ at h
        change (argText mem spec letter v >>= fun s => pure (s, rest ++ more)) = _
        cases hpiece : argText mem spec letter v with
        | error e =>
            rw [hpiece] at h
            cases h
        | ok s =>
            rw [hpiece] at h
            cases h
            rfl
  · cases h

/-- What stands behind a format that is read to its end is read from outside conversions, with the
arguments that the format has left. -/
theorem textFrom_append (h : textFrom mem mode cs args = .ok (out, left)) (later : List Char)
    (more : List Val) :
    textFrom mem mode (cs ++ later) (args ++ more) =
      inFront out (textFrom mem .text later (left ++ more)) := by
  induction cs generalizing mode args out with
  | nil =>
      obtain ⟨rfl, rfl, rfl⟩ := textFrom_nil_eq_ok_iff.1 h
      rw [inFront_nil, List.nil_append]
  | cons c cs ih =>
      rw [List.cons_append]
      cases reads_of_textFrom h with
      | literal hstep hlater =>
          rw [textFrom_of_literal hstep, ih hlater, inFront_inFront, List.singleton_append]
      | next hstep hlater => rw [textFrom_of_next hstep, ih hlater]
      | convert hstep hconvert hlater =>
          rw [textFrom_of_convert hstep (convert_append hconvert more), ih hlater, inFront_inFront]

/-- A format makes a text of arguments and leaves none of them over. -/
def Writes (mem : Memory) (format : String) (args : List Val) (s : String) : Prop :=
  textFrom mem .text format.toList args = .ok (s.toList, [])

/-- The text of a format is what the reader has written when it comes to the end. -/
theorem text_eq_map (mem : Memory) (format : String) (args : List Val) :
    text mem format args =
      (textFrom mem .text format.toList args).map fun r => String.ofList r.1 := by
  unfold text
  cases textFrom mem .text format.toList args <;> rfl

/-- What a format writes is its text. -/
theorem Writes.text_eq {format s : String} (h : Writes mem format args s) :
    text mem format args = .ok s := by
  rw [text_eq_map, h]
  simp [Except.map]

/-- Formats are put together by putting together their texts. A format behind one that uses up its
arguments gets the arguments behind those. It is written behind the text of the first, and if it
fails it fails as it does alone. -/
theorem text_append {format₁ s₁ : String} {args₁ : List Val} (h : Writes mem format₁ args₁ s₁)
    (format₂ : String) (args₂ : List Val) :
    text mem format₁ args₁ = .ok s₁ ∧
      text mem (format₁ ++ format₂) (args₁ ++ args₂) =
        (text mem format₂ args₂).map (s₁ ++ ·) := by
  have happend := textFrom_append h format₂.toList args₂
  rw [List.nil_append] at happend
  refine ⟨h.text_eq, ?_⟩
  rw [text_eq_map, text_eq_map, String.toList_append, happend]
  cases textFrom mem .text format₂.toList args₂ <;> simp [inFront, Except.map, String.ofList_append]

/-- The second of two formats ends inside a conversion, and fails as it does alone; another one in
its place gets the argument that the first one has not used up. -/
theorem text_append_percent :
    let mem := Memory.new 64
    Writes mem "%3d%%" [.int 7] "  7%" ∧
      text mem ("%3d%%" ++ "%.2") ([.int 7] ++ [.int 1]) =
        .error (.failed (.badFormat .dangling)) ∧
      text mem ("%3d%%" ++ "-%+d") ([.int 7] ++ [.int 1]) = .ok "  7%-+1" := by
  intro mem
  have hwrites : Writes mem "%3d%%" [.int 7] "  7%" := rfl
  exact ⟨hwrites, (text_append hwrites "%.2" [.int 1]).2, (text_append hwrites "-%+d" [.int 1]).2⟩

end Format

end SsaCompiler
