/-
# Crashes

A few operations of the library are only defined on part of their arguments: a
handle has to belong to the table it is looked up in, a size has to fit a machine
word, a cut has to fall between two characters. Outside that part they do not
answer with a diagnostic or an execution error, they crash, and the whole run is
lost. Crashes are kept apart from every other failure, so that "this never
crashes" is a statement of its own.
-/

namespace SsaCompiler

/-- Why an operation was asked for something outside its domain. -/
inductive Crash where
  /-- A handle or an index does not belong to the table it is used with. -/
  | outOfRange
  /-- The result of an arithmetic operation does not fit its machine word. -/
  | overflow
  /-- A text is cut in the middle of a character. -/
  | splitCharacter
  /-- A recursion does not come to an end, such as the size of a type that contains
  itself by value. -/
  | endless
  deriving DecidableEq, Repr, Inhabited

/-- A computation that answers or crashes. -/
abbrev Checked (α : Type) : Type := Except Crash α

/-- One more than the largest unsigned machine word. -/
@[noinline]
def wordRange : Nat := 18446744073709551616

/-- A natural number as a machine word; crashes when it does not fit. -/
def Checked.word (n : Nat) : Checked Nat :=
  if n < wordRange then .ok n else .error .overflow

/-- The entry of an array at an index; crashes when there is none. -/
def Checked.at {α : Type} (xs : Array α) (i : Nat) : Checked α :=
  match xs[i]? with
  | some x => .ok x
  | none => .error .outOfRange

/-- An entry is handed out exactly when it is there. -/
theorem Checked.at_eq_ok_iff {α : Type} {xs : Array α} {i : Nat} {x : α} :
    Checked.at xs i = .ok x ↔ xs[i]? = some x := by
  unfold Checked.at
  cases xs[i]? <;> simp

end SsaCompiler
