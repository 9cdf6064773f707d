/-
# Spans

Where a piece of a program stands in its source: byte offsets and the line of the
first byte. Line zero means that the line is not known, as it is for code that the
compiler makes up itself.
-/

namespace SsaCompiler

/-- A range of source text. -/
structure Span where
  /-- The first byte. -/
  start : Nat
  /-- One past the last byte. -/
  stop : Nat
  /-- The line of the first byte, zero when unknown. -/
  line : Nat
  deriving DecidableEq, Repr, Inhabited

namespace Span

/-- The span of generated code. -/
def unknown : Span := ⟨0, 0, 0⟩

/-- The span of which only the line is known. -/
def atLine (line : Nat) : Span := ⟨0, 0, line⟩

/-- The number of bytes, zero for a span that ends before it starts. -/
def length (s : Span) : Nat := s.stop - s.start

/-- Whether the span ends where it starts. -/
def isEmpty (s : Span) : Bool := s.start == s.stop

/-- The least span that covers both; an unknown line gives way to a known one, and of
two known lines the earlier counts. -/
def merge (a b : Span) : Span where
  start := min a.start b.start
  stop := max a.stop b.stop
  line := if a.line = 0 then b.line else if b.line = 0 then a.line else min a.line b.line

/-- The span as it is shown: the two offsets, then the line. -/
def text (s : Span) : String := s!"{s.start}..{s.stop}@{s.line}"

end Span

end SsaCompiler
