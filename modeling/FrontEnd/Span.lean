/-!
# Spans

A span is a half-open range of byte offsets into a source text. Spans of composed constructs are
built with `Span.hull`, the smallest span that covers both operands.
-/

namespace FrontEnd

/-- The bytes from offset `start` up to, and without, offset `stop`. -/
structure Span where
  start : Nat
  stop : Nat
deriving DecidableEq, Repr, Inhabited

namespace Span

/-- The empty span at the beginning of a text. -/
def origin : Span := ⟨0, 0⟩

/-- The smallest span that starts no later, and stops no earlier, than either span. -/
def hull (a b : Span) : Span :=
  ⟨min a.start b.start, max a.stop b.stop⟩

/-- The span moved `n` bytes towards the end of the text. -/
def shift (s : Span) (n : Nat) : Span :=
  ⟨s.start + n, s.stop + n⟩

/-- A span is empty when it stops where it starts. -/
def isEmpty (s : Span) : Bool :=
  s.start == s.stop

/-- The number of bytes covered. A span that stops before it starts has no length. -/
def length? (s : Span) : Option Nat :=
  if s.start ≤ s.stop then some (s.stop - s.start) else none

/-- The text of a source from one byte to another. There is none unless both are boundaries of
characters in the source. -/
def slice? (span : Span) (source : String) : Option String :=
  let start : String.Pos.Raw := ⟨span.start⟩
  let stop : String.Pos.Raw := ⟨span.stop⟩
  if start ≤ stop ∧ start.IsValid source ∧ stop.IsValid source
  then some (String.Pos.Raw.extract source start stop)
  else none

/-- The text of a span inside an error report. -/
def text (s : Span) : String :=
  s!"Span \x7b start: {s.start}, end: {s.stop} \x7d"

/-- The order of the operands does not matter to their hull. -/
theorem hull_comm (a b : Span) : a.hull b = b.hull a := by
  simp [hull, Nat.min_comm, Nat.max_comm]

/-- Nor does their grouping. -/
theorem hull_assoc (a b c : Span) : (a.hull b).hull c = a.hull (b.hull c) := by
  simp [hull, Nat.min_assoc, Nat.max_assoc]

/-- A span is its own hull. -/
theorem hull_self (a : Span) : a.hull a = a := by
  simp [hull]

/-- A length exists exactly when the span does not stop before it starts. -/
theorem length?_isSome_iff (s : Span) : s.length?.isSome ↔ s.start ≤ s.stop := by
  unfold length?
  split <;> simp_all

end Span

end FrontEnd
