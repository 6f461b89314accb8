import FrontEnd.Span

/-!
# Faults

What went wrong with a source, and how it is told: in one line, and as a report that points into
the source.
-/

namespace FrontEnd

/-- A failure of one stage, with its message and, unless it came from outside, its place. -/
inductive Fault where
  | lexical (message : String) (span : Span)
  | syntactic (message : String) (span : Span)
  | semantic (message : String) (span : Span)
  | io (message : String)
deriving DecidableEq, Repr

/-- A mark under a part of a numbered file, with a note beside it. -/
structure Label where
  file : Nat
  span : Span
  note : String
deriving DecidableEq, Repr

/-- A headline, with marks in the source below it. -/
structure Diagnostic where
  headline : String
  labels : List Label
deriving DecidableEq, Repr

namespace Fault

/-- The part of the source at fault. -/
def span? : Fault → Option Span
  | lexical _ span | syntactic _ span | semantic _ span => some span
  | io _ => none

/-- The fault in one line. -/
def text : Fault → String
  | lexical message span => s!"Lexer error at {span.text}: {message}"
  | syntactic message span => s!"Parser error at {span.text}: {message}"
  | semantic message span => s!"Semantic error at {span.text}: {message}"
  | io message => s!"IO error: {message}"

/-- The report of a fault in a numbered file. -/
def diagnostic (file : Nat) : Fault → Diagnostic
  | lexical message span => ⟨"Lexer error", [⟨file, span, message⟩]⟩
  | syntactic message span => ⟨"Syntax error", [⟨file, span, message⟩]⟩
  | semantic message span => ⟨"Semantic error", [⟨file, span, message⟩]⟩
  | io message => ⟨s!"IO error: {message}", []⟩

end Fault

end FrontEnd
