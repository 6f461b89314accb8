import FrontEnd.Fault
import FrontEnd.Text.Align
import FrontEnd.Text.Bytes

/-!
# Source snippets

A report on a fault shows the line of the source where the fault begins, with the faulty bytes
underlined and the message beside them. The line number stands in a margin of its own width.
-/

namespace FrontEnd.Report

/-- A place in a source: its line, its column, both counted from one, and the text of the line. -/
structure Location where
  line : Nat
  column : Nat
  text : String
deriving DecidableEq, Repr

/-- The place of a byte offset in a source. -/
def locate (source : String) (offset : Nat) : Location :=
  let (before, after) := Text.splitAtByte offset source.toList
  let lineStart := (before.reverse.takeWhile (· ≠ '\n')).reverse
  { line := before.count '\n' + 1
    column := lineStart.length + 1
    text := String.ofList (lineStart ++ after.takeWhile (· ≠ '\n')) }

/-- The lines that point out a label in the source of a file. -/
def snippet (file source : String) (label : Label) : List String :=
  let place := locate source label.span.start
  let number := toString place.line
  let margin := Text.blanks number.length
  let underline := String.ofList (List.replicate (label.span.stop - label.span.start) '^')
  [s!"{margin} ┌─ {file}:{place.line}:{place.column}",
   s!"{margin} │",
   s!"{number} │ {place.text}",
   margin ++ " │ " ++ Text.blanks (place.column - 1) ++ underline ++ " " ++ label.note]

/-- The lines of a report on a file. -/
def render (file source : String) (d : Diagnostic) : List String :=
  ("error: " ++ d.headline) :: d.labels.flatMap (snippet file source) ++ [""]

end FrontEnd.Report
