import FrontEnd.Fault
import FrontEnd.Log
import FrontEnd.Segment
import FrontEnd.Text.Bytes
import FrontEnd.Token.Basic

/-!
# Scanning

The tokens of a source are its segments that have a kind which the lexicon does not drop, each with
the bytes it covers.
-/

namespace FrontEnd

/-- A string without a closing quote, from its opening quote to the end of the source. -/
structure UnclosedString where
  span : Span
deriving DecidableEq, Repr

namespace UnclosedString

def message : String :=
  "unterminated string literal"

def fault (e : UnclosedString) : Fault :=
  .lexical message e.span

end UnclosedString

namespace Segment

/-- Puts segments one behind the other, from a byte offset on. -/
def place : Nat → List Segment → List (Segment × Span)
  | _, [] => []
  | start, s :: rest =>
    let stop := start + Text.byteLength s.text
    (s, ⟨start, stop⟩) :: place stop rest

end Segment

namespace Lexicon

/-- The token that a placed segment is, unless it has no kind or its kind is dropped. -/
def token? (lex : Lexicon) (placed : Segment × Span) : Option Token :=
  match placed.1.kind? with
  | none => none
  | some kind =>
    if lex.isIgnored kind then none
    else some ⟨kind, String.ofList placed.1.text, placed.2⟩

/-- The tokens of a source, in order. -/
def scan (lex : Lexicon) (rule : QuoteRule) (source : String) :
    Except UnclosedString (List Token) :=
  match lex.segments rule source.toList with
  | .ok ss => .ok ((Segment.place 0 ss).filterMap lex.token?)
  | .error unclosed =>
    let stop := Text.byteLength source.toList
    .error ⟨stop - Text.byteLength unclosed, stop⟩

/-- What a scan tells about its result. A scan that fails is silent. -/
def scanLog (source : String) (result : Except UnclosedString (List Token)) : List Log.Entry :=
  match result with
  | .ok tokens =>
    [⟨.debug, s!"scanned {tokens.length} tokens from {Text.byteLength source.toList} bytes"⟩]
  | .error _ => []

end Lexicon

end FrontEnd
