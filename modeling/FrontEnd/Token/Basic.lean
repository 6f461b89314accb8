import FrontEnd.Span
import FrontEnd.Text.Align
import FrontEnd.Text.Quoted
import FrontEnd.Token.Kind

/-!
# Tokens
-/

namespace FrontEnd

/-- A stretch of source text together with its kind and the bytes it covers. -/
structure Token where
  kind : TokenKind
  value : String
  span : Span
deriving DecidableEq, Repr

namespace Token

/-- One line about a token: its code, the name of its kind and its quoted text, in columns. -/
def text (t : Token) : String :=
  Text.alignRight 4 (toString t.kind.code) ++ " " ++
    Text.alignLeft 10 t.kind.name ++ " " ++ Text.quoted t.value

/-- Whether the token is a name that the table of lexemes does not list. -/
def isIdentifier (t : Token) : Bool :=
  t.kind = .identifier

/-- The token moved `n` bytes towards the end of the text. -/
def shift (t : Token) (n : Nat) : Token :=
  { t with span := t.span.shift n }

end Token

end FrontEnd
