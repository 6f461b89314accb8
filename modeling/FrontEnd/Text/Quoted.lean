import FrontEnd.Text.DefaultIgnorable
import FrontEnd.Text.ExtendingMark
import FrontEnd.Text.Unprintable

/-!
# Quoted text

A text between double quotes in which every character can be told apart on a terminal: the quote,
the backslash and the common controls have short escapes, and whatever prints on top of its
neighbour, as nothing or not at all is written by its code point in hexadecimal.
-/

namespace FrontEnd.Text

/-- The code point of a character, in lower-case hexadecimal between braces. -/
def codePointEscape (c : Char) : String :=
  "\\u\x7b" ++ String.ofList (Nat.toDigits 16 c.toNat) ++ "\x7d"

/-- Whether the character, standing alone, cannot be seen for what it is. -/
def needsCodePoint (c : Char) : Bool :=
  isExtendingMark c || isUnprintable c || isDefaultIgnorable c

/-- One character inside quotes. -/
def quotedChar (c : Char) : String :=
  if c = '"' then "\\\""
  else if c = '\\' then "\\\\"
  else if c = '\n' then "\\n"
  else if c = '\r' then "\\r"
  else if c = '\t' then "\\t"
  else if c.toNat = 0 then "\\0"
  else if needsCodePoint c then codePointEscape c
  else c.toString

/-- The text between double quotes, with its characters escaped where needed. -/
def quoted (s : String) : String :=
  "\"" ++ String.join (s.toList.map quotedChar) ++ "\""

end FrontEnd.Text
