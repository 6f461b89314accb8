import FrontEnd.Lexicon.Basic

/-!
# The standard lexicon

Keywords, operators and blanks, with the free kinds in this order. Blanks are dropped by a scan.
-/

namespace FrontEnd.Lexicon

def keywords : List String :=
  ["let", "const", "if", "else", "func", "return", "enum", "import", "export", "inout", "true",
   "false", "null"]

/-- Operators and punctuation. Every operator of several characters has all its beginnings listed,
since a scan extends an operator one character at a time. -/
def operators : List String :=
  ["+", "-", "*", "/", "%", "=", "==", "!", "!=", "<", ">", "<=", ">=", "&", "&&", "|", "||", ".",
   ",", ";", ":", "(", ")", "[", "]", "\x7b", "\x7d", "->", "=>"]

/-- The characters that only separate tokens. -/
def blanks : List String :=
  [" ", "\t", "\n", "\r"]

/-- Enters a lexeme if a kind is left for it. -/
def enlist (lex : Lexicon) (lexeme : String) : Lexicon :=
  (lex.insert lexeme).2

/-- Drops the tokens of a lexeme, if it is listed. -/
def ignoreLexeme (lex : Lexicon) (lexeme : String) : Lexicon :=
  match lex.kindOf lexeme with
  | some kind => lex.ignore kind
  | none => lex

/-- The lexicon of the language, in which blanks are listed and dropped. -/
def standard : Lexicon :=
  blanks.foldl ignoreLexeme ((keywords ++ operators ++ blanks).foldl enlist empty)

end FrontEnd.Lexicon
