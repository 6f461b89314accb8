import FrontEnd.Lexicon.Basic

/-!
# Segments

A text is cut from left to right into segments: tokens, and single characters that belong to none.
What a segment is depends on its first character. A listed character starts a sign, a digit a
number, a letter a word, and a quote a string; any other character stands alone. The cut fails at a
string that is not closed. A segment and the text after it join to the text that was cut
(`Segment.first?_join`), so that no text is lost or made up.
-/

namespace FrontEnd

/-- A stretch of text, with the kind of the token it is, if it is one. -/
structure Segment where
  kind? : Option TokenKind
  text : List Char
deriving DecidableEq, Repr

/-- Which quote closes a string. -/
inductive QuoteRule where
  /-- The next single quote; if there is none, the next double quote. -/
  | preferSingle
  /-- The next quote that equals the opening one. -/
  | matchOpening
deriving DecidableEq, Repr, Inhabited

/-- The characters that may go on in a word after its first letter. -/
def isWordChar (c : Char) : Bool :=
  c.isAlpha || c.isDigit || c = '_'

/-- The characters that may go on in a number after its first digit. -/
def isNumberChar (c : Char) : Bool :=
  c.isDigit || c = '.'

def isQuote (c : Char) : Bool :=
  c = '\'' || c = '"'

namespace QuoteRule

/-- The quote that closes a string with this opening quote, if the text after it has one. -/
def closing? (rule : QuoteRule) (opening : Char) (text : List Char) : Option Char :=
  match rule with
  | preferSingle =>
    if text.contains '\'' then some '\'' else if text.contains '"' then some '"' else none
  | matchOpening => if text.contains opening then some opening else none

/-- A closing quote occurs in the text. -/
theorem mem_of_closing? {rule : QuoteRule} {c q : Char} {text : List Char}
    (h : rule.closing? c text = some q) : q ∈ text := by
  cases rule <;> grind [closing?]

end QuoteRule

namespace Segment

/-- A number that begins with `start`, and the text after it. -/
def number (start text : List Char) : Segment × List Char :=
  (⟨some .number, start ++ text.takeWhile isNumberChar⟩, text.dropWhile isNumberChar)

/-- A word that begins with `c`, and the text after it. A word that is not listed is an
identifier. -/
def word (lex : Lexicon) (c : Char) (text : List Char) : Segment × List Char :=
  let spelling := c :: text.takeWhile isWordChar
  (⟨some ((lex.kindOf (String.ofList spelling)).getD .identifier), spelling⟩,
    text.dropWhile isWordChar)

/-- A string that opens with `c`, and the text after it, if it is closed. -/
def string? (rule : QuoteRule) (c : Char) (text : List Char) : Option (Segment × List Char) :=
  match rule.closing? c text with
  | none => none
  | some q =>
    some (⟨some .string, c :: text.takeWhile (· ≠ q) ++ [q]⟩, (text.dropWhile (· ≠ q)).drop 1)

/-- Goes on with a listed lexeme for as long as one more character gives a listed lexeme. -/
def extend (lex : Lexicon) (kind : TokenKind) (lexeme : List Char) :
    List Char → Segment × List Char
  | [] => (⟨some kind, lexeme⟩, [])
  | c :: text =>
    match lex.kindOf (String.ofList (lexeme ++ [c])) with
    | some longer => extend lex longer (lexeme ++ [c]) text
    | none => (⟨some kind, lexeme⟩, c :: text)

/-- Whether a text goes on with a digit. -/
def startsWithDigit (text : List Char) : Bool :=
  text.head?.any Char.isDigit

/-- A sign that begins with the listed character `c`, and the text after it. A minus in front of a
digit begins a number. -/
def sign (lex : Lexicon) (kind : TokenKind) (c : Char) (text : List Char) :
    Segment × List Char :=
  if c = '-' && startsWithDigit text then number [c] text else extend lex kind [c] text

/-- The first segment of the text `c :: text`, and the text after it; none if it is a string that
is not closed. -/
def first? (lex : Lexicon) (rule : QuoteRule) (c : Char) (text : List Char) :
    Option (Segment × List Char) :=
  match lex.kindOf (String.singleton c) with
  | some kind => some (sign lex kind c text)
  | none =>
    if c.isDigit then some (number [c] text)
    else if c.isAlpha then some (word lex c text)
    else if isQuote c then string? rule c text
    else some (⟨none, [c]⟩, text)

/-! ## What a segment and the text after it join to -/

/-- A number and the text after it join to what was read. -/
theorem number_join (start text : List Char) :
    (number start text).1.text ++ (number start text).2 = start ++ text := by
  simp [number, List.takeWhile_append_dropWhile]

/-- A word and the text after it join to what was read. -/
theorem word_join (lex : Lexicon) (c : Char) (text : List Char) :
    (word lex c text).1.text ++ (word lex c text).2 = c :: text := by
  simp [word, List.takeWhile_append_dropWhile]

/-- A lexeme that has grown and the text after it join to what was read. -/
theorem extend_join (lex : Lexicon) (kind : TokenKind) (lexeme text : List Char) :
    (extend lex kind lexeme text).1.text ++ (extend lex kind lexeme text).2 = lexeme ++ text := by
  induction text generalizing kind lexeme with
  | nil => simp [extend]
  | cons c text ih =>
    unfold extend
    split
    · simp [ih]
    · rfl

/-- A sign and the text after it join to what was read. -/
theorem sign_join (lex : Lexicon) (kind : TokenKind) (c : Char) (text : List Char) :
    (sign lex kind c text).1.text ++ (sign lex kind c text).2 = c :: text := by
  unfold sign
  split
  · exact number_join [c] text
  · exact extend_join lex kind [c] text

/-- Around its first occurrence, a text splits at a character. -/
theorem takeWhile_ne_append {q : Char} {text : List Char} (h : q ∈ text) :
    text.takeWhile (· ≠ q) ++ q :: (text.dropWhile (· ≠ q)).drop 1 = text := by
  induction text with
  | nil => simp at h
  | cons c text ih =>
    by_cases hc : c = q
    · simp [hc]
    · have hm : q ∈ text := by simpa [Ne.symm hc] using h
      simpa [hc] using ih hm

/-- A closed string and the text after it join to what was read. -/
theorem string?_join {rule : QuoteRule} {c : Char} {text : List Char} {s : Segment}
    {rest : List Char} (h : string? rule c text = some (s, rest)) : s.text ++ rest = c :: text := by
  unfold string? at h
  split at h
  · simp at h
  · rename_i q hq
    cases h
    simpa using takeWhile_ne_append (QuoteRule.mem_of_closing? hq)

/-- The first segment of a text and what is left join to the text. -/
theorem first?_join {lex : Lexicon} {rule : QuoteRule} {c : Char} {text : List Char}
    {s : Segment} {rest : List Char} (h : first? lex rule c text = some (s, rest)) :
    s.text ++ rest = c :: text := by
  unfold first? at h
  split at h
  · rename_i kind _
    have := sign_join lex kind c text
    rwa [Option.some.inj h] at this
  · split at h
    · cases h
      exact number_join [c] text
    · split at h
      · cases h
        exact word_join lex c text
      · split at h
        · exact string?_join h
        · cases h
          rfl

/-! ## Segments are not empty -/

/-- A lexeme that is not empty does not become so by growing. -/
theorem extend_text_ne_nil (lex : Lexicon) (kind : TokenKind) {lexeme : List Char}
    (h : lexeme ≠ []) (text : List Char) : (extend lex kind lexeme text).1.text ≠ [] := by
  induction text generalizing kind lexeme with
  | nil => simpa [extend] using h
  | cons c text ih =>
    unfold extend
    split
    · exact ih _ (by simp)
    · exact h

/-- A sign has its first character at least. -/
theorem sign_text_ne_nil (lex : Lexicon) (kind : TokenKind) (c : Char) (text : List Char) :
    (sign lex kind c text).1.text ≠ [] := by
  unfold sign
  split
  · simp [number]
  · exact extend_text_ne_nil lex kind (by simp) text

/-- The first segment of a text is not empty, so that reading goes on. -/
theorem first?_text_ne_nil {lex : Lexicon} {rule : QuoteRule} {c : Char} {text : List Char}
    {s : Segment} {rest : List Char} (h : first? lex rule c text = some (s, rest)) :
    s.text ≠ [] := by
  unfold first? at h
  split at h
  · rename_i kind _
    have := sign_text_ne_nil lex kind c text
    rwa [Option.some.inj h] at this
  · split at h
    · cases h
      simp
    · split at h
      · cases h
        simp
      · split at h
        · unfold string? at h
          split at h
          · simp at h
          · cases h
            simp
        · cases h
          simp

/-- The text after the first segment is shorter than the whole. -/
theorem length_first?_lt {lex : Lexicon} {rule : QuoteRule} {c : Char} {text : List Char}
    {s : Segment} {rest : List Char} (h : first? lex rule c text = some (s, rest)) :
    rest.length < (c :: text).length := by
  have hlen := congrArg List.length (first?_join h)
  have hpos := List.length_pos_iff.mpr (first?_text_ne_nil h)
  rw [List.length_append] at hlen
  omega

end Segment

namespace Lexicon

/-- The segments of a text, or the end of the text from a string that is not closed. -/
def segments (lex : Lexicon) (rule : QuoteRule) : List Char → Except (List Char) (List Segment)
  | [] => .ok []
  | c :: text =>
    match hfirst : Segment.first? lex rule c text with
    | none => .error (c :: text)
    | some (s, rest) =>
      have : rest.length < (c :: text).length := Segment.length_first?_lt hfirst
      match lex.segments rule rest with
      | .error unclosed => .error unclosed
      | .ok ss => .ok (s :: ss)
termination_by text => text.length
decreasing_by exact this

end Lexicon

end FrontEnd
