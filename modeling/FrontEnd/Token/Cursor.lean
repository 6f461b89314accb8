import FrontEnd.Token.Scan

/-!
# Reading by bytes

Tokens read by a cursor that moves over the bytes of a source. Each look at the source is a slice of
it, and there is no slice at bytes that lie outside the source or inside a character. The readers
find the end of a token in different ways: a number is followed byte by byte, a word and a string
are searched for their end, and a sign grows by one character at a time.

A reader gives nothing if one of its slices does not exist, or if it goes round without coming
nearer to the end of the source.
-/

namespace FrontEnd

/-- A place in a source that is being read. -/
structure Cursor where
  lexicon : Lexicon
  rule : QuoteRule
  source : String
  /-- The offset of the byte that comes next. -/
  index : Nat

namespace Cursor

/-- The source from one byte to another. -/
def slice? (cur : Cursor) (start stop : Nat) : Option String :=
  Span.slice? ⟨start, stop⟩ cur.source

/-- The source from a byte on. -/
def sliceFrom? (cur : Cursor) (start : Nat) : Option String :=
  cur.slice? start cur.source.utf8ByteSize

/-- The character that comes next, if the source goes on. -/
def current? (cur : Cursor) : Option (Option Char) := do
  let rest ← cur.sliceFrom? cur.index
  return rest.toList.head?

/-- The cursor at another byte. -/
def moveTo (cur : Cursor) (index : Nat) : Cursor :=
  { cur with index }

/-- The number of bytes from the cursor to the end of the source. -/
def left (cur : Cursor) : Nat :=
  cur.source.utf8ByteSize - cur.index

/-- Goes round, with a cursor and what has been found so far, until there is a result. A round that
does not bring the cursor nearer to the end could be repeated for ever, and gives nothing. -/
def loop? {α β : Type} (round : Cursor × α → Option ((Cursor × α) ⊕ β)) (state : Cursor × α) :
    Option β :=
  match round state with
  | none => none
  | some (.inr result) => some result
  | some (.inl next) => if next.1.left < state.1.left then loop? round next else none
termination_by state.1.left

/-- The token from a byte up to the cursor. -/
def token? (cur : Cursor) (kind : TokenKind) (start : Nat) : Option Token := do
  let value ← cur.slice? start cur.index
  return ⟨kind, value, ⟨start, cur.index⟩⟩

/-- Whether a byte may go on in a number after its first digit. -/
def isNumberByte (b : UInt8) : Bool :=
  b == 0x2e || 0x30 ≤ b && b ≤ 0x39

/-- The first byte from `stop` on that does not go on in a number. -/
def numberStop (bytes : ByteArray) (stop : Nat) : Nat :=
  if h : stop < bytes.size then
    if isNumberByte bytes[stop] then numberStop bytes (stop + 1) else stop
  else stop
termination_by bytes.size - stop

/-- Reads a number whose first digit comes next. It may have begun before, with a minus. -/
def readNumber? (cur : Cursor) (start : Nat) : Option (Token × Cursor) := do
  let next := cur.moveTo (numberStop cur.source.toByteArray (cur.index + 1))
  return (← next.token? .number start, next)

/-- Reads a word, up to the next character that is not of words. -/
def readWord? (cur : Cursor) : Option (Token × Cursor) := do
  let rest ← cur.sliceFrom? cur.index
  let others := ((Text.charIndices 0 rest.toList).drop 1).find? fun x => !isWordChar x.2
  let next := cur.moveTo (others.elim cur.source.utf8ByteSize fun x => cur.index + x.1)
  let spelling ← cur.slice? cur.index next.index
  return (← next.token? ((cur.lexicon.kindOf spelling).getD .identifier) cur.index, next)

/-- The offset of the quote that closes a string, in the text behind its opening quote. -/
def closeOffset? (rule : QuoteRule) (opening : Char) (text : List Char) : Option Nat :=
  match rule with
  | .preferSingle => (Text.findIndex? (· = '\'') text).or (Text.findIndex? (· = '"') text)
  | .matchOpening => Text.findIndex? (· = opening) text

/-- Reads a string, or finds that it is not closed. A quote has one byte. -/
def readString? (cur : Cursor) (opening : Char) :
    Option (Except UnclosedString (Token × Cursor)) := do
  let rest ← cur.sliceFrom? (cur.index + 1)
  match closeOffset? cur.rule opening rest.toList with
  | none => return .error ⟨cur.index, cur.source.utf8ByteSize⟩
  | some offset =>
    let next := cur.moveTo (cur.index + 1 + offset + 1)
    return .ok (← next.token? .string cur.index, next)

/-- One round of reading a sign that began at `start`: it takes the next character if that gives a
listed lexeme, and else ends. A minus in front of a digit begins a number. -/
def signRound (start : Nat) : Cursor × Option TokenKind →
    Option ((Cursor × Option TokenKind) ⊕ (Token × Cursor))
  | (cur, kind?) => do
    match ← cur.current? with
    | none => return .inr (← cur.token? (kind?.getD .identifier) start, cur)
    | some c =>
      let candidate ← cur.slice? start cur.index
      if c.isDigit && candidate = "-" then return .inr (← cur.readNumber? start)
      else
        let extended ← cur.slice? start (cur.index + c.utf8Size)
        match cur.lexicon.kindOf extended with
        | some kind => return .inl (cur.moveTo (cur.index + c.utf8Size), some kind)
        | none => return .inr (← cur.token? (kind?.getD .identifier) start, cur)

/-- Reads a sign, for as long as one more character gives a listed lexeme. -/
def readSign? (cur : Cursor) : Option (Token × Cursor) :=
  loop? (signRound cur.index) (cur, none)

/-- Reads what begins with the character `c`, which comes next: a token, or the character alone if
it belongs to none. -/
def read? (cur : Cursor) (c : Char) :
    Option (Except UnclosedString (Option Token × Cursor)) := do
  let here ← cur.slice? cur.index (cur.index + c.utf8Size)
  if cur.lexicon.contains here then
    let (token, next) ← cur.readSign?
    return .ok (some token, next)
  else if c.isDigit then
    let (token, next) ← cur.readNumber? cur.index
    return .ok (some token, next)
  else if c.isAlpha then
    let (token, next) ← cur.readWord?
    return .ok (some token, next)
  else if isQuote c then
    match ← cur.readString? c with
    | .error e => return .error e
    | .ok (token, next) => return .ok (some token, next)
  else return .ok (none, cur.moveTo (cur.index + c.utf8Size))

/-- One round of reading a source: what comes next is added to the tokens, unless it is none or of a
kind that is dropped. -/
def scanRound : Cursor × Array Token →
    Option ((Cursor × Array Token) ⊕ Except UnclosedString (List Token))
  | (cur, tokens) => do
    match ← cur.current? with
    | none => return .inr (.ok tokens.toList)
    | some c =>
      match ← cur.read? c with
      | .error e => return .inr (.error e)
      | .ok (none, next) => return .inl (next, tokens)
      | .ok (some token, next) =>
        if cur.lexicon.isIgnored token.kind then return .inl (next, tokens)
        else return .inl (next, tokens.push token)

end Cursor

/-- The tokens of a source, read from its first byte on. -/
def Lexicon.scan? (lex : Lexicon) (rule : QuoteRule) (source : String) :
    Option (Except UnclosedString (List Token)) :=
  Cursor.loop? Cursor.scanRound (⟨lex, rule, source, 0⟩, #[])

end FrontEnd
