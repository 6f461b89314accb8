import FrontEnd.Token.Kind

/-!
# Lexicons

A lexicon lists the lexemes that have a kind of their own, and the kinds whose tokens a scan drops.
Kinds are handed out in increasing order: `next` is the kind for the next new lexeme, which is
above every kind ever given to a lexeme, and there is none once the greatest code is taken.
-/

namespace FrontEnd

/-- A finite map from lexemes to kinds, with the set of dropped kinds. -/
structure Lexicon where
  /-- The lexemes with their kinds, each lexeme once. -/
  listing : List (String × TokenKind)
  /-- The kinds whose tokens are dropped. -/
  ignored : List TokenKind
  /-- The kind for the next new lexeme. -/
  next : Option TokenKind
deriving Repr

/-- Why a lexeme could not be entered. -/
inductive LexiconError where
  /-- No kind is left for a new lexeme. -/
  | exhausted (lexeme : String)
  /-- The kind belongs to identifiers, numbers and strings. -/
  | reserved (kind : TokenKind)
deriving DecidableEq, Repr

namespace LexiconError

def message : LexiconError → String
  | exhausted lexeme => s!"no token kind left for '{lexeme}'"
  | reserved kind => s!"token kind {kind.code} is reserved"

end LexiconError

namespace Lexicon

/-- The lexicon without lexemes. -/
def empty : Lexicon :=
  ⟨[], [], some .firstFree⟩

instance : Inhabited Lexicon := ⟨empty⟩

/-- The kind that a list of lexemes gives to a lexeme. -/
def kindIn (listing : List (String × TokenKind)) (lexeme : String) : Option TokenKind :=
  (listing.find? fun entry => entry.1 = lexeme).map Prod.snd

/-- The kind of a lexeme, if it is listed. -/
def kindOf (lex : Lexicon) (lexeme : String) : Option TokenKind :=
  kindIn lex.listing lexeme

/-- Whether a lexeme is listed. -/
def contains (lex : Lexicon) (lexeme : String) : Bool :=
  (lex.kindOf lexeme).isSome

/-- Whether tokens of a kind are dropped. -/
def isIgnored (lex : Lexicon) (kind : TokenKind) : Bool :=
  lex.ignored.contains kind

/-- The number of lexemes listed. -/
def size (lex : Lexicon) : Nat :=
  lex.listing.length

/-- Gives a lexeme a kind: in its place if it is listed, else at the end. -/
def assign (lexeme : String) (kind : TokenKind) :
    List (String × TokenKind) → List (String × TokenKind)
  | [] => [(lexeme, kind)]
  | entry :: rest =>
    if entry.1 = lexeme then (lexeme, kind) :: rest else entry :: assign lexeme kind rest

/-- The kind of a lexeme, which is entered under the next free kind if it is new, and the lexicon
afterwards. -/
def insert (lex : Lexicon) (lexeme : String) : Except LexiconError TokenKind × Lexicon :=
  match lex.kindOf lexeme with
  | some kind => (.ok kind, lex)
  | none =>
    match lex.next with
    | none => (.error (.exhausted lexeme), lex)
    | some kind =>
      (.ok kind, { lex with listing := assign lexeme kind lex.listing, next := kind.next? })

/-- The kind for the next new lexeme once `kind` is taken: above both, and none from the moment
the greatest code is taken. -/
def nextAbove (next : Option TokenKind) (kind : TokenKind) : Option TokenKind :=
  match next, kind.next? with
  | some n, some k => some (n.later k)
  | _, _ => none

/-- Gives a lexeme a chosen kind, whatever kind it had: whether that is granted, and the lexicon
afterwards. -/
def insertWith (lex : Lexicon) (lexeme : String) (kind : TokenKind) :
    Except LexiconError Unit × Lexicon :=
  if kind.isReserved then (.error (.reserved kind), lex)
  else (.ok (), { lex with
    listing := assign lexeme kind lex.listing
    next := nextAbove lex.next kind })

/-- Drops tokens of a kind from now on. -/
def ignore (lex : Lexicon) (kind : TokenKind) : Lexicon :=
  { lex with ignored := kind :: lex.ignored }

/-- The least of some texts, by code points. -/
def leastText : List String → Option String
  | [] => none
  | s :: rest =>
    match leastText rest with
    | none => some s
    | some t => some (if t < s then t else s)

/-- The least lexeme of a kind. -/
def lexemeOf (lex : Lexicon) (kind : TokenKind) : Option String :=
  leastText ((lex.listing.filter fun entry => entry.2 = kind).map Prod.fst)

/-- Entries go by code, and among equal codes by lexeme. -/
def entryLE (a b : String × TokenKind) : Bool :=
  a.2.code < b.2.code || (a.2.code == b.2.code && !(b.1 < a.1))

/-- All lexemes with their kinds, by code and then by lexeme. -/
def entries (lex : Lexicon) : List (String × TokenKind) :=
  lex.listing.mergeSort entryLE

/-- Assigning a kind to a lexeme changes what is found for this lexeme alone. -/
theorem kindIn_assign (lexeme : String) (kind : TokenKind) (listing : List (String × TokenKind))
    (other : String) :
    kindIn (assign lexeme kind listing) other =
      if other = lexeme then some kind else kindIn listing other := by
  induction listing with
  | nil =>
    by_cases h : other = lexeme
    · simp [assign, kindIn, h]
    · simp [assign, kindIn, h, Ne.symm h]
  | cons entry rest ih =>
    obtain ⟨l, k⟩ := entry
    simp only [kindIn] at ih
    by_cases hl : l = lexeme
    · subst hl
      by_cases h : other = l
      · simp [assign, kindIn, h]
      · simp [assign, kindIn, h, Ne.symm h]
    · by_cases h : other = l
      · subst h
        simp [assign, kindIn, hl]
      · simp [assign, kindIn, hl, Ne.symm h, ih]

end Lexicon

end FrontEnd
