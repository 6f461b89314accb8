import FrontEnd.Lexicon.Standard
import FrontEnd.Segment
import Mathlib.Tactic.Common

/-!
# Lexicons whose lexemes blanks keep apart

A lexicon is separable if blanks are listed and dropped, no other lexeme has a blank in it, and
every lexeme that is not a word can be spelled out one listed beginning after the other. These are
all the facts about a listing that printing and scanning rely on. They are checked entry by entry
for the standard lexicon (`Lexicon.standard_separable`), and used by name from then on.
-/

namespace FrontEnd

def isBlank (c : Char) : Bool :=
  c = ' ' || c = '\t' || c = '\n' || c = '\r'

/-- The blanks are the space, the tab and the two line ends. -/
lemma isBlank_iff {c : Char} : isBlank c ↔ c = ' ' ∨ c = '\t' ∨ c = '\n' ∨ c = '\r' := by
  simp [isBlank, or_assoc]

/-- A blank belongs to no word, number or string, and is not a minus. -/
lemma not_of_isBlank {c : Char} (h : isBlank c) :
    isWordChar c = false ∧ isNumberChar c = false ∧ ¬ isQuote c ∧ c ≠ '-' := by
  obtain rfl | rfl | rfl | rfl := isBlank_iff.mp h <;> decide

/-- A letter, then letters, digits and underscores. -/
def spellsWord : List Char → Bool
  | [] => false
  | c :: rest => c.isAlpha && rest.all isWordChar

namespace Lexicon

/-- A listed text that scans as itself in front of a blank. -/
@[mk_iff]
structure Stands (lex : Lexicon) (text : List Char) (kind : TokenKind) : Prop where
  ne_nil : text ≠ []
  /-- A blank is part of no longer lexeme. -/
  alone : text.any isBlank → text.length = 1
  /-- Only blanks are dropped. -/
  dropped : lex.isIgnored kind → text.any isBlank
  /-- A lexeme is a word, or all its beginnings are listed. -/
  spelled : spellsWord text ∨ ∀ n < text.length, lex.contains (String.ofList (text.take (n + 1)))
  /-- A character that is listed alone starts neither a word nor a number nor a string. -/
  single : text.length = 1 → ¬ text.any fun c => c.isAlpha || c.isDigit || isQuote c
  /-- A minus in front of a digit starts a number. -/
  minus : text.head? = some '-' → ¬ Segment.startsWithDigit text.tail

instance (lex : Lexicon) (text : List Char) (kind : TokenKind) :
    Decidable (lex.Stands text kind) :=
  decidable_of_iff' _ (lex.stands_iff text kind)

/-- A lexeme with a blank in it is that blank. -/
lemma Stands.eq_singleton {lex : Lexicon} {text kind c} (st : lex.Stands text kind) (hm : c ∈ text)
    (hc : isBlank c) : text = [c] := by
  obtain ⟨d, rfl⟩ := List.length_eq_one_iff.mp (st.alone (List.any_eq_true.mpr ⟨c, hm, hc⟩))
  rw [List.mem_singleton.mp hm]

structure Separable (lex : Lexicon) : Prop where
  blank {c} : isBlank c → ∃ kind, lex.kindOf (String.singleton c) = some kind ∧ lex.isIgnored kind
  minus : lex.contains "-"
  /-- Identifiers, numbers and strings are not dropped. -/
  reserved : ∀ kind ∈ [TokenKind.identifier, .number, .string], ¬ lex.isIgnored kind
  stands {text kind} : lex.kindOf (String.ofList text) = some kind → lex.Stands text kind

/-- Only blanks are dropped. -/
lemma Separable.not_isIgnored {lex : Lexicon} {text kind} (sp : lex.Separable)
    (hk : lex.kindOf (String.ofList text) = some kind) (hb : ∀ c, isBlank c → text ≠ [c]) :
    ¬ lex.isIgnored kind := by
  intro hi
  obtain ⟨c, hm, hc⟩ := List.any_eq_true.mp ((sp.stands hk).dropped hi)
  exact hb c hc ((sp.stands hk).eq_singleton hm hc)

/-- A lexeme with a kind is listed with it. -/
lemma mem_listing_of_kindOf {lex : Lexicon} {text kind} (h : lex.kindOf text = some kind) :
    (text, kind) ∈ lex.listing := by
  obtain ⟨⟨key, _⟩, hf, rfl⟩ := Option.map_eq_some_iff.mp h
  have hk : key = text := by simpa using List.find?_some hf
  subst hk
  exact List.mem_of_find?_eq_some hf

/-- The lexemes of the standard lexicon can be told apart by blanks. -/
lemma standard_separable : standard.Separable := by
  -- One evaluation for all facts, since each would build the listing anew.
  have facts : (∀ entry ∈ standard.listing, standard.Stands entry.1.toList entry.2) ∧
      ([' ', '\t', '\n', '\r'].all fun c =>
        (standard.kindOf (String.singleton c)).any standard.isIgnored) ∧
      standard.contains "-" ∧
      ∀ kind ∈ [TokenKind.identifier, .number, .string], ¬ standard.isIgnored kind := by
    decide +kernel
  obtain ⟨stands, blank, minus, reserved⟩ := facts
  refine ⟨?_, minus, reserved, ?_⟩
  · intro c hc
    have listed : c ∈ [' ', '\t', '\n', '\r'] := by simpa using isBlank_iff.mp hc
    exact (Option.any_eq_true _ _).mp (List.all_eq_true.mp blank c listed)
  · intro text kind hk
    have := stands _ (mem_listing_of_kindOf hk)
    rwa [String.toList_ofList] at this

end Lexicon

end FrontEnd
