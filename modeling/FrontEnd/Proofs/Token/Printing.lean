import FrontEnd.Proofs.Token.Layout

/-!
# Printing and scanning

The lexemes of the standard lexicon, printed with blanks between them, scan as what they are.
-/

namespace FrontEnd

open Lexicon (standard)

/-- What can be printed. -/
inductive Lexeme where
  /-- A keyword, an operator or a punctuation mark. -/
  | key (text : String) (kind : TokenKind) (listed : standard.kindOf text = some kind)
      (solid : text ∉ Lexicon.blanks)
  | word (first : Char) (rest : List Char) (begins : first.isAlpha)
      (goesOn : ∀ c ∈ rest, isWordChar c)
  | number (isNegative : Bool) (first : Char) (rest : List Char) (begins : first.isDigit)
      (goesOn : ∀ c ∈ rest, isNumberChar c)
  | string (quote : Char) (inside : List Char) (opens : isQuote quote) (closes : quote ∉ inside)

namespace Lexeme

def text : Lexeme → List Char
  | key text _ _ _ => text.toList
  | word first rest _ _ => first :: rest
  | number false first rest _ _ => first :: rest
  | number true first rest _ _ => '-' :: first :: rest
  | string quote inside _ _ => quote :: inside ++ [quote]

/-- The kind of a lexeme. A word may be listed too. -/
def kind : Lexeme → TokenKind
  | key _ kind _ _ => kind
  | word first rest _ _ => (standard.kindOf (String.ofList (first :: rest))).getD .identifier
  | number _ _ _ _ _ => .number
  | string _ _ _ _ => .string

/-- A lexeme that is no string, or a string in single quotes. -/
def IsSingle : Lexeme → Prop
  | string quote _ _ _ => quote = '\''
  | _ => True

/-- A lexeme with blanks in front of it. -/
def after (l : Lexeme) (gap : List Char) : Piece :=
  ⟨gap, l.kind, l.text⟩

/-- A quote that occurs later closes the string it opens, if quotes must match or it is the single
one. -/
lemma closing?_self {rule : QuoteRule} {q : Char} (hr : rule = .matchOpening ∨ q = '\'')
    {text : List Char} (hq : q ∈ text) : rule.closing? q text = some q := by
  cases rule with
  | matchOpening => simp [QuoteRule.closing?, hq]
  | preferSingle =>
    obtain rfl : q = '\'' := by simpa using hr
    simp [QuoteRule.closing?, hq]

/-- A lexeme is legible whatever follows, unless the rule may close it on another quote. -/
lemma legible {rule : QuoteRule} {l : Lexeme} (hr : rule = .matchOpening ∨ l.IsSingle)
    (later : List Char) : Legible standard rule ⟨some l.kind, l.text⟩ later := by
  cases l with
  | key text kind listed _ =>
    apply Legible.listed
    rwa [Lexeme.text, String.ofList_toList]
  | word _ _ begins goesOn =>
    rw [kind, text]
    exact .word begins goesOn
  | number isNegative _ _ begins goesOn =>
    cases isNegative with
    | false => exact .number begins goesOn
    | true => exact .negative begins goesOn
  | string _ _ opens closes => exact .string opens (closing?_self hr (by simp)) closes

/-- No lexeme is dropped. -/
lemma kept (l : Lexeme) : ¬ standard.isIgnored l.kind := by
  have sp := Lexicon.standard_separable
  cases l with
  | key text kind listed solid =>
    rw [← text.ofList_toList] at listed
    apply sp.not_isIgnored listed
    intro c hc e
    apply solid
    rw [← text.ofList_toList, e]
    obtain rfl | rfl | rfl | rfl := isBlank_iff.mp hc <;> decide
  | word first rest begins _ =>
    rw [kind]
    cases hk : standard.kindOf (String.ofList (first :: rest)) with
    | none => exact sp.reserved _ (by simp)
    | some listed =>
      apply sp.not_isIgnored hk
      rintro c hc e
      obtain ⟨rfl, -⟩ := List.cons_eq_cons.mp e
      simpa [isWordChar, begins] using (not_of_isBlank hc).1
  | number _ _ _ _ _ => exact sp.reserved _ (by simp [kind])
  | string _ _ _ _ => exact sp.reserved _ (by simp [kind])

end Lexeme

/-- Lexemes printed with blanks between them scan as themselves, each where it was put, if strings
close on the quote that opened them, or if all of them are in single quotes. -/
theorem Lexicon.scan_print {rule : QuoteRule} {items : List (List Char × Lexeme)} {last : List Char}
    (spaced : Spaced (items.map Prod.fst) last)
    (quotes : rule = .matchOpening ∨ ∀ x ∈ items, x.2.IsSingle) :
    standard.scan rule (String.ofList (Piece.layout (items.map fun x => x.2.after x.1) last)) =
      .ok (Piece.tokens 0 (items.map fun x => x.2.after x.1)) := by
  have rd : Reads standard rule (items.map fun x => x.2.after x.1) last := by
    clear spaced
    induction items with
    | nil => exact .nil
    | cons x items ih =>
      refine .cons (Lexeme.legible ?_ _) x.2.kept (ih ?_)
      · exact quotes.imp_right fun h => h x (by simp)
      · exact quotes.imp_right fun h y hy => h y (by simp [hy])
  apply Piece.scan_layout standard_separable _ rd
  rwa [List.map_map]

/-- A sign, a negative number that ends in a dot, a string with the other quote in it, a keyword and
a word that a keyword starts. -/
def printed : List (List Char × Lexeme) :=
  [([], .key "->" ⟨56⟩ (by decide +kernel) (by decide)),
   ([' '], .number true '1' ['.'] (by decide) (List.all_eq_true.mp rfl)),
   (['\n'], .string '"' ['i', '\'', 's'] (by decide) (by decide)),
   ([' ', '\t'], .word 'l' ['e', 't'] (by decide) (List.all_eq_true.mp rfl)),
   ([' '], .word 'l' ['e', 't', '_'] (by decide) (List.all_eq_true.mp rfl))]

/-- The standard lexicon reads these lexemes back. -/
theorem printed_scan_print :
    Spaced (printed.map Prod.fst) ['\r'] ∧
      standard.scan .matchOpening "-> -1.\n\"i's\" \tlet let_\r" = .ok
        [⟨⟨56⟩, "->", ⟨0, 2⟩⟩, ⟨.number, "-1.", ⟨3, 6⟩⟩, ⟨.string, "\"i's\"", ⟨7, 12⟩⟩,
          ⟨⟨16⟩, "let", ⟨14, 17⟩⟩, ⟨.identifier, "let_", ⟨18, 22⟩⟩] := by
  have spaced : Spaced (printed.map Prod.fst) ['\r'] := ⟨by simp [printed, isBlank], by decide⟩
  have tokens : Piece.tokens 0 (printed.map fun x => x.2.after x.1) =
      [⟨⟨56⟩, "->", ⟨0, 2⟩⟩, ⟨.number, "-1.", ⟨3, 6⟩⟩, ⟨.string, "\"i's\"", ⟨7, 12⟩⟩,
        ⟨⟨16⟩, "let", ⟨14, 17⟩⟩, ⟨.identifier, "let_", ⟨18, 22⟩⟩] := by decide +kernel
  have source : "-> -1.\n\"i's\" \tlet let_\r" =
      String.ofList (Piece.layout (printed.map fun x => x.2.after x.1) ['\r']) := by decide +kernel
  refine ⟨spaced, ?_⟩
  rw [← tokens, source]
  exact Lexicon.scan_print spaced (.inl rfl)

end FrontEnd
