import FrontEnd.Proofs.Token.Boundaries
import FrontEnd.Proofs.Token.Quoting

/-!
# Strings that are not closed

A scan fails only at a quote behind which no closing one is left. The text in front of that quote
scans on its own, since every segment of it is read as well if the text ends behind it
(`Cuts.scan_before`). If quotes are part of no lexeme and have to match, the converse holds: a text
that scans, a quote and a text without that quote do not scan.

Main statement: `Lexicon.scan_unclosed`.
-/

namespace FrontEnd

namespace QuoteRule

/-- A text that does not close a string. -/
def LeavesOpen (opening : Char) (text : List Char) : QuoteRule → Prop
  | preferSingle => ∀ c ∈ text, ¬ isQuote c
  | matchOpening => opening ∉ text

/-- No quote closes a string if the text leaves it open. -/
lemma closing?_eq_none_iff {rule : QuoteRule} {c text} :
    rule.closing? c text = none ↔ rule.LeavesOpen c text := by
  cases rule with
  | matchOpening => simp [closing?, LeavesOpen]
  | preferSingle =>
    simp only [closing?, LeavesOpen, isQuote, List.contains_iff_mem, Bool.or_eq_true,
      decide_eq_true_eq, not_or]
    split_ifs with single double
    · exact iff_of_false not_false fun none => (none _ single).1 rfl
    · exact iff_of_false not_false fun none => (none _ double).2 rfl
    · exact iff_of_true rfl fun c hc => ⟨fun e => single (e ▸ hc), fun e => double (e ▸ hc)⟩

end QuoteRule

/-- The text in front of what is left scans on its own. -/
lemma Cuts.scan_before {lex rule text ss tail} (ct : Cuts lex rule (text ++ tail) ss tail) :
    ∃ tokens, lex.scan rule (String.ofList text) = .ok tokens := by
  have cut : Cuts lex rule text ss [] := Cuts.of_append ct
  exact ⟨_, by rw [Lexicon.scan, String.toList_ofList, cut.segments_eq]⟩

namespace Lexicon

/-- A text with a spared character in it is not listed. -/
lemma Spares.unlisted {lex : Lexicon} {q text} (sp : lex.Spares q) (hm : q ∈ text) :
    lex.kindOf (String.ofList text) = none := by
  rw [← Option.not_isSome_iff_eq_none]
  intro listed
  have spared := sp (String.ofList text) listed
  rw [String.toList_ofList] at spared
  exact spared hm

/-- A quote that is part of no lexeme ends whatever is read in front of it. -/
lemma Spares.bounds {lex : Lexicon} {q} (sp : lex.Spares q) (quote : isQuote q) : lex.Bounds q := by
  obtain ⟨word, number, -⟩ := outside_of_isQuote quote
  exact ⟨Bool.eq_false_iff.mpr word, Bool.eq_false_iff.mpr number, fun _ => sp.unlisted (by simp)⟩

/-- A quote that does not come again opens a string that is not closed. -/
lemma Spares.first?_eq_none {lex : Lexicon} {q text} (sp : lex.Spares q) (quote : isQuote q)
    (last : q ∉ text) : Segment.first? lex .matchOpening q text = none := by
  refine Segment.first?_eq_none_iff.mpr ⟨?_, quote, QuoteRule.closing?_eq_none_iff.mpr last⟩
  rw [String.singleton_eq_ofList]
  exact sp.unlisted List.mem_cons_self

/-- A scan fails only at a quote that is not listed and not closed, and in front of which the text
scans on its own. If no quote is part of a lexeme and quotes have to match, it fails at every such
quote. -/
theorem scan_unclosed (lex : Lexicon) :
    (∀ {rule source e}, lex.scan rule source = .error e → ∃ before q after,
      source = before ++ String.singleton q ++ after ∧
      e.fault = .lexical UnclosedString.message ⟨before.utf8ByteSize, source.utf8ByteSize⟩ ∧
      isQuote q ∧ ¬ lex.contains (String.singleton q) ∧ rule.LeavesOpen q after.toList ∧
      ∃ tokens, lex.scan rule before = .ok tokens) ∧
    ((∀ q, isQuote q → lex.Spares q) → ∀ {before q after tokens},
      lex.scan .matchOpening before = .ok tokens → isQuote q → q ∉ after.toList →
      let source := before ++ String.singleton q ++ after
      lex.scan .matchOpening source =
        .error ⟨⟨before.utf8ByteSize, source.utf8ByteSize⟩⟩) := by
  constructor
  · intro rule source e failed
    obtain ⟨ss, ct, ok⟩ | ⟨ss, q, after, ct, hn, -⟩ := lex.segments_cases rule source.toList
    · rw [scan, ok] at failed
      cases failed
    · rw [scan_of_unclosed ct hn] at failed
      cases failed
      obtain ⟨unlisted, quote, unclosed⟩ := Segment.first?_eq_none_iff.mp hn
      have whole := ct.join
      refine ⟨String.ofList (ss.map Segment.text).flatten, q, String.ofList after, ?_, ?_, quote,
        ?_, ?_, ?_⟩
      · rw [← String.toList_inj, ← whole]
        simp
      · rw [UnclosedString.fault, Text.byteLength_eq]
      · exact not_contains unlisted
      · rwa [String.toList_ofList, ← QuoteRule.closing?_eq_none_iff]
      · rw [← whole] at ct
        exact ct.scan_before
  · intro spared before q after tokens ok quote last source
    obtain ⟨ss, ct, -⟩ | ⟨_, _, _, ct, hn, -⟩ := lex.segments_cases .matchOpening before.toList
    · have cut : Cuts lex .matchOpening (before.toList ++ q :: after.toList) ss
          ([] ++ q :: after.toList) :=
        ct.before_boundary ((spared q quote).bounds quote) (.inl rfl)
      have unclosed := (spared q quote).first?_eq_none quote last
      have taken : (ss.map Segment.text).flatten = before.toList := by
        rw [← ct.join, List.append_nil]
      have split : source.toList = before.toList ++ q :: after.toList := by
        simp [source]
      rw [← split] at cut
      rw [scan_of_unclosed cut unclosed, taken, Text.byteLength_toList]
    · rw [scan_of_unclosed ct hn] at ok
      cases ok

end Lexicon

/-- A string that closes on the other quote, in front of one that is left open; and, conversely, an
open quote behind a string that holds it. -/
theorem reopened_scan_unclosed :
    (∃ before q after, "'a'\"b-'c\"d" = before ++ String.singleton q ++ after ∧
      before.utf8ByteSize = 8 ∧ isQuote q ∧ ¬ Lexicon.standard.contains (String.singleton q) ∧
      QuoteRule.preferSingle.LeavesOpen q after.toList ∧
      ∃ tokens, Lexicon.standard.scan .preferSingle before = .ok tokens) ∧
    Lexicon.standard.scan .matchOpening ("é'\"'-" ++ String.singleton '"' ++ "'b") =
      .error ⟨⟨6, 9⟩⟩ := by
  -- One evaluation for all facts, since each would build the listing anew.
  have facts : Lexicon.standard.scan .preferSingle "'a'\"b-'c\"d" = .error ⟨⟨8, 10⟩⟩ ∧
      Lexicon.standard.scan .matchOpening "é'\"'-" =
        .ok [⟨.string, "'\"'", ⟨2, 5⟩⟩, ⟨⟨30⟩, "-", ⟨5, 6⟩⟩] ∧
      Lexicon.standard.listing.all fun entry => !entry.1.toList.any isQuote := by
    decide +kernel
  obtain ⟨failed, scanned, plain⟩ := facts
  have spared : ∀ q, isQuote q → Lexicon.standard.Spares q := by
    intro q quote key listed hm
    obtain ⟨kind, hk⟩ := Option.isSome_iff_exists.mp listed
    have none := List.all_eq_true.mp plain _ (Lexicon.mem_listing_of_kindOf hk)
    rw [List.any_eq_true.mpr ⟨q, hm, quote⟩] at none
    cases none
  obtain ⟨only, every⟩ := Lexicon.scan_unclosed .standard
  obtain ⟨before, q, after, split, fault, shape⟩ := only failed
  refine ⟨⟨before, q, after, split, ?_, shape⟩, ?_⟩
  · rw [UnclosedString.fault, Fault.lexical.injEq, Span.mk.injEq] at fault
    exact fault.2.1.symm
  · have outside : '"' ∉ "'b".toList := by decide
    exact every spared scanned rfl outside

end FrontEnd
