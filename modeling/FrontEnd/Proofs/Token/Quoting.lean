import FrontEnd.Proofs.Text.Slice
import FrontEnd.Proofs.Token.Legible
import FrontEnd.Token.Scan
import Mathlib.Algebra.Ring.Parity

/-!
# Texts with one kind of quote

A text is uniform if all its quotes are the same. Both rules close a string of a uniform text at
the next quote, so they scan it alike. If moreover the quote is part of no lexeme, then a string
takes two quotes and any other segment none (`Segment.even_count`). So such a text scans if it has
an even number of quotes, and otherwise fails at the last of them.

Main statement: `Lexicon.scan_uniform`.
-/

namespace FrontEnd

/-- All quotes of a text are the same. -/
def Uniform (q : Char) (text : List Char) : Prop :=
  ∀ c ∈ text, isQuote c → c = q

/-- A character that is part of no lexeme. -/
def Lexicon.Spares (lex : Lexicon) (q : Char) : Prop :=
  ∀ key, lex.contains key → q ∉ key.toList

/-- A part of a text has no other quotes. -/
lemma Uniform.mono {q text whole} (un : Uniform q whole) (sub : text ⊆ whole) : Uniform q text :=
  fun c hc => un c (sub hc)

/-- A text with one of the two quotes at most is uniform. -/
lemma exists_uniform {text : List Char} (one : ¬ ('\'' ∈ text ∧ '"' ∈ text)) :
    ∃ q, isQuote q ∧ Uniform q text := by
  by_cases single : '\'' ∈ text
  · refine ⟨'\'', rfl, fun c hc quote => ?_⟩
    simp only [isQuote, Bool.or_eq_true, decide_eq_true_eq] at quote
    rcases quote with rfl | rfl
    · rfl
    · exact absurd ⟨single, hc⟩ one
  · refine ⟨'"', rfl, fun c hc quote => ?_⟩
    simp only [isQuote, Bool.or_eq_true, decide_eq_true_eq] at quote
    rcases quote with rfl | rfl
    · exact absurd hc single
    · rfl

/-! ## Closing strings -/

/-- In a uniform text a string closes at the next quote by either rule. -/
lemma QuoteRule.closing?_uniform {q c text} (un : Uniform q (c :: text)) (quote : isQuote c)
    (rule : QuoteRule) : rule.closing? c text = if q ∈ text then some q else none := by
  obtain rfl : c = q := un c List.mem_cons_self quote
  cases rule with
  | matchOpening =>
    rw [closing?]
    simp only [List.contains_iff_mem]
  | preferSingle =>
    have other : ∀ d ∈ text, isQuote d → d = c := fun d hd => un d (List.mem_cons_of_mem _ hd)
    rw [closing?]
    simp only [List.contains_iff_mem]
    simp only [isQuote, Bool.or_eq_true, decide_eq_true_eq] at quote
    rcases quote with rfl | rfl
    · have none : '"' ∉ text := fun hm => absurd (other _ hm rfl) (by decide)
      rw [if_neg none]
    · have none : '\'' ∉ text := fun hm => absurd (other _ hm rfl) (by decide)
      rw [if_neg none]

namespace Segment

/-- The rule for quotes does not matter to the first segment if all quotes are the same. -/
lemma first?_uniform {lex : Lexicon} {q c text} (un : Uniform q (c :: text))
    (rule other : QuoteRule) : first? lex rule c text = first? lex other c text := by
  by_cases quote : isQuote c
  · have same : string? rule c text = string? other c text := by
      rw [string?, string?, QuoteRule.closing?_uniform un quote,
        QuoteRule.closing?_uniform un quote]
    rw [first?, first?, same]
  · rw [first?, first?, if_neg quote, if_neg quote]

/-- There is no first segment only at a quote that is not listed and not closed. -/
lemma first?_eq_none_iff {lex : Lexicon} {rule c text} :
    first? lex rule c text = none ↔
      lex.kindOf (String.singleton c) = none ∧ isQuote c ∧ rule.closing? c text = none := by
  constructor
  · intro h
    have quote := isQuote_of_first?_eq_none h
    obtain ⟨digit, alpha⟩ := not_of_isQuote quote
    unfold first? at h
    split at h
    · cases h
    · rename_i unlisted
      rw [if_neg digit, if_neg alpha, if_pos quote, string?] at h
      split at h
      · rename_i unclosed
        exact ⟨unlisted, quote, unclosed⟩
      · cases h
  · rintro ⟨unlisted, quote, unclosed⟩
    obtain ⟨digit, alpha⟩ := not_of_isQuote quote
    rw [first?, unlisted]
    dsimp only
    rw [if_neg digit, if_neg alpha, if_pos quote, string?, unclosed]

/-- In a uniform text only the last quote opens a string that is not closed. -/
lemma last_of_first?_eq_none {lex : Lexicon} {rule q c text} (un : Uniform q (c :: text))
    (h : first? lex rule c text = none) : c = q ∧ q ∉ text := by
  obtain ⟨-, quote, unclosed⟩ := first?_eq_none_iff.mp h
  refine ⟨un c List.mem_cons_self quote, fun hm => ?_⟩
  rw [QuoteRule.closing?_uniform un quote, if_pos hm] at unclosed
  cases unclosed

end Segment

/-! ## Counting quotes -/

/-- A quote is part of no word or number, and no minus. -/
lemma outside_of_isQuote {q : Char} (quote : isQuote q) :
    ¬ isWordChar q ∧ ¬ isNumberChar q ∧ q ≠ '-' := by
  simp only [isQuote, Bool.or_eq_true, decide_eq_true_eq] at quote
  obtain rfl | rfl := quote <;> decide

/-- A string takes two quotes of a uniform text, and any other token none. -/
lemma Legible.even_count {lex rule s later q} (lg : Legible lex rule s later)
    (sp : lex.Spares q) (quote : isQuote q) (un : Uniform q (s.text ++ later)) :
    Even (s.text.count q) := by
  obtain ⟨word, number, minus⟩ := outside_of_isQuote quote
  have even_of_not_mem : ∀ {text : List Char}, q ∉ text → Even (text.count q) := by
    intro text out
    rw [List.count_eq_zero.mpr out]
    exact Even.zero
  cases lg with
  | @listed text kind _ hk =>
    apply even_of_not_mem
    have spared := sp (String.ofList text) (Option.isSome_iff_exists.mpr ⟨kind, hk⟩)
    rwa [String.toList_ofList] at spared
  | @word c tail _ hc ht =>
    apply even_of_not_mem
    intro hm
    rcases List.mem_cons.mp hm with rfl | hm
    · exact word (by simp [isWordChar, hc])
    · exact word (ht q hm)
  | @number c tail _ hc ht =>
    apply even_of_not_mem
    intro hm
    rcases List.mem_cons.mp hm with rfl | hm
    · exact number (by simp [isNumberChar, hc])
    · exact number (ht q hm)
  | @negative c tail _ hc ht =>
    apply even_of_not_mem
    intro hm
    rcases List.mem_cons.mp hm with rfl | hm
    · exact minus rfl
    · rcases List.mem_cons.mp hm with rfl | hm
      · exact number (by simp [isNumberChar, hc])
      · exact number (ht q hm)
  | @string c inside closing _ hc closes fresh =>
    -- Both ends of the string are the quote of the text, and there is none between them.
    obtain rfl : c = q := un c List.mem_cons_self hc
    have whole : Uniform c (c :: (inside ++ closing :: later)) := by
      simpa using un
    rw [QuoteRule.closing?_uniform whole hc] at closes
    split_ifs at closes
    cases closes
    rw [List.count_append, List.count_cons_self, List.count_eq_zero.mpr fresh,
      List.count_singleton_self]
    exact even_two

/-- The quotes of a uniform text come in pairs, but for those that are left. -/
lemma Cuts.even_count_iff {lex rule text ss rest q} (ct : Cuts lex rule text ss rest)
    (sp : lex.Spares q) (quote : isQuote q) (un : Uniform q text) :
    Even (text.count q) ↔ Even (rest.count q) := by
  induction ct with
  | nil => rfl
  | @cons c text s mid ss rest read _ ih =>
    have joined := Segment.first?_join read
    have taken : Even (s.text.count q) := by
      obtain ⟨kind, hk⟩ | ⟨rfl, -, skipped⟩ := Segment.first?_cases read
      · have lg := Legible.of_first? read hk fun _ hd _ => hd
        exact lg.even_count sp quote (joined ▸ un)
      · have ne : c ≠ q := fun e => skipped.2.2.2 (e ▸ quote)
        rw [List.count_singleton, if_neg (by simpa using ne)]
        exact Even.zero
    have left : Uniform q mid := un.mono (joined ▸ List.subset_append_right _ _)
    rw [← ih left, ← joined, List.count_append, Nat.even_add]
    exact iff_true_left taken

/-! ## Scans -/

namespace Lexicon

/-- A scan fails at the first string that is not closed, and up to the end. -/
lemma scan_of_unclosed {lex : Lexicon} {rule ss c rest} {source : String}
    (ct : Cuts lex rule source.toList ss (c :: rest))
    (h : Segment.first? lex rule c rest = none) :
    lex.scan rule source =
      .error ⟨⟨Text.byteLength (ss.map Segment.text).flatten, source.utf8ByteSize⟩⟩ := by
  have length : source.utf8ByteSize =
      Text.byteLength (ss.map Segment.text).flatten + Text.byteLength (c :: rest) := by
    rw [← Text.byteLength_append, ct.join, Text.byteLength_toList]
  rw [scan, ct.segments_append, segments_of_unclosed h]
  dsimp only [Except.map]
  rw [Text.byteLength_toList, length, Nat.add_sub_cancel]

/-- If all quotes are the same, the rule for quotes does not matter to any segment. -/
lemma segments_uniform {lex : Lexicon} {q text} (un : Uniform q text) (rule other : QuoteRule) :
    lex.segments rule text = lex.segments other text :=
  segments_congr (fun un left => un.mono left.subset)
    (fun un => Segment.first?_uniform un rule other) un

/-- A uniform text, whose quote is part of no lexeme, scans if the number of quotes is even. If it
is odd, the scan fails at the last quote. -/
lemma scan_paired {lex : Lexicon} {q} (sp : lex.Spares q) (quote : isQuote q) {source : String}
    (un : Uniform q source.toList) (rule : QuoteRule) :
    (∃ tokens, lex.scan rule source = .ok tokens) ∧ Even (source.toList.count q) ∨
      ∃ before after, source.toList = before ++ q :: after ∧ q ∉ after ∧
        Odd (source.toList.count q) ∧
        lex.scan rule source = .error ⟨⟨Text.byteLength before, source.utf8ByteSize⟩⟩ := by
  obtain ⟨ss, ct, e⟩ | ⟨ss, c, rest, ct, hn, e⟩ := lex.segments_cases rule source.toList
  · left
    refine ⟨⟨_, by rw [scan, e]⟩, ?_⟩
    rw [ct.even_count_iff sp quote un]
    exact Even.zero
  · right
    obtain ⟨rfl, last⟩ := Segment.last_of_first?_eq_none (un.mono ct.suffix.subset) hn
    have whole := ct.join
    refine ⟨(ss.map Segment.text).flatten, rest, whole.symm, last, ?_, ?_⟩
    · rw [← Nat.not_even_iff_odd, ct.even_count_iff sp quote un, List.count_cons_self,
        List.count_eq_zero.mpr last]
      decide
    · exact scan_of_unclosed ct hn

/-- A source with one of the two quotes at most scans alike under both rules. If the quote is part
of no lexeme, it scans exactly if the number of quotes is even, and otherwise fails from the last
quote to the end. -/
theorem scan_uniform {lex : Lexicon} {source : String}
    (one : ¬ ('\'' ∈ source.toList ∧ '"' ∈ source.toList)) :
    lex.scan .preferSingle source = lex.scan .matchOpening source ∧
    ∀ q, isQuote q → Uniform q source.toList → lex.Spares q → ∀ rule,
      ((∃ tokens, lex.scan rule source = .ok tokens) ↔ Even (source.toList.count q)) ∧
      (Odd (source.toList.count q) → ∃ before after,
        source.toList = before ++ q :: after ∧ q ∉ after ∧
        lex.scan rule source = .error ⟨⟨Text.byteLength before, source.utf8ByteSize⟩⟩) := by
  constructor
  · obtain ⟨q, -, un⟩ := exists_uniform one
    rw [scan, scan, segments_uniform un .preferSingle .matchOpening]
  · intro q quote un spared rule
    obtain ⟨ok, even⟩ | ⟨before, after, split, last, odd, error⟩ :=
      scan_paired spared quote un rule
    · exact ⟨iff_of_true ok even, fun odd => absurd even (Nat.not_even_iff_odd.mpr odd)⟩
    · refine ⟨iff_of_false ?_ (Nat.not_even_iff_odd.mpr odd), fun _ => ?_⟩
      · rintro ⟨_, ok⟩
        cases error.symm.trans ok
      · exact ⟨before, after, split, last, error⟩

end Lexicon

/-- A letter of two bytes and three double quotes in the standard lexicon, which has no quotes in
its lexemes; and a single quote that is a lexeme and hence opens no string. -/
theorem threeQuotes_scan_uniform :
    Lexicon.standard.scan .preferSingle "é\"a\"-\"b" =
        Lexicon.standard.scan .matchOpening "é\"a\"-\"b" ∧
      (¬ ∃ tokens, Lexicon.standard.scan .preferSingle "é\"a\"-\"b" = .ok tokens) ∧
      (∃ before after, "é\"a\"-\"b".toList = before ++ '"' :: after ∧ '"' ∉ after ∧
        Lexicon.standard.scan .preferSingle "é\"a\"-\"b" =
          .error ⟨⟨Text.byteLength before, 8⟩⟩) ∧
      ∃ lex : Lexicon, lex.contains "'" ∧
        lex.scan .preferSingle "a'" = lex.scan .matchOpening "a'" := by
  have spared : Lexicon.standard.Spares '"' := by
    have facts : Lexicon.standard.listing.all fun entry => !entry.1.toList.contains '"' := by
      decide +kernel
    intro key listed
    obtain ⟨kind, hk⟩ := Option.isSome_iff_exists.mp listed
    have := List.all_eq_true.mp facts _ (Lexicon.mem_listing_of_kindOf hk)
    simpa using this
  obtain ⟨same, paired⟩ :=
    @Lexicon.scan_uniform Lexicon.standard "é\"a\"-\"b" (by decide)
  obtain ⟨scans, fails⟩ := paired '"' rfl (by simp [Uniform, isQuote]) spared .preferSingle
  have odd : Odd ("é\"a\"-\"b".toList.count '"') := by decide
  refine ⟨same, fun ok => ?_, fails odd, ⟨[("'", ⟨16⟩)], [], none⟩, rfl, ?_⟩
  · exact Nat.not_even_iff_odd.mpr odd (scans.mp ok)
  · exact (Lexicon.scan_uniform (by decide)).1

end FrontEnd
