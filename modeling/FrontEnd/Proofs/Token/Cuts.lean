import FrontEnd.Segment
import Mathlib.Tactic.Common

/-!
# Cutting a text

The relation `Cuts` between a text, segments that it begins with and the text after them. The
segments of a text cut it to its end, or up to a string that is not closed
(`Lexicon.segments_cases`). Two ways to read that agree on each first segment agree on all of them
(`Lexicon.segments_congr`).
-/

namespace FrontEnd

/-- A character that belongs to no token when it is the next one. -/
def Lexicon.Skips (lex : Lexicon) (c : Char) : Prop :=
  lex.kindOf (String.singleton c) = none ∧ ¬ c.isDigit ∧ ¬ c.isAlpha ∧ ¬ isQuote c

/-- A lexeme without a kind is not listed. -/
lemma Lexicon.not_contains {lex : Lexicon} {lexeme : String} (h : lex.kindOf lexeme = none) :
    ¬ lex.contains lexeme := by
  rw [Lexicon.contains, h]
  exact Bool.false_ne_true

namespace Segment

/-- A sign that is extended has a kind. -/
lemma isSome_kind?_extend (lex : Lexicon) (kind : TokenKind) (lexeme text : List Char) :
    (extend lex kind lexeme text).1.kind?.isSome := by
  induction text generalizing kind lexeme with
  | nil => rfl
  | cons c text ih =>
    unfold extend
    split
    · exact ih _ _
    · rfl

/-- A sign has a kind. -/
lemma isSome_kind?_sign (lex : Lexicon) (kind : TokenKind) (c : Char) (text : List Char) :
    (sign lex kind c text).1.kind?.isSome := by
  unfold sign
  split
  · rfl
  · exact isSome_kind?_extend lex kind [c] text

/-- The first segment of a text is a token, or one character that is skipped. -/
lemma first?_cases {lex rule c text s rest} (h : first? lex rule c text = some (s, rest)) :
    (∃ kind, s.kind? = some kind) ∨ s = ⟨none, [c]⟩ ∧ rest = text ∧ lex.Skips c := by
  unfold first? at h
  split at h
  · left
    obtain rfl : (sign lex _ c text).1 = s := congrArg Prod.fst (Option.some.inj h)
    exact Option.isSome_iff_exists.mp (isSome_kind?_sign lex _ c text)
  · rename_i unlisted
    split_ifs at h with digit alpha quote
    · cases h
      exact .inl ⟨_, rfl⟩
    · cases h
      exact .inl ⟨_, rfl⟩
    · left
      unfold string? at h
      split at h
      · cases h
      · cases h
        exact ⟨_, rfl⟩
    · cases h
      exact .inr ⟨rfl, rfl, unlisted, digit, alpha, quote⟩

/-- There is no first segment only at a quote. -/
lemma isQuote_of_first?_eq_none {lex rule c text} (h : first? lex rule c text = none) :
    isQuote c := by
  unfold first? at h
  split at h
  · cases h
  · split_ifs at h with _ _ quote
    exact quote

end Segment

/-- A text begins with segments, each the first one of what is left, and goes on with a rest. -/
inductive Cuts (lex : Lexicon) (rule : QuoteRule) :
    List Char → List Segment → List Char → Prop where
  | nil {text} :
    Cuts lex rule text [] text
  | cons {c text s mid ss rest} :
    Segment.first? lex rule c text = some (s, mid) →
    Cuts lex rule mid ss rest →
    Cuts lex rule (c :: text) (s :: ss) rest

/-- The segments that a text begins with and the rest join to the text. -/
lemma Cuts.join {lex rule text ss rest} (ct : Cuts lex rule text ss rest) :
    (ss.map Segment.text).flatten ++ rest = text := by
  induction ct with
  | nil => rfl
  | cons h _ ih =>
    rw [List.map_cons, List.flatten_cons, List.append_assoc, ih]
    exact Segment.first?_join h

/-- What is left is the end of the text. -/
lemma Cuts.suffix {lex rule text ss rest} (ct : Cuts lex rule text ss rest) : rest <:+ text :=
  ⟨_, ct.join⟩

/-- Cuts compose at the text between them. -/
lemma Cuts.append {lex rule text mid rest ss ts} (ct : Cuts lex rule text ss mid)
    (cu : Cuts lex rule mid ts rest) : Cuts lex rule text (ss ++ ts) rest := by
  induction ct with
  | nil => exact cu
  | cons h _ ih => exact .cons h (ih cu)

/-- The segments of a text are those it begins with and those of the rest. -/
lemma Cuts.segments_append {lex : Lexicon} {rule text ss rest} (ct : Cuts lex rule text ss rest) :
    lex.segments rule text = (lex.segments rule rest).map (ss ++ ·) := by
  induction ct with
  | @nil text => cases lex.segments rule text <;> rfl
  | @cons c text s mid ss rest read _ ih =>
    rw [Lexicon.segments]
    split
    · rename_i hn
      cases hn.symm.trans read
    · rename_i s' mid' hs
      cases hs.symm.trans read
      rw [ih]
      cases lex.segments rule rest <;> rfl

/-- A text that is cut to its end has these segments. -/
lemma Cuts.segments_eq {lex : Lexicon} {rule text ss} (ct : Cuts lex rule text ss []) :
    lex.segments rule text = .ok ss := by
  rw [ct.segments_append, Lexicon.segments, Except.map, List.append_nil]

/-- A text has segments to its end, or up to a string that is not closed. -/
lemma Lexicon.segments_cases (lex : Lexicon) (rule : QuoteRule) (text : List Char) :
    (∃ ss, Cuts lex rule text ss [] ∧ lex.segments rule text = .ok ss) ∨
      ∃ ss c rest, Cuts lex rule text ss (c :: rest) ∧ Segment.first? lex rule c rest = none ∧
        lex.segments rule text = .error (c :: rest) := by
  fun_induction segments lex rule text with
  | case1 => exact .inl ⟨[], .nil, rfl⟩
  | case2 c text hn => exact .inr ⟨[], c, text, .nil, hn, rfl⟩
  | case3 c text s mid hf _ unclosed hu ih =>
    obtain ⟨_, _, e⟩ | ⟨ss, d, rest, ct, hn, e⟩ := ih
    · cases hu.symm.trans e
    · cases hu.symm.trans e
      exact .inr ⟨s :: ss, d, rest, .cons hf ct, hn, rfl⟩
  | case4 c text s mid hf _ ss hs ih =>
    obtain ⟨_, ct, e⟩ | ⟨_, _, _, _, _, e⟩ := ih
    · cases hs.symm.trans e
      exact .inl ⟨s :: ss, .cons hf ct, rfl⟩
    · cases hs.symm.trans e

/-- A text that begins with a string that is not closed has no segments. -/
lemma Lexicon.segments_of_unclosed {lex : Lexicon} {rule c text}
    (h : Segment.first? lex rule c text = none) :
    lex.segments rule (c :: text) = .error (c :: text) := by
  rw [segments]
  split
  · rfl
  · rename_i hs
    cases h.symm.trans hs

/-- Two ways to read are alike on a text if they are on everything that may be left of it. -/
lemma Cuts.congr {lex other : Lexicon} {rule otherRule} {p : List Char → Prop}
    (left : ∀ {text rest}, p text → rest <:+ text → p rest)
    (alike : ∀ {c text}, p (c :: text) →
      Segment.first? lex rule c text = Segment.first? other otherRule c text)
    {text ss rest} (ct : Cuts lex rule text ss rest) (h : p text) :
    Cuts other otherRule text ss rest := by
  induction ct with
  | nil => exact .nil
  | @cons c text s mid ss rest read _ ih =>
    have behind : mid <:+ c :: text := ⟨s.text, Segment.first?_join read⟩
    rw [alike h] at read
    exact .cons read (ih (left h behind))

/-- Two lexicons whose first segments are the same, here and in all that is left, cut a text into
the same segments. -/
lemma Lexicon.segments_congr {lex other : Lexicon} {rule otherRule} {p : List Char → Prop}
    (left : ∀ {text rest}, p text → rest <:+ text → p rest)
    (alike : ∀ {c text}, p (c :: text) →
      Segment.first? lex rule c text = Segment.first? other otherRule c text)
    {text} (h : p text) : lex.segments rule text = other.segments otherRule text := by
  obtain ⟨ss, ct, e⟩ | ⟨ss, c, rest, ct, hn, e⟩ := lex.segments_cases rule text
  · rw [e, (ct.congr left alike h).segments_eq]
  · rw [alike (left h ct.suffix)] at hn
    rw [e, (ct.congr left alike h).segments_append, segments_of_unclosed hn]
    rfl

end FrontEnd
