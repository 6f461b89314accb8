import FrontEnd.Proofs.Text.Slice
import FrontEnd.Proofs.Token.Boundaries
import FrontEnd.Proofs.Token.Layout

/-!
# Texts joined by a blank

In a lexicon whose blank is dropped and part of no other lexeme, a blank ends whatever is read in
front of it, whether or not the text goes on behind it (`Divides.bounds`). So two texts with a blank
between them scan as the one and then the other, if the first scans at all. Only the rule that
prefers single quotes looks beyond the blank for the end of a string, and finds none if the second
text has no single quote.

Main statement: `Lexicon.scan_join`.
-/

namespace FrontEnd

/-- The blank is listed and dropped, and part of no other lexeme. -/
structure Lexicon.Divides (lex : Lexicon) : Prop where
  dropped : ∃ kind, lex.kindOf " " = some kind ∧ lex.isIgnored kind
  alone {key kind} : lex.kindOf key = some kind → ' ' ∈ key.toList → key = " "

namespace Lexicon

/-- A longer text with a blank in it is not listed. -/
lemma Divides.unlisted {lex : Lexicon} (dv : lex.Divides) {text} (hm : ' ' ∈ text)
    (ne : text ≠ [' ']) : lex.kindOf (String.ofList text) = none := by
  cases hk : lex.kindOf (String.ofList text) with
  | none => rfl
  | some kind =>
    have key : String.ofList text = " " := dv.alone hk (by rwa [String.toList_ofList])
    have : text = " ".toList := by rw [← key, String.toList_ofList]
    exact absurd this ne

/-- The blank ends whatever is read in front of it. -/
lemma Divides.bounds {lex : Lexicon} (dv : lex.Divides) : lex.Bounds ' ' :=
  ⟨rfl, rfl, fun ne => dv.unlisted (by simp) (by simpa using ne)⟩

/-- A lexicon that keeps its lexemes apart is divided by the blank. -/
lemma Separable.divides {lex : Lexicon} (sp : lex.Separable) : lex.Divides := by
  refine ⟨sp.blank (c := ' ') rfl, ?_⟩
  intro key kind hk hm
  rw [← key.ofList_toList] at hk ⊢
  rw [(sp.stands hk).eq_singleton hm rfl]

end Lexicon

/-! ## Cuts across a blank -/

/-- The blank between two texts is a segment of its own. -/
lemma Segment.first?_divides {lex : Lexicon} (dv : lex.Divides) (rule : QuoteRule)
    (text : List Char) :
    ∃ kind, lex.isIgnored kind ∧ first? lex rule ' ' text = some (⟨some kind, [' ']⟩, text) := by
  obtain ⟨kind, hk, hi⟩ := dv.dropped
  refine ⟨kind, hi, ?_⟩
  have minus : ¬ (decide (' ' = '-') && startsWithDigit text) := nofun
  rw [first?_eq_sign hk, sign, if_neg minus]
  cases text with
  | nil => rfl
  | cons c text =>
    have unlisted : lex.kindOf (String.ofList ([' '] ++ [c])) = none :=
      dv.unlisted (by simp) (by simp)
    rw [extend, unlisted]

/-- Segments to the end of a text, and a blank behind it, are cut from any text that goes on so. -/
lemma Cuts.across_blank {lex : Lexicon} (dv : lex.Divides) {rule text ss later}
    (ct : Cuts lex rule text ss []) (quotes : rule = .matchOpening ∨ '\'' ∉ later) :
    ∃ kind, lex.isIgnored kind ∧
      Cuts lex rule (text ++ ' ' :: later) (ss ++ [⟨some kind, [' ']⟩]) later := by
  obtain ⟨kind, dropped, blank⟩ := Segment.first?_divides dv rule later
  have quotes : rule = .matchOpening ∨ '\'' ∉ ' ' :: later := by simpa using quotes
  exact ⟨kind, dropped, (ct.before_boundary dv.bounds quotes).append (.cons blank .nil)⟩

/-! ## Places -/

/-- Segments that begin later are placed later by as much. -/
lemma Segment.place_shift (start n : Nat) (ss : List Segment) :
    place (start + n) ss = (place start ss).map fun x => (x.1, x.2.shift n) := by
  induction ss generalizing start with
  | nil => rfl
  | cons s ss ih =>
    rw [place, place, List.map_cons, ← ih, Span.shift, Nat.add_right_comm]

namespace Lexicon

/-- So are their tokens. -/
lemma token?_shift (lex : Lexicon) (x : Segment × Span) (n : Nat) :
    lex.token? (x.1, x.2.shift n) = (lex.token? x).map (·.shift n) := by
  obtain ⟨⟨kind?, text⟩, span⟩ := x
  cases kind? with
  | none => rfl
  | some kind =>
    unfold token?
    dsimp only
    split <;> rfl

/-- Segments that are placed further on are tokens further on. -/
lemma tokens_shift (lex : Lexicon) (n : Nat) (ss : List Segment) :
    (Segment.place n ss).filterMap lex.token? =
      ((Segment.place 0 ss).filterMap lex.token?).map (·.shift n) := by
  have moved := Segment.place_shift 0 n ss
  rw [Nat.zero_add] at moved
  rw [moved, List.filterMap_map, List.map_filterMap]
  congr 1
  funext x
  exact lex.token?_shift x n

/-- The tokens of two runs of segments are those of the first, and those of the second behind it. -/
lemma tokens_append (lex : Lexicon) (ss ts : List Segment) :
    (Segment.place 0 (ss ++ ts)).filterMap lex.token? =
      (Segment.place 0 ss).filterMap lex.token? ++
        ((Segment.place 0 ts).filterMap lex.token?).map
          (·.shift (Text.byteLength (ss.map Segment.text).flatten)) := by
  rw [Segment.place_append, List.filterMap_append, Nat.zero_add,
    lex.tokens_shift (Text.byteLength _)]

/-- The end of a text from an open string is no longer than the text. -/
lemma byteLength_unclosed_le {lex : Lexicon} {rule text unclosed}
    (h : lex.segments rule text = .error unclosed) :
    Text.byteLength unclosed ≤ Text.byteLength text := by
  obtain ⟨_, _, e⟩ | ⟨ss, c, rest, ct, _, e⟩ := lex.segments_cases rule text
  · cases h.symm.trans e
  · cases h.symm.trans e
    rw [← ct.join, Text.byteLength_append]
    exact Nat.le_add_left _ _

/-- A text that scans, a blank and another text scan as the one and then, moved behind the blank,
the other. The standard lexicon has such a blank. -/
theorem scan_join :
    standard.Divides ∧
    ∀ {lex : Lexicon}, lex.Divides → ∀ {rule a b tokens}, lex.scan rule a = .ok tokens →
      (rule = .matchOpening ∨ '\'' ∉ b.toList) →
      lex.scan rule (a ++ " " ++ b) =
        match lex.scan rule b with
        | .ok more => .ok (tokens ++ more.map (·.shift (a.utf8ByteSize + 1)))
        | .error e => .error ⟨e.span.shift (a.utf8ByteSize + 1)⟩ := by
  refine ⟨standard_separable.divides, ?_⟩
  intro lex dv rule a b tokens ok quotes
  obtain ⟨ss, ct, e⟩ | ⟨_, _, _, _, _, e⟩ := lex.segments_cases rule a.toList
  · rw [scan, e] at ok
    cases ok
    obtain ⟨kind, dropped, whole⟩ := ct.across_blank dv quotes
    have source : (a ++ " " ++ b).toList = a.toList ++ ' ' :: b.toList := by
      simp [String.toList_append]
    have taken : (ss.map Segment.text).flatten = a.toList := by rw [← ct.join, List.append_nil]
    rw [scan, source, whole.segments_append, scan]
    cases hb : lex.segments rule b.toList with
    | ok ts =>
      have gap : (Segment.place 0 [⟨some kind, [' ']⟩]).filterMap lex.token? = [] :=
        List.filterMap_cons_none (if_pos dropped)
      dsimp only [Except.map]
      rw [tokens_append, tokens_append lex ss, gap, List.map_nil, List.append_nil, List.map_append,
        List.flatten_append, taken, Text.byteLength_append, Text.byteLength_toList]
      rfl
    | error unclosed =>
      have le := byteLength_unclosed_le hb
      have total : Text.byteLength (a.toList ++ ' ' :: b.toList) =
          Text.byteLength b.toList + (a.utf8ByteSize + 1) := by
        rw [Text.byteLength_append, Text.byteLength_toList, Text.byteLength]
        have : ' '.utf8Size = 1 := rfl
        omega
      dsimp only [Except.map, Span.shift]
      rw [total, Nat.sub_add_comm le]
  · rw [scan, e] at ok
    cases ok

end Lexicon

/-- A string that holds the other quote, in front of a text with a letter of two bytes and a string
of its own; and a string in front of one that is not closed. -/
theorem quoted_scan_join :
    Lexicon.standard.Divides ∧
      Lexicon.standard.scan .matchOpening "x-'\"' é'y'" = .ok
        [⟨.identifier, "x", ⟨0, 1⟩⟩, ⟨⟨30⟩, "-", ⟨1, 2⟩⟩, ⟨.string, "'\"'", ⟨2, 5⟩⟩,
          ⟨.string, "'y'", ⟨8, 11⟩⟩] ∧
      Lexicon.standard.scan .preferSingle "\"b\" c\"" = .error ⟨⟨5, 6⟩⟩ := by
  -- One evaluation for all four scans, since each would build the listing anew.
  have parts : Lexicon.standard.scan .matchOpening "x-'\"'" = .ok
        [⟨.identifier, "x", ⟨0, 1⟩⟩, ⟨⟨30⟩, "-", ⟨1, 2⟩⟩, ⟨.string, "'\"'", ⟨2, 5⟩⟩] ∧
      Lexicon.standard.scan .matchOpening "é'y'" = .ok [⟨.string, "'y'", ⟨2, 5⟩⟩] ∧
      Lexicon.standard.scan .preferSingle "\"b\"" = .ok [⟨.string, "\"b\"", ⟨0, 3⟩⟩] ∧
      Lexicon.standard.scan .preferSingle "c\"" = .error ⟨⟨1, 2⟩⟩ := by
    decide +kernel
  obtain ⟨first, second, closed, unclosed⟩ := parts
  obtain ⟨divides, join⟩ := Lexicon.scan_join
  have matched := join divides (b := "é'y'") first (.inl rfl)
  have preferred := join divides (b := "c\"") closed (.inr (by decide))
  simp only [second] at matched
  simp only [unclosed] at preferred
  exact ⟨divides, matched, preferred⟩

end FrontEnd
