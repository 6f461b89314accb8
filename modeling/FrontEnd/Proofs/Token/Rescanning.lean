import FrontEnd.Proofs.Token.Layout

/-!
# Scanning again

The tokens of a source, laid out anew with blanks between them, scan as the same tokens, whichever
rule closes strings. Under the rule that prefers single quotes a string may end in a double quote,
but only if no single quote is left behind it, and the tokens that come after it bring none.

Main statement: `Lexicon.scan_rescan`.
-/

namespace FrontEnd

open Lexicon (standard)

/-- A token as a piece with blanks in front of it. -/
def Token.after (t : Token) (gap : List Char) : Piece :=
  ⟨gap, t.kind, t.value.toList⟩

/-- A token has the kind and the text of its segment, and its kind is not dropped. -/
lemma Lexicon.segment_of_token? {lex : Lexicon} {x : Segment × Span} {t : Token}
    (h : lex.token? x = some t) (gap : List Char) :
    (t.after gap).segment = x.1 ∧ ¬ lex.isIgnored t.kind := by
  obtain ⟨⟨kind?, text⟩, span⟩ := x
  unfold token? at h
  split at h
  · cases h
  · rename_i kind hk
    split_ifs at h with hi
    cases h
    refine ⟨?_, hi⟩
    rw [Token.after, Piece.segment, String.toList_ofList, ← hk]

/-- The tokens of a part of a text are legible when they are laid out anew, with no quotes that the
part did not have. -/
lemma Cuts.reads {lex : Lexicon} {rule text ss rest} (ct : Cuts lex rule text ss rest) {start : Nat}
    {items : List (List Char × Token)} {last}
    (same : items.map Prod.snd = (Segment.place start ss).filterMap lex.token?)
    (spaced : Spaced (items.map Prod.fst) last) :
    Reads lex rule (items.map fun x => x.2.after x.1) last ∧
      ∀ c ∈ Piece.layout (items.map fun x => x.2.after x.1) last, isQuote c → c ∈ text := by
  induction ct generalizing start items with
  | @nil text =>
    obtain rfl := List.map_eq_nil_iff.mp same
    refine ⟨.nil, ?_⟩
    intro c hc hq
    exact absurd hq (not_of_isBlank (spaced.blank last (by simp) c hc)).2.2.1
  | @cons c text s mid ss rest read _ ih =>
    have joined := Segment.first?_join read
    rw [Segment.place] at same
    cases ht : lex.token? (s, ⟨start, start + Text.byteLength s.text⟩) with
    | none =>
      rw [List.filterMap_cons_none ht] at same
      obtain ⟨rd, quotes⟩ := ih same spaced
      refine ⟨rd, ?_⟩
      intro d hd hq
      rw [← joined]
      exact List.mem_append_right _ (quotes d hd hq)
    | some t =>
      -- Whether a string closes where it did is a matter of the quotes behind it, all of which were
      -- in the text that it was read in front of.
      rw [List.filterMap_cons_some ht] at same
      obtain ⟨⟨gap, _⟩, items, rfl, rfl, others⟩ := List.map_eq_cons_iff.mp same
      obtain ⟨rd, quotes⟩ := ih others spaced.tail
      obtain ⟨rfl, kept⟩ := Lexicon.segment_of_token? ht gap
      refine ⟨.cons (.of_first? read rfl quotes) kept rd, ?_⟩
      intro d hd hq
      rw [← joined]
      rcases List.mem_append.mp hd with hd | hd
      · exact absurd hq (not_of_isBlank (spaced.blank gap (by simp) d hd)).2.2.1
      · rcases List.mem_append.mp hd with hd | hd
        · exact List.mem_append_left _ hd
        · exact List.mem_append_right _ (quotes d hd hq)

/-- The tokens of a layout have the kinds and the texts of the pieces. -/
lemma Piece.map_tokens (start : Nat) (pieces : List Piece) :
    (tokens start pieces).map (fun t => (t.kind, t.value)) =
      pieces.map fun x => (x.kind, String.ofList x.text) := by
  induction pieces generalizing start with
  | nil => rfl
  | cons x pieces ih => rw [tokens, List.map_cons, List.map_cons, ih]

/-- The tokens of a source, laid out with blanks between them, scan as the same kinds and texts. -/
theorem Lexicon.scan_rescan {rule : QuoteRule} {source : String} {tokens : List Token}
    (ok : standard.scan rule source = .ok tokens) {items : List (List Char × Token)}
    {last : List Char} (same : items.map Prod.snd = tokens)
    (spaced : Spaced (items.map Prod.fst) last) :
    ∃ again, standard.scan rule
        (String.ofList (Piece.layout (items.map fun x => x.2.after x.1) last)) = .ok again ∧
      again.map (fun t => (t.kind, t.value)) = tokens.map fun t => (t.kind, t.value) := by
  obtain ⟨ss, ct, e⟩ | ⟨_, c, rest, _, _, e⟩ := standard.segments_cases rule source.toList
  · rw [scan, e] at ok
    obtain rfl := Except.ok.inj ok
    obtain ⟨rd, -⟩ := ct.reads same spaced
    refine ⟨_, Piece.scan_layout standard_separable (by rwa [List.map_map]) rd, ?_⟩
    rw [Piece.map_tokens, List.map_map, ← same, List.map_map]
    apply List.map_congr_left
    intro x _
    simp [Token.after]
  · rw [scan, e] at ok
    cases ok

/-- The string that opens with a double quote closes on the first single one, and the last string,
which opens with a single quote, on a double one. The mark between the last two tokens is lost. -/
theorem mixedQuotes_scan_rescan :
    standard.scan .preferSingle "\"a 'b'\"#->-1" = .ok
        [⟨.string, "\"a '", ⟨0, 4⟩⟩, ⟨.identifier, "b", ⟨4, 5⟩⟩, ⟨.string, "'\"", ⟨5, 7⟩⟩,
          ⟨⟨56⟩, "->", ⟨8, 10⟩⟩, ⟨.number, "-1", ⟨10, 12⟩⟩] ∧
      Spaced [[], [' '], ['\t'], ['\n', ' '], ['\r']] [] ∧
      ∃ again, standard.scan .preferSingle "\"a ' b\t'\"\n ->\r-1" = .ok again ∧
        again.map (fun t => (t.kind, t.value)) =
          [(.string, "\"a '"), (.identifier, "b"), (.string, "'\""), (⟨56⟩, "->"),
            (.number, "-1")] := by
  let tokens : List Token :=
    [⟨.string, "\"a '", ⟨0, 4⟩⟩, ⟨.identifier, "b", ⟨4, 5⟩⟩, ⟨.string, "'\"", ⟨5, 7⟩⟩,
      ⟨⟨56⟩, "->", ⟨8, 10⟩⟩, ⟨.number, "-1", ⟨10, 12⟩⟩]
  let items := [[], [' '], ['\t'], ['\n', ' '], ['\r']].zip tokens
  have ok : standard.scan .preferSingle "\"a 'b'\"#->-1" = .ok tokens := by decide +kernel
  have spaced : Spaced (items.map Prod.fst) [] := ⟨by simp [items, tokens, isBlank], by decide⟩
  have source : "\"a ' b\t'\"\n ->\r-1" =
      String.ofList (Piece.layout (items.map fun x => x.2.after x.1) []) := by decide +kernel
  refine ⟨ok, spaced, ?_⟩
  rw [source]
  exact Lexicon.scan_rescan ok rfl spaced

end FrontEnd
