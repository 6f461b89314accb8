import FrontEnd.Proofs.Token.Cursor

/-!
# Tokens tile their source

The segments of a source, put one behind the other, cover its bytes without gap or overlap. Each of
them begins and ends at a boundary of characters, and is one skipped character or one token. Reading
the source by bytes finds these tokens without ever taking a slice that does not exist.

Main statement: `Lexicon.scan_tiles`.
-/

namespace FrontEnd

/-- Placed segments lie one behind the other from a byte of a source to another. Each is the slice
of the source at its place, and one skipped character unless it is a token. -/
inductive Tiles (lex : Lexicon) (source : String) :
    Nat → List (Segment × Span) → Nat → Prop where
  | nil {start} :
    Tiles lex source start [] start
  | cons {start stop finish s rest} :
    start < stop →
    Span.slice? ⟨start, stop⟩ source = some (String.ofList s.text) →
    (s.kind? = none → ∃ c, s.text = [c] ∧ lex.Skips c) →
    Tiles lex source stop rest finish →
    Tiles lex source start ((s, ⟨start, stop⟩) :: rest) finish

namespace Tiles

/-- Tiles do not end before they begin. -/
lemma le {lex source start placed finish} (tl : Tiles lex source start placed finish) :
    start ≤ finish := by
  induction tl with
  | nil => exact Nat.le_refl _
  | cons lt _ _ _ ih => exact Nat.le_trans (Nat.le_of_lt lt) ih

/-- Every tile lies between the two ends, and is a slice of the source that is not empty. -/
lemma within {lex source start placed finish} (tl : Tiles lex source start placed finish) {x}
    (hx : x ∈ placed) :
    start ≤ x.2.start ∧ x.2.start < x.2.stop ∧ x.2.stop ≤ finish ∧
      x.2.slice? source = some (String.ofList x.1.text) := by
  induction tl with
  | nil => cases hx
  | cons lt hs _ tl ih =>
    cases hx with
    | head => exact ⟨Nat.le_refl _, lt, tl.le, hs⟩
    | tail _ hx =>
      obtain ⟨le, inside⟩ := ih hx
      exact ⟨Nat.le_trans (Nat.le_of_lt lt) le, inside⟩

/-- A tile stops before the later ones start. -/
lemma ordered {lex source start placed finish} (tl : Tiles lex source start placed finish) :
    placed.Pairwise fun x y => x.2.stop ≤ y.2.start := by
  induction tl with
  | nil => exact .nil
  | cons _ _ _ tl ih => exact .cons (fun x hx => (tl.within hx).1) ih

end Tiles

/-- Placing segments keeps their texts. -/
lemma Segment.map_text_place (start : Nat) (ss : List Segment) :
    (Segment.place start ss).map (fun x => x.1.text) = ss.map Segment.text := by
  induction ss generalizing start with
  | nil => rfl
  | cons s ss ih => rw [Segment.place, List.map_cons, List.map_cons, ih]

/-- The segments that a part of a source begins with tile it from where it starts. -/
lemma Cuts.tiles {lex rule text ss rest} (ct : Cuts lex rule text ss rest) {source : String}
    {before : List Char} (h : source.toList = before ++ text) :
    Tiles lex source (Text.byteLength before) (Segment.place (Text.byteLength before) ss)
      (Text.byteLength (before ++ (ss.map Segment.text).flatten)) := by
  -- Each segment moves from the text to what stands before it, so the places stay aligned.
  induction ct generalizing before with
  | nil =>
    rw [List.map_nil, List.flatten_nil, List.append_nil]
    exact .nil
  | @cons c text s mid ss rest hf ct ih =>
    have hm : source.toList = before ++ s.text ++ mid := by
      rw [h, List.append_assoc, Segment.first?_join hf]
    have hn : 0 < Text.byteLength s.text := by
      obtain ⟨d, tail, e⟩ := List.exists_cons_of_ne_nil (Segment.first?_text_ne_nil hf)
      rw [e, Text.byteLength]
      exact Nat.add_pos_left d.utf8Size_pos _
    rw [Segment.place, ← Text.byteLength_append, List.map_cons, List.flatten_cons,
      ← List.append_assoc]
    refine .cons ?_ (Span.slice?_part hm) ?_ (ih hm)
    · rw [Text.byteLength_append]
      exact Nat.lt_add_of_pos_right hn
    · intro hk
      obtain ⟨kind, e⟩ | ⟨rfl, _, skipped⟩ := Segment.first?_cases hf
      · cases hk.symm.trans e
      · exact ⟨c, rfl, skipped⟩

namespace Lexicon

/-- The token that a placed segment is has its text and place. -/
lemma of_token?_eq_some {lex : Lexicon} {x : Segment × Span} {t : Token}
    (h : lex.token? x = some t) : t.value = String.ofList x.1.text ∧ t.span = x.2 := by
  unfold token? at h
  split at h
  · cases h
  · split_ifs at h
    cases h
    exact ⟨rfl, rfl⟩

/-- The tokens among placed segments are those with a kind that is not dropped. -/
lemma map_filterMap_token? (lex : Lexicon) (placed : List (Segment × Span)) :
    (placed.filterMap lex.token?).map (fun t => (t.kind, t.span)) =
      (placed.filterMap fun x => x.1.kind?.map (·, x.2)).filter fun x => !lex.isIgnored x.1 := by
  induction placed with
  | nil => rfl
  | cons x placed ih =>
    obtain ⟨⟨kind?, text⟩, span⟩ := x
    cases kind? with
    | none => exact ih
    | some kind =>
      by_cases hi : lex.isIgnored kind
      · have dropped : lex.token? (⟨some kind, text⟩, span) = none := if_pos hi
        rw [List.filterMap_cons_none dropped, ih]
        simp [hi]
      · have kept : lex.token? (⟨some kind, text⟩, span) =
            some ⟨kind, String.ofList text, span⟩ := if_neg hi
        rw [List.filterMap_cons_some kept, List.map_cons, ih]
        simp [hi]

/-- The tokens among tiles are slices of the source, in order. -/
lemma tokens_of_tiles {lex : Lexicon} {source start placed finish}
    (tl : Tiles lex source start placed finish) :
    (∀ t ∈ placed.filterMap lex.token?, t.span.start < t.span.stop ∧
      t.span.slice? source = some t.value) ∧
    (placed.filterMap lex.token?).Pairwise fun t u =>
      t.span.start < u.span.start ∧ t.span.stop ≤ u.span.start := by
  constructor
  · intro t ht
    obtain ⟨x, hx, e⟩ := List.mem_filterMap.mp ht
    obtain ⟨ev, es⟩ := of_token?_eq_some e
    obtain ⟨-, lt, -, hs⟩ := tl.within hx
    rw [es, ev]
    exact ⟨lt, hs⟩
  · rw [List.pairwise_filterMap]
    refine tl.ordered.imp_of_mem fun {x y} hx _ le t et u eu => ?_
    obtain ⟨-, lt, -, -⟩ := tl.within hx
    rw [(of_token?_eq_some et).2, (of_token?_eq_some eu).2]
    exact ⟨Nat.lt_of_lt_of_le lt le, le⟩

/-- The text of a token of a scan is what its span covers. -/
lemma slice?_of_scan {lex : Lexicon} {rule source tokens} (ok : lex.scan rule source = .ok tokens)
    {t} (ht : t ∈ tokens) : t.span.slice? source = some t.value := by
  obtain ⟨ss, ct, e⟩ | ⟨_, _, _, _, _, e⟩ := lex.segments_cases rule source.toList
  · rw [scan, e] at ok
    cases ok
    have tl := ct.tiles (List.nil_append source.toList).symm
    exact ((tokens_of_tiles tl).1 t ht).2
  · rw [scan, e] at ok
    cases ok

/-- Reading a source by bytes takes no slice outside of it or inside a character, comes to an end,
and gives what a scan gives. A scan covers its source with tiles, and gives those that are tokens of
a kind that is not dropped, or else covers it up to the quote of a string that is not closed. -/
theorem scan_tiles (lex : Lexicon) (rule : QuoteRule) (source : String) :
    lex.scan? rule source = some (lex.scan rule source) ∧
    ((∃ tokens placed, lex.scan rule source = .ok tokens ∧
      Tiles lex source 0 placed source.utf8ByteSize ∧
      (placed.map fun x => x.1.text).flatten = source.toList ∧
      tokens.map (fun t => (t.kind, t.span)) =
        (placed.filterMap fun x => x.1.kind?.map (·, x.2)).filter (fun x => !lex.isIgnored x.1) ∧
      (∀ t ∈ tokens, t.span.start < t.span.stop ∧ t.span.slice? source = some t.value) ∧
      tokens.Pairwise fun t u => t.span.start < u.span.start ∧ t.span.stop ≤ u.span.start) ∨
    ∃ e placed c rest, lex.scan rule source = .error e ∧
      Tiles lex source 0 placed e.span.start ∧ e.span.stop = source.utf8ByteSize ∧
      isQuote c ∧ e.span.slice? source = some (String.ofList (c :: rest))) := by
  refine ⟨lex.scan?_eq rule source, ?_⟩
  obtain ⟨ss, ct, e⟩ | ⟨ss, c, rest, ct, hn, e⟩ := lex.segments_cases rule source.toList
  · left
    have hj : (ss.map Segment.text).flatten = source.toList := by
      rw [← ct.join, List.append_nil]
    have tl := ct.tiles (List.nil_append source.toList).symm
    rw [hj, List.nil_append, Text.byteLength_toList] at tl
    obtain ⟨slices, ordered⟩ := tokens_of_tiles tl
    refine ⟨_, Segment.place 0 ss, by rw [scan, e], tl, ?_, map_filterMap_token? lex _, slices,
      ordered⟩
    rw [Segment.map_text_place, hj]
  · right
    let taken := (ss.map Segment.text).flatten
    have hj : source.toList = taken ++ (c :: rest) := ct.join.symm
    have tl : Tiles lex source 0 (Segment.place 0 ss) (Text.byteLength taken) :=
      ct.tiles (List.nil_append source.toList).symm
    have hs : lex.scan rule source =
        .error ⟨Text.byteLength taken, Text.byteLength source.toList⟩ := by
      rw [scan, e]
      simp only [hj, Text.byteLength_append, Nat.add_sub_cancel]
    refine ⟨_, Segment.place 0 ss, c, rest, hs, tl, Text.byteLength_toList source,
      Segment.isQuote_of_first?_eq_none hn, ?_⟩
    have part := Span.slice?_part (hj.trans (List.append_nil _).symm)
    rwa [← hj] at part

end Lexicon

end FrontEnd
