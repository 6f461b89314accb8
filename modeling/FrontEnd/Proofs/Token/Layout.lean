import FrontEnd.Proofs.Token.Legible
import FrontEnd.Token.Scan

/-!
# Tokens laid out with blanks between them

Texts of tokens are put one behind the other, each after a run of blanks. If every one of them is
legible in front of all that follows it, then a scan gives back exactly these tokens, each at the
bytes where it was put (`Piece.scan_layout`).
-/

namespace FrontEnd

/-- The text of a token with its kind and the blanks in front of it. -/
structure Piece where
  gap : List Char
  kind : TokenKind
  text : List Char

/-- Blanks in front of pieces, and behind the last: none are missing between two pieces. -/
structure Spaced (gaps : List (List Char)) (last : List Char) : Prop where
  blank : ∀ gap ∈ last :: gaps, ∀ c ∈ gap, isBlank c
  apart : ∀ gap ∈ gaps.tail, gap ≠ []

namespace Piece

def segment (x : Piece) : Segment :=
  ⟨some x.kind, x.text⟩

/-- The text of pieces with their blanks. -/
def layout : List Piece → (last : List Char) → List Char
  | [], last => last
  | x :: rest, last => x.gap ++ (x.text ++ layout rest last)

/-- The tokens of pieces that are laid out from a byte on. -/
def tokens : Nat → List Piece → List Token
  | _, [] => []
  | start, x :: rest =>
    let first := start + Text.byteLength x.gap
    let stop := first + Text.byteLength x.text
    ⟨x.kind, String.ofList x.text, ⟨first, stop⟩⟩ :: tokens stop rest

end Piece

/-- The blanks behind the first piece are as they have to be. -/
lemma Spaced.tail {gap gaps last} (sd : Spaced (gap :: gaps) last) : Spaced gaps last := by
  constructor
  · intro g hg
    apply sd.blank
    rcases List.mem_cons.mp hg with rfl | hg
    · simp
    · simp [hg]
  · intro g hg
    exact sd.apart g (List.mem_of_mem_tail hg)

/-- Behind a piece the text is clear. -/
lemma Spaced.clear {gap last} {pieces : List Piece}
    (sd : Spaced (gap :: pieces.map Piece.gap) last) : Clear (Piece.layout pieces last) := by
  intro c hc
  cases pieces with
  | nil => exact sd.blank last (by simp) c (List.mem_of_mem_head? hc)
  | cons x rest =>
    obtain ⟨b, gap', e⟩ := List.exists_cons_of_ne_nil (sd.apart x.gap (by simp))
    rw [Piece.layout, e] at hc
    obtain rfl : b = c := Option.some.inj hc
    exact sd.blank x.gap (by simp) b (by simp [e])

/-! ## Placing segments -/

namespace Segment

/-- Segments that follow others are placed behind their bytes. -/
lemma place_append (start : Nat) (ss ts : List Segment) :
    place start (ss ++ ts) = place start ss ++
      place (start + Text.byteLength (ss.map Segment.text).flatten) ts := by
  induction ss generalizing start with
  | nil => rfl
  | cons s ss ih =>
    rw [List.cons_append, place, place, ih, List.map_cons, List.flatten_cons,
      Text.byteLength_append, List.cons_append, Nat.add_assoc]

end Segment

/-- A run of blanks is read as segments that are dropped. -/
lemma Lexicon.Separable.cuts_gap {lex : Lexicon} (sp : lex.Separable) (rule : QuoteRule) {gap}
    (hb : ∀ c ∈ gap, isBlank c) (rest : List Char) :
    ∃ ss, Cuts lex rule (gap ++ rest) ss rest ∧
      ∀ start, (Segment.place start ss).filterMap lex.token? = [] := by
  induction gap with
  | nil => exact ⟨[], .nil, fun _ => rfl⟩
  | cons c gap ih =>
    obtain ⟨kind, hi, read⟩ := sp.first?_blank rule (hb c (by simp)) (gap ++ rest)
    obtain ⟨ss, ct, dropped⟩ := ih fun d hd => hb d (by simp [hd])
    refine ⟨⟨some kind, [c]⟩ :: ss, .cons read ct, ?_⟩
    intro start
    have blank : lex.token? (⟨some kind, [c]⟩, ⟨start, start + Text.byteLength [c]⟩) = none :=
      if_pos hi
    rw [Segment.place, List.filterMap_cons_none blank, dropped]

/-! ## Scanning what was laid out -/

/-- Pieces that are legible in front of what follows them. -/
inductive Reads (lex : Lexicon) (rule : QuoteRule) : List Piece → List Char → Prop where
  | nil {last} :
    Reads lex rule [] last
  | cons {x rest last} :
    Legible lex rule x.segment (Piece.layout rest last) →
    ¬ lex.isIgnored x.kind →
    Reads lex rule rest last →
    Reads lex rule (x :: rest) last

/-- Pieces that are legible are the segments of their layout, but for blanks, which are dropped. -/
lemma Reads.cuts {lex rule pieces last} (rd : Reads lex rule pieces last) (sp : lex.Separable)
    (sd : Spaced (pieces.map Piece.gap) last) :
    ∃ ss, Cuts lex rule (Piece.layout pieces last) ss [] ∧
      ∀ start, (Segment.place start ss).filterMap lex.token? = Piece.tokens start pieces := by
  induction rd with
  | @nil last =>
    obtain ⟨ss, ct, dropped⟩ := sp.cuts_gap rule (sd.blank last (by simp)) []
    rw [List.append_nil] at ct
    exact ⟨ss, ct, dropped⟩
  | @cons x rest last lg kept _ ih =>
    obtain ⟨ts, cu, placed⟩ := ih sd.tail
    obtain ⟨ss, ct, dropped⟩ := sp.cuts_gap rule (sd.blank x.gap (by simp))
      (x.text ++ Piece.layout rest last)
    have read : Cuts lex rule (x.text ++ Piece.layout rest last) [x.segment] _ :=
      lg.cuts sp sd.clear
    have gap : (ss.map Segment.text).flatten = x.gap := List.append_cancel_right ct.join
    refine ⟨ss ++ ([x.segment] ++ ts), ct.append (read.append cu), ?_⟩
    intro start
    -- The segments of the gap are dropped, but they have moved the token by their bytes.
    have token : lex.token? (x.segment, ⟨start + Text.byteLength x.gap,
        start + Text.byteLength x.gap + Text.byteLength x.text⟩) = some _ := if_neg kept
    rw [Segment.place_append, List.filterMap_append, dropped, gap, List.nil_append,
      List.singleton_append, Segment.place, Piece.tokens, ← placed]
    exact List.filterMap_cons_some token

namespace Piece

/-- A scan of a layout gives the tokens that were laid out. -/
lemma scan_layout {lex : Lexicon} {rule pieces last} (sp : lex.Separable)
    (sd : Spaced (pieces.map gap) last) (rd : Reads lex rule pieces last) :
    lex.scan rule (String.ofList (layout pieces last)) = .ok (tokens 0 pieces) := by
  obtain ⟨ss, ct, placed⟩ := rd.cuts sp sd
  rw [Lexicon.scan, String.toList_ofList, ct.segments_eq, ← placed 0]

end Piece

end FrontEnd
