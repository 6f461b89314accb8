import FrontEnd.Proofs.Token.Legible

/-!
# Where a text may end

A segment depends on the text up to its end and on little behind it. It is the same if the text ends
anywhere behind it (`Segment.first?_of_append`). It is also the same if a text that ended goes on
instead, with a character that no word, number or lexeme goes on with (`Segment.first?_append`).
Only the rule that prefers single quotes looks further, for the end of a string.
-/

namespace FrontEnd

/-- A character that no word, number or lexeme goes on with. -/
structure Lexicon.Bounds (lex : Lexicon) (d : Char) : Prop where
  word : isWordChar d = false
  number : isNumberChar d = false
  unlisted {lexeme} : lexeme ≠ [] → lex.kindOf (String.ofList (lexeme ++ [d])) = none

/-! ## Texts that end -/

namespace Segment

/-- A run of characters of a class that ends in front of `tail` ends there without it. -/
lemma span_of_append {p : Char → Bool} {text tail rest : List Char}
    (h : (text ++ tail).dropWhile p = rest ++ tail) :
    (text ++ tail).takeWhile p = text.takeWhile p ∧ text.dropWhile p = rest := by
  induction text with
  | nil =>
    have joined := List.takeWhile_append_dropWhile (p := p) (l := tail)
    rw [List.nil_append] at h
    rw [h, ← List.append_assoc, List.append_left_eq_self] at joined
    obtain ⟨taken, rfl⟩ := List.append_eq_nil_iff.mp joined
    exact ⟨taken, rfl⟩
  | cons c text ih =>
    by_cases hc : p c
    · rw [List.cons_append, List.dropWhile_cons_of_pos hc] at h
      obtain ⟨taken, dropped⟩ := ih h
      rw [List.cons_append, List.takeWhile_cons_of_pos hc, List.takeWhile_cons_of_pos hc,
        List.dropWhile_cons_of_pos hc, taken]
      exact ⟨rfl, dropped⟩
    · rw [List.cons_append, List.dropWhile_cons_of_neg hc, ← List.cons_append] at h
      rw [List.cons_append, List.takeWhile_cons_of_neg hc, List.takeWhile_cons_of_neg hc,
        List.dropWhile_cons_of_neg hc]
      exact ⟨rfl, List.append_cancel_right h⟩

/-- A number that ends before the end of a text does not depend on the text's tail. -/
lemma number_of_append {start text tail s rest}
    (h : number start (text ++ tail) = (s, rest ++ tail)) : number start text = (s, rest) := by
  obtain ⟨read, left⟩ := Prod.mk.inj h
  obtain ⟨taken, dropped⟩ := span_of_append left
  rw [number, ← taken, read, dropped]

/-- Nor does such a word. -/
lemma word_of_append {lex : Lexicon} {c text tail s rest}
    (h : word lex c (text ++ tail) = (s, rest ++ tail)) : word lex c text = (s, rest) := by
  obtain ⟨read, left⟩ := Prod.mk.inj h
  obtain ⟨taken, dropped⟩ := span_of_append left
  rw [word, ← taken, read, dropped]

/-- A sign starts with the lexeme it is extended from. -/
lemma prefix_extend (lex : Lexicon) (kind : TokenKind) (lexeme text : List Char) :
    lexeme <+: (extend lex kind lexeme text).1.text := by
  induction text generalizing kind lexeme with
  | nil => exact List.prefix_rfl
  | cons c text ih =>
    unfold extend
    split
    · exact (List.prefix_append lexeme [c]).trans (ih _ _)
    · exact List.prefix_rfl

/-- Nor does a lexeme that is extended so far. -/
lemma extend_of_append {lex : Lexicon} {kind lexeme text tail s rest}
    (h : extend lex kind lexeme (text ++ tail) = (s, rest ++ tail)) :
    extend lex kind lexeme text = (s, rest) := by
  induction text generalizing kind lexeme with
  | nil =>
    rw [List.nil_append] at h
    cases tail with
    | nil => rwa [List.append_nil] at h
    | cons d tail =>
      rw [extend] at h
      cases hd : lex.kindOf (String.ofList (lexeme ++ [d])) with
      | none =>
        rw [hd] at h
        obtain ⟨rfl, left⟩ := Prod.mk.inj h
        rw [List.self_eq_append_left.mp left, extend]
      | some longer =>
        -- The sign would have taken a character of the tail, which is all left.
        rw [hd] at h
        dsimp only at h
        have begins := (prefix_extend lex longer (lexeme ++ [d]) tail).length_le
        have joined := congrArg List.length (extend_join lex longer (lexeme ++ [d]) tail)
        rw [h] at begins joined
        simp only [List.length_append, List.length_cons] at begins joined
        omega
  | cons c text ih =>
    rw [List.cons_append, extend] at h
    rw [extend]
    cases hc : lex.kindOf (String.ofList (lexeme ++ [c])) with
    | some longer =>
      rw [hc] at h
      exact ih h
    | none =>
      rw [hc] at h
      obtain ⟨rfl, left⟩ := Prod.mk.inj h
      rw [← List.cons_append] at left
      rw [List.append_cancel_right left]

/-- Nor does such a sign. -/
lemma sign_of_append {lex : Lexicon} {kind c text tail s rest}
    (h : sign lex kind c (text ++ tail) = (s, rest ++ tail)) :
    sign lex kind c text = (s, rest) := by
  unfold sign at h ⊢
  cases text with
  | cons d text =>
    have digit : startsWithDigit (d :: text ++ tail) = startsWithDigit (d :: text) := rfl
    rw [digit] at h
    split_ifs at h ⊢
    · exact number_of_append h
    · exact extend_of_append h
  | nil =>
    split at h
    · -- The digit behind the minus would be both in the number and in the tail.
      rename_i negative
      rw [Bool.and_eq_true] at negative
      have taken := (span_of_append (congrArg Prod.snd h)).1
      cases tail with
      | nil => cases negative.2
      | cons d tail =>
        have goesOn : isNumberChar d := by simp [isNumberChar, show d.isDigit from negative.2]
        rw [List.nil_append, List.takeWhile_cons_of_pos goesOn] at taken
        cases taken
    · have positive : ¬ (decide (c = '-') && startsWithDigit []) := by simp [startsWithDigit]
      rw [if_neg positive]
      exact extend_of_append h

/-- Nor does such a string. -/
lemma string?_of_append {rule c text tail s rest}
    (h : string? rule c (text ++ tail) = some (s, rest ++ tail)) :
    string? rule c text = some (s, rest) := by
  obtain ⟨inside, q, e, fresh, closes, rfl⟩ := string?_eq_some_iff.mp h
  rw [← List.cons_append, ← List.append_assoc] at e
  obtain rfl := List.append_cancel_right e
  refine string?_eq_some_iff.mpr ⟨inside, q, rfl, fresh, ?_, rfl⟩
  rw [List.append_assoc] at closes
  exact QuoteRule.closing?_later closes fun d hd _ => List.mem_append_left _ hd

/-- The first segment is the same if the text ends anywhere behind it. -/
lemma first?_of_append {lex : Lexicon} {rule c text tail s rest}
    (h : first? lex rule c (text ++ tail) = some (s, rest ++ tail)) :
    first? lex rule c text = some (s, rest) := by
  unfold first? at h ⊢
  split at h
  · rw [sign_of_append (Option.some.inj h)]
  · split_ifs at h ⊢
    · rw [number_of_append (Option.some.inj h)]
    · rw [word_of_append (Option.some.inj h)]
    · exact string?_of_append h
    · obtain ⟨rfl, left⟩ := Prod.mk.inj (Option.some.inj h)
      rw [List.append_cancel_right left]

end Segment

/-- Segments are cut as well if the text ends anywhere behind them. -/
lemma Cuts.of_append {lex rule text tail ss rest}
    (ct : Cuts lex rule (text ++ tail) ss (rest ++ tail)) : Cuts lex rule text ss rest := by
  generalize whole_eq : text ++ tail = whole at ct
  generalize stop_eq : rest ++ tail = stop at ct
  induction ct generalizing text with
  | nil =>
    rw [← stop_eq] at whole_eq
    rw [List.append_cancel_right whole_eq]
    exact .nil
  | @cons c later s mid ss stop read ct ih =>
    -- All that is left behind the first segment ends with the tail.
    have left : (ss.map Segment.text).flatten ++ rest ++ tail = mid := by
      rw [List.append_assoc, stop_eq, ct.join]
    rw [← left] at read
    cases text with
    | nil =>
      have short := Segment.length_first?_lt read
      rw [← whole_eq] at short
      simp only [List.length_append, List.length_nil] at short
      omega
    | cons d text =>
      obtain ⟨rfl, rfl⟩ := List.cons_eq_cons.mp whole_eq
      exact .cons (Segment.first?_of_append read) (ih left stop_eq)

/-! ## Texts that go on -/

namespace Segment

variable {d : Char}

/-- Characters of a class end at one that is not in it. -/
lemma span_append {p : Char → Bool} (hd : p d = false) (text later : List Char) :
    (text ++ d :: later).takeWhile p = text.takeWhile p ∧
      (text ++ d :: later).dropWhile p = text.dropWhile p ++ d :: later := by
  induction text with
  | nil => simp [hd]
  | cons c text ih =>
    by_cases hc : p c
    · simpa [hc] using ih
    · simp [hc]

/-- A number ends in front of a character that it cannot have. -/
lemma number_append (hd : isNumberChar d = false) (start text later : List Char) :
    number start (text ++ d :: later) =
      ((number start text).1, (number start text).2 ++ d :: later) := by
  obtain ⟨taken, dropped⟩ := span_append hd text later
  rw [number, taken, dropped, number]

/-- A word ends in front of a character that it cannot have. -/
lemma word_append (hd : isWordChar d = false) (lex : Lexicon) (c : Char) (text later : List Char) :
    word lex c (text ++ d :: later) =
      ((word lex c text).1, (word lex c text).2 ++ d :: later) := by
  obtain ⟨taken, dropped⟩ := span_append hd text later
  rw [word, taken, dropped, word]

/-- A sign is not extended by a character that bounds it. -/
lemma extend_append {lex : Lexicon} (bd : lex.Bounds d) (kind : TokenKind) {lexeme : List Char}
    (ne : lexeme ≠ []) (text later : List Char) :
    extend lex kind lexeme (text ++ d :: later) =
      ((extend lex kind lexeme text).1, (extend lex kind lexeme text).2 ++ d :: later) := by
  induction text generalizing kind lexeme with
  | nil => rw [List.nil_append, extend.eq_2, bd.unlisted ne, extend.eq_1, List.nil_append]
  | cons c text ih =>
    rw [List.cons_append, extend, extend]
    cases lex.kindOf (String.ofList (lexeme ++ [c])) with
    | some longer => exact ih longer (by simp)
    | none => rfl

/-- A sign ends in front of a character that bounds it. -/
lemma sign_append {lex : Lexicon} (bd : lex.Bounds d) (kind : TokenKind) (c : Char)
    (text later : List Char) :
    sign lex kind c (text ++ d :: later) =
      ((sign lex kind c text).1, (sign lex kind c text).2 ++ d :: later) := by
  have digit : startsWithDigit (text ++ d :: later) = startsWithDigit text := by
    cases text with
    | nil =>
      have none := bd.number
      rw [isNumberChar, Bool.or_eq_false_iff] at none
      exact none.1
    | cons => rfl
  rw [sign, digit, sign]
  split
  · exact number_append bd.number [c] text later
  · exact extend_append bd kind (by simp) text later

end Segment

/-- A string that is closed closes there whatever comes behind it, but for a single quote where the
rule prefers one. -/
lemma QuoteRule.closing?_append {rule : QuoteRule} {c q text tail}
    (quotes : rule = .matchOpening ∨ '\'' ∉ tail) (h : rule.closing? c text = some q) :
    rule.closing? c (text ++ tail) = some q := by
  cases rule with
  | matchOpening =>
    rw [closing?] at h ⊢
    split_ifs at h with opening
    cases h
    rw [List.contains_iff_mem] at opening
    simp [opening]
  | preferSingle =>
    have none : '\'' ∉ tail := by simpa using quotes
    rw [closing?] at h ⊢
    split_ifs at h with single double
    · cases h
      rw [List.contains_iff_mem] at single
      simp [single]
    · cases h
      rw [List.contains_iff_mem] at single double
      simp [single, double, none]

namespace Segment

/-- A string that is closed stays as it is when text follows, unless a quote there would change how
it closes. -/
lemma string?_append {rule c text s rest tail} (quotes : rule = .matchOpening ∨ '\'' ∉ tail)
    (h : string? rule c text = some (s, rest)) :
    string? rule c (text ++ tail) = some (s, rest ++ tail) := by
  obtain ⟨inside, q, rfl, fresh, closes, rfl⟩ := string?_eq_some_iff.mp h
  exact string?_eq_some_iff.mpr
    ⟨inside, q, List.append_assoc _ _ _, fresh, QuoteRule.closing?_append quotes closes, rfl⟩

/-- The first segment in front of a boundary is the same if the text goes on with the boundary. -/
lemma first?_append {lex : Lexicon} {d} (bd : lex.Bounds d) {rule c text s rest later}
    (quotes : rule = .matchOpening ∨ '\'' ∉ d :: later)
    (h : first? lex rule c text = some (s, rest)) :
    first? lex rule c (text ++ d :: later) = some (s, rest ++ d :: later) := by
  unfold first? at h ⊢
  split at h
  · rw [sign_append bd, Option.some.inj h]
  · split_ifs at h ⊢
    · rw [number_append bd.number, Option.some.inj h]
    · rw [word_append bd.word, Option.some.inj h]
    · exact string?_append quotes h
    · cases h
      rfl

end Segment

/-- Segments in front of a boundary are cut as if the text ended there. -/
lemma Cuts.before_boundary {lex : Lexicon} {d} (bd : lex.Bounds d) {rule text ss rest later}
    (ct : Cuts lex rule text ss rest) (quotes : rule = .matchOpening ∨ '\'' ∉ d :: later) :
    Cuts lex rule (text ++ d :: later) ss (rest ++ d :: later) := by
  induction ct with
  | nil => exact .nil
  | cons read _ ih => exact .cons (Segment.first?_append bd quotes read) ih

end FrontEnd
