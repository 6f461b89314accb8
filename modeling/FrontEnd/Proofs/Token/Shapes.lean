import FrontEnd.Proofs.Lexicon.Operations
import FrontEnd.Proofs.Token.Legible
import FrontEnd.Proofs.Token.Tiling

/-!
# The shapes of tokens

A token is an identifier, a number, a string or listed, and its kind says which. Each of these
classes fixes how the text of the token is spelled, and what can not come right behind it, since
every segment is as long as it can be (`TokenClass.Describes`).

The kinds tell the classes apart because no lexeme ever gets a reserved kind. Main statement:
`Lexicon.scan_shapes`.
-/

namespace FrontEnd

/-- A digit, then digits and dots. -/
def spellsNumber : List Char → Bool
  | [] => false
  | c :: rest => c.isDigit && rest.all isNumberChar

/-- All beginnings of a text are listed. -/
def Lexicon.Begun (lex : Lexicon) (text : List Char) : Prop :=
  ∀ n < text.length, lex.contains (String.ofList (text.take (n + 1)))

/-- The text of a word, in front of what comes after it. -/
structure IsWord (lex : Lexicon) (text after : List Char) : Prop where
  spelled : spellsWord text
  /-- A listed character would begin a sign. -/
  first : ∀ c ∈ text.head?, ¬ lex.contains (String.singleton c)
  maximal : ∀ c ∈ after.head?, ¬ isWordChar c

structure IsNumber (lex : Lexicon) (text after : List Char) : Prop where
  /-- A minus in front of the digits is there only if it is listed. -/
  spelled : spellsNumber text ∨
    ∃ digits, text = '-' :: digits ∧ spellsNumber digits ∧ lex.contains "-"
  maximal : ∀ c ∈ after.head?, ¬ isNumberChar c

structure IsSign (lex : Lexicon) (text after : List Char) : Prop where
  begun : lex.Begun text
  maximal : ∀ c ∈ after.head?, ¬ lex.contains (String.ofList (text ++ [c]))
  /-- A minus in front of a digit would begin a number. -/
  positive : text.head? = some '-' → ¬ Segment.startsWithDigit (text.tail ++ after)

/-- Where a rule lets a string end. -/
def QuoteRule.Closes (opening : Char) (inside : List Char) (closing : Char) (after : List Char) :
    QuoteRule → Prop
  | matchOpening => closing = opening ∧ opening ∉ inside
  | preferSingle => '\'' ∉ inside ∧ (closing = '"' → '"' ∉ inside ∧ '\'' ∉ after)

def IsString (rule : QuoteRule) (text after : List Char) : Prop :=
  ∃ opening inside closing, text = opening :: inside ++ [closing] ∧
    isQuote opening ∧ isQuote closing ∧ rule.Closes opening inside closing after

/-- What a token can be. -/
inductive TokenClass where
  | identifier
  | number
  | string
  | listed
deriving DecidableEq

/-- What a class says about the kind and the text of a token, and the text after it. -/
def TokenClass.Describes (lex : Lexicon) (rule : QuoteRule) (kind : TokenKind)
    (text after : List Char) : TokenClass → Prop
  | identifier =>
    kind = .identifier ∧ ¬ lex.contains (String.ofList text) ∧ IsWord lex text after
  | number => kind = .number ∧ IsNumber lex text after
  | string => kind = .string ∧ IsString rule text after
  | listed =>
    16 ≤ kind.code.toNat ∧ lex.kindOf (String.ofList text) = some kind ∧
      (IsWord lex text after ∨ IsSign lex text after)

/-! ## Kinds tell classes apart -/

namespace TokenClass

/-- The class of the tokens of a kind. -/
def ofKind (kind : TokenKind) : TokenClass :=
  if kind = .identifier then identifier
  else if kind = .number then number
  else if kind = .string then string
  else listed

/-- The kind of a token tells what it is. -/
lemma Describes.eq_ofKind {lex rule kind text after} {cls : TokenClass}
    (h : cls.Describes lex rule kind text after) : cls = ofKind kind := by
  cases cls with
  | identifier =>
    obtain ⟨rfl, -⟩ := h
    rfl
  | number =>
    obtain ⟨rfl, -⟩ := h
    rfl
  | string =>
    obtain ⟨rfl, -⟩ := h
    rfl
  | listed =>
    obtain ⟨free, -⟩ := h
    have ne : ∀ k : TokenKind, k.code.toNat < 16 → kind ≠ k := by
      rintro k lt rfl
      exact absurd lt (Nat.not_lt.mpr free)
    rw [ofKind, if_neg (ne _ (by decide)), if_neg (ne _ (by decide)), if_neg (ne _ (by decide))]

end TokenClass

/-! ## Readers -/

namespace Segment

/-- What is left after the characters of a class does not go on with one of them. -/
lemma not_of_mem_head?_dropWhile {p : Char → Bool} {text : List Char} {c}
    (h : c ∈ (text.dropWhile p).head?) : ¬ p c := by
  induction text with
  | nil => cases h
  | cons d text ih =>
    by_cases hd : p d
    · rw [List.dropWhile_cons_of_pos hd] at h
      exact ih h
    · rw [List.dropWhile_cons_of_neg hd] at h
      cases h
      exact hd

/-- What is read as a word is one. -/
lemma isWord_word {lex : Lexicon} {c} (unlisted : ¬ lex.contains (String.singleton c))
    (alpha : c.isAlpha) (text : List Char) :
    IsWord lex (word lex c text).1.text (word lex c text).2 := by
  refine ⟨?_, ?_, fun d => not_of_mem_head?_dropWhile⟩
  · simp only [word, spellsWord, alpha, Bool.true_and, List.all_eq_true]
    exact fun d => List.mem_takeWhile_imp
  · intro d hd
    cases hd
    exact unlisted

/-- What is read as a number is one. -/
lemma isNumber_number {lex : Lexicon} {c} (digit : c.isDigit) (text : List Char) :
    IsNumber lex (number [c] text).1.text (number [c] text).2 := by
  refine ⟨.inl ?_, fun d => not_of_mem_head?_dropWhile⟩
  simp only [number, List.singleton_append, spellsNumber, digit, Bool.true_and, List.all_eq_true]
  exact fun d => List.mem_takeWhile_imp

/-- So it is behind a minus. -/
lemma isNumber_negative {lex : Lexicon} (minus : lex.contains "-") {text : List Char}
    (digit : startsWithDigit text) :
    IsNumber lex (number ['-'] text).1.text (number ['-'] text).2 := by
  refine ⟨.inr ⟨text.takeWhile isNumberChar, rfl, ?_, minus⟩, fun d => not_of_mem_head?_dropWhile⟩
  cases text with
  | nil => cases digit
  | cons d text =>
    have hd : d.isDigit := digit
    have goesOn : isNumberChar d := by simp [isNumberChar, hd]
    rw [List.takeWhile_cons_of_pos goesOn]
    simp only [spellsNumber, hd, Bool.true_and, List.all_eq_true]
    exact fun e => List.mem_takeWhile_imp

/-- What is read as a string is one, up to the right quote. -/
lemma isString_string? {rule c text s rest} (quote : isQuote c)
    (h : string? rule c text = some (s, rest)) :
    s.kind? = some .string ∧ IsString rule s.text rest := by
  obtain ⟨inside, q, rfl, fresh, closes, rfl⟩ := string?_eq_some_iff.mp h
  refine ⟨rfl, c, inside, q, rfl, quote, ?_⟩
  cases rule with
  | matchOpening =>
    rw [QuoteRule.closing?] at closes
    split_ifs at closes
    cases closes
    exact ⟨quote, rfl, fresh⟩
  | preferSingle =>
    rw [QuoteRule.closing?] at closes
    split_ifs at closes with single double
    · cases closes
      exact ⟨rfl, fresh, fun e => absurd e (by decide)⟩
    · cases closes
      rw [List.contains_iff_mem] at single
      have inside : '\'' ∉ inside := fun hm => single (by simp [hm])
      have behind : '\'' ∉ rest := fun hm => single (by simp [hm])
      exact ⟨rfl, inside, fun _ => ⟨fresh, behind⟩⟩

/-- A sign grows through listed texts until the next one is not listed. -/
lemma extend_stops {lex : Lexicon} {lexeme} (begun : lex.Begun lexeme) (kind : TokenKind)
    (text : List Char) :
    lex.Begun (extend lex kind lexeme text).1.text ∧
      ∀ c ∈ (extend lex kind lexeme text).2.head?,
        ¬ lex.contains (String.ofList ((extend lex kind lexeme text).1.text ++ [c])) := by
  induction text generalizing kind lexeme with
  | nil => exact ⟨begun, fun _ none => absurd none (Option.not_mem_none _)⟩
  | cons c text ih =>
    unfold extend
    split
    · rename_i longer hl
      apply ih
      intro n hn
      rw [List.length_append, List.length_singleton, Nat.lt_succ_iff] at hn
      rcases Nat.lt_or_eq_of_le hn with lt | rfl
      · rw [List.take_append_of_le_length lt]
        exact begun n lt
      · rw [List.take_of_length_le (by simp), Lexicon.contains, hl]
        rfl
    · rename_i unlisted
      refine ⟨begun, ?_⟩
      intro d hd
      cases hd
      exact Lexicon.not_contains unlisted

/-- What is read as a sign is one. -/
lemma isSign_extend {lex : Lexicon} {kind c text} (hk : lex.kindOf (String.ofList [c]) = some kind)
    (positive : ¬ (decide (c = '-') && startsWithDigit text)) :
    IsSign lex (extend lex kind [c] text).1.text (extend lex kind [c] text).2 := by
  have begun : lex.Begun [c] := by
    intro n hn
    obtain rfl : n = 0 := by simpa using hn
    exact Option.isSome_iff_exists.mpr ⟨kind, hk⟩
  obtain ⟨begins, stops⟩ := extend_stops begun kind text
  refine ⟨begins, stops, ?_⟩
  intro minus digit
  -- What the sign and the text after it join to has not changed, nor its second character.
  have joined := extend_join lex kind [c] text
  obtain ⟨d, tail, e⟩ :=
    List.exists_cons_of_ne_nil (extend_text_ne_nil lex kind (List.cons_ne_nil c []) text)
  rw [e] at minus digit joined
  obtain ⟨rfl, later⟩ := List.cons_eq_cons.mp joined
  cases minus
  rw [List.tail_cons, show tail ++ _ = text from later] at digit
  exact positive digit

end Segment

/-! ## Tokens -/

/-- The first segment of a text has a class, if it is a token. -/
lemma Segment.exists_describes {lex : Lexicon} (ur : lex.Unreserved) {rule c text s rest kind}
    (h : first? lex rule c text = some (s, rest)) (hk : s.kind? = some kind) :
    ∃ cls : TokenClass, cls.Describes lex rule kind s.text rest := by
  have free : ∀ {t k}, lex.kindOf t = some k → 16 ≤ k.code.toNat := by
    intro t k ht
    have := ur.listed ht
    rw [TokenKind.isReserved_iff] at this
    omega
  unfold first? at h
  split at h
  · rename_i first hf
    unfold sign at h
    split at h
    · rename_i negative
      rw [Bool.and_eq_true, decide_eq_true_eq] at negative
      obtain ⟨rfl, digit⟩ := negative
      cases h
      cases hk
      exact ⟨.number, rfl, isNumber_negative (Option.isSome_iff_exists.mpr ⟨first, hf⟩) digit⟩
    · rename_i positive
      rw [String.singleton_eq_ofList] at hf
      obtain ⟨longer, whole, e, hw⟩ := exists_extend hf text
      have shape := isSign_extend hf positive
      rw [Option.some.inj h] at e shape
      cases e
      cases hk
      exact ⟨.listed, free hw, hw, .inr shape⟩
  · rename_i unlisted
    have first := Lexicon.not_contains unlisted
    split_ifs at h with digit alpha quote
    · cases h
      cases hk
      exact ⟨.number, rfl, isNumber_number digit text⟩
    · have shape := isWord_word first alpha text
      cases h
      cases hk
      cases hw : lex.kindOf (String.ofList (c :: text.takeWhile isWordChar)) with
      | none => exact ⟨.identifier, rfl, Lexicon.not_contains hw, shape⟩
      | some listed => exact ⟨.listed, free hw, hw, .inl shape⟩
    · obtain ⟨string, shape⟩ := isString_string? quote h
      cases hk.symm.trans string
      exact ⟨.string, rfl, shape⟩
    · cases h
      cases hk

/-- Every placed segment has been read at its place. -/
lemma Cuts.exists_first? {lex rule text ss rest} (ct : Cuts lex rule text ss rest) {start x}
    (hx : x ∈ Segment.place start ss) :
    ∃ before c mid after, text = before ++ c :: mid ∧
      Segment.first? lex rule c mid = some (x.1, after) ∧
      x.2 = ⟨start + Text.byteLength before, start + Text.byteLength (before ++ x.1.text)⟩ := by
  induction ct generalizing start with
  | nil => cases hx
  | @cons c text s mid ss rest read _ ih =>
    rw [Segment.place] at hx
    cases hx with
    | head => exact ⟨[], c, text, mid, rfl, read, rfl⟩
    | tail _ hx =>
      obtain ⟨before, d, later, after, rfl, hf, es⟩ := ih hx
      refine ⟨s.text ++ before, d, later, after, ?_, hf, ?_⟩
      · rw [List.append_assoc, Segment.first?_join read]
      · rw [es, List.append_assoc, Text.byteLength_append s.text, Text.byteLength_append s.text,
          Nat.add_assoc, Nat.add_assoc]

namespace Lexicon

/-- A token has the kind of its segment. -/
lemma kind?_of_token? {lex : Lexicon} {x : Segment × Span} {t : Token}
    (h : lex.token? x = some t) : x.1.kind? = some t.kind := by
  unfold token? at h
  split at h
  · cases h
  · rename_i hk
    split_ifs at h
    cases h
    exact hk

/-- Whatever operations have been performed on a lexicon, exactly one class describes each token of
a scan at its place in the source. -/
theorem scan_shapes {start : Lexicon} (base : start = .empty ∨ start = .standard)
    (ops : List Operation) {rule source tokens}
    (ok : (start.after ops).scan rule source = .ok tokens) {t} (ht : t ∈ tokens) :
    ∃ before after, source.toList = before ++ t.value.toList ++ after ∧
      t.span = ⟨Text.byteLength before, Text.byteLength (before ++ t.value.toList)⟩ ∧
      ∃! cls : TokenClass,
        cls.Describes (start.after ops) rule t.kind t.value.toList after := by
  have ur : (start.after ops).Unreserved := by
    apply Unreserved.after
    rcases base with e | e
    · exact e ▸ Unreserved.empty
    · exact e ▸ Unreserved.standard
  obtain ⟨ss, ct, e⟩ | ⟨_, _, _, _, _, e⟩ := (start.after ops).segments_cases rule source.toList
  · rw [scan, e] at ok
    cases ok
    obtain ⟨x, hx, token⟩ := List.mem_filterMap.mp ht
    obtain ⟨value, place⟩ := of_token?_eq_some token
    obtain ⟨before, c, mid, after, source_eq, read, span⟩ := ct.exists_first? hx
    obtain ⟨cls, shape⟩ := Segment.exists_describes ur read (kind?_of_token? token)
    rw [value, String.toList_ofList]
    refine ⟨before, after, ?_, ?_, cls, shape, ?_⟩
    · rw [source_eq, List.append_assoc, Segment.first?_join read]
    · rw [place, span, Nat.zero_add, Nat.zero_add]
    · intro other described
      rw [described.eq_ofKind, shape.eq_ofKind]
  · rw [scan, e] at ok
    cases ok

end Lexicon

/-- A minus, an arrow with a chosen kind, a letter, and a word that is refused a reserved kind. -/
def arrows : List Lexicon.Operation :=
  [.insert "-", .insertWith "->" ⟨300⟩, .insert "e", .insertWith "xe" .number]

/-- The letter is listed and hence no word, but it may end one. The string closes on the other
quote. -/
theorem arrows_scan_shapes :
    ∃ tokens, (Lexicon.empty.after arrows).scan .preferSingle "-5.->xe e'a\"" = .ok tokens ∧
      tokens.map (fun t => (t.kind, t.value)) =
        [(.number, "-5."), (⟨300⟩, "->"), (.identifier, "xe"), (⟨301⟩, "e"), (.string, "'a\"")] ∧
      ∀ t ∈ tokens, ∃ before after, "-5.->xe e'a\"".toList = before ++ t.value.toList ++ after ∧
        t.span = ⟨Text.byteLength before, Text.byteLength (before ++ t.value.toList)⟩ ∧
        ∃! cls : TokenClass,
          cls.Describes (Lexicon.empty.after arrows) .preferSingle t.kind t.value.toList after := by
  have ok : (Lexicon.empty.after arrows).scan .preferSingle "-5.->xe e'a\"" = .ok
      [⟨.number, "-5.", ⟨0, 3⟩⟩, ⟨⟨300⟩, "->", ⟨3, 5⟩⟩, ⟨.identifier, "xe", ⟨5, 7⟩⟩,
        ⟨⟨301⟩, "e", ⟨8, 9⟩⟩, ⟨.string, "'a\"", ⟨9, 12⟩⟩] := by decide +kernel
  exact ⟨_, ok, rfl, fun t ht => Lexicon.scan_shapes (.inl rfl) arrows ok ht⟩

end FrontEnd
