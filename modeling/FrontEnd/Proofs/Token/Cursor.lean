import FrontEnd.Proofs.Text.Slice
import FrontEnd.Proofs.Token.Cuts
import FrontEnd.Token.Cursor
import Mathlib.Data.List.TakeWhile

/-!
# Reading by bytes reads the same

A cursor that begins behind a part of the source stays at boundaries of characters: each reader gets
all slices that it takes, stops behind the first segment of the text in front of it, and gives the
token that this segment is. Reading by bytes therefore always comes to an end, and to the tokens of
the source.

There is one lemma for each reader. They all speak of a cursor behind the text that is read
(`Cursor.behind`), so that an offset in bytes is the length of a text.

Main statement: `Lexicon.scan?_eq`.
-/

namespace FrontEnd

/-! ## Offsets -/

namespace Text

/-- Looking for a character finds the bytes before the first one. -/
lemma find?_charIndices (p : Char → Bool) (offset : Nat) (text : List Char) :
    ((charIndices offset text).find? fun x => p x.2).map Prod.fst =
      if text.any p then some (offset + byteLength (text.takeWhile fun c => !p c)) else none := by
  induction text generalizing offset with
  | nil => rfl
  | cons c text ih =>
    cases hc : p c with
    | true => simp [charIndices, hc, byteLength]
    | false => simp [charIndices, hc, byteLength, ih, Nat.add_assoc]

/-- A character that occurs is found behind the bytes of the text in front of it. -/
lemma findIndex?_eq (q : Char) (text : List Char) :
    findIndex? (· = q) text =
      if text.contains q then some (byteLength (text.takeWhile (· ≠ q))) else none := by
  have found := find?_charIndices (· = q) 0 text
  simp only [Nat.zero_add, ← decide_not] at found
  rw [findIndex?, found, List.contains_eq_any_beq]
  congr 3
  funext c
  exact decide_eq_decide.mpr eq_comm

/-- A character of one byte adds one byte. -/
lemma byteLength_concat (before : List Char) {c : Char} (h : c.utf8Size = 1) :
    byteLength (before ++ [c]) = byteLength before + 1 := by
  rw [byteLength_append, byteLength, h]
  rfl

/-- A text has as many bytes as its UTF-8 form. -/
lemma size_utf8Encode (text : List Char) : text.utf8Encode.size = byteLength text := by
  rw [← String.toByteArray_ofList, String.size_toByteArray, byteLength_eq]

end Text

/-- A character up to the end of ASCII has one byte. -/
lemma utf8Size_of_le {c : Char} (h : c.toNat ≤ 127) : c.utf8Size = 1 :=
  Char.utf8Size_eq_one_iff.mpr (UInt32.le_iff_toNat_le.mpr h)

/-- What goes on in a number is a point or a digit. -/
lemma isNumberChar_iff {c : Char} :
    isNumberChar c ↔ c.toNat = 46 ∨ 48 ≤ c.toNat ∧ c.toNat ≤ 57 := by
  have point : c = '.' ↔ c.toNat = 46 := Char.toNat_inj.symm
  rw [isNumberChar, Bool.or_eq_true, decide_eq_true_eq, point, Char.isDigit_iff_toNat]
  exact or_comm

/-- It has one byte. -/
lemma utf8Size_of_isNumberChar {c : Char} (h : isNumberChar c) : c.utf8Size = 1 := by
  apply utf8Size_of_le
  have := isNumberChar_iff.mp h
  omega

/-- So has a digit in particular. -/
lemma utf8Size_of_isDigit {c : Char} (h : c.isDigit) : c.utf8Size = 1 :=
  utf8Size_of_isNumberChar (by rw [isNumberChar, h, Bool.true_or])

/-- A byte that goes on in a number is a point or a digit, too. -/
lemma Cursor.isNumberByte_iff {b : UInt8} :
    isNumberByte b ↔ b.toNat = 46 ∨ 48 ≤ b.toNat ∧ b.toNat ≤ 57 := by
  simp [isNumberByte, UInt8.le_iff_toNat_le, ← UInt8.toNat_inj]

/-- A quote has one byte. -/
lemma utf8Size_of_isQuote {c : Char} (h : isQuote c) : c.utf8Size = 1 := by
  simp only [isQuote, Bool.or_eq_true, decide_eq_true_eq] at h
  rcases h with rfl | rfl <;> rfl

/-- A character goes on in a number exactly if its first byte does. -/
lemma Cursor.isNumberByte_encode {c : Char} {b : UInt8} {bs : List UInt8}
    (h : String.utf8EncodeChar c = b :: bs) : isNumberByte b ↔ isNumberChar c := by
  have hv : c.val.toNat < 0xd800 ∨ 0xdfff < c.val.toNat ∧ c.val.toNat < 0x110000 := c.valid
  rw [isNumberByte_iff, isNumberChar_iff, Char.toNat]
  simp only [String.utf8EncodeChar] at h
  generalize c.val.toNat = v at h hv ⊢
  -- A character with more bytes begins with one of the greater bytes.
  split_ifs at h
  all_goals
    cases h
    rw [UInt8.toNat_ofNat']
    omega

namespace Cursor

variable {lex : Lexicon} {rule : QuoteRule} {source : String} {before text part after : List Char}

/-! ## Slices -/

/-- A cursor that has come to the end of a part of the source. -/
def behind (lex : Lexicon) (rule : QuoteRule) (source : String) (before : List Char) : Cursor :=
  ⟨lex, rule, source, Text.byteLength before⟩

/-- The offset is the length of the part in bytes. -/
@[simp]
lemma index_behind : (behind lex rule source before).index = Text.byteLength before := rfl

/-- The cursor reads with the given lexicon. -/
@[simp]
lemma lexicon_behind : (behind lex rule source before).lexicon = lex := rfl

/-- The cursor closes strings by the given rule. -/
@[simp]
lemma rule_behind : (behind lex rule source before).rule = rule := rfl

/-- The cursor reads the whole source. -/
@[simp]
lemma source_behind : (behind lex rule source before).source = source := rfl

/-- To move by bytes is to come to the end of another part. -/
@[simp]
lemma moveTo_behind {further : List Char} :
    (behind lex rule source before).moveTo (Text.byteLength further) =
      behind lex rule source further := rfl

/-- A part of the source can be sliced out. -/
lemma slice?_behind (h : source.toList = before ++ part ++ after) {here : List Char} :
    (behind lex rule source here).slice? (Text.byteLength before)
      (Text.byteLength (before ++ part)) = some (String.ofList part) :=
  Span.slice?_part h

/-- From a place on, the source is the text behind that place. -/
lemma sliceFrom?_behind (h : source.toList = before ++ text) {here : List Char} :
    (behind lex rule source here).sliceFrom? (Text.byteLength before) =
      some (String.ofList text) := by
  have whole := Span.slice?_part (h.trans (List.append_nil _).symm)
  rwa [← h, Text.byteLength_toList] at whole

/-- The character that comes next is the first one of the text in front of the cursor. -/
lemma current?_behind (h : source.toList = before ++ text) :
    (behind lex rule source before).current? = some text.head? := by
  rw [current?, index_behind, sliceFrom?_behind h]
  simp

/-- The token that a part of the source is. -/
def tokenOf (before : List Char) (kind : TokenKind) (part : List Char) : Token :=
  ⟨kind, String.ofList part, ⟨Text.byteLength before, Text.byteLength (before ++ part)⟩⟩

/-- A token goes up to the cursor. -/
lemma token?_behind (h : source.toList = before ++ part ++ after) {kind : TokenKind} :
    (behind lex rule source (before ++ part)).token? kind (Text.byteLength before) =
      some (tokenOf before kind part) := by
  rw [token?, index_behind, slice?_behind h]
  rfl

/-! ## Rounds -/

/-- A round with a result is the last one. -/
lemma loop?_of_result {α β : Type} {round : Cursor × α → Option ((Cursor × α) ⊕ β)} {state result}
    (h : round state = some (.inr result)) : loop? round state = some result := by
  rw [loop?, h]

/-- A round that brings the cursor nearer to the end is followed by others. -/
lemma loop?_of_next {α β : Type} {round : Cursor × α → Option ((Cursor × α) ⊕ β)} {state next}
    (h : round state = some (.inl next)) (moves : next.1.left < state.1.left) :
    loop? round state = loop? round next := by
  rw [loop?, h]
  exact if_pos moves

/-- Behind a further part of the source that is not empty, less is left. -/
lemma left_lt_of_ne_nil (h : source.toList = before ++ part ++ after) (some : part ≠ []) :
    (behind lex rule source (before ++ part)).left < (behind lex rule source before).left := by
  obtain ⟨c, part, rfl⟩ := List.exists_cons_of_ne_nil some
  have one := c.utf8Size_pos
  rw [left, left, source_behind, source_behind, index_behind, index_behind,
    ← Text.byteLength_toList, h, Text.byteLength_append, Text.byteLength_append, Text.byteLength]
  omega

/-! ## Numbers -/

/-- The byte behind a part of the source is the first one of the character that comes next. -/
lemma getElem_toByteArray {c : Char} (h : source.toList = before ++ c :: text)
    (inside : Text.byteLength before < source.toByteArray.size) :
    ∃ bs, String.utf8EncodeChar c = source.toByteArray[Text.byteLength before] :: bs := by
  have whole : source.toByteArray =
      before.utf8Encode ++ ((String.utf8EncodeChar c).toByteArray ++ text.utf8Encode) := by
    rw [← List.utf8Encode_singleton, ← List.utf8Encode_cons, ← List.utf8Encode_append, ← h,
      ← String.toByteArray_ofList, String.ofList_toList]
  obtain ⟨b, bs, e⟩ := List.exists_cons_of_ne_nil (String.utf8EncodeChar_ne_nil (c := c))
  refine ⟨bs, ?_⟩
  have size := Text.size_utf8Encode before
  simp [whole, e, ByteArray.getElem_append_right, size]

/-- A number is followed byte by byte as it is character by character. -/
lemma numberStop_eq (h : source.toList = before ++ text) :
    numberStop source.toByteArray (Text.byteLength before) =
      Text.byteLength (before ++ text.takeWhile isNumberChar) := by
  have size : source.toByteArray.size = Text.byteLength before + Text.byteLength text := by
    rw [String.size_toByteArray, ← Text.byteLength_toList, h, Text.byteLength_append]
  induction text generalizing before with
  | nil =>
    rw [numberStop, dif_neg (by rw [size]; exact Nat.lt_irrefl _), List.takeWhile_nil,
      List.append_nil]
  | cons c text ih =>
    have inside : Text.byteLength before < source.toByteArray.size := by
      rw [size, Text.byteLength]
      exact Nat.lt_add_of_pos_right (Nat.add_pos_left c.utf8Size_pos _)
    obtain ⟨bs, e⟩ := getElem_toByteArray h inside
    rw [numberStop, dif_pos inside]
    by_cases hc : isNumberChar c
    · have one := Text.byteLength_concat before (utf8Size_of_isNumberChar hc)
      have next := h.trans (List.append_cons before c text)
      rw [if_pos ((isNumberByte_encode e).mpr hc), ← one, ih next,
        List.takeWhile_cons_of_pos hc, ← List.append_cons]
      rw [size, Text.byteLength_append, Text.byteLength, Text.byteLength, Text.byteLength]
      omega
    · rw [if_neg fun hb => hc ((isNumberByte_encode e).mp hb), List.takeWhile_cons_of_neg hc,
        List.append_nil]

/-- A number is read from where it began, which may be a minus in front of its first digit. -/
lemma readNumber?_behind {sign : List Char} {c : Char}
    (h : source.toList = before ++ sign ++ c :: text) (digit : c.isDigit) :
    let s := (Segment.number (sign ++ [c]) text).1
    (behind lex rule source (before ++ sign)).readNumber? (Text.byteLength before) =
      some (tokenOf before .number s.text, behind lex rule source (before ++ s.text)) := by
  intro s
  have next := h.trans (List.append_cons _ c text)
  have stop : before ++ sign ++ [c] ++ text.takeWhile isNumberChar = before ++ s.text := by
    simp [s, Segment.number]
  have whole : source.toList = before ++ s.text ++ text.dropWhile isNumberChar := by
    rw [next, ← stop, List.append_assoc _ _ (text.dropWhile _), List.takeWhile_append_dropWhile]
  have one := Text.byteLength_concat (before ++ sign) (utf8Size_of_isDigit digit)
  simp only [readNumber?, index_behind, source_behind, ← one, numberStop_eq next, stop,
    moveTo_behind, token?_behind whole]
  rfl

/-! ## Words -/

/-- A word goes on up to a character that is not of words, or to the end of the source. -/
lemma readWord?_behind {c : Char} (h : source.toList = before ++ c :: text) :
    let s := (Segment.word lex c text).1
    (behind lex rule source before).readWord? =
      some (tokenOf before ((lex.kindOf (String.ofList s.text)).getD .identifier) s.text,
        behind lex rule source (before ++ s.text)) := by
  intro s
  have whole : source.toList = before ++ s.text ++ text.dropWhile isWordChar := by
    rw [h, List.append_assoc]
    exact congrArg (before ++ ·) (Segment.word_join lex c text).symm
  have stop : (((Text.charIndices 0 (c :: text)).drop 1).find? fun x => !isWordChar x.2).elim
      source.utf8ByteSize (fun x => Text.byteLength before + x.1) =
        Text.byteLength (before ++ s.text) := by
    have found := Text.find?_charIndices (fun c => !isWordChar c) (0 + c.utf8Size) text
    have taken : Text.byteLength (before ++ s.text) = Text.byteLength before +
        (0 + c.utf8Size + Text.byteLength (text.takeWhile isWordChar)) := by
      rw [Text.byteLength_append, Nat.zero_add]
      rfl
    simp only [Bool.not_not] at found
    rw [Text.charIndices, List.drop_one, List.tail_cons, taken]
    split_ifs at found with other
    · obtain ⟨x, e, hx⟩ := Option.map_eq_some_iff.mp found
      rw [e, Option.elim_some, hx]
    · have all : text.takeWhile isWordChar = text := by
        simpa [List.takeWhile_eq_self_iff] using other
      rw [Option.map_eq_none_iff.mp found, Option.elim_none, all, ← Text.byteLength_toList, h,
        Text.byteLength_append, Text.byteLength, Nat.zero_add]
  simp only [readWord?, index_behind, source_behind, lexicon_behind, sliceFrom?_behind h,
    Option.bind_eq_bind, Option.bind_some, String.toList_ofList, stop, moveTo_behind,
    slice?_behind whole, token?_behind whole]
  rfl

/-! ## Strings -/

/-- The quote that closes a string is found at the offset where it stands. -/
lemma closeOffset?_eq (opening : Char) :
    closeOffset? rule opening text = (rule.closing? opening text).map fun q =>
      Text.byteLength (text.takeWhile (· ≠ q)) := by
  cases rule with
  | matchOpening =>
    rw [closeOffset?, Text.findIndex?_eq, QuoteRule.closing?]
    split <;> rfl
  | preferSingle =>
    rw [closeOffset?, Text.findIndex?_eq, Text.findIndex?_eq, QuoteRule.closing?]
    split
    · rfl
    · split <;> rfl

/-- A string is closed by a quote. -/
lemma isQuote_of_closing? {opening q : Char} (quote : isQuote opening)
    (h : rule.closing? opening text = some q) : isQuote q := by
  cases rule with
  | preferSingle =>
    rw [QuoteRule.closing?] at h
    split_ifs at h <;> cases h <;> rfl
  | matchOpening =>
    rw [QuoteRule.closing?] at h
    split_ifs at h
    cases h
    exact quote

/-- A string is read up to the quote that closes it, or found to have none. -/
lemma readString?_behind {c : Char} (h : source.toList = before ++ c :: text) (quote : isQuote c) :
    (behind lex rule source before).readString? c =
      some (match Segment.string? rule c text with
        | none => .error ⟨Text.byteLength before, source.utf8ByteSize⟩
        | some (s, _) =>
          .ok (tokenOf before .string s.text, behind lex rule source (before ++ s.text))) := by
  have one := Text.byteLength_concat before (utf8Size_of_isQuote quote)
  have inside := h.trans (List.append_cons _ c text)
  simp only [readString?, index_behind, source_behind, rule_behind, ← one,
    sliceFrom?_behind inside, Option.bind_eq_bind, Option.bind_some, String.toList_ofList,
    closeOffset?_eq, Segment.string?]
  cases hq : rule.closing? c text with
  | none => rfl
  | some q =>
    let body := text.takeWhile (· ≠ q)
    have stop : before ++ (c :: body ++ [q]) = before ++ [c] ++ body ++ [q] := by simp
    have whole : source.toList =
        before ++ (c :: body ++ [q]) ++ (text.dropWhile (· ≠ q)).drop 1 := by
      rw [inside, stop, List.append_assoc _ [q], List.append_assoc _ body]
      exact congrArg _ (Segment.takeWhile_ne_append (QuoteRule.mem_of_closing? hq)).symm
    have last := Text.byteLength_concat (before ++ [c] ++ body)
      (utf8Size_of_isQuote (isQuote_of_closing? quote hq))
    have moved : Text.byteLength (before ++ [c]) + Text.byteLength body + 1 =
        Text.byteLength (before ++ (c :: body ++ [q])) := by
      rw [stop, last, Text.byteLength_append _ body]
    simp only [Option.map_some, body] at moved whole ⊢
    simp only [moved, moveTo_behind, token?_behind whole]
    rfl

/-! ## Signs -/

/-- One round of reading a sign, which is not a minus in front of a digit: the sign takes the next
character, or stops in front of it. -/
lemma signRound_behind {kind? : Option TokenKind} {lexeme : List Char} {c : Char}
    (h : source.toList = before ++ lexeme ++ c :: text) (off : lexeme = ['-'] → ¬ c.isDigit) :
    signRound (Text.byteLength before) (behind lex rule source (before ++ lexeme), kind?) =
      some (match lex.kindOf (String.ofList (lexeme ++ [c])) with
        | some kind => .inl (behind lex rule source (before ++ (lexeme ++ [c])), some kind)
        | none => .inr (tokenOf before (kind?.getD .identifier) lexeme,
            behind lex rule source (before ++ lexeme))) := by
  have minus : ¬ (c.isDigit && decide (String.ofList lexeme = "-")) := by
    rw [Bool.and_eq_true, decide_eq_true_eq]
    rintro ⟨digit, e⟩
    exact off (String.ofList_injective e) digit
  have taken : source.toList = before ++ (lexeme ++ [c]) ++ text := by
    rw [h]
    simp
  have moved : Text.byteLength (before ++ lexeme) + c.utf8Size =
      Text.byteLength (before ++ (lexeme ++ [c])) := by
    rw [← List.append_assoc, Text.byteLength_append _ [c]]
    rfl
  simp only [signRound, current?_behind h, List.head?_cons, Option.bind_eq_bind, Option.bind_some,
    index_behind, lexicon_behind, slice?_behind h, if_neg minus, moved, slice?_behind taken,
    moveTo_behind, token?_behind h]
  cases lex.kindOf (String.ofList (lexeme ++ [c])) <;> rfl

/-- At the end of the source a sign stops. -/
lemma signRound_stop {kind? : Option TokenKind} (h : source.toList = before ++ part) :
    signRound (Text.byteLength before) (behind lex rule source (before ++ part), kind?) =
      some (.inr (tokenOf before (kind?.getD .identifier) part,
        behind lex rule source (before ++ part))) := by
  have whole := h.trans (List.append_nil _).symm
  simp only [signRound, current?_behind whole, List.head?_nil, Option.bind_eq_bind,
    Option.bind_some, token?_behind whole]
  rfl

/-- A minus in front of a digit begins a number. -/
lemma signRound_minus {kind? : Option TokenKind} {d : Char}
    (h : source.toList = before ++ ['-'] ++ d :: text) (digit : d.isDigit) :
    let s := (Segment.number ['-'] (d :: text)).1
    signRound (Text.byteLength before) (behind lex rule source (before ++ ['-']), kind?) =
      some (.inr (tokenOf before .number s.text, behind lex rule source (before ++ s.text))) := by
  have minus : String.ofList ['-'] = "-" := rfl
  have same : Segment.number ['-'] (d :: text) = Segment.number (['-'] ++ [d]) text := by
    have hd : isNumberChar d := by
      rw [isNumberChar, Bool.or_eq_true]
      exact .inl digit
    simp [Segment.number, hd]
  simp only [signRound, current?_behind h, List.head?_cons, Option.bind_eq_bind, Option.bind_some,
    index_behind, slice?_behind h, minus, digit, decide_true, Bool.and_self, if_true, same,
    readNumber?_behind h digit]
  rfl

/-- A sign grows for as long as one more character gives a listed lexeme. -/
lemma loop?_extend {kind : TokenKind} {lexeme : List Char}
    (h : source.toList = before ++ lexeme ++ text) (begun : lexeme ≠ [])
    (off : lexeme = ['-'] → ¬ Segment.startsWithDigit text) :
    let s := (Segment.extend lex kind lexeme text).1
    ∃ k, s.kind? = some k ∧
      loop? (signRound (Text.byteLength before))
          (behind lex rule source (before ++ lexeme), some kind) =
        some (tokenOf before k s.text, behind lex rule source (before ++ s.text)) := by
  induction text generalizing kind lexeme with
  | nil => exact ⟨kind, rfl, loop?_of_result (signRound_stop (h.trans (List.append_nil _)))⟩
  | cons c text ih =>
    have round : signRound _ (behind lex rule source (before ++ lexeme), some kind) = _ :=
      signRound_behind h off
    rw [Segment.extend]
    cases hk : lex.kindOf (String.ofList (lexeme ++ [c])) with
    | none =>
      rw [hk] at round
      exact ⟨kind, rfl, loop?_of_result round⟩
    | some longer =>
      rw [hk] at round
      have next := h.trans (List.append_cons _ c text)
      rw [← List.append_assoc] at round
      rw [loop?_of_next round (left_lt_of_ne_nil next (List.cons_ne_nil c [])), List.append_assoc]
      rw [List.append_assoc before] at next
      refine ih next (List.append_ne_nil_of_right_ne_nil _ (List.cons_ne_nil _ _)) fun e => ?_
      -- A longer sign is more than a minus.
      exact absurd (List.append_eq_singleton_iff.mp e) (by simp [begun])

/-- A sign that begins with a listed character is read from that character on. -/
lemma readSign?_behind (rule : QuoteRule) {c : Char} {kind : TokenKind}
    (h : source.toList = before ++ c :: text)
    (listed : lex.kindOf (String.singleton c) = some kind) :
    let s := (Segment.sign lex kind c text).1
    ∃ k, s.kind? = some k ∧
      (behind lex rule source before).readSign? =
        some (tokenOf before k s.text, behind lex rule source (before ++ s.text)) := by
  have begun : source.toList = before ++ [] ++ c :: text := by rwa [List.append_nil]
  have next := h.trans (List.append_cons before c text)
  have first : signRound (Text.byteLength before) (behind lex rule source before, none) =
      some (.inl (behind lex rule source (before ++ [c]), some kind)) := by
    have round : signRound _ (behind lex rule source (before ++ []), none) = _ :=
      signRound_behind begun (by simp)
    rwa [List.append_nil, List.nil_append, ← String.singleton_eq_ofList, listed] at round
  rw [readSign?, index_behind, loop?_of_next first (left_lt_of_ne_nil next (List.cons_ne_nil _ _)),
    Segment.sign]
  split_ifs with minus
  · simp only [Bool.and_eq_true, decide_eq_true_eq] at minus
    obtain ⟨rfl, digit⟩ := minus
    cases text with
    | nil => cases digit
    | cons d text => exact ⟨.number, rfl, loop?_of_result (signRound_minus next digit)⟩
  · refine loop?_extend next (List.cons_ne_nil _ _) fun e digit => minus ?_
    rw [(List.cons.inj e).1, digit]
    rfl

/-! ## Tokens -/

/-- What comes next is read as the first segment of the text in front of the cursor. -/
lemma read?_behind {c : Char} (h : source.toList = before ++ c :: text) :
    (behind lex rule source before).read? c =
      some (match Segment.first? lex rule c text with
        | none => .error ⟨Text.byteLength before, source.utf8ByteSize⟩
        | some (s, _) => .ok (s.kind?.map (tokenOf before · s.text),
            behind lex rule source (before ++ s.text))) := by
  have here := h.trans (List.append_cons before c text)
  have moved : Text.byteLength before + c.utf8Size = Text.byteLength (before ++ [c]) := by
    rw [Text.byteLength_append]
    rfl
  simp only [Cursor.read?, index_behind, lexicon_behind, moved, slice?_behind here,
    Option.bind_eq_bind, Option.bind_some, ← String.singleton_eq_ofList, Lexicon.contains,
    moveTo_behind, Segment.first?]
  cases listed : lex.kindOf (String.singleton c) with
  | some kind =>
    obtain ⟨k, hk, e⟩ := readSign?_behind rule h listed
    simp only [Option.isSome_some, if_true, e, hk]
    rfl
  | none =>
    simp only [Option.isSome_none, Bool.false_eq_true, if_false]
    split_ifs with digit alpha quote
    · have e : (behind lex rule source (before ++ [])).readNumber? _ = _ :=
        readNumber?_behind (by rwa [List.append_nil]) digit
      rw [List.append_nil] at e
      rw [e]
      rfl
    · rw [readWord?_behind h]
      rfl
    · rw [readString?_behind h quote]
      unfold Segment.string?
      cases rule.closing? c text <;> rfl
    · rfl

/-- One round reads one segment, and keeps it if it is a token that is not dropped. -/
lemma scanRound_behind {c : Char} {s : Segment} {rest : List Char}
    (h : source.toList = before ++ c :: text)
    (read : Segment.first? lex rule c text = some (s, rest)) (tokens : Array Token) :
    scanRound (behind lex rule source before, tokens) =
      some (.inl (behind lex rule source (before ++ s.text),
        tokens ++ (lex.token?
          (s, ⟨Text.byteLength before, Text.byteLength (before ++ s.text)⟩)).toArray)) := by
  simp only [scanRound, current?_behind h, List.head?_cons, Option.bind_eq_bind, Option.bind_some,
    read?_behind h, read, lexicon_behind, Lexicon.token?]
  cases s.kind? with
  | none => simp
  | some kind =>
    by_cases ignored : lex.isIgnored kind
    · simp [tokenOf, ignored]
    · simp [tokenOf, ignored]

/-- Reading passes one segment after the other, and keeps the tokens among them. -/
lemma loop?_cuts {ss : List Segment} {rest : List Char} (ct : Cuts lex rule text ss rest)
    (h : source.toList = before ++ text) (tokens : Array Token) :
    loop? scanRound (behind lex rule source before, tokens) =
      loop? scanRound (behind lex rule source (before ++ (ss.map Segment.text).flatten),
        tokens ++ ((Segment.place (Text.byteLength before) ss).filterMap lex.token?).toArray) := by
  induction ct generalizing before tokens with
  | nil => simp [Segment.place]
  | @cons c text s mid ss rest read ct ih =>
    have next : source.toList = before ++ s.text ++ mid := by
      rw [h, List.append_assoc, Segment.first?_join read]
    have round := scanRound_behind h read tokens
    rw [loop?_of_next round (left_lt_of_ne_nil next (Segment.first?_text_ne_nil read)), ih next,
      List.map_cons, List.flatten_cons, ← List.append_assoc, Segment.place,
      ← Text.byteLength_append, List.filterMap_cons]
    cases lex.token? (s, ⟨Text.byteLength before, Text.byteLength (before ++ s.text)⟩) <;> simp

end Cursor

/-- Reading by bytes gets every slice that it takes, comes to an end, and gives what
a scan gives. -/
lemma Lexicon.scan?_eq (lex : Lexicon) (rule : QuoteRule) (source : String) :
    lex.scan? rule source = some (lex.scan rule source) := by
  have start : source.toList = [] ++ source.toList := rfl
  obtain ⟨ss, ct, e⟩ | ⟨ss, c, rest, ct, unclosed, e⟩ := lex.segments_cases rule source.toList
  · have last : source.toList = (ss.map Segment.text).flatten ++ [] := ct.join.symm
    refine (Cursor.loop?_cuts ct start #[]).trans (Cursor.loop?_of_result ?_)
    rw [List.nil_append, Cursor.scanRound, Cursor.current?_behind last, scan, e]
    simp [Text.byteLength]
  · have last : source.toList = (ss.map Segment.text).flatten ++ c :: rest := ct.join.symm
    have size : source.utf8ByteSize - Text.byteLength (c :: rest) =
        Text.byteLength (ss.map Segment.text).flatten := by
      rw [← Text.byteLength_toList, last, Text.byteLength_append, Nat.add_sub_cancel]
    refine (Cursor.loop?_cuts ct start #[]).trans (Cursor.loop?_of_result ?_)
    rw [List.nil_append, Cursor.scanRound, Cursor.current?_behind last, scan, e]
    simp only [List.head?_cons, Option.bind_eq_bind, Option.bind_some, Cursor.read?_behind last,
      unclosed, Text.byteLength_toList, size]
    rfl

end FrontEnd
