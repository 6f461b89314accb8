import FrontEnd.Proofs.Lexicon.Separable
import FrontEnd.Proofs.Token.Cuts
import Mathlib.Data.List.TakeWhile

/-!
# Segments that read as themselves

The relation `Legible` between a segment and a text behind it: put in front of that text, the
segment is what a scan reads there, provided that the text is empty or goes on with a blank. Only
the closing quote of a string depends on the text behind.

Main statements: `Legible.cuts`, what is legible is read, and `Legible.of_first?`, what has been
read in front of one text stays legible in front of any other that brings no new quotes.
-/

namespace FrontEnd

/-! ## Characters -/

/-- A letter is no digit. -/
lemma not_isDigit_of_isAlpha {c : Char} (h : c.isAlpha) : ¬ c.isDigit := by
  intro hd
  have digit : (decide ('0'.val ≤ c.val) && decide (c.val ≤ '9'.val)) = true := hd
  have letter : (decide ('A'.val ≤ c.val ∧ c.val ≤ 'Z'.val) ||
      (decide ('a'.val ≤ c.val) && decide (c.val ≤ 'z'.val))) = true := h
  simp only [Bool.or_eq_true, Bool.and_eq_true, decide_eq_true_eq,
    UInt32.le_iff_toNat_le] at digit letter
  have : 'A'.val.toNat = 65 := rfl
  have : 'a'.val.toNat = 97 := rfl
  have : '9'.val.toNat = 57 := rfl
  omega

/-- A quote is neither a digit nor a letter. -/
lemma not_of_isQuote {c : Char} (h : isQuote c) : ¬ c.isDigit ∧ ¬ c.isAlpha := by
  simp only [isQuote, Bool.or_eq_true, decide_eq_true_eq] at h
  obtain rfl | rfl := h <;> decide

/-- A text that is empty or goes on with a blank. -/
def Clear (text : List Char) : Prop :=
  ∀ c ∈ text.head?, isBlank c

/-- Characters of a class end where the text is clear, if no blank is in the class. -/
lemma Clear.span {p : Char → Bool} {text rest} (cl : Clear rest) (hb : ∀ c, isBlank c → p c = false)
    (inside : ∀ c ∈ text, p c) :
    (text ++ rest).takeWhile p = text ∧ (text ++ rest).dropWhile p = rest := by
  rw [List.takeWhile_append_of_pos inside, List.dropWhile_append_of_pos inside]
  cases rest with
  | nil => simp
  | cons c rest =>
    have hc : p c = false := hb c (cl c rfl)
    simp [hc]

/-- A quote that the text inside does not have ends a string. -/
lemma span_quote {q : Char} {inside : List Char} (hq : q ∉ inside) (rest : List Char) :
    (inside ++ q :: rest).takeWhile (· ≠ q) = inside ∧
      (inside ++ q :: rest).dropWhile (· ≠ q) = q :: rest := by
  have ne : ∀ c ∈ inside, decide (c ≠ q) = true := by
    intro c hc
    simpa using ne_of_mem_of_not_mem hc hq
  rw [List.takeWhile_append_of_pos ne, List.dropWhile_append_of_pos ne]
  simp

/-- A string is its opening quote, a text without the closing quote, and that quote. -/
lemma Segment.string?_eq_some_iff {rule : QuoteRule} {c text s rest} :
    string? rule c text = some (s, rest) ↔ ∃ inside q, text = inside ++ q :: rest ∧ q ∉ inside ∧
      rule.closing? c text = some q ∧ s = ⟨some .string, c :: inside ++ [q]⟩ := by
  constructor
  · intro h
    unfold string? at h
    split at h
    · cases h
    · rename_i q hq
      cases h
      have fresh : q ∉ text.takeWhile (· ≠ q) := by
        intro hm
        simpa using List.mem_takeWhile_imp hm
      exact ⟨_, q, (takeWhile_ne_append (QuoteRule.mem_of_closing? hq)).symm, fresh, hq, rfl⟩
  · rintro ⟨inside, q, rfl, fresh, closes, rfl⟩
    obtain ⟨taken, dropped⟩ := span_quote fresh rest
    rw [string?, closes]
    simp only [taken, dropped, List.drop_one, List.tail_cons]

inductive Legible (lex : Lexicon) (rule : QuoteRule) : Segment → List Char → Prop where
  | listed {text kind later} :
    lex.kindOf (String.ofList text) = some kind →
    Legible lex rule ⟨some kind, text⟩ later
  | word {c text later} :
    c.isAlpha →
    (∀ d ∈ text, isWordChar d) →
    Legible lex rule
      ⟨some ((lex.kindOf (String.ofList (c :: text))).getD .identifier), c :: text⟩ later
  | number {c text later} :
    c.isDigit →
    (∀ d ∈ text, isNumberChar d) →
    Legible lex rule ⟨some .number, c :: text⟩ later
  | negative {c text later} :
    c.isDigit →
    (∀ d ∈ text, isNumberChar d) →
    Legible lex rule ⟨some .number, '-' :: c :: text⟩ later
  | string {c inside q later} :
    isQuote c →
    rule.closing? c (inside ++ q :: later) = some q →
    q ∉ inside →
    Legible lex rule ⟨some .string, c :: inside ++ [q]⟩ later

/-! ## What is legible is read -/

/-- A listed character begins a sign, whatever else it could begin. -/
lemma Segment.first?_eq_sign {lex : Lexicon} {rule c kind}
    (h : lex.kindOf (String.singleton c) = some kind) (text : List Char) :
    first? lex rule c text = some (sign lex kind c text) := by
  rw [first?, h]

namespace Lexicon.Separable

variable {lex : Lexicon} {rule : QuoteRule}

/-- Letters, digits and quotes are not listed alone. -/
lemma unlisted (sp : lex.Separable) {c} (h : c.isAlpha ∨ c.isDigit ∨ isQuote c) :
    lex.kindOf (String.singleton c) = none := by
  cases hk : lex.kindOf (String.singleton c) with
  | none => rfl
  | some kind =>
    rw [String.singleton_eq_ofList] at hk
    have single := (sp.stands hk).single rfl
    rcases h with h | h | h <;> simp [h] at single

/-- A lexeme with a blank in it has no other character. -/
lemma unlisted_blank (sp : lex.Separable) {text c} (hc : isBlank c) (hm : c ∈ text)
    (ht : text ≠ [c]) : lex.kindOf (String.ofList text) = none := by
  cases hk : lex.kindOf (String.ofList text) with
  | none => rfl
  | some kind => exact absurd ((sp.stands hk).eq_singleton hm hc) ht

/-- A blank is a segment of its own, which is dropped. -/
lemma first?_blank (sp : lex.Separable) (rule : QuoteRule) {c} (hc : isBlank c)
    (text : List Char) :
    ∃ kind, lex.isIgnored kind ∧
      Segment.first? lex rule c text = some (⟨some kind, [c]⟩, text) := by
  obtain ⟨kind, hk, hi⟩ := sp.blank hc
  obtain ⟨-, -, -, minus⟩ := not_of_isBlank hc
  refine ⟨kind, hi, ?_⟩
  rw [Segment.first?_eq_sign hk, Segment.sign, decide_eq_false minus]
  cases text with
  | nil => rfl
  | cons d text =>
    have hd : lex.kindOf (String.ofList [c, d]) = none := sp.unlisted_blank hc (by simp) (by simp)
    rw [Bool.false_and, if_neg Bool.false_ne_true, Segment.extend, List.singleton_append, hd]

/-- A word that is followed by nothing or by a blank is read as a whole. -/
lemma first?_word (sp : lex.Separable) {c text rest} (cl : Clear rest) (hc : c.isAlpha)
    (ht : ∀ d ∈ text, isWordChar d) :
    Segment.first? lex rule c (text ++ rest) = some
      (⟨some ((lex.kindOf (String.ofList (c :: text))).getD .identifier), c :: text⟩, rest) := by
  obtain ⟨taken, dropped⟩ := cl.span (fun _ h => (not_of_isBlank h).1) ht
  have digit := not_isDigit_of_isAlpha hc
  rw [Segment.first?, sp.unlisted (.inl hc)]
  simp only [digit, hc, if_true, Segment.word, taken, dropped]
  rfl

/-- So is a number. -/
lemma first?_number (sp : lex.Separable) {c text rest} (cl : Clear rest) (hc : c.isDigit)
    (ht : ∀ d ∈ text, isNumberChar d) :
    Segment.first? lex rule c (text ++ rest) = some (⟨some .number, c :: text⟩, rest) := by
  obtain ⟨taken, dropped⟩ := cl.span (fun _ h => (not_of_isBlank h).2.1) ht
  rw [Segment.first?, sp.unlisted (.inr (.inl hc))]
  simp only [hc, if_true, Segment.number, taken, dropped]
  rfl

/-- So is a number behind a minus. -/
lemma first?_negative (sp : lex.Separable) {c text rest} (cl : Clear rest) (hc : c.isDigit)
    (ht : ∀ d ∈ text, isNumberChar d) :
    Segment.first? lex rule '-' (c :: text ++ rest) =
      some (⟨some .number, '-' :: c :: text⟩, rest) := by
  obtain ⟨kind, hk⟩ := Option.isSome_iff_exists.mp sp.minus
  have inside : ∀ d ∈ c :: text, isNumberChar d := by
    intro d hd
    rcases List.mem_cons.mp hd with rfl | hd
    · simp [isNumberChar, hc]
    · exact ht d hd
  obtain ⟨taken, dropped⟩ := cl.span (fun _ h => (not_of_isBlank h).2.1) inside
  have digit : Segment.startsWithDigit (c :: text ++ rest) := hc
  rw [Segment.first?_eq_sign hk, Segment.sign, digit, if_pos (by decide), Segment.number,
    taken, dropped]
  rfl

/-- A string is read up to the quote that closes it. -/
lemma first?_string (sp : lex.Separable) {c inside q} {rest : List Char} (hc : isQuote c)
    (closes : rule.closing? c (inside ++ q :: rest) = some q) (hq : q ∉ inside) :
    Segment.first? lex rule c (inside ++ q :: rest) =
      some (⟨some .string, c :: inside ++ [q]⟩, rest) := by
  obtain ⟨digit, alpha⟩ := not_of_isQuote hc
  have read := Segment.string?_eq_some_iff.mpr ⟨inside, q, rfl, hq, closes, rfl⟩
  rw [Segment.first?, sp.unlisted (.inr (.inr hc))]
  simp only [digit, alpha, hc, if_true]
  exact read

/-- A lexeme is extended up to a listed one all of whose beginnings are listed. -/
lemma extend_eq (sp : lex.Separable) {kind target lexeme todo rest} (hn : lexeme ≠ [])
    (cl : Clear rest) (hk : lex.kindOf (String.ofList lexeme) = some kind)
    (ht : lex.kindOf (String.ofList (lexeme ++ todo)) = some target)
    (begun : ∀ n < (lexeme ++ todo).length,
      lex.contains (String.ofList ((lexeme ++ todo).take (n + 1)))) :
    Segment.extend lex kind lexeme (todo ++ rest) = (⟨some target, lexeme ++ todo⟩, rest) := by
  induction todo generalizing kind lexeme with
  | nil =>
    rw [List.append_nil, hk] at ht
    cases ht
    rw [List.nil_append, List.append_nil]
    cases rest with
    | nil => rfl
    | cons c rest =>
      have hb : lex.kindOf (String.ofList (lexeme ++ [c])) = none :=
        sp.unlisted_blank (cl c rfl) (by simp) (by simpa using hn)
      rw [Segment.extend, hb]
  | cons d todo ih =>
    have assoc : lexeme ++ d :: todo = (lexeme ++ [d]) ++ todo := by simp
    have listed : lex.contains (String.ofList (lexeme ++ [d])) := by
      have := begun lexeme.length (by simp)
      rwa [assoc, List.take_left' (by simp)] at this
    obtain ⟨longer, hl⟩ := Option.isSome_iff_exists.mp listed
    rw [List.cons_append, Segment.extend, hl]
    rw [assoc] at ht begun ⊢
    exact ih (by simp) hl ht begun

/-- Neither a digit of a listed lexeme nor one behind it follows a minus at its start. -/
lemma not_negative (sp : lex.Separable) {c tail kind rest} (cl : Clear rest)
    (hk : lex.kindOf (String.ofList (c :: tail)) = some kind) :
    ¬ (decide (c = '-') && Segment.startsWithDigit (tail ++ rest)) := by
  rw [Bool.and_eq_true, decide_eq_true_eq]
  rintro ⟨rfl, digit⟩
  cases tail with
  | cons d tail => exact (sp.stands hk).minus rfl digit
  | nil =>
    cases rest with
    | nil => cases digit
    | cons d rest =>
      have hd : d.isDigit := digit
      have number := (not_of_isBlank (cl d rfl)).2.1
      simp [isNumberChar, hd] at number

/-- A listed lexeme that is followed by nothing or by a blank is read as a whole. -/
lemma first?_listed (sp : lex.Separable) {c tail kind rest} (cl : Clear rest)
    (hk : lex.kindOf (String.ofList (c :: tail)) = some kind) :
    Segment.first? lex rule c (tail ++ rest) = some (⟨some kind, c :: tail⟩, rest) := by
  rcases (sp.stands hk).spelled with word | begun
  · obtain ⟨hc, ht⟩ : c.isAlpha ∧ ∀ d ∈ tail, isWordChar d := by simpa [spellsWord] using word
    have read : Segment.first? lex rule c (tail ++ rest) = _ := sp.first?_word cl hc ht
    rwa [hk] at read
  · obtain ⟨first, hf⟩ : ∃ first, lex.kindOf (String.ofList [c]) = some first :=
      Option.isSome_iff_exists.mp (begun 0 (by simp))
    rw [Segment.first?_eq_sign (String.singleton_eq_ofList ▸ hf), Segment.sign,
      if_neg (sp.not_negative cl hk)]
    exact congrArg some (sp.extend_eq (by simp) cl hf hk begun)

end Lexicon.Separable

/-- A legible segment in front of a clear text is read. -/
lemma Legible.cuts {lex rule s later} (lg : Legible lex rule s later) (sp : lex.Separable)
    (cl : Clear later) : Cuts lex rule (s.text ++ later) [s] later := by
  cases lg with
  | @listed text kind _ hk =>
    cases text with
    | nil => exact absurd rfl (sp.stands hk).ne_nil
    | cons c tail => exact .cons (sp.first?_listed cl hk) .nil
  | word hc ht => exact .cons (sp.first?_word cl hc ht) .nil
  | number hc ht => exact .cons (sp.first?_number cl hc ht) .nil
  | negative hc ht => exact .cons (sp.first?_negative cl hc ht) .nil
  | string hc closes hq =>
    rw [List.append_assoc]
    exact .cons (sp.first?_string hc closes hq) .nil

/-! ## What has been read is legible -/

/-- A sign goes as far as a listed lexeme. -/
lemma Segment.exists_extend {lex : Lexicon} {kind lexeme}
    (hk : lex.kindOf (String.ofList lexeme) = some kind) (text : List Char) :
    ∃ longer whole, (extend lex kind lexeme text).1 = ⟨some longer, whole⟩ ∧
      lex.kindOf (String.ofList whole) = some longer := by
  induction text generalizing kind lexeme with
  | nil => exact ⟨kind, lexeme, rfl, hk⟩
  | cons c text ih =>
    unfold extend
    split
    · rename_i longer hl
      exact ih hl
    · exact ⟨kind, lexeme, rfl, hk⟩

/-- The quote that closes a string still does if the text behind it changes, unless that brings a
quote. -/
lemma QuoteRule.closing?_later {rule : QuoteRule} {c q inside rest later}
    (h : rule.closing? c (inside ++ q :: rest) = some q)
    (hl : ∀ d ∈ later, isQuote d → d ∈ rest) :
    rule.closing? c (inside ++ q :: later) = some q := by
  cases rule with
  | matchOpening =>
    rw [closing?] at h ⊢
    split_ifs at h
    cases h
    simp
  | preferSingle =>
    rw [closing?] at h ⊢
    split_ifs at h with single double
    · cases h
      simp
    · cases h
      -- A double quote closes a string only if no single one is left, and none has come.
      have none : '\'' ∉ inside ++ '"' :: later := by
        intro hm
        apply single
        rw [List.contains_iff_mem]
        simp only [List.mem_append, List.mem_cons] at hm ⊢
        rcases hm with hm | hm | hm
        · exact .inl hm
        · exact .inr (.inl hm)
        · exact .inr (.inr (hl _ hm rfl))
      simp [none]

/-- A token that was read is legible in front of any text whose quotes it was read in front of. -/
lemma Legible.of_first? {lex : Lexicon} {rule c text s mid later kind}
    (h : Segment.first? lex rule c text = some (s, mid)) (hk : s.kind? = some kind)
    (hl : ∀ d ∈ later, isQuote d → d ∈ mid) : Legible lex rule s later := by
  unfold Segment.first? at h
  split at h
  · rename_i first hf
    rw [String.singleton_eq_ofList] at hf
    unfold Segment.sign at h
    split at h
    · rename_i negative
      rw [Bool.and_eq_true, decide_eq_true_eq] at negative
      obtain ⟨rfl, digit⟩ := negative
      cases text with
      | nil => cases digit
      | cons d text =>
        have hd : isNumberChar d := by simp [isNumberChar, show d.isDigit from digit]
        cases h
        rw [List.takeWhile_cons_of_pos hd]
        exact .negative digit fun _ => List.mem_takeWhile_imp
    · -- A sign may be longer than its first character, and is listed as a whole.
      obtain ⟨longer, whole, e, hw⟩ := Segment.exists_extend hf text
      rw [Option.some.inj h] at e
      cases e
      exact .listed hw
  · split_ifs at h with digit alpha quote
    · cases h
      exact .number digit fun _ => List.mem_takeWhile_imp
    · cases h
      exact .word alpha fun _ => List.mem_takeWhile_imp
    · obtain ⟨inside, q, rfl, fresh, closes, rfl⟩ := Segment.string?_eq_some_iff.mp h
      exact .string quote (QuoteRule.closing?_later closes hl) fresh
    · cases h
      cases hk

end FrontEnd
