import FrontEnd.Program.Expr
import FrontEnd.Proofs.Numeral.Grammar
import FrontEnd.Proofs.Numeral.Rounding
import FrontEnd.Proofs.Token.Shapes

/-!
# Number tokens as numerals

A number token has digits and points behind its first digit, as many points as there are, while a
numeral has at most one. With at most one the token is a numeral, and a literal of this text stands
for a number unless that rounds to an infinity. With more it is nothing readable.

Main statement: `Lexicon.scan_numerals`.
-/

namespace FrontEnd

namespace Numeral

/-- The number that a numeral is, before it is rounded. -/
def value (n : Numeral) : ℚ :=
  n.decimal.value

/-- The text of a numeral leaves no choice of its number. -/
lemma value_eq_of_text {n m : Numeral} (same : n.text = m.text) : n.value = m.value := by
  have read : some n.decimal = some m.decimal :=
    (Decimal.ofChars?_text n).symm.trans (same ▸ Decimal.ofChars?_text m)
  exact congrArg Decimal.value (Option.some.inj read)

/-- Digits and at most one point behind a digit are a numeral, with any sign. -/
lemma exists_of_spellsNumber (sign : Sign) {text : List Char} (spelled : spellsNumber text)
    (le : text.count '.' ≤ 1) : ∃ n : Numeral, n.text = sign.text ++ text := by
  cases text with
  | nil => cases spelled
  | cons d rest =>
    obtain ⟨digit, chars⟩ : d.isDigit ∧ ∀ c ∈ rest, isNumberChar c := by
      simpa [spellsNumber] using spelled
    have wholeDigits : ∀ c ∈ d :: rest.takeWhile Char.isDigit, c.isDigit :=
      List.forall_mem_cons.mpr ⟨digit, fun c hc => List.mem_takeWhile_imp hc⟩
    have joined : rest.takeWhile Char.isDigit ++ rest.dropWhile Char.isDigit = rest :=
      List.takeWhile_append_dropWhile
    cases tail : rest.dropWhile Char.isDigit with
    | nil =>
      rw [tail, List.append_nil] at joined
      refine ⟨⟨sign, _, none, none, wholeDigits, List.forall_mem_nil _, List.cons_ne_nil _ _⟩, ?_⟩
      simp [text, fractionText, Exponent.textOf, joined]
    | cons c later =>
      rw [tail] at joined
      have inside : ∀ x ∈ c :: later, isNumberChar x := by
        intro x hx
        exact chars x (joined ▸ List.mem_append_right _ hx)
      have stop : ¬ c.isDigit := Segment.not_of_mem_head?_dropWhile (congrArg List.head? tail)
      obtain rfl : c = '.' := by
        have first := inside c List.mem_cons_self
        simpa [isNumberChar, stop] using first
      -- The point that ends the whole digits is the only one, so digits follow.
      have alone : '.' ∉ later := by
        intro again
        have one : 0 < later.count '.' := List.count_pos_iff.mpr again
        have two : later.count '.' + 1 ≤ (d :: rest).count '.' := by
          rw [← List.count_cons_self, ← joined]
          exact ((List.sublist_append_right _ _).cons d).count_le '.'
        omega
      have digits : ∀ x ∈ later, x.isDigit := by
        intro x hx
        have ne : x ≠ '.' := fun e => alone (e ▸ hx)
        have char := inside x (List.mem_cons_of_mem _ hx)
        simpa [isNumberChar, ne] using char
      refine ⟨⟨sign, _, some later, none, wholeDigits, digits, List.cons_ne_nil _ _⟩, ?_⟩
      simp [text, fractionText, Exponent.textOf, joined]

end Numeral

/-- The text of a number with at most one point is that of a numeral. -/
lemma IsNumber.exists_numeral {lex : Lexicon} {text after : List Char}
    (number : IsNumber lex text after) (le : text.count '.' ≤ 1) :
    ∃ n : Numeral, n.text = text := by
  rcases number.spelled with spelled | ⟨digits, rfl, spelled, _⟩
  · exact Numeral.exists_of_spellsNumber .absent spelled le
  · exact Numeral.exists_of_spellsNumber .minus spelled le

/-- A number literal stands for no number exactly if its text is no numeral, or one that rounds to
an infinity. -/
lemma Literal.number?_eq_none_iff {value : String} :
    (Literal.mk .number value).number? = none ↔
      ∀ n : Numeral, n.text = value.toList → Binary64.overflow ≤ |n.value| := by
  simp only [number?, if_true, Option.bind_eq_none_iff, Decimal.toFloat?, Option.map_eq_none_iff,
    Decimal.magnitude?_eq_none_iff, Decimal.ofChars?_eq_some_iff]
  constructor
  · intro none n spelled
    exact none n.decimal ⟨n, spelled, rfl⟩
  · rintro none d ⟨n, spelled, rfl⟩
    exact none n spelled

namespace Lexicon

/-- A token of the kind of numbers is spelled as a number. -/
lemma Unreserved.isNumber_of_scan {lex : Lexicon} (ur : lex.Unreserved) {rule source tokens}
    (ok : lex.scan rule source = .ok tokens) {t} (ht : t ∈ tokens) (hk : t.kind = .number) :
    ∃ after, IsNumber lex t.value.toList after := by
  obtain ⟨ss, ct, e⟩ | ⟨_, _, _, _, _, e⟩ := lex.segments_cases rule source.toList
  · rw [scan, e] at ok
    cases ok
    obtain ⟨x, hx, token⟩ := List.mem_filterMap.mp ht
    obtain ⟨value, _⟩ := of_token?_eq_some token
    obtain ⟨_, _, _, after, _, read, _⟩ := ct.exists_first? hx
    obtain ⟨cls, shape⟩ := Segment.exists_describes ur read (kind?_of_token? token)
    obtain rfl : cls = .number := by
      rw [shape.eq_ofKind, hk]
      rfl
    rw [value, String.toList_ofList]
    exact ⟨after, shape.2⟩
  · rw [scan, e] at ok
    cases ok

/-- Whatever operations have been performed on a lexicon, the text of a number token is readable,
and is read, exactly if it has at most one point. A literal of this text stands for no number
exactly if it has more, or if the number rounds to an infinity. -/
theorem scan_numerals {start : Lexicon} (base : start = .empty ∨ start = .standard)
    (ops : List Operation) {rule source tokens}
    (ok : (start.after ops).scan rule source = .ok tokens) {t} (ht : t ∈ tokens)
    (hk : t.kind = .number) :
    (Readable t.value.toList ↔ t.value.toList.count '.' ≤ 1) ∧
    ((Decimal.ofChars? t.value.toList).isSome ↔ t.value.toList.count '.' ≤ 1) ∧
    ((Literal.mk .number t.value).number? = none ↔ 2 ≤ t.value.toList.count '.' ∨
      ∃ n : Numeral, n.text = t.value.toList ∧ Binary64.overflow ≤ |n.value|) := by
  have ur : start.Unreserved := by
    rcases base with e | e
    · exact e ▸ Unreserved.empty
    · exact e ▸ Unreserved.standard
  obtain ⟨after, number⟩ := (ur.after ops).isNumber_of_scan ok ht hk
  refine ⟨⟨Readable.count_point_le, fun le => ?_⟩, ⟨fun read => ?_, fun le => ?_⟩,
    ⟨fun none => ?_, fun h => ?_⟩⟩
  · obtain ⟨n, spelled⟩ := number.exists_numeral le
    exact spelled ▸ Readable.numeral n
  · obtain ⟨d, read⟩ := Option.isSome_iff_exists.mp read
    obtain ⟨n, spelled⟩ := Decimal.exists_numeral read
    exact spelled ▸ (Readable.numeral n).count_point_le
  · obtain ⟨n, spelled⟩ := number.exists_numeral le
    rw [← spelled, Decimal.ofChars?_text]
    rfl
  · rcases Nat.lt_or_ge (t.value.toList.count '.') 2 with few | many
    · obtain ⟨n, spelled⟩ := number.exists_numeral (Nat.le_of_lt_succ few)
      exact .inr ⟨n, spelled, Literal.number?_eq_none_iff.mp none n spelled⟩
    · exact .inl many
  · rw [Literal.number?_eq_none_iff]
    intro n spelled
    rcases h with many | ⟨m, same, infinite⟩
    · have few : t.value.toList.count '.' ≤ 1 := spelled ▸ (Readable.numeral n).count_point_le
      exact absurd few (Nat.not_le.mpr many)
    · rw [Numeral.value_eq_of_text (spelled.trans same.symm)]
      exact infinite

end Lexicon

/-- Without a power of ten, the threshold is one of whole numbers. -/
lemma Decimal.overflow_le_abs_value_iff {d : Decimal} (whole : d.exponent = 0) :
    Binary64.overflow ≤ |d.value| ↔ 2 ^ 1024 ≤ d.coefficient + 2 ^ 970 := by
  rw [abs_value, whole, zpow_zero, mul_one, Binary64.overflow, sub_le_iff_le_add]
  exact_mod_cast Iff.rfl

/-- More digits than any finite number has. -/
def nines : List Char :=
  List.replicate 309 '9'

/-- The numeral of these digits alone. -/
def Numeral.nines : Numeral where
  sign := .absent
  whole := FrontEnd.nines
  fraction? := none
  exponent? := none
  wholeDigits := fun _ hc => List.eq_of_mem_replicate hc ▸ rfl
  fractionDigits := nofun
  ne_nil := nofun

/-- These digits are too many for a finite number. -/
lemma Numeral.overflow_le_nines : Binary64.overflow ≤ |Numeral.nines.value| := by
  have exponent : Numeral.nines.decimal.exponent = 0 := rfl
  rw [value, Decimal.overflow_le_abs_value_iff exponent]
  decide +kernel

/-- The nines are one token. -/
lemma scan_nines : (Lexicon.empty.after arrows).scan .preferSingle (.ofList nines) =
    .ok [⟨.number, .ofList nines, ⟨0, 0 + Text.byteLength nines⟩⟩] := by
  have cut : (Lexicon.empty.after arrows).segments .preferSingle nines =
      .ok [⟨some .number, nines⟩] := by decide +kernel
  rw [Lexicon.scan, String.toList_ofList, cut]
  -- What the token is does not hang on its digits.
  generalize nines = digits
  rfl

/-- A minus in front and a point at the end leave a token a numeral, and a second point does not.
Nines without any point are a numeral that stands for no number. -/
theorem pointed_scan_numerals :
    (∃ tokens, (Lexicon.empty.after arrows).scan .preferSingle "-5. 1.2.3" = .ok tokens ∧
      tokens.map (fun t => (t.kind, t.value)) = [(.number, "-5."), (.number, "1.2.3")] ∧
      Readable "-5.".toList ∧ (Literal.mk .number "-5.").number? ≠ none ∧
      ¬ Readable "1.2.3".toList ∧ (Literal.mk .number "1.2.3").number? = none) ∧
    ∃ tokens, (Lexicon.empty.after arrows).scan .preferSingle (.ofList nines) = .ok tokens ∧
      tokens.map (fun t => (t.kind, t.value)) = [(.number, .ofList nines)] ∧
      Readable nines ∧ (Literal.mk .number (.ofList nines)).number? = none := by
  have ok : (Lexicon.empty.after arrows).scan .preferSingle "-5. 1.2.3" =
      .ok [⟨.number, "-5.", ⟨0, 3⟩⟩, ⟨.number, "1.2.3", ⟨4, 9⟩⟩] := by decide +kernel
  obtain ⟨one, _, finite⟩ := Lexicon.scan_numerals (.inl rfl) arrows ok List.mem_cons_self rfl
  obtain ⟨two, _, unread⟩ :=
    Lexicon.scan_numerals (.inl rfl) arrows ok (List.mem_cons_of_mem _ List.mem_cons_self) rfl
  obtain ⟨long, _, infinite⟩ :=
    Lexicon.scan_numerals (.inl rfl) arrows scan_nines List.mem_cons_self rfl
  rw [String.toList_ofList] at long infinite
  refine ⟨⟨_, ok, rfl, one.mpr (by decide), ?_, mt two.mp (by decide),
    unread.mpr (.inl (by decide))⟩, _, scan_nines, rfl, long.mpr (by decide +kernel),
    infinite.mpr (.inr ⟨.nines, List.append_nil nines, Numeral.overflow_le_nines⟩)⟩
  rw [Ne, finite]
  rintro (many | ⟨n, spelled, large⟩)
  · exact absurd many (by decide)
  · have five : some n.decimal = some ⟨true, 5, 0⟩ := by
      rw [← Decimal.ofChars?_text, spelled]
      decide
    rw [Numeral.value, Option.some.inj five, Decimal.overflow_le_abs_value_iff rfl] at large
    exact absurd large (by decide +kernel)

end FrontEnd
