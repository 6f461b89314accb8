import FrontEnd.Numeral.Decimal
import Mathlib.Data.List.TakeWhile

/-!
# The grammar of numerals

A numeral has a sign, digits with at most one point among them, and an exponent, where the sign, the
point and the exponent may be missing (`Numeral`). A numeral is read as the decimal that its parts
make, and nothing else is read. Besides numerals, the names of numbers that are not finite are
readable (`Readable`).

Main statement: `Decimal.ofChars?_eq_some_iff`.
-/

namespace FrontEnd

/-- What stands in front of digits. -/
inductive Sign where
  | absent
  | plus
  | minus

namespace Sign

def text : Sign → List Char
  | absent => []
  | plus => ['+']
  | minus => ['-']

def isNegative : Sign → Bool
  | absent | plus => false
  | minus => true

end Sign

/-- The exponent of a numeral, with at least one digit. -/
structure Exponent where
  mark : Char
  sign : Sign
  digits : List Char
  isMark : mark = 'e' ∨ mark = 'E'
  areDigits : ∀ c ∈ digits, c.isDigit
  ne_nil : digits ≠ []

namespace Exponent

def text (x : Exponent) : List Char :=
  x.mark :: (x.sign.text ++ x.digits)

def value (x : Exponent) : Int :=
  if x.sign.isNegative then -(Decimal.ofDigits x.digits : Int) else Decimal.ofDigits x.digits

/-- The text of an exponent that may be missing. -/
def textOf : Option Exponent → List Char
  | none => []
  | some x => x.text

/-- A missing exponent is zero. -/
def valueOf : Option Exponent → Int
  | none => 0
  | some x => x.value

end Exponent

/-- The parts of a numeral. There is at least one digit before the exponent. -/
structure Numeral where
  sign : Sign
  whole : List Char
  /-- The digits after the point, if there is a point. -/
  fraction? : Option (List Char)
  exponent? : Option Exponent
  wholeDigits : ∀ c ∈ whole, c.isDigit
  fractionDigits : ∀ c ∈ fraction?.getD [], c.isDigit
  ne_nil : whole ++ fraction?.getD [] ≠ []

namespace Numeral

/-- The point and the digits after it. -/
def fractionText : Option (List Char) → List Char
  | none => []
  | some digits => '.' :: digits

def text (n : Numeral) : List Char :=
  n.sign.text ++ (n.whole ++ (fractionText n.fraction? ++ Exponent.textOf n.exponent?))

def decimal (n : Numeral) : Decimal :=
  ⟨n.sign.isNegative, Decimal.ofDigits (n.whole ++ n.fraction?.getD []),
    Exponent.valueOf n.exponent? - (n.fraction?.getD []).length⟩

end Numeral

/-- The names of the infinity and of what is no number, in small letters. -/
def nonfinite : List (List Char) :=
  ["inf".toList, "infinity".toList, "nan".toList]

/-- The texts that can be read as a number, finite or not. Names may have letters of either case. -/
inductive Readable : List Char → Prop where
  | numeral (n : Numeral) :
    Readable n.text
  | named (s : Sign) {name : List Char} :
    name.map Char.toLower ∈ nonfinite →
    Readable (s.text ++ name)

namespace Decimal

/-! ## Parts -/

/-- A digit is neither a sign nor a point. -/
lemma ne_of_isDigit {c : Char} (digit : c.isDigit) : c ≠ '-' ∧ c ≠ '+' ∧ c ≠ '.' := by
  refine ⟨?_, ?_, ?_⟩ <;> rintro rfl <;> cases digit

/-- A sign is split off in front of what does not begin with one. -/
lemma splitSign_append (s : Sign) {rest : List Char} (hr : ∀ c ∈ rest.head?, c ≠ '-' ∧ c ≠ '+') :
    splitSign (s.text ++ rest) = (s.isNegative, rest) := by
  cases s with
  | plus => rfl
  | minus => rfl
  | absent =>
    cases rest with
    | nil => rfl
    | cons c rest =>
      obtain ⟨minus, plus⟩ := hr c rfl
      simp [splitSign, Sign.text, Sign.isNegative, minus, plus]

/-- What is split off in front of a text is a sign, which may be missing. -/
lemma exists_sign (text : List Char) : ∃ s : Sign, s.text ++ (splitSign text).2 = text := by
  unfold splitSign
  split
  · exact ⟨.minus, rfl⟩
  · exact ⟨.plus, rfl⟩
  · exact ⟨.absent, rfl⟩

/-- Digits go on to the first character that is none. -/
lemma span_digits {digits rest : List Char} (hd : ∀ c ∈ digits, c.isDigit)
    (hr : ∀ c ∈ rest.head?, ¬ c.isDigit) :
    (digits ++ rest).takeWhile Char.isDigit = digits ∧
      (digits ++ rest).dropWhile Char.isDigit = rest := by
  rw [List.takeWhile_append_of_pos hd, List.dropWhile_append_of_pos hd]
  cases rest with
  | nil => simp
  | cons c rest => simp [hr c rfl]

/-- A fraction is split off in front of what goes on neither with a digit nor with a point. -/
lemma splitFraction_append {f? : Option (List Char)} {rest : List Char}
    (hf : ∀ c ∈ f?.getD [], c.isDigit) (hr : ∀ c ∈ rest.head?, ¬ c.isDigit ∧ c ≠ '.') :
    splitFraction (Numeral.fractionText f? ++ rest) = (f?.getD [], rest) := by
  cases f? with
  | none =>
    cases rest with
    | nil => rfl
    | cons c rest =>
      have point := (hr c rfl).2
      simp [splitFraction, Numeral.fractionText, point]
  | some digits =>
    obtain ⟨taken, dropped⟩ := span_digits hf fun c hc => (hr c hc).1
    simp only [Numeral.fractionText, List.cons_append, splitFraction, Option.getD_some] at *
    rw [taken, dropped]

/-- What is split off behind the digits is a fraction, which may be missing. -/
lemma exists_fraction (text : List Char) :
    ∃ f? : Option (List Char), Numeral.fractionText f? ++ (splitFraction text).2 = text ∧
      f?.getD [] = (splitFraction text).1 ∧ ∀ c ∈ f?.getD [], c.isDigit := by
  unfold splitFraction
  split
  · rename_i rest
    refine ⟨some (rest.takeWhile Char.isDigit), ?_, rfl, fun c hc => List.mem_takeWhile_imp hc⟩
    rw [Numeral.fractionText, List.cons_append, List.takeWhile_append_dropWhile]
  · exact ⟨none, rfl, rfl, nofun⟩

/-! ## Exponents -/

/-- An exponent is read back as its value. -/
lemma exponentOf?_textOf (x? : Option Exponent) :
    exponentOf? (Exponent.textOf x?) = some (Exponent.valueOf x?) := by
  cases x? with
  | none => rfl
  | some x =>
    obtain ⟨mark, sign, digits, isMark, areDigits, ne⟩ := x
    have unsigned : ∀ c ∈ digits.head?, c ≠ '-' ∧ c ≠ '+' := by
      intro c hc
      obtain ⟨minus, plus, _⟩ := ne_of_isDigit (areDigits c (List.mem_of_head? hc))
      exact ⟨minus, plus⟩
    have read : (digits.isEmpty || !digits.all Char.isDigit) = false := by
      simpa [ne] using areDigits
    simp only [Exponent.textOf, Exponent.text, exponentOf?, isMark, if_true,
      splitSign_append sign unsigned, read, Exponent.valueOf, Exponent.value]
    cases sign.isNegative <;> rfl

/-- What is read as an exponent is written as one. -/
lemma exists_exponent {text : List Char} {e : Int} (h : exponentOf? text = some e) :
    ∃ x? : Option Exponent, Exponent.textOf x? = text := by
  cases text with
  | nil => exact ⟨none, rfl⟩
  | cons mark text =>
    rw [exponentOf?] at h
    split_ifs at h with isMark
    dsimp only at h
    by_cases unread : ((splitSign text).2.isEmpty || !(splitSign text).2.all Char.isDigit) = true
    · rw [if_pos unread] at h
      cases h
    · rw [Bool.or_eq_true, not_or, List.isEmpty_iff, Bool.not_eq_true', Bool.not_eq_false,
        List.all_eq_true] at unread
      obtain ⟨sign, joined⟩ := exists_sign text
      exact ⟨some ⟨mark, sign, _, isMark, unread.2, unread.1⟩, congrArg (mark :: ·) joined⟩

/-- An exponent begins with its mark. -/
lemma not_of_mem_head?_textOf {x? : Option Exponent} {c : Char}
    (hc : c ∈ (Exponent.textOf x?).head?) : ¬ c.isDigit ∧ c ≠ '.' := by
  cases x? with
  | none => cases hc
  | some x =>
    cases hc
    cases x.isMark with
    | inl e => rw [e]; decide
    | inr e => rw [e]; decide

/-! ## Numerals -/

/-- A numeral is read back as its value. -/
lemma ofChars?_text (n : Numeral) : ofChars? n.text = some n.decimal := by
  obtain ⟨sign, whole, f?, x?, wholeDigits, fractionDigits, ne⟩ := n
  have behind : ∀ c ∈ (Numeral.fractionText f? ++ Exponent.textOf x?).head?, ¬ c.isDigit := by
    intro c hc
    cases f? with
    | none => exact (not_of_mem_head?_textOf hc).1
    | some digits =>
      cases hc
      decide
  have unsigned : ∀ c ∈ (whole ++ (Numeral.fractionText f? ++ Exponent.textOf x?)).head?,
      c ≠ '-' ∧ c ≠ '+' := by
    intro c hc
    cases whole with
    | nil =>
      cases f? with
      | none => exact absurd rfl ne
      | some digits =>
        cases hc
        decide
    | cons d whole =>
      cases hc
      obtain ⟨minus, plus, _⟩ := ne_of_isDigit (wholeDigits c List.mem_cons_self)
      exact ⟨minus, plus⟩
  obtain ⟨taken, dropped⟩ := span_digits wholeDigits behind
  have read : (whole.isEmpty && (f?.getD []).isEmpty) = false := by
    rw [Bool.eq_false_iff]
    intro empty
    rw [Bool.and_eq_true, List.isEmpty_iff, List.isEmpty_iff] at empty
    exact ne (by rw [empty.1, empty.2]; rfl)
  have fraction : splitFraction (Numeral.fractionText f? ++ Exponent.textOf x?) =
      (f?.getD [], Exponent.textOf x?) :=
    splitFraction_append fractionDigits fun c hc => not_of_mem_head?_textOf hc
  simp only [ofChars?, Numeral.text, splitSign_append sign unsigned, taken, dropped, fraction, read,
    exponentOf?_textOf]
  rfl

/-- What is read as a number is written as a numeral. -/
lemma exists_numeral {text : List Char} {d : Decimal} (h : ofChars? text = some d) :
    ∃ n : Numeral, n.text = text := by
  simp only [ofChars?] at h
  split_ifs at h with empty
  obtain ⟨e, he, _⟩ := Option.map_eq_some_iff.mp h
  obtain ⟨sign, signed⟩ := exists_sign text
  obtain ⟨f?, pointed, fraction, fractionDigits⟩ :=
    exists_fraction ((splitSign text).2.dropWhile Char.isDigit)
  obtain ⟨x?, marked⟩ := exists_exponent he
  have ne : (splitSign text).2.takeWhile Char.isDigit ++ f?.getD [] ≠ [] := by
    intro none
    obtain ⟨whole, rest⟩ := List.append_eq_nil_iff.mp none
    rw [fraction] at rest
    exact empty (by rw [whole, rest]; rfl)
  refine ⟨⟨sign, _, f?, x?, fun c hc => List.mem_takeWhile_imp hc, fractionDigits, ne⟩, ?_⟩
  rw [Numeral.text, marked, pointed, List.takeWhile_append_dropWhile, signed]

/-- What is read is a numeral, and it is read as the decimal that its parts make. -/
lemma ofChars?_eq_some_iff {text : List Char} {d : Decimal} :
    ofChars? text = some d ↔ ∃ n : Numeral, n.text = text ∧ n.decimal = d := by
  constructor
  · intro h
    obtain ⟨n, rfl⟩ := exists_numeral h
    exact ⟨n, rfl, Option.some.inj ((ofChars?_text n).symm.trans h)⟩
  · rintro ⟨n, rfl, rfl⟩
    exact ofChars?_text n

end Decimal

/-! ## Points -/

/-- A sign has no point. -/
lemma Sign.point_not_mem (s : Sign) : '.' ∉ s.text := by
  cases s <;> decide

/-- Nor have digits. -/
lemma point_not_mem_of_digits {digits : List Char} (hd : ∀ c ∈ digits, c.isDigit) :
    '.' ∉ digits := by
  intro hm
  exact (Decimal.ne_of_isDigit (hd _ hm)).2.2 rfl

/-- Nor has an exponent. -/
lemma Exponent.point_not_mem (x? : Option Exponent) : '.' ∉ textOf x? := by
  cases x? with
  | none => exact List.not_mem_nil
  | some x =>
    intro hm
    rcases List.mem_cons.mp hm with mark | later
    · have first : '.' ∈ (textOf (some x)).head? := congrArg some mark.symm
      exact (Decimal.not_of_mem_head?_textOf first).2 rfl
    · exact (List.mem_append.mp later).elim x.sign.point_not_mem
        (point_not_mem_of_digits x.areDigits)

/-- A numeral has a point exactly if it has a fraction. -/
lemma Numeral.count_point (n : Numeral) :
    n.text.count '.' = if n.fraction?.isSome then 1 else 0 := by
  have sign := List.count_eq_zero.mpr n.sign.point_not_mem
  have whole := List.count_eq_zero.mpr (point_not_mem_of_digits n.wholeDigits)
  have fraction := List.count_eq_zero.mpr (point_not_mem_of_digits n.fractionDigits)
  have exponent := List.count_eq_zero.mpr (Exponent.point_not_mem n.exponent?)
  simp only [text, List.count_append, sign, whole, exponent]
  cases hf : n.fraction? with
  | none => rfl
  | some digits =>
    rw [hf] at fraction
    simpa [fractionText] using fraction

/-- A readable text has at most one point. -/
lemma Readable.count_point_le {text : List Char} (rd : Readable text) : text.count '.' ≤ 1 := by
  cases rd with
  | numeral n =>
    rw [n.count_point]
    split <;> omega
  | @named s name known =>
    have letters : ∀ known ∈ nonfinite, '.' ∉ known := by decide
    have nowhere : '.' ∉ name := by
      intro hm
      exact letters _ known (List.mem_map.mpr ⟨'.', hm, rfl⟩)
    rw [List.count_append, List.count_eq_zero.mpr s.point_not_mem, List.count_eq_zero.mpr nowhere]
    omega

end FrontEnd
