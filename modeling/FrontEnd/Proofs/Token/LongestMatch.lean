import FrontEnd.Proofs.Token.Shapes

/-!
# Signs are read by longest match

Where a listed character comes next, a scan reads the longest beginning of the text all of whose
beginnings are listed in turn, or a number if the character is a minus in front of a digit. A
lexicon is closed if it lists, with a lexeme that begins with a listed character, all its
beginnings. What a scan reads is then the longest lexeme that the text begins with.

Main statement: `Segment.first?_longest`.
-/

namespace FrontEnd

/-- The longest beginning of a text that has a property. -/
structure Longest (p : List Char → Prop) (text best : List Char) : Prop where
  begins : best <+: text
  holds : p best
  longest {other} : other <+: text → p other → other.length ≤ best.length

/-- To take characters while they fit takes the longest run that fits. -/
lemma longest_takeWhile (p : Char → Bool) (text : List Char) :
    Longest (fun run => ∀ c ∈ run, p c) text (text.takeWhile p) := by
  refine ⟨List.takeWhile_prefix p, fun c => List.mem_takeWhile_imp, ?_⟩
  rintro other ⟨rest, rfl⟩ inside
  rw [List.takeWhile_append_of_pos inside, List.length_append]
  exact Nat.le_add_right _ _

/-- A sign is as long as listed beginnings go on. -/
lemma IsSign.longest {lex : Lexicon} {text after} (sign : IsSign lex text after) :
    Longest lex.Begun (text ++ after) text := by
  refine ⟨List.prefix_append text after, sign.begun, ?_⟩
  intro other begins begun
  by_contra longer
  rw [Nat.not_le] at longer
  -- A longer one would begin with the sign and one more character.
  obtain ⟨rest, rfl⟩ := List.prefix_of_prefix_length_le (List.prefix_append text after) begins
    (Nat.le_of_lt longer)
  cases rest with
  | nil => simp at longer
  | cons d rest =>
    have next : d ∈ after.head? := by
      obtain ⟨later, e⟩ := (List.prefix_append_right_inj text).mp begins
      rw [← e]
      rfl
    have listed := begun text.length longer
    rw [List.take_length_add_append] at listed
    exact sign.maximal d next listed

namespace Lexicon

/-- With a lexeme whose first character is listed, all its beginnings are listed. -/
def Closed (lex : Lexicon) : Prop :=
  ∀ {c tail}, lex.contains (String.ofList (c :: tail)) → lex.contains (String.singleton c) →
    lex.Begun (c :: tail)

/-- A text whose beginnings are all listed is listed. -/
lemma Begun.contains {lex : Lexicon} {text} (begun : lex.Begun text) (ne : text ≠ []) :
    lex.contains (String.ofList text) := by
  obtain ⟨n, e⟩ := Nat.exists_eq_succ_of_ne_zero (List.length_eq_zero_iff.not.mpr ne)
  have whole := begun n (by omega)
  rwa [List.take_of_length_le (by omega)] at whole

/-- In a closed lexicon the longest text with listed beginnings is the longest lexeme. -/
lemma Closed.longest {lex : Lexicon} (cl : lex.Closed) {c text best}
    (listed : lex.contains (String.singleton c)) (ne : best ≠ [])
    (lg : Longest lex.Begun (c :: text) best) :
    Longest (fun lexeme => lex.contains (String.ofList lexeme)) (c :: text) best := by
  refine ⟨lg.begins, lg.holds.contains ne, ?_⟩
  intro other begins known
  cases other with
  | nil => exact Nat.zero_le _
  | cons d tail =>
    obtain rfl : d = c := (List.cons_prefix_cons.mp begins).1
    exact lg.longest begins (cl known listed)

/-- A lexeme of several characters is a word there, or all its beginnings are listed. -/
lemma Separable.closed {lex : Lexicon} (sp : lex.Separable) : lex.Closed := by
  intro c tail known listed
  obtain ⟨kind, hk⟩ := Option.isSome_iff_exists.mp known
  rcases (sp.stands hk).spelled with word | begun
  · have alpha : c.isAlpha := by
      simp only [spellsWord, Bool.and_eq_true] at word
      exact word.1
    rw [contains, sp.unlisted (.inl alpha)] at listed
    cases listed
  · exact begun

end Lexicon

namespace Segment

/-- A listed character begins the longest number after a minus, or else the longest sign. -/
lemma sign_longest {lex : Lexicon} {kind c} (hk : lex.kindOf (String.singleton c) = some kind)
    (text : List Char) :
    let s := (sign lex kind c text).1
    if c = '-' ∧ startsWithDigit text then
      s.kind? = some .number ∧
        ∃ run, s.text = '-' :: run ∧ Longest (fun run => ∀ d ∈ run, isNumberChar d) text run
    else
      (∃ longer, s.kind? = some longer ∧ lex.kindOf (String.ofList s.text) = some longer) ∧
        Longest lex.Begun (c :: text) s.text := by
  intro s
  split
  · rename_i negative
    obtain ⟨rfl, digit⟩ := negative
    have read : s = (number ['-'] text).1 := by
      simp only [s, sign, digit]
      rfl
    rw [read]
    exact ⟨rfl, _, rfl, longest_takeWhile isNumberChar text⟩
  · rename_i positive
    have positive : ¬ (decide (c = '-') && startsWithDigit text) := by simpa using positive
    have read : s = (extend lex kind [c] text).1 := by
      simp only [s, sign, if_neg positive]
    rw [String.singleton_eq_ofList] at hk
    obtain ⟨longer, whole, e, hw⟩ := exists_extend hk text
    have lg := (isSign_extend hk positive).longest
    rw [extend_join] at lg
    rw [read]
    refine ⟨⟨longer, ?_, ?_⟩, lg⟩
    · rw [e]
    · rwa [e]

/-- Where a listed character comes next, a scan reads the longest number after a minus, or else the
longest text with listed beginnings, and goes on behind it. In a closed lexicon, such as the
standard one, that is the longest lexeme. -/
theorem first?_longest :
    Lexicon.standard.Closed ∧
    ∀ {lex : Lexicon} {c}, lex.contains (String.singleton c) → ∀ rule text, ∃ s after,
      first? lex rule c text = some (s, after) ∧ s.text ++ after = c :: text ∧
      (∀ {source ss}, Cuts lex rule source ss (c :: text) →
        lex.segments rule source = (lex.segments rule after).map (ss ++ [s] ++ ·)) ∧
      if c = '-' ∧ startsWithDigit text then
        s.kind? = some .number ∧
          ∃ run, s.text = '-' :: run ∧ Longest (fun run => ∀ d ∈ run, isNumberChar d) text run
      else
        s.text ≠ [] ∧
        (∃ kind, s.kind? = some kind ∧ lex.kindOf (String.ofList s.text) = some kind) ∧
        Longest lex.Begun (c :: text) s.text ∧
        (lex.Closed →
          Longest (fun lexeme => lex.contains (String.ofList lexeme)) (c :: text) s.text) := by
  refine ⟨Lexicon.standard_separable.closed, ?_⟩
  intro lex c listed rule text
  obtain ⟨kind, hk⟩ := Option.isSome_iff_exists.mp listed
  have read : first? lex rule c text = some (sign lex kind c text) := first?_eq_sign hk text
  have shape := sign_longest hk text
  refine ⟨_, _, read, sign_join lex kind c text, ?_, ?_⟩
  · intro source ss ct
    exact (ct.append (.cons read .nil)).segments_append
  · dsimp only at shape
    split at shape
    · rename_i negative
      rw [if_pos negative]
      exact shape
    · rename_i positive
      obtain ⟨known, lg⟩ := shape
      have ne := sign_text_ne_nil lex kind c text
      rw [if_neg positive]
      exact ⟨ne, known, lg, fun cl => cl.longest listed ne lg⟩

end Segment

/-- Signs of which the longest has a beginning that is not listed, and a minus with a digit. -/
def gapped : List Lexicon.Operation :=
  [.insert "<", .insert "<é", .insert "<é==", .insert "-", .insert "-5x"]

/-- The sign stops at the gap, and the minus begins a number although a longer lexeme is listed. In
the standard lexicon the arrow is the longest lexeme. -/
theorem gapped_first?_longest :
    let lex := Lexicon.empty.after gapped
    (lex.contains (String.singleton '<') ∧ ∃ s after,
      Segment.first? lex .matchOpening '<' "é==".toList = some (s, after) ∧
      s.text = "<é".toList ∧ Longest lex.Begun "<é==".toList s.text) ∧
    (lex.contains (String.singleton '-') ∧ ∃ s after,
      Segment.first? lex .matchOpening '-' "5x".toList = some (s, after) ∧
      s.kind? = some .number ∧ s.text = "-5".toList) ∧
    Lexicon.standard.contains (String.singleton '=') ∧ ∃ s after,
      Segment.first? .standard .preferSingle '=' ">=".toList = some (s, after) ∧
      s.text = "=>".toList ∧
      Longest (fun lexeme => Lexicon.standard.contains (String.ofList lexeme)) "=>=".toList
        s.text := by
  intro lex
  -- One evaluation for all facts, since each would build the listings anew.
  have facts : lex.contains (String.singleton '<') ∧ lex.contains (String.singleton '-') ∧
      Lexicon.standard.contains (String.singleton '=') ∧
      Segment.first? lex .matchOpening '<' "é==".toList =
        some (⟨some ⟨17⟩, "<é".toList⟩, "==".toList) ∧
      Segment.first? lex .matchOpening '-' "5x".toList =
        some (⟨some .number, "-5".toList⟩, "x".toList) ∧
      Segment.first? .standard .preferSingle '=' ">=".toList =
        some (⟨some ⟨57⟩, "=>".toList⟩, "=".toList) := by
    decide +kernel
  obtain ⟨less, minus, equals, sign, number, arrow⟩ := facts
  obtain ⟨closed, longest⟩ := Segment.first?_longest
  refine ⟨⟨less, ?_⟩, ⟨minus, ?_⟩, equals, ?_⟩
  · obtain ⟨s, after, read, -, -, shape⟩ := longest less .matchOpening "é==".toList
    cases read.symm.trans sign
    rw [if_neg (by decide)] at shape
    exact ⟨_, _, read, rfl, shape.2.2.1⟩
  · obtain ⟨s, after, read, -, -, shape⟩ := longest minus .matchOpening "5x".toList
    cases read.symm.trans number
    rw [if_pos (by decide)] at shape
    exact ⟨_, _, read, shape.1, rfl⟩
  · obtain ⟨s, after, read, -, -, shape⟩ := longest equals .preferSingle ">=".toList
    cases read.symm.trans arrow
    rw [if_neg (by decide)] at shape
    exact ⟨_, _, read, rfl, shape.2.2.2 closed⟩

end FrontEnd
