import FrontEnd.Proofs.Lexicon.Freshness
import FrontEnd.Proofs.Token.Cuts
import FrontEnd.Token.Scan

/-!
# A scan asks about its source alone

Whatever a scan looks up in its lexicon stands somewhere in the source: a character, a word, or a
sign that is about to grow. So lexicons that agree on the lexemes of a source, and drop the same
kinds, scan it alike, and entering lexemes that do not occur in it changes nothing.

Main statement: `Lexicon.scan_local`.
-/

namespace FrontEnd

/-- A lexeme that is not empty and stands somewhere in a text. -/
def Occurs (text : List Char) (lexeme : String) : Prop :=
  lexeme ≠ "" ∧ lexeme.toList <:+: text

instance (text : List Char) (lexeme : String) : Decidable (Occurs text lexeme) :=
  inferInstanceAs (Decidable (_ ∧ _))

namespace Lexicon

/-- Two lexicons give the same kinds to all that occurs in a text. -/
def AgreeOn (text : List Char) (lex other : Lexicon) : Prop :=
  ∀ lexeme, Occurs text lexeme → lex.kindOf lexeme = other.kindOf lexeme

/-- An operation that enters a lexeme which does not occur in a text. -/
def Operation.Misses (text : List Char) : Operation → Prop
  | .insert lexeme => ¬ Occurs text lexeme
  | .insertWith lexeme _ => ¬ Occurs text lexeme
  | .ignore _ => False

instance (text : List Char) : (op : Operation) → Decidable (op.Misses text)
  | .insert lexeme => inferInstanceAs (Decidable (¬ Occurs text lexeme))
  | .insertWith lexeme _ => inferInstanceAs (Decidable (¬ Occurs text lexeme))
  | .ignore _ => inferInstanceAs (Decidable False)

namespace AgreeOn

variable {lex other : Lexicon} {text : List Char}

/-- Lexicons that agree on a text give its parts the same kinds. -/
lemma kindOf_eq (ag : AgreeOn text lex other) {part} (ne : part ≠ []) (inside : part <:+: text) :
    lex.kindOf (String.ofList part) = other.kindOf (String.ofList part) := by
  apply ag
  rw [Occurs, String.toList_ofList]
  exact ⟨by simpa using ne, inside⟩

/-- Lexicons that agree on a text agree on its parts. -/
lemma mono (ag : AgreeOn text lex other) {rest} (inside : rest <:+: text) :
    AgreeOn rest lex other := by
  intro lexeme occurs
  exact ag lexeme ⟨occurs.1, occurs.2.trans inside⟩

end AgreeOn

end Lexicon

/-! ## Readers -/

namespace Segment

variable {lex other : Lexicon} {c : Char} {text : List Char}

/-- The same word is read with both. -/
lemma word_local (ag : Lexicon.AgreeOn (c :: text) lex other) :
    word lex c text = word other c text := by
  have spelling : c :: text.takeWhile isWordChar <+: c :: text :=
    List.cons_prefix_cons.mpr ⟨rfl, List.takeWhile_prefix _⟩
  rw [word, word, ag.kindOf_eq (by simp) spelling.isInfix]

/-- A sign is asked about with the next character, which is the next one of the text. -/
lemma extend_local {lexeme} (ag : Lexicon.AgreeOn (lexeme ++ text) lex other) (kind : TokenKind) :
    extend lex kind lexeme text = extend other kind lexeme text := by
  induction text generalizing kind lexeme with
  | nil => rfl
  | cons c text ih =>
    have longer : lexeme ++ c :: text = lexeme ++ [c] ++ text := by simp
    rw [longer] at ag
    rw [extend, extend, ag.kindOf_eq (by simp) (List.prefix_append _ _).isInfix]
    cases other.kindOf (String.ofList (lexeme ++ [c])) with
    | none => rfl
    | some kind => exact ih ag kind

/-- The same sign is read with both. -/
lemma sign_local (ag : Lexicon.AgreeOn (c :: text) lex other) (kind : TokenKind) :
    sign lex kind c text = sign other kind c text := by
  have grows : extend lex kind [c] text = extend other kind [c] text := extend_local ag kind
  rw [sign, sign, grows]

/-- The first segment depends on the lexemes that occur in the text. -/
lemma first?_local (ag : Lexicon.AgreeOn (c :: text) lex other) (rule : QuoteRule) :
    first? lex rule c text = first? other rule c text := by
  have single : lex.kindOf (String.singleton c) = other.kindOf (String.singleton c) := by
    rw [String.singleton_eq_ofList]
    exact ag.kindOf_eq (by simp) (List.cons_prefix_cons.mpr ⟨rfl, List.nil_prefix⟩).isInfix
  rw [first?, first?, single, word_local ag]
  cases other.kindOf (String.singleton c) with
  | none => rfl
  | some kind => exact congrArg some (sign_local ag kind)

end Segment

/-! ## Scans -/

namespace Lexicon

/-- A text is cut into the same segments with both. -/
lemma segments_local {lex other : Lexicon} {text} (ag : AgreeOn text lex other)
    (rule : QuoteRule) : lex.segments rule text = other.segments rule text :=
  segments_congr (fun ag behind => AgreeOn.mono ag behind.isInfix)
    (fun ag => Segment.first?_local ag rule) ag

/-- Lexicons that drop the same kinds keep the same tokens. -/
lemma token?_congr {lex other : Lexicon}
    (same : ∀ kind, lex.isIgnored kind = other.isIgnored kind) : lex.token? = other.token? := by
  funext x
  rw [token?, token?]
  cases x.1.kind? with
  | none => rfl
  | some kind =>
    dsimp only
    rw [same]

/-- Lexicons that drop the same kinds and agree on a source scan it alike. -/
lemma scan_congr {lex other : Lexicon} {source : String}
    (same : ∀ kind, lex.isIgnored kind = other.isIgnored kind)
    (ag : AgreeOn source.toList lex other) (rule : QuoteRule) :
    lex.scan rule source = other.scan rule source := by
  rw [scan, scan, segments_local ag, token?_congr same]

/-- Entering a lexeme that does not occur in a text leaves all that does as it was. -/
lemma Operation.Misses.perform {op : Operation} {text} (ms : op.Misses text) (lex : Lexicon) :
    (lex.perform op).ignored = lex.ignored ∧ AgreeOn text (lex.perform op) lex := by
  obtain ⟨_, rfl⟩ | e | ⟨lexeme, kind, as⟩ := lex.perform_cases op
  · cases ms
  · rw [e]
    exact ⟨rfl, fun _ _ => rfl⟩
  · have missing : ¬ Occurs text lexeme := by
      cases as with
      | insert => exact ms
      | insertWith => exact ms
    rw [perform_of_assigns as]
    refine ⟨rfl, fun other occurs => ?_⟩
    have ne : other ≠ lexeme := fun e => missing (e ▸ occurs)
    rw [kindOf, kindIn_assign, if_neg ne]
    rfl

/-- An operation that misses a source does not change its tokens. -/
lemma scan_perform {op : Operation} {source : String} (ms : op.Misses source.toList)
    (lex : Lexicon) (rule : QuoteRule) :
    (lex.perform op).scan rule source = lex.scan rule source := by
  obtain ⟨dropped, ag⟩ := ms.perform lex
  refine scan_congr (fun kind => ?_) ag rule
  rw [isIgnored, dropped, isIgnored]

/-- Nor does a run of such operations. -/
lemma scan_after {ops : List Operation} {source : String}
    (missing : ∀ op ∈ ops, Operation.Misses source.toList op) (lex : Lexicon) (rule : QuoteRule) :
    (lex.after ops).scan rule source = lex.scan rule source := by
  induction ops generalizing lex with
  | nil => rfl
  | cons op ops ih =>
    have later : ∀ op ∈ ops, Operation.Misses source.toList op :=
      fun op hop => missing op (List.mem_cons_of_mem _ hop)
    calc (lex.after (op :: ops)).scan rule source
      _ = (lex.perform op).scan rule source := ih later (lex.perform op)
      _ = lex.scan rule source := scan_perform (missing op List.mem_cons_self) lex rule

/-- Two lexicons that drop the same kinds, and give the same kinds to all that occurs in a source,
scan it alike. In particular, operations that enter lexemes which do not occur in it, or fail to,
never change its scan. -/
theorem scan_local {source : String} :
    (∀ {lex other : Lexicon}, (∀ kind, lex.isIgnored kind = other.isIgnored kind) →
      AgreeOn source.toList lex other → ∀ rule, lex.scan rule source = other.scan rule source) ∧
    ∀ {ops}, (∀ op ∈ ops, Operation.Misses source.toList op) → ∀ (lex : Lexicon) rule,
      (lex.after ops).scan rule source = lex.scan rule source :=
  ⟨scan_congr, scan_after⟩

end Lexicon

/-- A longer arrow, a word that is refused a reserved kind, the empty text, the greatest kind, and a
lexeme for which no kind is left. -/
def elsewhere : List Lexicon.Operation :=
  [.insert "=>=", .insertWith "lets" .number, .insertWith "" ⟨40⟩, .insertWith "=<" ⟨65535⟩,
    .insert "5."]

/-- None of these occurs in the source. Two lexicons that differ in a lexeme which does not occur in
it, and in their next kind, scan it alike too. -/
theorem elsewhere_scan_local :
    (Lexicon.standard.after elsewhere).scan .matchOpening "let x=>'=>'5" =
      Lexicon.standard.scan .matchOpening "let x=>'=>'5" ∧
    let lex : Lexicon := ⟨[("==", ⟨17⟩), ("=", ⟨16⟩)], [], none⟩
    let other : Lexicon := ⟨[("=", ⟨16⟩)], [], some ⟨16⟩⟩
    lex.kindOf "==" ≠ other.kindOf "==" ∧
      lex.scan .preferSingle "a= =b" = other.scan .preferSingle "a= =b" := by
  have missing : ∀ op ∈ elsewhere, Lexicon.Operation.Misses "let x=>'=>'5".toList op := by
    decide +kernel
  refine ⟨Lexicon.scan_local.2 missing .standard .matchOpening, ?_⟩
  intro lex other
  have same : ∀ kind, lex.isIgnored kind = other.isIgnored kind := fun _ => rfl
  have agree : Lexicon.AgreeOn "a= =b".toList lex other := by
    intro lexeme occurs
    have ne : "==" ≠ lexeme := by
      rintro rfl
      exact absurd occurs (by decide +kernel)
    simp [lex, other, Lexicon.kindOf, Lexicon.kindIn, ne]
  exact ⟨by decide +kernel, Lexicon.scan_local.1 same agree .preferSingle⟩

end FrontEnd
