import FrontEnd.Proofs.Lexicon.Operations

/-!
# New kinds are fresh

The kind that a new lexeme gets is above every kind that any lexeme has had before, also one that
has another kind since. An operation that gives a lexeme a kind moves the next kind above it, and
never back (`Lexicon.perform_of_assigns`), at the greatest code by leaving none.

Main statement: `Lexicon.after_fresh`.
-/

namespace FrontEnd

namespace TokenKind

/-- The later of two kinds has the greater code. -/
lemma code_later (a b : TokenKind) :
    (a.later b).code.toNat = max a.code.toNat b.code.toNat := by
  unfold later
  split
  · rename_i lt
    rw [UInt16.lt_iff_toNat_lt] at lt
    exact (Nat.max_eq_right (Nat.le_of_lt lt)).symm
  · rename_i ge
    rw [UInt16.lt_iff_toNat_lt, Nat.not_lt] at ge
    exact (Nat.max_eq_left ge).symm

end TokenKind

namespace Lexicon

/-- A kind that is taken is below the next one, which does not fall. -/
lemma nextAbove_eq_some {next kind n} (h : nextAbove next kind = some n) :
    kind.code.toNat < n.code.toNat ∧ ∃ m, next = some m ∧ m.code.toNat ≤ n.code.toNat := by
  unfold nextAbove at h
  split at h
  · rename_i m k hk
    cases h
    have succ := TokenKind.code_next? hk
    rw [TokenKind.code_later]
    exact ⟨by omega, m, rfl, by omega⟩
  · cases h

/-- The next kind itself is taken as any other one would be. -/
lemma nextAbove_self (kind : TokenKind) : nextAbove (some kind) kind = kind.next? := by
  unfold nextAbove
  cases hk : kind.next? with
  | none => rfl
  | some k =>
    have succ := TokenKind.code_next? hk
    have lt : kind.code < k.code := by
      rw [UInt16.lt_iff_toNat_lt]
      omega
    dsimp only
    rw [TokenKind.later, if_pos lt]

/-! ## What an operation does -/

/-- A lexeme is listed, or it is new and gets the next kind, if there is one. -/
lemma insert_cases (lex : Lexicon) (lexeme : String) :
    (∃ kind, lex.kindOf lexeme = some kind ∧ lex.insert lexeme = (.ok kind, lex)) ∨
      lex.kindOf lexeme = none ∧
        (lex.next = none ∧ lex.insert lexeme = (.error (.exhausted lexeme), lex) ∨
          ∃ kind, lex.next = some kind ∧ lex.insert lexeme = (.ok kind, { lex with
            listing := assign lexeme kind lex.listing
            next := nextAbove lex.next kind })) := by
  unfold insert
  cases lex.kindOf lexeme with
  | some kind => exact .inl ⟨kind, rfl, rfl⟩
  | none =>
    refine .inr ⟨rfl, ?_⟩
    cases lex.next with
    | none => exact .inl ⟨rfl, rfl⟩
    | some kind => exact .inr ⟨kind, rfl, by rw [nextAbove_self]⟩

/-- A new lexeme that gets a kind gets the next one. -/
lemma insert_of_new {lex : Lexicon} {lexeme kind} (new : lex.kindOf lexeme = none)
    (ok : (lex.insert lexeme).1 = .ok kind) :
    lex.next = some kind ∧ lex.insert lexeme = (.ok kind, { lex with
      listing := assign lexeme kind lex.listing
      next := nextAbove lex.next kind }) := by
  obtain ⟨_, listed, _⟩ | ⟨_, ⟨_, e⟩ | ⟨_, next, e⟩⟩ := lex.insert_cases lexeme
  · cases new.symm.trans listed
  · rw [e] at ok
    cases ok
  · rw [e] at ok
    cases ok
    exact ⟨next, e⟩

/-- A kind is reserved and refused, or it is given to the lexeme. -/
lemma insertWith_cases (lex : Lexicon) (lexeme : String) (kind : TokenKind) :
    kind.isReserved ∧ lex.insertWith lexeme kind = (.error (.reserved kind), lex) ∨
      ¬ kind.isReserved ∧ lex.insertWith lexeme kind = (.ok (), { lex with
        listing := assign lexeme kind lex.listing
        next := nextAbove lex.next kind }) := by
  unfold insertWith
  split
  · rename_i reserved
    exact .inl ⟨reserved, rfl⟩
  · rename_i free
    exact .inr ⟨free, rfl⟩

/-- An operation that gives a lexeme a kind enters it and takes the kind, and does no more. -/
lemma perform_of_assigns {lex : Lexicon} {op lexeme kind} (as : lex.Assigns op lexeme kind) :
    lex.perform op = { lex with
      listing := assign lexeme kind lex.listing
      next := nextAbove lex.next kind } := by
  cases as with
  | insert new ok => rw [perform, (insert_of_new new ok).2]
  | insertWith ok =>
    obtain ⟨_, e⟩ | ⟨_, e⟩ := lex.insertWith_cases lexeme kind
    · rw [e] at ok
      cases ok
    · rw [perform, e]

/-- An operation drops a kind, changes nothing, or gives a kind to a lexeme. -/
lemma perform_cases (lex : Lexicon) (op : Operation) :
    (∃ kind, op = .ignore kind) ∨ lex.perform op = lex ∨
      ∃ lexeme kind, lex.Assigns op lexeme kind := by
  cases op with
  | insert lexeme =>
    obtain ⟨_, _, e⟩ | ⟨new, ⟨_, e⟩ | ⟨kind, _, e⟩⟩ := lex.insert_cases lexeme
    · exact .inr (.inl (by rw [perform, e]))
    · exact .inr (.inl (by rw [perform, e]))
    · exact .inr (.inr ⟨lexeme, kind, .insert new (by rw [e])⟩)
  | insertWith lexeme kind =>
    obtain ⟨_, e⟩ | ⟨_, e⟩ := lex.insertWith_cases lexeme kind
    · exact .inr (.inl (by rw [perform, e]))
    · exact .inr (.inr ⟨lexeme, kind, .insertWith (by rw [e])⟩)
  | ignore kind => exact .inl ⟨kind, rfl⟩

/-- The next kind does not fall. -/
lemma next_perform {lex : Lexicon} {op n} (h : (lex.perform op).next = some n) :
    ∃ m, lex.next = some m ∧ m.code.toNat ≤ n.code.toNat := by
  obtain ⟨_, rfl⟩ | e | ⟨_, _, as⟩ := lex.perform_cases op
  · exact ⟨n, h, Nat.le_refl _⟩
  · rw [e] at h
    exact ⟨n, h, Nat.le_refl _⟩
  · rw [perform_of_assigns as] at h
    exact (nextAbove_eq_some h).2

/-- The next kind does not fall in a run, and does not come back once it is gone. -/
lemma next_after {lex : Lexicon} {ops n} (h : (lex.after ops).next = some n) :
    ∃ m, lex.next = some m ∧ m.code.toNat ≤ n.code.toNat := by
  induction ops generalizing lex with
  | nil => exact ⟨n, h, Nat.le_refl _⟩
  | cons op ops ih =>
    obtain ⟨k, hk, le⟩ := ih h
    obtain ⟨m, hm, le'⟩ := next_perform hk
    exact ⟨m, hm, Nat.le_trans le' le⟩

/-! ## Kinds below the next one -/

/-- Every kind that a lexeme has is below the next one. -/
def Below (lex : Lexicon) : Prop :=
  ∀ lexeme kind n, lex.kindOf lexeme = some kind → lex.next = some n →
    kind.code.toNat < n.code.toNat

namespace Below

/-- An empty lexicon has no kinds that could be too great. -/
lemma empty : Below .empty := by
  intro lexeme kind n hk
  cases hk

/-- An operation keeps all kinds below the next one. -/
lemma perform {lex : Lexicon} (bl : lex.Below) (op : Operation) : (lex.perform op).Below := by
  intro other kind n hk hn
  obtain ⟨_, rfl⟩ | e | ⟨lexeme, given, as⟩ := lex.perform_cases op
  · exact bl other kind n hk hn
  · rw [e] at hk hn
    exact bl other kind n hk hn
  · rw [perform_of_assigns as] at hk hn
    obtain ⟨lt, m, hm, le⟩ := nextAbove_eq_some hn
    rw [kindOf, kindIn_assign] at hk
    split at hk
    · cases hk
      exact lt
    · -- The other lexemes have kinds below the old next one, which is no greater than the new.
      exact Nat.lt_of_lt_of_le (bl other kind m hk hm) le

/-- So does a run of operations. -/
lemma after {lex : Lexicon} (bl : lex.Below) (ops : List Operation) : (lex.after ops).Below := by
  induction ops generalizing lex with
  | nil => exact bl
  | cons op ops ih => exact ih (bl.perform op)

/-- So it is for the standard lexicon. -/
lemma standard : Below .standard := by
  obtain ⟨ops, e⟩ := exists_standard
  rw [e]
  exact empty.after ops

end Below

/-! ## Kinds of the past -/

/-- A kind that a lexeme has, or has had, at some moment of a run. -/
def Held (start : Lexicon) (ops : List Operation) (kind : TokenKind) : Prop :=
  ∃ earlier lexeme, earlier <+: ops ∧ (start.after earlier).kindOf lexeme = some kind

/-- Every kind of the past is below the next one. -/
lemma Below.held {start : Lexicon} (bl : start.Below) {ops kind n} (hd : start.Held ops kind)
    (hn : (start.after ops).next = some n) : kind.code.toNat < n.code.toNat := by
  obtain ⟨earlier, lexeme, ⟨later, rfl⟩, hk⟩ := hd
  rw [after_append] at hn
  obtain ⟨m, hm, le⟩ := next_after hn
  exact Nat.lt_of_lt_of_le (bl.after earlier lexeme kind m hk hm) le

/-- Over any run of operations no lexeme ever has a reserved kind, a new lexeme gets a kind that no
lexeme has had, and a lexeme that is listed keeps its kind. -/
theorem after_fresh {start : Lexicon} (base : start = .empty ∨ start = .standard)
    (ops : List Operation) :
    (∀ kind, start.Held ops kind → 16 ≤ kind.code.toNat) ∧
    (∀ lexeme kind extended, (start.after ops).kindOf lexeme = none →
      (start.after ops).insert lexeme = (.ok kind, extended) →
        (∀ held, start.Held ops held → kind ≠ held) ∧
        extended = start.after (ops ++ [.insert lexeme]) ∧
        extended.kindOf lexeme = some kind) ∧
    ∀ lexeme kind, (start.after ops).kindOf lexeme = some kind →
      (start.after ops).insert lexeme = (.ok kind, start.after ops) := by
  obtain ⟨ur, bl⟩ : start.Unreserved ∧ start.Below := by
    rcases base with e | e
    · rw [e]
      exact ⟨.empty, .empty⟩
    · rw [e]
      exact ⟨.standard, .standard⟩
  refine ⟨?_, ?_, ?_⟩
  · rintro kind ⟨earlier, lexeme, -, hk⟩
    have free := (ur.after earlier).listed hk
    rw [TokenKind.isReserved_iff] at free
    omega
  · intro lexeme kind extended new ok
    have made : extended = start.after (ops ++ [.insert lexeme]) := by
      rw [after_append]
      show _ = ((start.after ops).insert lexeme).2
      rw [ok]
    obtain ⟨next, done⟩ := insert_of_new new (by rw [ok])
    cases ok.symm.trans done
    refine ⟨?_, made, ?_⟩
    · rintro held hd rfl
      exact Nat.lt_irrefl _ (bl.held hd next)
    · rw [kindOf, kindIn_assign, if_pos rfl]
  · intro lexeme kind listed
    rw [insert, listed]

end Lexicon

/-- A lexeme that is given a high kind and then a low one, a refused kind, and the greatest kind but
one. -/
def regiven : List Lexicon.Operation :=
  [.insertWith "a" ⟨300⟩, .insertWith "a" ⟨20⟩, .insertWith "b" .string, .insert "b",
    .insertWith "c" ⟨65534⟩]

/-- The high kind is not handed out again, the new lexeme gets the greatest kind, and the lexeme
that is listed keeps its low one. -/
theorem regiven_after_fresh :
    let lex := Lexicon.standard.after regiven
    (∃ kind extended, lex.kindOf "d" = none ∧ lex.insert "d" = (.ok kind, extended) ∧
      kind = ⟨65535⟩ ∧ ∀ held, Lexicon.standard.Held regiven held → kind ≠ held) ∧
    Lexicon.standard.Held regiven ⟨300⟩ ∧ lex.kindOf "b" = some ⟨301⟩ ∧
    lex.insert "a" = (.ok ⟨20⟩, lex) := by
  intro lex
  -- One evaluation for all facts, since each would build the listing anew.
  have facts : lex.kindOf "d" = none ∧ lex.next = some ⟨65535⟩ ∧ lex.kindOf "a" = some ⟨20⟩ ∧
      (Lexicon.standard.after (regiven.take 1)).kindOf "a" = some ⟨300⟩ ∧
      lex.kindOf "b" = some ⟨301⟩ := by
    decide +kernel
  obtain ⟨new, next, low, high, second⟩ := facts
  obtain ⟨-, fresh, keeps⟩ := Lexicon.after_fresh (.inr rfl) regiven
  have ok : ∃ extended, lex.insert "d" = (.ok ⟨65535⟩, extended) := by
    rw [Lexicon.insert, new, next]
    exact ⟨_, rfl⟩
  obtain ⟨extended, ok⟩ := ok
  refine ⟨⟨⟨65535⟩, extended, new, ok, rfl, (fresh "d" _ _ new ok).1⟩, ?_, second, keeps "a" _ low⟩
  exact ⟨regiven.take 1, "a", List.take_prefix 1 regiven, high⟩

end FrontEnd
