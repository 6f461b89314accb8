import FrontEnd.Proofs.Lexicon.Freshness

/-!
# When kinds run out

The code of the next kind is a number that may also be one beyond the greatest code, when no kind is
left. After any run of operations it is the least number above all codes that have been given away
(`Lexicon.nextCode_after_le_iff`). So a new lexeme is refused from the moment when the greatest code
is given away, by whichever operation, and not before. A refused operation changes nothing.

Main statement: `Lexicon.after_refuses`.
-/

namespace FrontEnd

namespace TokenKind

/-- The kind with the greatest code. -/
def last : TokenKind := ⟨65535⟩

/-- The last kind is the one with the greatest code of sixteen bits. -/
lemma eq_last_iff {k : TokenKind} : k = last ↔ k.code.toNat = 65535 := by
  constructor
  · rintro rfl
    rfl
  · intro e
    obtain ⟨code⟩ := k
    have same : code = 65535 := UInt16.toNat_inj.mp e
    rw [same, last]

/-- It is the only one that no kind follows. -/
lemma next?_eq_none_iff {k : TokenKind} : k.next? = none ↔ k = last := by
  obtain ⟨code⟩ := k
  rw [next?, last, mk.injEq]
  split
  · rename_i e
    exact iff_of_true rfl e
  · rename_i ne
    exact iff_of_false nofun ne

end TokenKind

namespace Lexicon

/-- The code of the next kind, or the number behind the greatest code if no kind is left. -/
def nextCode (lex : Lexicon) : Nat :=
  lex.next.elim 65536 fun kind => kind.code.toNat

/-- A kind that an operation of a run has given to a lexeme. -/
def Assigned (start : Lexicon) (ops : List Operation) (kind : TokenKind) : Prop :=
  ∃ earlier op later lexeme, ops = earlier ++ op :: later ∧
    (start.after earlier).Assigns op lexeme kind

/-- An operation fails with an error. -/
inductive Refuses (lex : Lexicon) : Operation → LexiconError → Prop where
  | insert {lexeme e} :
    (lex.insert lexeme).1 = .error e →
    Refuses lex (.insert lexeme) e
  | insertWith {lexeme kind e} :
    (lex.insertWith lexeme kind).1 = .error e →
    Refuses lex (.insertWith lexeme kind) e

/-! ## The next code -/

/-- The next code is at most one beyond the greatest. -/
lemma nextCode_le (lex : Lexicon) : lex.nextCode ≤ 65536 := by
  unfold nextCode
  cases lex.next with
  | none => exact Nat.le_refl _
  | some kind => exact Nat.le_of_lt kind.code.toNat_lt

/-- No kind is left exactly if the next code is beyond the greatest. -/
lemma next_eq_none_iff {lex : Lexicon} : lex.next = none ↔ lex.nextCode = 65536 := by
  unfold nextCode
  cases lex.next with
  | none => exact iff_of_true rfl rfl
  | some kind => exact iff_of_false nofun (Nat.ne_of_lt kind.code.toNat_lt)

/-- The next code moves above the one that is given away, as it would in numbers without a bound. -/
lemma nextCode_of_assigns {lex : Lexicon} {op lexeme kind} (as : lex.Assigns op lexeme kind) :
    (lex.perform op).nextCode = max lex.nextCode (kind.code.toNat + 1) := by
  rw [perform_of_assigns as]
  show (nextAbove lex.next kind).elim 65536 _ = _
  unfold nextCode nextAbove
  cases lex.next with
  | none =>
    have := kind.code.toNat_lt
    simp only [Option.elim]
    omega
  | some next =>
    cases hk : kind.next? with
    | none =>
      have := next.code.toNat_lt
      have := TokenKind.eq_last_iff.mp (TokenKind.next?_eq_none_iff.mp hk)
      simp only [Option.elim]
      omega
    | some above =>
      simp only [Option.elim]
      rw [TokenKind.code_later, TokenKind.code_next? hk]

/-- A new lexeme gets the next code. -/
lemma code_of_assigns_insert {lex : Lexicon} {lexeme kind}
    (as : lex.Assigns (.insert lexeme) lexeme kind) : kind.code.toNat = lex.nextCode := by
  cases as with
  | insert new ok =>
    rw [nextCode, (insert_of_new new ok).1, Option.elim]

/-- An operation takes the next code no further than the codes that it assigns. -/
lemma nextCode_perform_le_iff {lex : Lexicon} {op n} :
    (lex.perform op).nextCode ≤ n ↔
      lex.nextCode ≤ n ∧ ∀ lexeme kind, lex.Assigns op lexeme kind → kind.code.toNat < n := by
  constructor
  · intro le
    have above : ∀ lexeme kind, lex.Assigns op lexeme kind → kind.code.toNat < n := by
      intro lexeme kind as
      rw [nextCode_of_assigns as] at le
      omega
    refine ⟨?_, above⟩
    obtain ⟨_, rfl⟩ | e | ⟨_, _, as⟩ := lex.perform_cases op
    · exact le
    · rwa [e] at le
    · rw [nextCode_of_assigns as] at le
      omega
  · rintro ⟨le, above⟩
    obtain ⟨_, rfl⟩ | e | ⟨_, _, as⟩ := lex.perform_cases op
    · exact le
    · rwa [e]
    · have := above _ _ as
      rw [nextCode_of_assigns as]
      omega

/-! ## Runs -/

/-- A kind is assigned in a run if the first operation or a later one does so. -/
lemma assigned_cons {start : Lexicon} {op ops kind} :
    start.Assigned (op :: ops) kind ↔
      (∃ lexeme, start.Assigns op lexeme kind) ∨ (start.perform op).Assigned ops kind := by
  constructor
  · rintro ⟨earlier, other, later, lexeme, e, as⟩
    cases earlier with
    | nil =>
      cases e
      exact .inl ⟨lexeme, as⟩
    | cons first earlier =>
      cases e
      exact .inr ⟨earlier, other, later, lexeme, rfl, as⟩
  · rintro (⟨lexeme, as⟩ | ⟨earlier, other, later, lexeme, rfl, as⟩)
    · exact ⟨[], op, ops, lexeme, rfl, as⟩
    · exact ⟨op :: earlier, other, later, lexeme, rfl, as⟩

/-- After a run the next code is the least one, from the first next code on, above all codes that
have been given away. -/
lemma nextCode_after_le_iff {start : Lexicon} {ops n} :
    (start.after ops).nextCode ≤ n ↔
      start.nextCode ≤ n ∧ ∀ kind, start.Assigned ops kind → kind.code.toNat < n := by
  induction ops generalizing start with
  | nil =>
    have none : ∀ kind, ¬ start.Assigned [] kind := by
      rintro kind ⟨earlier, op, later, lexeme, e, -⟩
      cases earlier <;> cases e
    exact ⟨fun le => ⟨le, fun kind as => absurd as (none kind)⟩, And.left⟩
  | cons op ops ih =>
    -- What the first operation gives away bounds the next code from which the others start.
    have run : start.after (op :: ops) = (start.perform op).after ops := rfl
    rw [run, ih, nextCode_perform_le_iff, and_assoc]
    simp only [assigned_cons, or_imp, forall_and, forall_exists_index]
    rw [forall_comm]

/-- No kind is left exactly if the greatest one has been given away. -/
lemma next_after_eq_none_iff {start : Lexicon} {n} (next : start.next = some n)
    (ops : List Operation) : (start.after ops).next = none ↔ start.Assigned ops .last := by
  have first : start.nextCode ≤ 65535 := by
    rw [nextCode, next]
    exact Nat.le_of_lt_succ n.code.toNat_lt
  have upper := (start.after ops).nextCode_le
  have least : (start.after ops).nextCode ≤ 65535 ↔ start.nextCode ≤ 65535 ∧
      ∀ kind, start.Assigned ops kind → kind.code.toNat < 65535 := nextCode_after_le_iff
  rw [next_eq_none_iff]
  constructor
  · intro last
    by_contra free
    have le : (start.after ops).nextCode ≤ 65535 := by
      refine least.mpr ⟨first, fun kind as => ?_⟩
      have ne : kind.code.toNat ≠ 65535 :=
        fun e => free (TokenKind.eq_last_iff.mpr e ▸ as)
      have := kind.code.toNat_lt
      omega
    omega
  · intro taken
    by_contra free
    have le := (least.mp (by omega)).2 _ taken
    exact Nat.lt_irrefl _ le

/-! ## Refused operations -/

/-- A new lexeme is refused exactly if no kind is left. -/
lemma refuses_insert_iff {lex : Lexicon} {lexeme e} :
    lex.Refuses (.insert lexeme) e ↔
      e = .exhausted lexeme ∧ lex.kindOf lexeme = none ∧ lex.next = none := by
  constructor
  · intro rf
    cases rf with
    | insert failed =>
      obtain ⟨_, _, ok⟩ | ⟨new, ⟨none, refused⟩ | ⟨_, _, ok⟩⟩ := lex.insert_cases lexeme
      · rw [ok] at failed
        cases failed
      · rw [refused] at failed
        cases failed
        exact ⟨rfl, new, none⟩
      · rw [ok] at failed
        cases failed
  · rintro ⟨rfl, new, none⟩
    apply Refuses.insert
    rw [insert, new, none]

/-- A chosen kind is refused exactly if it is reserved. -/
lemma refuses_insertWith_iff {lex : Lexicon} {lexeme kind e} :
    lex.Refuses (.insertWith lexeme kind) e ↔ e = .reserved kind ∧ kind.isReserved := by
  constructor
  · intro rf
    cases rf with
    | insertWith failed =>
      obtain ⟨reserved, refused⟩ | ⟨_, ok⟩ := lex.insertWith_cases lexeme kind
      · rw [refused] at failed
        cases failed
        exact ⟨rfl, reserved⟩
      · rw [ok] at failed
        cases failed
  · rintro ⟨rfl, reserved⟩
    apply Refuses.insertWith
    rw [insertWith, if_pos reserved]

/-- An operation is refused before it has changed anything. -/
lemma Refuses.perform_eq {lex : Lexicon} {op e} (rf : lex.Refuses op e) : lex.perform op = lex := by
  cases rf with
  | @insert lexeme _ failed =>
    obtain ⟨_, _, done⟩ | ⟨_, ⟨_, done⟩ | ⟨_, _, done⟩⟩ := lex.insert_cases lexeme
    · rw [perform, done]
    · rw [perform, done]
    · -- A lexeme that has got a kind has not been refused.
      rw [done] at failed
      cases failed
  | @insertWith lexeme kind _ failed =>
    obtain ⟨_, done⟩ | ⟨_, done⟩ := lex.insertWith_cases lexeme kind
    · rw [perform, done]
    · rw [done] at failed
      cases failed

/-- After any run of operations, a lexeme is refused exactly if it is new and the greatest kind has
been given away, and a chosen kind exactly if it is reserved. The next code moves as it would in
numbers without a bound, and a new lexeme gets it. An operation that is refused changes neither the
lexemes nor the dropped kinds nor the next kind. -/
theorem after_refuses {start : Lexicon} (base : start = .empty ∨ start = .standard)
    (ops : List Operation) :
    let lex := start.after ops
    (∀ lexeme e, lex.Refuses (.insert lexeme) e ↔
      e = .exhausted lexeme ∧ lex.kindOf lexeme = none ∧ start.Assigned ops .last) ∧
    (∀ lexeme kind e, lex.Refuses (.insertWith lexeme kind) e ↔
      e = .reserved kind ∧ kind.code.toNat < 16) ∧
    (∀ op lexeme kind, lex.Assigns op lexeme kind →
      (lex.perform op).nextCode = max lex.nextCode (kind.code.toNat + 1)) ∧
    (∀ lexeme kind, lex.Assigns (.insert lexeme) lexeme kind →
      kind.code.toNat = lex.nextCode) ∧
    ∀ op e, lex.Refuses op e → lex.perform op = lex := by
  intro lex
  obtain ⟨n, next⟩ : ∃ n, start.next = some n := by
    rcases base with e | e
    · rw [e]
      exact ⟨.firstFree, rfl⟩
    · rw [e]
      exact ⟨⟨62⟩, by decide +kernel⟩
  refine ⟨fun lexeme e => ?_, fun lexeme kind e => ?_, fun op lexeme kind => nextCode_of_assigns,
    fun lexeme kind => code_of_assigns_insert, fun op e => Refuses.perform_eq⟩
  · rw [refuses_insert_iff, next_after_eq_none_iff next]
  · rw [refuses_insertWith_iff, TokenKind.isReserved_iff]

end Lexicon

/-- The greatest kind is given away as the next one, and later a small one as a chosen one. -/
def exhausting : List Lexicon.Operation :=
  [.insertWith "a" ⟨65534⟩, .insert "b", .insertWith "c" ⟨20⟩]

/-- While one kind is left a new lexeme is not refused. Afterwards a new one is, and a listed one is
not. A reserved kind is refused as well. -/
theorem exhausting_after_refuses :
    let lex := Lexicon.standard.after exhausting
    (Lexicon.standard.Assigned exhausting .last ∧ lex.kindOf "d" = none ∧
      lex.Refuses (.insert "d") (.exhausted "d") ∧ lex.perform (.insert "d") = lex) ∧
    (∀ e, ¬ lex.Refuses (.insert "b") e) ∧
    (∀ e, ¬ (Lexicon.standard.after (exhausting.take 1)).Refuses (.insert "b") e) ∧
    lex.Refuses (.insertWith "b" ⟨15⟩) (.reserved ⟨15⟩) := by
  intro lex
  let before := Lexicon.standard.after (exhausting.take 1)
  -- One evaluation for all facts, since each would build the listing anew.
  have facts : lex.kindOf "d" = none ∧ lex.kindOf "b" = some .last ∧
      before.kindOf "b" = none ∧ before.next = some .last := by
    decide +kernel
  obtain ⟨new, known, free, next⟩ := facts
  have ok : (before.insert "b").1 = .ok .last := by
    rw [Lexicon.insert, free, next]
  have assigned : Lexicon.standard.Assigned exhausting .last :=
    ⟨exhausting.take 1, .insert "b", exhausting.drop 2, "b", rfl, .insert free ok⟩
  obtain ⟨refuses, reserved, -, -, unchanged⟩ := Lexicon.after_refuses (.inr rfl) exhausting
  have refused := (refuses "d" _).mpr ⟨rfl, new, assigned⟩
  refine ⟨⟨assigned, new, refused, unchanged _ _ refused⟩, ?_, ?_, ?_⟩
  · intro e rf
    cases known.symm.trans ((refuses "b" e).mp rf).2.1
  · intro e rf
    cases rf with
    | insert failed => cases ok.symm.trans failed
  · exact (reserved "b" ⟨15⟩ _).mpr ⟨rfl, by decide⟩

end FrontEnd
