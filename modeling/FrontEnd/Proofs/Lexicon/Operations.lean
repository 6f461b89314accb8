import FrontEnd.Lexicon.Standard
import Mathlib.Tactic.Common

/-!
# Runs of operations on a lexicon

The lexicons that any number of operations make out of another one (`Lexicon.after`), whether the
operations fail or not. No operation gives a lexeme a kind that is reserved for identifiers, numbers
and strings, and none leads to such a kind being the next one (`Lexicon.Unreserved`).

Main statements: `Unreserved.perform` for an operation, `Unreserved.after` for a run of them.
-/

namespace FrontEnd

namespace TokenKind

/-- The kinds below sixteen are reserved. -/
lemma isReserved_iff {k : TokenKind} : k.isReserved ↔ k.code.toNat < 16 := by
  simp only [isReserved, firstFree, decide_eq_true_eq, UInt16.lt_iff_toNat_lt]
  rfl

/-- Kinds are handed out upwards, away from the reserved ones. -/
lemma not_isReserved_next? {k n : TokenKind} (free : ¬ k.isReserved) (h : k.next? = some n) :
    ¬ n.isReserved := by
  have succ := code_next? h
  rw [isReserved_iff] at free ⊢
  omega

/-- The later of two kinds is not reserved if neither is. -/
lemma not_isReserved_later {a b : TokenKind} (ha : ¬ a.isReserved) (hb : ¬ b.isReserved) :
    ¬ (a.later b).isReserved := by
  unfold later
  split
  · exact hb
  · exact ha

end TokenKind

namespace Lexicon

/-- A change to a lexicon. -/
inductive Operation where
  | insert (lexeme : String)
  | insertWith (lexeme : String) (kind : TokenKind)
  | ignore (kind : TokenKind)

/-- The lexicon after an operation, be it granted or refused. -/
def perform (lex : Lexicon) : Operation → Lexicon
  | .insert lexeme => (lex.insert lexeme).2
  | .insertWith lexeme kind => (lex.insertWith lexeme kind).2
  | .ignore kind => lex.ignore kind

/-- An operation gives a kind to a lexeme. A lexeme that is listed keeps its kind unless another one
is chosen. -/
inductive Assigns (lex : Lexicon) : Operation → String → TokenKind → Prop where
  | insert {lexeme kind} :
    lex.kindOf lexeme = none →
    (lex.insert lexeme).1 = .ok kind →
    Assigns lex (.insert lexeme) lexeme kind
  | insertWith {lexeme kind} :
    (lex.insertWith lexeme kind).1 = .ok () →
    Assigns lex (.insertWith lexeme kind) lexeme kind

/-- The lexicon after some operations, one after the other. -/
def after (lex : Lexicon) (ops : List Operation) : Lexicon :=
  ops.foldl perform lex

/-- A run goes on from where an earlier one ended. -/
lemma after_append (lex : Lexicon) (ops more : List Operation) :
    lex.after (ops ++ more) = (lex.after ops).after more :=
  List.foldl_append

/-- Dropping the kinds of some lexemes is a run of operations. -/
lemma exists_ignoreLexemes (lexemes : List String) (lex : Lexicon) :
    ∃ ops, lexemes.foldl ignoreLexeme lex = lex.after ops := by
  induction lexemes generalizing lex with
  | nil => exact ⟨[], rfl⟩
  | cons lexeme lexemes ih =>
    obtain ⟨first, hf⟩ : ∃ ops, lex.ignoreLexeme lexeme = lex.after ops := by
      unfold ignoreLexeme
      split
      · exact ⟨[.ignore _], rfl⟩
      · exact ⟨[], rfl⟩
    obtain ⟨rest, hr⟩ := ih (lex.ignoreLexeme lexeme)
    refine ⟨first ++ rest, ?_⟩
    rw [List.foldl_cons, hr, hf, after_append]

/-- The standard lexicon is itself made by operations. -/
lemma exists_standard : ∃ ops, standard = empty.after ops := by
  let entered := (keywords ++ operators ++ blanks).map Operation.insert
  have listed : (keywords ++ operators ++ blanks).foldl enlist empty = empty.after entered :=
    List.foldl_map.symm
  obtain ⟨ops, dropped⟩ := exists_ignoreLexemes blanks (empty.after entered)
  refine ⟨entered ++ ops, ?_⟩
  rw [standard, listed, dropped, after_append]

/-- No lexeme has a reserved kind, and no new one will get it. -/
structure Unreserved (lex : Lexicon) : Prop where
  listed {lexeme kind} : lex.kindOf lexeme = some kind → ¬ kind.isReserved
  next {kind} : lex.next = some kind → ¬ kind.isReserved

namespace Unreserved

variable {lex : Lexicon}

/-- An empty lexicon gives out no reserved kind. -/
lemma empty : Unreserved .empty := by
  constructor
  · intro lexeme kind h
    cases h
  · intro kind h
    cases h
    decide

/-- A lexeme may be given a kind that is not reserved. -/
lemma assign (ur : lex.Unreserved) {kind} (free : ¬ kind.isReserved) {next}
    (hn : ∀ {k : TokenKind}, next = some k → ¬ k.isReserved) (lexeme : String) :
    Unreserved ⟨Lexicon.assign lexeme kind lex.listing, lex.ignored, next⟩ := by
  constructor
  · intro other k h
    rw [kindOf, kindIn_assign] at h
    split at h
    · cases h
      exact free
    · exact ur.listed h
  · exact hn

/-- A fresh kind is not reserved. -/
lemma insert (ur : lex.Unreserved) (lexeme : String) : (lex.insert lexeme).2.Unreserved := by
  unfold Lexicon.insert
  cases lex.kindOf lexeme with
  | some kind => exact ur
  | none =>
    cases hn : lex.next with
    | none => exact ur
    | some kind =>
      have free := ur.next hn
      exact ur.assign free (TokenKind.not_isReserved_next? free) lexeme

/-- Nor is a chosen one, since a reserved kind is refused. -/
lemma insertWith (ur : lex.Unreserved) (lexeme : String) (kind : TokenKind) :
    (lex.insertWith lexeme kind).2.Unreserved := by
  unfold Lexicon.insertWith
  split
  · exact ur
  · rename_i free
    apply ur.assign free
    intro k hk
    unfold nextAbove at hk
    split at hk
    · rename_i hn hs
      cases hk
      exact TokenKind.not_isReserved_later (ur.next hn) (TokenKind.not_isReserved_next? free hs)
    · cases hk

/-- Dropping a kind gives none to a lexeme. -/
lemma ignore (ur : lex.Unreserved) (kind : TokenKind) : (lex.ignore kind).Unreserved :=
  ⟨ur.listed, ur.next⟩

/-- No operation gives a reserved kind away. -/
lemma perform (ur : lex.Unreserved) (op : Operation) : (lex.perform op).Unreserved := by
  cases op with
  | insert lexeme => exact ur.insert lexeme
  | insertWith lexeme kind => exact ur.insertWith lexeme kind
  | ignore kind => exact ur.ignore kind

/-- No run of operations gives a reserved kind away. -/
lemma after (ur : lex.Unreserved) (ops : List Operation) : (lex.after ops).Unreserved := by
  induction ops generalizing lex with
  | nil => exact ur
  | cons op ops ih => exact ih (ur.perform op)

/-- No lexeme of the standard lexicon has a reserved kind. -/
lemma standard : Unreserved .standard := by
  obtain ⟨ops, e⟩ := exists_standard
  rw [e]
  exact empty.after ops

end Unreserved

end Lexicon

end FrontEnd
