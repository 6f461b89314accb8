import FrontEnd.Scope.Tree
import Mathlib.Tactic.Common

/-!
# Built scope trees

The trees that the operations of a scope tree can make: `Built` starts from the root alone, and
every scope is created inside one that exists. Each scope of such a tree lists its parent and then
what its parent lists (`Linked`), and its parent is older. So the way outward that a scope carries
is the walk from parent to parent, and that walk ends.

Main statements: `Built.chain_eq`, the way outward by one step to the parent, `Built.parent_lt`,
which makes the walk well-founded, and `Built.ascends`, which takes it to the root.
-/

namespace FrontEnd.ScopeTree

/-- The trees that the operations make from the root alone. -/
inductive Built : ScopeTree → Prop where
  | empty :
    Built .empty
  | scope {t parent kind} :
    Built t →
    parent.index < t.size →
    Built (t.openScope parent kind).2
  | function {t parent returns} :
    Built t →
    parent.index < t.size →
    Built (t.openFunction parent returns).2
  | define {t s d extended} :
    Built t →
    s.index < t.size →
    t.define s d = .ok extended →
    Built extended
  | bind {t s d} :
    Built t →
    s.index < t.size →
    Built (t.bind s d).2

/-- The root has no scope around it, and any other scope lists the way outward from an older one. -/
def Linked (t : ScopeTree) : Prop :=
  ∀ s scope, t.get? s = some scope →
    (s = .root ∧ scope.enclosing = []) ∨
      ∃ parent, parent.index < s.index ∧ scope.enclosing = t.chain parent

/-- A scope that a tree has, has a number below its size. -/
lemma index_lt_of_get? {t : ScopeTree} {s scope} (e : t.get? s = some scope) :
    s.index < t.size := by
  obtain ⟨h, _⟩ := List.getElem?_eq_some_iff.mp e
  exact h

/-- The number of a new scope is the size of the tree. -/
lemma get?_openWith_new (t : ScopeTree) (parent : ScopeId) (kind : ScopeKind)
    (returns : List ReturnSlot) :
    (t.openWith parent kind returns).2.get? ⟨t.size⟩ =
      some ⟨kind, t.chain parent, [], returns⟩ := by
  simp [openWith, get?, size]

/-- The tree with the root alone is linked. -/
lemma Linked.empty : Linked .empty := by
  intro s scope e
  have h : s.index < 1 := index_lt_of_get? e
  obtain ⟨i⟩ := s
  obtain rfl : i = 0 := by simpa using h
  cases e
  exact .inl ⟨rfl, rfl⟩

/-- Creating a scope keeps a tree linked. -/
lemma Linked.openWith {t : ScopeTree} {parent kind returns} (ln : Linked t)
    (hp : parent.index < t.size) : Linked (t.openWith parent kind returns).2 := by
  intro s scope e
  have hs := index_lt_of_get? e
  rcases Nat.lt_or_ge s.index t.size with old | new
  · rw [get?_openWith old] at e
    obtain ⟨hr, hn⟩ | ⟨r, lt, er⟩ := ln s scope e
    · exact .inl ⟨hr, hn⟩
    · refine .inr ⟨r, lt, ?_⟩
      rw [chain_openWith (Nat.lt_trans lt old), er]
  · have es : s = ⟨t.size⟩ := by
      obtain ⟨i⟩ := s
      simp only [ScopeTree.openWith, size, List.length_append, List.length_singleton] at hs new ⊢
      congr 1
      omega
    subst es
    rw [get?_openWith_new] at e
    cases e
    exact .inr ⟨parent, hp, (chain_openWith hp).symm⟩

/-- Declaring a name keeps a tree linked. -/
lemma Linked.define {t extended : ScopeTree} {s d} (ln : Linked t)
    (e : t.define s d = .ok extended) : Linked extended := by
  intro r scope er
  rw [get?_define e] at er
  obtain ⟨old, eo, en⟩ : ∃ old, t.get? r = some old ∧ old.enclosing = scope.enclosing := by
    split at er
    · obtain ⟨old, eo, rfl⟩ := Option.map_eq_some_iff.mp er
      exact ⟨old, eo, rfl⟩
    · exact ⟨scope, er, rfl⟩
  obtain ⟨hr, hn⟩ | ⟨q, lt, eq⟩ := ln r old eo
  · exact .inl ⟨hr, en ▸ hn⟩
  · refine .inr ⟨q, lt, ?_⟩
    rw [chain_define e, ← en, eq]

/-- Every built tree is linked. -/
lemma Built.linked {t} (b : Built t) : Linked t := by
  induction b with
  | empty => exact .empty
  | scope _ hp ih => exact ih.openWith hp
  | function _ hp ih => exact ih.openWith hp
  | define _ _ e ih => exact ih.define e
  | @bind t s d _ _ ih =>
    unfold ScopeTree.bind
    cases e : t.define s d with
    | ok extended => exact ih.define e
    | error _ => exact ih

/-- A parent is older than its scope. -/
lemma Built.parent_lt {t : ScopeTree} {s r} (b : Built t) (e : t.parent? s = some r) :
    r.index < s.index := by
  obtain ⟨scope, es, er⟩ := Option.bind_eq_some_iff.mp e
  obtain ⟨_, hn⟩ | ⟨q, lt, eq⟩ := b.linked s scope es
  · simp [Scope.parent?, hn] at er
  · obtain rfl : q = r := by simpa [Scope.parent?, eq, chain] using er
    exact lt

/-- The way outward from a scope goes on with the way outward from its parent. -/
lemma Built.chain_eq {t : ScopeTree} (b : Built t) (s : ScopeId) :
    t.chain s = s :: (t.parent? s).elim [] t.chain := by
  cases es : t.get? s with
  | none => simp [chain, enclosing, parent?, es]
  | some scope =>
    have hc : t.chain s = s :: scope.enclosing := by simp [chain, enclosing, es]
    have hp : t.parent? s = scope.enclosing.head? := by simp [parent?, es, Scope.parent?]
    obtain ⟨_, hn⟩ | ⟨q, _, eq⟩ := b.linked s scope es
    · rw [hc, hp, hn]
      rfl
    · rw [hc, hp, eq]
      rfl

/-- The scopes on the walk from a scope to the root, from parent to parent. -/
inductive Ascends (t : ScopeTree) : ScopeId → List ScopeId → Prop where
  | root :
    t.parent? .root = none →
    Ascends t .root [.root]
  | parent {s r way} :
    t.parent? s = some r →
    Ascends t r way →
    Ascends t s (s :: way)

/-- In a built tree, the way outward from a scope is the walk to the root. -/
lemma Built.ascends {t : ScopeTree} (b : Built t) {s : ScopeId} (inside : s.index < t.size) :
    t.Ascends s (t.chain s) := by
  generalize hn : s.index = n
  induction n using Nat.strongRecOn generalizing s with
  | ind n ih =>
    have es : t.get? s = some t.scopes[s.index] := List.getElem?_eq_getElem inside
    rw [b.chain_eq s]
    obtain ⟨rfl, hn⟩ | ⟨r, lt, er⟩ := b.linked s _ es
    · have hp : t.parent? .root = none := by simp [parent?, es, Scope.parent?, hn]
      rw [hp]
      exact .root hp
    · have hp : t.parent? s = some r := by simp [parent?, es, Scope.parent?, er, chain]
      rw [hp]
      exact .parent hp (ih r.index (hn ▸ lt) (Nat.lt_trans lt inside) rfl)

end FrontEnd.ScopeTree
