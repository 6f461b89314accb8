import FrontEnd.Program.Expr
import Mathlib.Tactic.Common

/-!
# Composed expressions

Expressions are composed of others by operators and member accesses, in any grouping
(`Composition`). What they are composed of, the leaves, may be any expressions with any spans. The
span of the whole is the hull of the spans of its leaves (`Span.IsHull`), and depends on nothing
else.

Main statement: `Composition.encloses`.
-/

namespace FrontEnd

namespace Span

/-- A span starts no later, and stops no earlier, than another one. -/
structure Covers (a b : Span) : Prop where
  start : a.start ≤ b.start
  stop : b.stop ≤ a.stop

/-- A span covers itself. -/
lemma Covers.refl (a : Span) : a.Covers a :=
  ⟨Nat.le_refl _, Nat.le_refl _⟩

/-- What is covered by what is covered is covered. -/
lemma Covers.trans {a b c : Span} (ab : a.Covers b) (bc : b.Covers c) : a.Covers c :=
  ⟨Nat.le_trans ab.start bc.start, Nat.le_trans bc.stop ab.stop⟩

/-- Two spans that cover each other are equal. -/
lemma Covers.antisymm {a b : Span} (ab : a.Covers b) (ba : b.Covers a) : a = b := by
  cases a
  cases b
  congr
  · exact Nat.le_antisymm ab.start ba.start
  · exact Nat.le_antisymm ba.stop ab.stop

/-- A hull covers its left operand. -/
lemma hull_covers_left (a b : Span) : (a.hull b).Covers a :=
  ⟨Nat.min_le_left _ _, Nat.le_max_left _ _⟩

/-- It covers its right operand as well. -/
lemma hull_covers_right (a b : Span) : (a.hull b).Covers b := by
  rw [hull_comm]
  exact hull_covers_left b a

/-- The smallest span that covers some spans: it covers them, and starts and stops with some of
them. -/
structure IsHull (spans : List Span) (s : Span) : Prop where
  covers : ∀ a ∈ spans, s.Covers a
  start_mem : s.start ∈ spans.map Span.start
  stop_mem : s.stop ∈ spans.map Span.stop

namespace IsHull

variable {as bs : List Span} {a b : Span}

/-- One span is its own hull. -/
lemma singleton (a : Span) : IsHull [a] a := by
  refine ⟨fun b hb => ?_, List.mem_cons_self, List.mem_cons_self⟩
  cases List.mem_singleton.mp hb
  exact Covers.refl a

/-- The hull of two hulls is that of all their spans. -/
lemma append (ha : IsHull as a) (hb : IsHull bs b) : IsHull (as ++ bs) (a.hull b) := by
  refine ⟨fun s hs => ?_, ?_, ?_⟩
  · cases List.mem_append.mp hs with
    | inl hs => exact (hull_covers_left a b).trans (ha.covers s hs)
    | inr hs => exact (hull_covers_right a b).trans (hb.covers s hs)
  · show min a.start b.start ∈ (as ++ bs).map Span.start
    rw [List.map_append, List.mem_append]
    cases Nat.le_total a.start b.start with
    | inl le =>
      rw [Nat.min_eq_left le]
      exact .inl ha.start_mem
    | inr le =>
      rw [Nat.min_eq_right le]
      exact .inr hb.start_mem
  · show max a.stop b.stop ∈ (as ++ bs).map Span.stop
    rw [List.map_append, List.mem_append]
    cases Nat.le_total a.stop b.stop with
    | inl le =>
      rw [Nat.max_eq_right le]
      exact .inr hb.stop_mem
    | inr le =>
      rw [Nat.max_eq_left le]
      exact .inl ha.stop_mem

/-- A hull starts where the first of its spans starts. -/
lemma min?_start (ha : IsHull as a) : (as.map Span.start).min? = some a.start := by
  refine List.min?_eq_some_iff.mpr ⟨ha.start_mem, fun n hn => ?_⟩
  obtain ⟨s, hs, rfl⟩ := List.mem_map.mp hn
  exact (ha.covers s hs).start

/-- It stops where the last of them stops. -/
lemma max?_stop (ha : IsHull as a) : (as.map Span.stop).max? = some a.stop := by
  refine List.max?_eq_some_iff.mpr ⟨ha.stop_mem, fun n hn => ?_⟩
  obtain ⟨s, hs, rfl⟩ := List.mem_map.mp hn
  exact (ha.covers s hs).stop

/-- More spans have a hull that covers that of fewer. -/
lemma covers_of_subset (ha : IsHull as a) (hb : IsHull bs b) (sub : as ⊆ bs) : b.Covers a := by
  obtain ⟨s, hs, start⟩ := List.mem_map.mp ha.start_mem
  obtain ⟨t, ht, stop⟩ := List.mem_map.mp ha.stop_mem
  constructor
  · exact start ▸ (hb.covers s (sub hs)).start
  · exact stop ▸ (hb.covers t (sub ht)).stop

/-- The order of the spans does not matter to their hull. -/
lemma eq_of_perm (ha : IsHull as a) (hb : IsHull bs b) (same : as.Perm bs) : a = b :=
  (hb.covers_of_subset ha same.symm.subset).antisymm (ha.covers_of_subset hb same.subset)

/-- A hull of spans of which none is reversed is not reversed. -/
lemma start_le_stop (ha : IsHull as a) (ordered : ∀ s ∈ as, s.start ≤ s.stop) :
    a.start ≤ a.stop := by
  obtain ⟨s, hs, start⟩ := List.mem_map.mp ha.start_mem
  calc a.start = s.start := start.symm
    _ ≤ s.stop := ordered s hs
    _ ≤ a.stop := (ha.covers s hs).stop

end IsHull

end Span

/-- A way to compose an expression of others. -/
inductive Composition where
  | leaf (e : Expr)
  | binary (left : Composition) (operator : TokenKind) (right : Composition)
  | member (object property : Composition)

namespace Composition

/-- The composed expression. -/
def expr : Composition → Expr
  | leaf e => e
  | binary left operator right => .ofBinary left.expr operator right.expr
  | member object property => .ofMember object.expr property.expr

/-- What the expression is composed of, from left to right. -/
def leaves : Composition → List Expr
  | leaf e => [e]
  | binary left _ right => left.leaves ++ right.leaves
  | member object property => object.leaves ++ property.leaves

/-- All compositions that a composition is made of, itself and its leaves included. -/
def parts : Composition → List Composition
  | leaf e => [leaf e]
  | binary left operator right => binary left operator right :: (left.parts ++ right.parts)
  | member object property => member object property :: (object.parts ++ property.parts)

/-- A part has no leaves of its own. -/
lemma leaves_subset {c d : Composition} (h : d ∈ c.parts) : d.leaves ⊆ c.leaves := by
  induction c with
  | leaf e =>
    cases List.mem_singleton.mp h
    exact List.Subset.refl _
  | binary left operator right ihl ihr =>
    cases h with
    | head => exact List.Subset.refl _
    | tail _ h =>
      cases List.mem_append.mp h with
      | inl h => exact List.subset_append_of_subset_left _ (ihl h)
      | inr h => exact List.subset_append_of_subset_right _ (ihr h)
  | member object property iho ihp =>
    cases h with
    | head => exact List.Subset.refl _
    | tail _ h =>
      cases List.mem_append.mp h with
      | inl h => exact List.subset_append_of_subset_left _ (iho h)
      | inr h => exact List.subset_append_of_subset_right _ (ihp h)

/-- The span of a composed expression is the hull of the spans of its leaves. -/
lemma isHull_expr (c : Composition) : Span.IsHull (c.leaves.map Expr.span) c.expr.span := by
  induction c with
  | leaf e => exact Span.IsHull.singleton e.span
  | binary left operator right ihl ihr =>
    rw [leaves, List.map_append]
    exact ihl.append ihr
  | member object property iho ihp =>
    rw [leaves, List.map_append]
    exact iho.append ihp

/-- A composed expression starts with the first of its leaves and stops with the last, however they
are grouped and ordered, and covers all its parts. If no leaf is reversed no part is, and each has a
length. -/
theorem encloses (c : Composition) :
    (c.leaves.map fun e => e.span.start).min? = some c.expr.span.start ∧
    (c.leaves.map fun e => e.span.stop).max? = some c.expr.span.stop ∧
    (∀ d : Composition, d.leaves.Perm c.leaves → d.expr.span = c.expr.span) ∧
    (∀ d ∈ c.parts, c.expr.span.Covers d.expr.span) ∧
    ((∀ e ∈ c.leaves, e.span.start ≤ e.span.stop) →
      ∀ d ∈ c.parts, d.expr.span.start ≤ d.expr.span.stop ∧ d.expr.span.length?.isSome) := by
  have hull := c.isHull_expr
  refine ⟨?_, ?_, fun d same => ?_, fun d hd => ?_, fun ordered d hd => ?_⟩
  · have first := hull.min?_start
    rwa [List.map_map] at first
  · have last := hull.max?_stop
    rwa [List.map_map] at last
  · exact d.isHull_expr.eq_of_perm hull (same.map Expr.span)
  · exact d.isHull_expr.covers_of_subset hull (List.map_subset Expr.span (leaves_subset hd))
  · have le : d.expr.span.start ≤ d.expr.span.stop := by
      apply d.isHull_expr.start_le_stop
      intro s hs
      obtain ⟨e, he, rfl⟩ := List.mem_map.mp hs
      exact ordered e (leaves_subset hd he)
    exact ⟨le, (Span.length?_isSome_iff _).mpr le⟩

/-- Reversed leaves may make a reversed whole, which has no length. -/
example : (Expr.ofMember (.ofName "a" ⟨9, 2⟩) (.ofName "b" ⟨7, 3⟩)).span.length? = none := by
  decide

end Composition

/-- A sum whose operands stand in the source the other way round. -/
def swappedSum : Composition :=
  .binary (.leaf (.ofName "a" ⟨4, 5⟩)) ⟨29⟩ (.leaf (.literal ⟨.number, "2"⟩ ⟨0, 1⟩))

/-- A member of the sum. -/
def memberOfSum : Composition :=
  .member swappedSum (.leaf (.ofName "b" ⟨8, 11⟩))

/-- The same leaves in another order, in another grouping. -/
def regrouped : Composition :=
  .binary (.leaf (.ofName "b" ⟨8, 11⟩)) ⟨31⟩
    (.member (.leaf (.literal ⟨.number, "2"⟩ ⟨0, 1⟩)) (.leaf (.ofName "a" ⟨4, 5⟩)))

/-- A member of a sum, whose operands stand in the source in the other order. -/
theorem memberOfSum_encloses :
    memberOfSum.expr.span = ⟨0, 11⟩ ∧
    (regrouped.leaves.Perm memberOfSum.leaves ∧ regrouped.expr.span = memberOfSum.expr.span) ∧
    (swappedSum ∈ memberOfSum.parts ∧ memberOfSum.expr.span.Covers swappedSum.expr.span) ∧
    (∀ e ∈ memberOfSum.leaves, e.span.start ≤ e.span.stop) ∧
    swappedSum.expr.span.length?.isSome := by
  obtain ⟨-, -, same, covers, ordered⟩ := memberOfSum.encloses
  have perm : regrouped.leaves.Perm memberOfSum.leaves := List.reverse_perm memberOfSum.leaves
  have part : swappedSum ∈ memberOfSum.parts := List.mem_cons_of_mem _ List.mem_cons_self
  have leaves : ∀ e ∈ memberOfSum.leaves, e.span.start ≤ e.span.stop := by
    simp [memberOfSum, swappedSum, Composition.leaves, Expr.span, Expr.ofName]
  exact ⟨rfl, ⟨perm, same regrouped perm⟩, ⟨part, covers swappedSum part⟩, leaves,
    (ordered leaves swappedSum part).2⟩

end FrontEnd
