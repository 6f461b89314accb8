import FrontEnd.Proofs.Analysis.Marking
import FrontEnd.Proofs.Analysis.Resolving
import Mathlib.Data.List.Forall2

/-!
# Resolutions and annotations

A pass that succeeds tells what it found twice, in the list of its resolutions and in the program
that it gives back. The two agree occurrence by occurrence, in document order, and nothing else of
the program is touched.
-/

namespace FrontEnd

namespace Occurrence

/-- What an annotated occurrence says about its use. -/
def resolution? (o : Occurrence) : Option Resolution :=
  o.identifier.access.map o.resolution

/-- An occurrence and the same one afterwards: only an access may have changed, and that only if the
occurrence is visited. -/
def Keeps (before after : Occurrence) : Prop :=
  after.bare = before.bare ∧ (before.standing ≠ .visited → after = before)

/-- An occurrence keeps what it is. -/
lemma Keeps.refl (o : Occurrence) : Keeps o o :=
  ⟨rfl, fun _ => rfl⟩

end Occurrence

namespace Mention

/-- The first occurrence among mentions that begin with a use is that use. -/
lemma filterMap_occurrence?_used (o : Occurrence) (ms : List Mention) :
    (used o :: ms).filterMap occurrence? = o :: ms.filterMap occurrence? := rfl

/-- Marks change the accesses of visited occurrences alone. -/
lemma keeps_mark (ms : List Mention) (marks : List Access) :
    List.Forall₂ Occurrence.Keeps (ms.filterMap occurrence?)
      ((mark ms marks).filterMap occurrence?) := by
  induction ms generalizing marks with
  | nil => exact .nil
  | cons m ms ih =>
    cases m with
    | declared s d => exact ih _
    | used o =>
      obtain ⟨o', eo, ho⟩ : ∃ o', (used o).marked marks[0]? = used o' ∧ o.Keeps o' := by
        cases marks[0]? with
        | none => exact ⟨o, rfl, .refl o⟩
        | some mark =>
          by_cases vs : o.isVisited
          · refine ⟨o.withAccess (some mark), if_pos vs, rfl, fun out => absurd ?_ out⟩
            simpa [Occurrence.isVisited] using vs
          · exact ⟨o, if_neg vs, .refl o⟩
      rw [mark, eo]
      exact .cons ho (ih _)

/-- The accesses of all decisions, as marks, say at each visited occurrence what was decided. -/
lemma resolution?_mark (tree : ScopeTree) (before ms : List Mention) :
    (((mark ms ((resolutions tree before ms).map Resolution.access)).filterMap
      occurrence?).filter Occurrence.isVisited).map Occurrence.resolution? =
      (resolutions tree before ms).map some := by
  induction ms generalizing before with
  | nil => rfl
  | cons m ms ih =>
    by_cases vm : m.isVisited
    · cases m with
      | declared s d => cases vm
      | used o =>
        have vs : o.isVisited := vm
        have va : (o.withAccess (some (o.access tree before))).isVisited := vs
        rw [resolutions_cons_visited vs, List.map_cons, List.map_cons, ← ih (before ++ [used o])]
        -- The occurrence takes the first mark, and the others go to what comes after it.
        show ((mark _ (o.access tree before :: _)).filterMap _ |>.filter _ |>.map _) = _
        rw [mark_cons_visited vs, filterMap_occurrence?_used, List.filter_cons_of_pos va,
          List.map_cons]
        rfl
    · rw [resolutions_cons_keep vm, mark_cons_keep vm, ← ih (before ++ [m])]
      cases m with
      | declared s d => rfl
      | used o =>
        have vs : ¬ o.isVisited := vm
        rw [filterMap_occurrence?_used, List.filter_cons_of_neg vs]

end Mention

/-- The resolutions of a pass are its visited occurrences in document order, each with the access
that it carries afterwards, and the pass changes nothing else. -/
theorem Program.analyze_annotates {p : Program} {lex policy a}
    (ok : (p.analyze lex policy).result = .ok a) :
    p.occurrences.map Occurrence.identifier = p.identifiers ∧
      (((p.analyze lex policy).program.occurrences.filter Occurrence.isVisited).map
        Occurrence.resolution? = a.resolutions.map some) ∧
      List.Forall₂ Occurrence.Keeps p.occurrences (p.analyze lex policy).program.occurrences ∧
      (p.analyze lex policy).program.bare = p.bare := by
  obtain ⟨_, _, _, ep⟩ := p.runs_of_analyze ok
  have hm : (p.analyze lex policy).program.mentions =
      Mention.mark p.mentions (a.resolutions.map Resolution.access) := by
    rw [ep]
    exact p.mentions_annotate _
  refine ⟨p.map_identifier_occurrences, ?_, ?_, ?_⟩
  · rw [occurrences, hm, p.resolutions_eq ok]
    exact Mention.resolution?_mark p.scopes [] p.mentions
  · rw [occurrences, occurrences, hm]
    exact Mention.keeps_mark p.mentions _
  · rw [ep]
    exact p.bare_annotate _

/-- An import, an enumeration with a value, and a function that declares one value and returns two:
only the first returned value is visited. -/
def partlyVisited : Program :=
  let name (text : String) (start : Nat) : Expr := .ofName text ⟨start, start + 1⟩
  let body := .mk ⟨1⟩ [.returns (some [.ofMember (name "y" 4) (name "z" 6), name "w" 8]) .origin]
    .origin
  ⟨.mk .root [.imports [name "lib" 0] .origin,
      .enumeration ⟨"E", [⟨"A", some (name "k" 2), .origin⟩], false⟩ .origin,
      .function "f" [] body false .origin] .origin,
    (ScopeTree.empty.openFunction .root [⟨none, none⟩]).2⟩

/-- Of five identifiers two are resolved, the second of them as a property. -/
theorem partlyVisited_analyze_annotates :
    ∃ a, (partlyVisited.analyze .empty .permissive).result = .ok a ∧
      a.resolutions = [⟨"y", .unresolved, false, ⟨4, 5⟩⟩, ⟨"z", .unresolved, true, ⟨6, 7⟩⟩] ∧
      partlyVisited.occurrences.map Occurrence.identifier = partlyVisited.identifiers ∧
      (((partlyVisited.analyze .empty .permissive).program.occurrences.filter
        Occurrence.isVisited).map Occurrence.resolution? = a.resolutions.map some) ∧
      List.Forall₂ Occurrence.Keeps partlyVisited.occurrences
        (partlyVisited.analyze .empty .permissive).program.occurrences ∧
      (partlyVisited.analyze .empty .permissive).program.bare = partlyVisited.bare :=
  ⟨_, rfl, rfl, Program.analyze_annotates rfl⟩

end FrontEnd
