import FrontEnd.Proofs.Analysis.Marking
import FrontEnd.Proofs.Analysis.Resolving

/-!
# An analysis is lexically scoped

A pass that succeeds records for every visited occurrence the access of the declaration that the
occurrence sees by lexical scoping: from the innermost block around it outward, in the scope tree
and among the declarations before it. The access stands in the resolutions of the analysis and in
the program that the pass gives back.
-/

namespace FrontEnd

/-- The mark of an occurrence in an annotated program. -/
lemma Program.getElem?_mentions_annotate {p : Program} {marks before after o mark}
    (here : p.mentions = before ++ .used o :: after) (visited : o.isVisited)
    (hm : marks[before.countP Mention.isVisited]? = some mark) :
    (p.annotate marks).mentions[before.length]? = some (.used (o.withAccess (some mark))) := by
  rw [p.mentions_annotate, Mention.getElem?_mark, here, List.take_left, hm]
  simp [Mention.marked, visited]

/-- Every visited occurrence has the access of what it sees by lexical scoping. -/
theorem Program.analyze_sees {p : Program} {lex policy a} (built : p.scopes.Built)
    (ok : (p.analyze lex policy).result = .ok a) {before after o}
    (here : p.mentions = before ++ .used o :: after) (visited : o.standing = .visited) :
    ∃ found, Sees p.scopes before o.identifier.name o.scope found ∧
      a.resolutions[before.countP Mention.isVisited]? =
        some ⟨o.identifier.name, .classify o.identifier.isPointer found, o.isProperty, o.span⟩ ∧
      (p.analyze lex policy).program.mentions[before.length]? =
        some (.used (o.withAccess (some (.classify o.identifier.isPointer found)))) := by
  have vs : o.isVisited := by simpa [Occurrence.isVisited] using visited
  have hr : a.resolutions[before.countP Mention.isVisited]? =
      some (o.resolution (o.access p.scopes before)) := by
    rw [p.resolutions_eq ok, here]
    exact Mention.getElem?_resolutions p.scopes vs
  refine ⟨p.scopes.seen? before o.identifier.name o.scope, built.sees _ _ _, hr, ?_⟩
  obtain ⟨_, _, _, ep⟩ := p.runs_of_analyze ok
  rw [ep]
  apply p.getElem?_mentions_annotate here vs
  rw [List.getElem?_map, hr]
  rfl

/-- A variable, and a function whose reference parameter hides it until a variable of its own does:
each first value still sees the outer name. -/
def shadowing : Program :=
  let outer : Identifier := ⟨"x", false, none⟩
  let body := .mk ⟨1⟩ [.variables [⟨"x", false, false, some (.identifier outer ⟨9, 10⟩)⟩] .origin,
    .expression (.identifier outer ⟨11, 12⟩) .origin] .origin
  ⟨.mk .root [.variables [⟨"x", false, false, some (.identifier outer ⟨4, 5⟩)⟩] .origin,
      .function "f" [⟨"x", true, false, .origin⟩] body false .origin] .origin,
    (ScopeTree.empty.openFunction .root []).2⟩

/-- The first value of the inner variable sees the parameter, which is a cell. -/
theorem shadowing_analyze_sees :
    ∃ a, (shadowing.analyze .empty .permissive).result = .ok a ∧
      ∃ found, Sees shadowing.scopes (shadowing.mentions.take 4) "x" ⟨1⟩ found ∧
        a.resolutions[1]? = some ⟨"x", .classify false found, false, ⟨9, 10⟩⟩ ∧
        (shadowing.analyze .empty .permissive).program.mentions[4]? =
          some (.used ⟨⟨"x", false, some (.classify false found)⟩, ⟨9, 10⟩, false, ⟨1⟩,
            .visited⟩) := by
  have built : shadowing.scopes.Built := .function .empty (by decide)
  have here : shadowing.mentions = shadowing.mentions.take 4 ++
      .used ⟨⟨"x", false, none⟩, ⟨9, 10⟩, false, ⟨1⟩, .visited⟩ :: shadowing.mentions.drop 5 := rfl
  exact ⟨_, rfl, Program.analyze_sees built rfl here rfl⟩

end FrontEnd
