import FrontEnd.Proofs.Analysis.Failures
import FrontEnd.Proofs.Analysis.Strictness

/-!
# Passes over predeclared programs

If the scope tree of a program declares all that the program declares, a pass has nothing to add.
It then decides about every name as the spelling of the name by the tree alone does
(`Expr.render?`), and a strict pass fails where that does, unless another rule is broken before
(`Moment.failure?`).

Main statement: `Program.analyze_layers`.
-/

namespace FrontEnd

/-- Every declaration binds in a scope that the tree has. -/
def Program.Placed (p : Program) : Prop :=
  ∀ entry ∈ p.declarations, entry.1.index < p.scopes.size

/-- Every name that is declared is one that the tree declares in the same scope. -/
def Program.Predeclared (p : Program) : Prop :=
  ∀ entry ∈ p.declarations, (p.scopes.declared? entry.1 entry.2.name).isSome

/-! ## Decisions -/

/-- Mentioned declarations that the tree makes itself do not matter to a lookup. -/
lemma ScopeTree.seen?_eq_lookup? {tree : ScopeTree} {before : List Mention}
    (known : ∀ entry ∈ Mention.declarations before, (tree.declared? entry.1 entry.2.name).isSome)
    (name : String) (s : ScopeId) : tree.seen? before name s = tree.lookup? s name := by
  unfold seen? lookup?
  congr 1
  funext r
  unfold binding?
  cases hd : tree.declared? r name with
  | some d => rfl
  | none =>
    rw [Option.none_or, Mention.latest?_eq, Option.map_eq_none_iff, List.getLast?_eq_none_iff,
      List.filter_eq_nil_iff]
    rintro ⟨s, d⟩ hm here
    obtain ⟨rfl, rfl⟩ := Prod.mk.inj (Overlay.declares_iff.mp here)
    have some := known (s, d) hm
    rw [hd] at some
    cases some

/-- The decision about an occurrence, going by the tree alone. -/
def Occurrence.treeResolution (tree : ScopeTree) (o : Occurrence) : Resolution :=
  o.resolution (.classify o.identifier.isPointer (tree.lookup? o.scope o.identifier.name))

/-- Where the tree has every name that is declared, each use is decided by the tree alone. -/
lemma Mention.resolutions_eq_map {tree : ScopeTree} {before ms : List Mention}
    (known : ∀ entry ∈ declarations (before ++ ms),
      (tree.declared? entry.1 entry.2.name).isSome) :
    resolutions tree before ms =
      ((ms.filterMap occurrence?).filter Occurrence.isVisited).map (·.treeResolution tree) := by
  induction ms generalizing before with
  | nil => rfl
  | cons m ms ih =>
    have rest : ∀ entry ∈ declarations (before ++ [m] ++ ms),
        (tree.declared? entry.1 entry.2.name).isSome := by
      rwa [List.append_assoc]
    by_cases vm : m.isVisited
    · cases m with
      | declared s d => cases vm
      | used o =>
        have now : ∀ entry ∈ declarations before, (tree.declared? entry.1 entry.2.name).isSome := by
          intro entry he
          apply known entry
          rw [declarations_append]
          exact List.mem_append_left _ he
        have vs : o.isVisited := vm
        rw [resolutions_cons_visited vs, ih rest, filterMap_occurrence?_used,
          List.filter_cons_of_pos vs, List.map_cons, Occurrence.access,
          ScopeTree.seen?_eq_lookup? now]
        rfl
    · rw [resolutions_cons_keep vm, ih rest]
      cases m with
      | declared s d => rfl
      | used o =>
        have vs : ¬ o.isVisited := vm
        rw [filterMap_occurrence?_used, List.filter_cons_of_neg vs]

/-- A use that a policy admits has a spelling, by its access. -/
lemma Occurrence.render?_eq {tree : ScopeTree} {policy : Policy} {o : Occurrence}
    (fine : ¬ ((o.treeResolution tree).access = .unresolved ∧ policy = .strict)) :
    (Expr.identifier o.identifier o.span).render? tree policy o.scope =
      .ok (some (o.treeResolution tree).rendered) := by
  have hr : policy.resolve ⟨o.identifier.name, o.identifier.isPointer, false, o.span⟩
      (tree.lookup? o.scope o.identifier.name) = .ok (o.treeResolution tree).access :=
    if_neg fine
  rw [Expr.render?, hr]
  rfl

/-- A pass that succeeds leaves a use unresolved under the permissive policy at most. -/
lemma Program.resolved_of_analyze {p : Program} {lex policy a}
    (ok : (p.analyze lex policy).result = .ok a) :
    ∀ r ∈ a.resolutions, ¬ (r.access = .unresolved ∧ policy = .strict) := by
  rintro r hr ⟨hu, rfl⟩
  obtain ⟨b, okb⟩ := p.exists_permissive lex
  obtain ⟨rfl, -, settled⟩ := (strict_iff okb).mp ok
  exact settled r hr hu

/-! ## Passes -/

namespace Program

/-- A pass over a predeclared program makes no declaration at any point. -/
lemma Predeclared.keepsClear {p : Program} (pd : p.Predeclared) {env : Setting}
    (same : env.tree = p.scopes) : env.KeepsClear p.start p.steps := by
  intro first rest cut
  have ly := p.layered same cut
  have none : (env.run p.start first).position.overlay.entries = [] := by
    rw [List.eq_nil_iff_forall_not_mem]
    rintro ⟨s, d⟩ he
    have fresh := ly.fresh (ly.distinct.mem_entries_iff.mp he)
    have kept := pd (s, d) (ly.declared (s, d) he)
    rw [fresh] at kept
    cases kept
  exact congrArg Overlay.mk none

/-- The decisions about a predeclared program go by its tree. -/
lemma Predeclared.resolutions_eq {p : Program} (pd : p.Predeclared) {lex policy a}
    (ok : (p.analyze lex policy).result = .ok a) :
    a.resolutions =
      (p.occurrences.filter Occurrence.isVisited).map (·.treeResolution p.scopes) := by
  have known : ∀ entry ∈ Mention.declarations ([] ++ p.mentions),
      (p.scopes.declared? entry.1 entry.2.name).isSome := by
    rw [List.nil_append, p.declarations_mentions]
    exact pd
  rw [p.resolutions_eq ok, Mention.resolutions_eq_map known, occurrences]

/-- The two layers of a pass never declare the same, and a lookup in both is one in the tree with
all declarations of the pass bound. If the tree declares all that the program does, a pass makes no
declaration, every decision has the spelling of its identifier by the tree in the block around it,
and a strict pass fails with what goes wrong first, an identifier without a spelling or another
broken rule. -/
theorem analyze_layers (p : Program) (lex : Lexicon) (policy : Policy) :
    (∀ first rest, p.steps = first ++ rest →
      let q := ((p.setting lex policy).run p.start first).position
      (∀ s name d, q.overlay.find? s name = some d → p.scopes.declared? s name = none) ∧
      (p.Placed → ∀ entries, entries.Perm q.overlay.entries → ∀ s name,
        { q with scope := s }.lookup? p.scopes name =
          (p.scopes.bindAll entries).lookup? s name)) ∧
    (p.Predeclared →
      (∀ first rest, p.steps = first ++ rest →
        ((p.setting lex policy).run p.start first).position.overlay = .empty) ∧
      (∀ a, (p.analyze lex policy).result = .ok a →
        List.Forall₂
          (fun o r => r.name = o.identifier.name ∧ r.span = o.span ∧
            (Expr.identifier o.identifier o.span).render? p.scopes policy o.scope =
              .ok (some r.rendered))
          (p.occurrences.filter Occurrence.isVisited) a.resolutions) ∧
      ∀ v, (p.analyze lex .strict).result = .error v ↔
        p.moments.findSome? (Moment.failure? p.scopes) = some v) := by
  refine ⟨?_, fun pd => ⟨pd.keepsClear rfl, ?_, fun v => strict_error_iff (pd.keepsClear rfl)⟩⟩
  · intro first rest cut q
    have ly : p.Layered q.overlay := p.layered rfl cut
    refine ⟨fun _ _ _ => ly.fresh, ?_⟩
    intro placed entries pm s name
    have inside : ∀ entry ∈ q.overlay.entries, entry.1.index < p.scopes.size :=
      fun entry he => placed entry (ly.declared entry he)
    exact Position.lookup?_bindAll (q := { q with scope := s }) ly.distinct inside pm name
  · intro a ok
    have fine := resolved_of_analyze ok
    rw [pd.resolutions_eq ok] at fine ⊢
    rw [List.forall₂_map_right_iff, List.forall₂_same]
    intro o ho
    exact ⟨rfl, rfl, o.render?_eq (fine _ (List.mem_map_of_mem ho))⟩

end Program

/-- A function that uses its reference parameter, itself, and a name without a declaration. The tree
declares the function and the parameter. -/
def predeclared : Program :=
  let uses (name : String) (span : Span) : Stmt :=
    .expression (.identifier ⟨name, false, none⟩ span) .origin
  let body := .mk ⟨1⟩ [uses "x" ⟨0, 1⟩, uses "f" ⟨2, 3⟩, uses "y" ⟨4, 5⟩] .origin
  let tree := ((ScopeTree.empty.openFunction .root []).2.bind .root (.ofFunction "f")).2
  ⟨.mk .root [.function "f" [⟨"x", true, false, .origin⟩] body false .origin] .origin,
    (tree.bind ⟨1⟩ ⟨"x", .param, false, true⟩).2⟩

/-- The declarations of a pass can be bound in the tree. Where the tree has them all, the names have
the same spelling by both, and a strict pass fails at the name without a declaration. -/
theorem predeclared_analyze_layers :
    redeclaring.Placed ∧
      (let q := ((redeclaring.setting .empty .strict).run redeclaring.start
        redeclaring.steps).position
      q.overlay.entries.length = 3 ∧
        ∀ s name, { q with scope := s }.lookup? redeclaring.scopes name =
          (redeclaring.scopes.bindAll q.overlay.entries).lookup? s name) ∧
      predeclared.Predeclared ∧
      (∃ a, (predeclared.analyze .empty .permissive).result = .ok a ∧
        a.resolutions.map Resolution.rendered = ["x.value", "f", "y"] ∧
        List.Forall₂
          (fun o r => (Expr.identifier o.identifier o.span).render? predeclared.scopes .permissive
            o.scope = .ok (some r.rendered))
          (predeclared.occurrences.filter Occurrence.isVisited) a.resolutions) ∧
      (predeclared.analyze .empty .strict).result =
        .error ⟨.undefinedIdentifier "y", ⟨4, 5⟩⟩ := by
  have placed : redeclaring.Placed := by
    unfold Program.Placed
    decide
  have known : predeclared.Predeclared := by
    unfold Program.Predeclared
    decide
  have bound := (redeclaring.analyze_layers .empty .strict).1 redeclaring.steps [] rfl
  obtain ⟨-, spelled, fails⟩ := (predeclared.analyze_layers .empty .permissive).2 known
  refine ⟨placed, ⟨rfl, bound.2 placed _ (.refl _)⟩, known, ⟨_, rfl, rfl, ?_⟩, (fails _).mpr rfl⟩
  exact (spelled _ rfl).imp fun _ _ h => h.2.2

end FrontEnd
