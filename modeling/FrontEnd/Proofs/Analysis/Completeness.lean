import FrontEnd.Proofs.Analysis.History
import FrontEnd.Proofs.Analysis.Strictness

/-!
# Complete resolution

A strict pass that succeeds leaves no name open. Only a return with more values than its function
declares has values that are not visited (`Block.fromReturn`), and the strict policy refuses such
a return. So an identifier is resolved unless it stands inside an import specifier or the value of
an enumeration member.

Main statement: `Program.analyze_resolves`.
-/

namespace FrontEnd

/-- Whether a use of a name counts: it is neither in an import specifier nor in the value of an
enumeration member. -/
def Occurrence.counts (o : Occurrence) : Bool :=
  o.standing ≠ .imported && o.standing ≠ .memberValue

/-- An occurrence in a value of one of these returns, each in a block with its context. -/
def Occurrence.FromReturn (tree : ScopeTree) (o : Occurrence)
    (statements : List (ScopeId × Stmt)) : Prop :=
  ∃ context values span, (context, .returns (some values) span) ∈ statements ∧
    o ∈ Expr.returnOccurrences tree context values

/-- A return among some statements is one among more statements. -/
lemma Occurrence.FromReturn.mono {tree ss ts} {o : Occurrence} (fr : o.FromReturn tree ss)
    (sub : ss ⊆ ts) : o.FromReturn tree ts := by
  obtain ⟨context, values, span, hs, ho⟩ := fr
  exact ⟨context, values, span, sub hs, ho⟩

/-- The occurrences among mentions are those that are mentioned as used. -/
lemma Mention.mem_filterMap_occurrence? {ms : List Mention} {o : Occurrence} :
    o ∈ ms.filterMap occurrence? ↔ .used o ∈ ms := by
  rw [List.mem_filterMap]
  constructor
  · rintro ⟨m, hm, e⟩
    cases m with
    | declared s d => cases e
    | used u =>
      cases e
      exact hm
  · intro ho
    exact ⟨.used o, ho, rfl⟩

/-! ## Values that are not visited -/

/-- An expression that is not surplus has no surplus occurrence. -/
lemma Expr.not_surplus {scope standing o} {isProperty : Bool} {e : Expr}
    (su : o.standing = .surplus) (out : standing ≠ .surplus)
    (ho : .used o ∈ (e.occurrences scope standing isProperty).map Mention.used) : False := by
  have place := e.place_of_mem_occurrences (Mention.used_mem_map.mp ho)
  exact out (place.2.symm.trans su)

mutual

/-- What a statement leaves over stands in a return, be it the statement or one inside it. -/
lemma Stmt.fromReturn {tree context o} (su : o.standing = .surplus) :
    ∀ s : Stmt, .used o ∈ s.mentions tree context → o.FromReturn tree ((context, s) :: s.inner)
  | .expression _ _, h => (Expr.not_surplus su (by decide) h).elim
  | .imports specifiers _, h => by
    have place := Expr.place_of_mem_occurrencesOf specifiers (Mention.used_mem_map.mp h)
    cases place.2.symm.trans su
  | .variables _ _, h => by
    cases (Variable.place_of_mem_mentions h).2.symm.trans su
  | .conditional test consequent alternate _, h => by
    rw [Stmt.mentions, List.mem_append, List.mem_append] at h
    rcases h with (h | h) | h
    · exact (Expr.not_surplus su (by decide) h).elim
    · apply (Block.fromReturnOf su consequent h).mono
      exact fun x hx => List.mem_cons_of_mem _ (List.mem_append_left _ hx)
    · apply (Alternate.fromReturn su alternate h).mono
      exact fun x hx => List.mem_cons_of_mem _ (List.mem_append_right _ hx)
  | .function _ parameters body _ _, h => by
    rw [Stmt.mentions, List.mem_append, List.mem_cons] at h
    rcases h with (h | h) | h
    · cases h
    · obtain ⟨_, _, h⟩ := List.mem_map.mp h
      cases h
    · exact (Block.fromReturn su body h).mono (List.subset_cons_self _ _)
  | .returns none _, h => by cases h
  | .returns (some values) span, h =>
    ⟨context, values, span, List.mem_cons_self, Mention.used_mem_map.mp h⟩
  | .enumeration _ _, h => by
    cases (Enumeration.place_of_mem_mentions h).2.symm.trans su

/-- A surplus occurrence among statements in a row comes from a return of one of them. -/
lemma Stmt.fromReturnOf {tree context o} (su : o.standing = .surplus) :
    ∀ ss : List Stmt, .used o ∈ Stmt.mentionsOf tree context ss →
      o.FromReturn tree (Stmt.statementsOf context ss)
  | [], h => by cases h
  | s :: rest, h => by
    rcases List.mem_append.mp h with h | h
    · exact (Stmt.fromReturn su s h).mono (List.subset_append_left _ _)
    · exact (Stmt.fromReturnOf su rest h).mono (List.subset_append_right _ _)

/-- What a block leaves over stands in one of its returns. -/
lemma Block.fromReturn {tree o} (su : o.standing = .surplus) :
    ∀ b : Block, .used o ∈ b.mentions tree → o.FromReturn tree b.statements
  | .mk _ body _, h => Stmt.fromReturnOf su body h

/-- A surplus occurrence in a branch comes from a return in it. -/
lemma Block.fromReturnOf {tree o} (su : o.standing = .surplus) :
    ∀ b : Option Block, .used o ∈ Block.mentionsOf tree b →
      o.FromReturn tree (Block.statementsOf b)
  | none, h => by cases h
  | some b, h => Block.fromReturn su b h

/-- A surplus occurrence in a further branch comes from a return there. -/
lemma Alternate.fromReturn {tree context o} (su : o.standing = .surplus) :
    ∀ a : Alternate, .used o ∈ a.mentions tree context → o.FromReturn tree a.statements
  | .absent, h => by cases h
  | .otherwise block, h => Block.fromReturn su block h
  | .elseIf test consequent alternate, h => by
    rw [Alternate.mentions, List.mem_append, List.mem_append] at h
    rcases h with (h | h) | h
    · exact (Expr.not_surplus su (by decide) h).elim
    · exact (Block.fromReturnOf su consequent h).mono (List.subset_append_left _ _)
    · exact (Alternate.fromReturn su alternate h).mono (List.subset_append_right _ _)

end

/-! ## Returns that fit -/

/-- A return that fits its function is visited to its end, whether the function declares no value,
one or more. -/
lemma ScopeTree.ReturnFits.visitedCount_eq {tree : ScopeTree} {context values}
    (ft : tree.ReturnFits context values) :
    Expr.visitedCount tree context values = values.length := by
  obtain ⟨f, hf, hl⟩ := ft
  have declared : (tree.returnCount? context).getD 0 = (tree.returns f).length := by
    rw [returnCount?, hf]
    rfl
  rw [Expr.visitedCount, declared]
  split
  · rfl
  · omega

/-- A return with as many values as its function declares has none to spare. -/
lemma ScopeTree.ReturnFits.not_surplus {tree : ScopeTree} {context values o}
    (ft : tree.ReturnFits context values) (ho : o ∈ Expr.returnOccurrences tree context values) :
    o.standing ≠ .surplus := by
  rw [Expr.returnOccurrences, ft.visitedCount_eq, List.take_length, List.drop_length] at ho
  rcases List.mem_append.mp ho with ho | ho
  · rw [(Expr.place_of_mem_occurrencesOf _ ho).2]
    decide
  · cases ho

/-- The values of a return count, visited or not. -/
lemma Expr.counts_of_mem_returnOccurrences {tree context o} {values : List Expr}
    (ho : o ∈ Expr.returnOccurrences tree context values) : o.counts := by
  rcases List.mem_append.mp ho with ho | ho
  · rw [Occurrence.counts, (Expr.place_of_mem_occurrencesOf _ ho).2]
    decide
  · rw [Occurrence.counts, (Expr.place_of_mem_occurrencesOf _ ho).2]
    decide

namespace Program

/-- Where all returns fit, what counts is visited. -/
lemma ReturnsFit.counts_eq {p : Program} (ft : p.ReturnsFit) {o} (ho : o ∈ p.occurrences) :
    o.counts = o.isVisited := by
  have fits : o.standing ≠ .surplus := by
    intro su
    have used := Mention.mem_filterMap_occurrence?.mp ho
    obtain ⟨context, values, span, hs, hr⟩ := Block.fromReturn su p.block used
    exact (ft context values span hs).not_surplus hr su
  unfold Occurrence.counts Occurrence.isVisited
  cases hs : o.standing with
  | surplus => exact absurd hs fits
  | _ => rfl

/-- A strict pass that succeeds has met no broken rule and no use without a declaration. -/
lemma of_strict {p : Program} {lex a} (ok : (p.analyze lex .strict).result = .ok a) :
    p.ReturnsFit ∧ ∀ r ∈ a.resolutions, r.access ≠ .unresolved := by
  obtain ⟨b, okb⟩ := p.exists_permissive lex
  obtain ⟨rfl, clean, settled⟩ := (strict_iff okb).mp ok
  exact ⟨(p.clean_iff.mp clean).1, settled⟩

/-- The decisions of a strict pass that succeeds are about all that counts. -/
lemma resolution?_of_strict {p : Program} {lex a} (ok : (p.analyze lex .strict).result = .ok a) :
    ((p.analyze lex .strict).program.occurrences.filter Occurrence.counts).map
      Occurrence.resolution? = a.resolutions.map some := by
  -- The annotated program has the same steps, so its returns fit as well.
  have again : ((p.analyze lex .strict).program.analyze lex .strict).result = .ok a :=
    (result_eq_of_bare (p.bare_analyze lex .strict) lex .strict).trans ok
  rw [List.filter_congr fun o ho => (of_strict again).1.counts_eq ho]
  obtain ⟨_, _, _, ep⟩ := p.runs_of_analyze ok
  rw [ep, occurrences, annotated, p.mentions_annotate, p.resolutions_eq ok]
  exact Mention.resolution?_mark p.scopes [] p.mentions

/-- After a strict pass that succeeds, what counts has the access of a name that is declared. -/
lemma access_of_strict {p : Program} {lex a} (ok : (p.analyze lex .strict).result = .ok a) {o}
    (ho : o ∈ (p.analyze lex .strict).program.occurrences) (hc : o.counts) :
    ∃ access ∈ [Access.value, .pointer, .cell], o.identifier.access = some access := by
  have decided : o.resolution? ∈ a.resolutions.map some := by
    rw [← resolution?_of_strict ok]
    exact List.mem_map_of_mem (List.mem_filter.mpr ⟨ho, hc⟩)
  obtain ⟨r, hr, e⟩ := List.mem_map.mp decided
  obtain ⟨access, ha, rfl⟩ := Option.map_eq_some_iff.mp e.symm
  have known : access ≠ .unresolved := (of_strict ok).2 _ hr
  refine ⟨access, ?_, ha⟩
  cases access with
  | unresolved => exact absurd rfl known
  | _ => simp

/-- After a strict pass that succeeds, every identifier outside import specifiers and the values of
enumeration members, and so every one in any value of a return, has one resolution and the access
of a name that is declared. Nothing but accesses has changed. -/
theorem analyze_resolves {p : Program} {lex a} (ok : (p.analyze lex .strict).result = .ok a) :
    let after := (p.analyze lex .strict).program
    after.bare = p.bare ∧
    after.occurrences.map Occurrence.identifier = after.identifiers ∧
    (after.occurrences.filter Occurrence.counts).map Occurrence.resolution? =
      a.resolutions.map some ∧
    (∀ o ∈ after.occurrences, o.counts →
      ∃ access ∈ [Access.value, .pointer, .cell], o.identifier.access = some access) ∧
    ∀ context values span, (context, .returns (some values) span) ∈ after.statements →
      ∀ i ∈ Expr.identifiersOf values,
        ∃ access ∈ [Access.value, .pointer, .cell], i.access = some access := by
  intro after
  refine ⟨p.bare_analyze lex .strict, after.map_identifier_occurrences, resolution?_of_strict ok,
    fun o => access_of_strict ok, ?_⟩
  intro context values span hs i hi
  rw [← Expr.map_identifier_returnOccurrences after.scopes context values] at hi
  obtain ⟨o, ho, rfl⟩ := List.mem_map.mp hi
  have part : (Expr.returnOccurrences after.scopes context values).map .used <:+: after.mentions :=
    Block.mentions_infix after.block hs
  have here : o ∈ after.occurrences :=
    Mention.mem_filterMap_occurrence?.mpr (part.subset (Mention.used_mem_map.mpr ho))
  exact access_of_strict ok here (Expr.counts_of_mem_returnOccurrences ho)

end Program

/-- An import, an enumeration with a value, and a function that declares two values and returns them
from a branch. -/
def returning : Program :=
  let name (text : String) (start : Nat) : Expr := .ofName text ⟨start, start + 1⟩
  let values := [name "x" 10, .ofMember (name "y" 12) (name "f" 14)]
  let branch := .mk ⟨2⟩ [.returns (some values) .origin] .origin
  let body := .mk ⟨1⟩ [.conditional (name "x" 8) (some branch) .absent .origin] .origin
  let parameters := [⟨"x", true, false, .origin⟩, ⟨"y", false, true, .origin⟩]
  let scopes := (ScopeTree.empty.openFunction .root [⟨none, none⟩, ⟨none, none⟩]).2
  ⟨.mk .root [.imports [name "lib" 0] .origin,
      .enumeration ⟨"E", [⟨"A", some (name "k" 2), .origin⟩], false⟩ .origin,
      .function "f" parameters body false .origin] .origin,
    (scopes.openScope ⟨1⟩ .block).2⟩

/-- Six identifiers, of which the four that count are a cell, another one, a pointer and a value. -/
theorem returning_analyze_resolves :
    ∃ a, (returning.analyze .empty .strict).result = .ok a ∧
      let after := (returning.analyze .empty .strict).program
      after.identifiers.map Identifier.access =
        [none, none, some .cell, some .cell, some .pointer, some .value] ∧
      after.bare = returning.bare ∧
      after.occurrences.map Occurrence.identifier = after.identifiers ∧
      (after.occurrences.filter Occurrence.counts).map Occurrence.resolution? =
        a.resolutions.map some ∧
      (∀ o ∈ after.occurrences, o.counts →
        ∃ access ∈ [Access.value, .pointer, .cell], o.identifier.access = some access) ∧
      ∀ context values span, (context, .returns (some values) span) ∈ after.statements →
        ∀ i ∈ Expr.identifiersOf values,
          ∃ access ∈ [Access.value, .pointer, .cell], i.access = some access :=
  ⟨_, rfl, rfl, Program.analyze_resolves rfl⟩

end FrontEnd
