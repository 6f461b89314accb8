import FrontEnd.Proofs.Analysis.Declaring
import FrontEnd.Proofs.Scope.Operations

/-!
# Two layers of declarations

A traversal looks names up in two layers, the scope tree and its own overlay. The layers never
declare the same name in the same scope. So a lookup in both is a lookup in one tree, that with all
entries of the overlay bound in their scopes (`Position.lookup?_bindAll`), in whatever order these
come.

A point in the middle of a pass is reached by a run of the first steps, whether the pass succeeds or
not. The overlay then records the first mentions (`Tells.begins`), from which all else about it
follows (`Program.layered`).
-/

namespace FrontEnd

/-! ## Binding in a scope tree -/

namespace ScopeTree

/-- A tree with some declarations bound in their scopes, one after the other. -/
def bindAll (t : ScopeTree) (entries : List (ScopeId × Declaration)) : ScopeTree :=
  entries.foldl (fun t entry => (t.bind entry.1 entry.2).2) t

/-- Declarations in a tree do not change the ways outward. -/
lemma chain_bindAll (t : ScopeTree) (entries : List (ScopeId × Declaration)) (r : ScopeId) :
    (t.bindAll entries).chain r = t.chain r := by
  induction entries generalizing t with
  | nil => rfl
  | cons entry entries ih => exact (ih _).trans (t.chain_bind entry.1 entry.2 r)

/-- After binding some declarations a scope declares what it did, and else what comes first among
them. -/
lemma declared?_bindAll {t : ScopeTree} {entries : List (ScopeId × Declaration)}
    (inside : ∀ entry ∈ entries, entry.1.index < t.size) (r : ScopeId) (name : String) :
    (t.bindAll entries).declared? r name =
      (t.declared? r name).or ((Overlay.mk entries).find? r name) := by
  induction entries generalizing t with
  | nil => exact Option.or_none.symm
  | cons entry entries ih =>
    obtain ⟨s, d⟩ := entry
    obtain ⟨hs, inside⟩ := List.forall_mem_cons.mp inside
    have rest : ∀ entry ∈ entries, entry.1.index < (t.bind s d).2.size := by
      rwa [size_bind]
    rw [bindAll, List.foldl_cons, ← bindAll, ih rest, declared?_bind hs, Option.or_assoc]
    congr 1
    by_cases here : r = s ∧ name = d.name
    · obtain ⟨rfl, rfl⟩ := here
      simp [Overlay.find?, Overlay.declares]
    · have other : ¬ Overlay.declares r name (s, d) := by
        intro same
        cases Overlay.declares_iff.mp same
        exact here ⟨rfl, rfl⟩
      rw [if_neg here, Option.none_or, Overlay.find?, Overlay.find?,
        List.find?_cons_of_neg other]

end ScopeTree

/-! ## Lookups in both layers -/

namespace Overlay

/-- With one entry for a scope and a name, that entry is what is found. -/
lemma Distinct.find?_eq_some_iff {o : Overlay} (dt : o.Distinct) {s name d} :
    o.find? s name = some d ↔ (s, d) ∈ o.entries ∧ d.name = name := by
  constructor
  · intro found
    obtain ⟨entry, he, rfl⟩ := Option.map_eq_some_iff.mp found
    obtain rfl : entry.2.name = name := congrArg Prod.snd (declares_iff.mp (List.find?_some he))
    exact ⟨dt.mem_entries_iff.mpr found, rfl⟩
  · rintro ⟨he, rfl⟩
    exact dt.mem_entries_iff.mp he

/-- In an overlay with distinct entries, their order does not matter. -/
lemma Distinct.find?_perm {o : Overlay} (dt : o.Distinct) {entries} (pm : entries.Perm o.entries)
    (s : ScopeId) (name : String) : (Overlay.mk entries).find? s name = o.find? s name := by
  have same : (Overlay.mk entries).Distinct := ((pm.map key).nodup_iff).mpr dt
  apply Option.ext
  intro d
  rw [same.find?_eq_some_iff, dt.find?_eq_some_iff, pm.mem_iff]

end Overlay

namespace Position

/-- Looking a name up in both layers is looking it up in the tree with all entries bound. -/
lemma lookup?_bindAll {tree : ScopeTree} {q : Position} (dt : q.overlay.Distinct)
    (inside : ∀ entry ∈ q.overlay.entries, entry.1.index < tree.size) {entries}
    (pm : entries.Perm q.overlay.entries) (name : String) :
    q.lookup? tree name = (tree.bindAll entries).lookup? q.scope name := by
  unfold lookup? ScopeTree.lookup?
  rw [tree.chain_bindAll]
  congr 1
  funext s
  have within : ∀ entry ∈ entries, entry.1.index < tree.size :=
    fun entry he => inside entry (pm.mem_iff.mp he)
  rw [ScopeTree.declared?_bindAll within, dt.find?_perm pm, declared?]

/-- Without declarations of its own a traversal sees the tree alone. -/
lemma lookup?_of_empty {tree : ScopeTree} {q : Position} (clear : q.overlay = .empty)
    (name : String) : q.lookup? tree name = tree.lookup? q.scope name := by
  unfold lookup? ScopeTree.lookup?
  congr 1
  funext s
  rw [declared?, clear]
  exact Option.or_none

end Position

/-! ## States in the middle of a pass -/

namespace Overlay.Records

/-- The layers do not declare the same. -/
lemma declared?_eq_none {tree before s name d} {o : Overlay} (rc : o.Records tree before)
    (found : o.find? s name = some d) : tree.declared? s name = none := by
  rw [rc s name] at found
  split at found
  · cases found
  · rename_i undeclared
    simpa using undeclared

/-- What an overlay has on record was declared. -/
lemma mem_declarations {tree before s d} {o : Overlay} (rc : o.Records tree before)
    (dt : o.Distinct) (he : (s, d) ∈ o.entries) : (s, d) ∈ Mention.declarations before := by
  have found := dt.mem_entries_iff.mp he
  have fresh := rc.declared?_eq_none found
  rw [rc s d.name, fresh, Mention.latest?_eq] at found
  obtain ⟨⟨r, e⟩, last, rfl⟩ := Option.map_eq_some_iff.mp found
  obtain ⟨hm, here⟩ := List.mem_filter.mp (List.mem_of_getLast? last)
  obtain ⟨rfl, -⟩ := Prod.mk.inj (declares_iff.mp here)
  exact hm

end Overlay.Records

/-- An overlay that records the first of some mentions, after all that came before them. -/
def Overlay.Begins (tree : ScopeTree) (o : Overlay) (before ms : List Mention) : Prop :=
  ∃ done later, ms = done ++ later ∧ o.Records tree (before ++ done)

namespace Tells

/-- Nothing is performed yet. -/
lemma begins_nil {env p q before es} {ms : List Mention}
    (rc : p.overlay.Records env.tree before) (rn : Runs env p [] es q) :
    q.overlay.Begins env.tree before ms := by
  obtain ⟨rfl, -⟩ := rn.nil_inv
  exact ⟨[], ms, rfl, by rwa [List.append_nil]⟩

/-- All is performed. -/
lemma begins_all {s steps ms} (tl : Tells s steps ms) {env p q before es} (hs : p.scope = s)
    (rc : p.overlay.Records env.tree before) (rn : Runs env p steps es q) :
    q.overlay.Begins env.tree before ms :=
  ⟨ms, [], (List.append_nil ms).symm, (tl.follows hs rc rn).overlay⟩

/-- A single step is performed or not. -/
lemma begins_one {s step ms} (tl : Tells s [step] ms) {env p q before first rest es}
    (cut : [step] = first ++ rest) (hs : p.scope = s) (rc : p.overlay.Records env.tree before)
    (rn : Runs env p first es q) : q.overlay.Begins env.tree before ms := by
  obtain ⟨rfl, -⟩ | ⟨rfl, -⟩ := List.singleton_eq_append_iff.mp cut
  · exact begins_nil rc rn
  · exact tl.begins_all hs rc rn

/-- A run of the first of some steps leaves a record of the first of their mentions. -/
lemma begins {s steps ms} (tl : Tells s steps ms) {env p q before first rest es}
    (cut : steps = first ++ rest) (hs : p.scope = s) (rc : p.overlay.Records env.tree before)
    (rn : Runs env p first es q) : q.overlay.Begins env.tree before ms := by
  induction tl generalizing p q before first rest es with
  | nil =>
    obtain ⟨rfl, -⟩ := List.append_eq_nil_iff.mp cut.symm
    exact begins_nil rc rn
  | @append s _ _ ms ns tm tn ihm ihn =>
    -- The run stops in the first part, or performs that and stops in the second.
    obtain ⟨c, rfl, stop⟩ | ⟨c, stop, rfl⟩ := List.append_eq_append_iff.mp cut
    · obtain ⟨o, _, _, rm, ro, -⟩ := rn.split
      have fm := tm.follows hs rc rm
      obtain ⟨done, later, rfl, rc⟩ := ihn stop (fm.scope.trans hs) fm.overlay ro
      exact ⟨ms ++ done, later, by rw [List.append_assoc], by rwa [← List.append_assoc]⟩
    · obtain ⟨done, later, rfl, rc⟩ := ihm stop hs rc rn
      exact ⟨done, later ++ ns, by rw [List.append_assoc], rc⟩
  | quiet qt => exact (Tells.quiet qt).begins_one cut hs rc rn
  | declare => exact Tells.declare.begins_one cut hs rc rn
  | use vs => exact (Tells.use vs).begins_one cut hs rc rn
  | skip vs =>
    obtain ⟨rfl, -⟩ := List.append_eq_nil_iff.mp cut.symm
    exact begins_nil rc rn
  | @block s inner steps ms tm ih =>
    cases rn with
    | nil => exact begins_nil rc .nil
    | cons he rn =>
      obtain ⟨rfl, inside⟩ := List.cons_eq_cons.mp cut
      rcases List.eq_nil_or_concat rest with rfl | ⟨more, last, rfl⟩
      · -- The block is left again.
        rw [List.append_eq, List.append_eq, List.append_nil] at inside
        subst inside
        exact (Tells.block tm).begins_all hs rc (.cons he rn)
      · -- The run stops inside the block.
        cases he
        rw [List.append_eq, List.append_eq, List.concat_eq_append, ← List.append_assoc] at inside
        exact ih (p := p.enter inner) (List.append_inj' inside rfl).1 rfl rc rn

end Tells

/-- The position that performing steps ends in is reached by a complete run of the first of them. -/
lemma Setting.exists_runs (env : Setting) (p : Position) (steps : List Step) :
    ∃ first rest es, steps = first ++ rest ∧ Runs env p first es (env.run p steps).position := by
  obtain ⟨es, q, rn, er⟩ | ⟨first, step, rest, es, q, v, cut, rn, -, er⟩ := env.run_cases p steps
  · exact ⟨steps, [], es, (List.append_nil steps).symm, by rwa [er]⟩
  · exact ⟨first, step :: rest, es, cut, by rwa [er]⟩

/-- An overlay with declarations of a program, each of its own scope and name, that the tree of the
program does not declare. -/
structure Program.Layered (p : Program) (o : Overlay) : Prop where
  distinct : o.Distinct
  fresh : ∀ {s name d}, o.find? s name = some d → p.scopes.declared? s name = none
  declared : ∀ entry ∈ o.entries, entry ∈ p.declarations

/-- At every point of a pass the overlay lies over the tree. -/
lemma Program.layered (p : Program) {env : Setting} (same : env.tree = p.scopes) {first rest}
    (cut : p.steps = first ++ rest) : p.Layered (env.run p.start first).position.overlay := by
  obtain ⟨begun, more, es, rfl, rn⟩ := env.exists_runs p.start first
  rw [List.append_assoc] at cut
  have distinct := rn.distinct .empty
  obtain ⟨done, later, em, records⟩ := p.tells.begins cut rfl (.empty env.tree) rn
  rw [same] at records
  refine ⟨distinct, records.declared?_eq_none, ?_⟩
  rintro ⟨s, d⟩ he
  rw [← p.declarations_mentions, em, Mention.declarations_append]
  exact List.mem_append_left _ (records.mem_declarations distinct he)

end FrontEnd
