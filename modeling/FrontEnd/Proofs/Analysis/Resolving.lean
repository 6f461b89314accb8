import FrontEnd.Proofs.Analysis.Flattening
import FrontEnd.Proofs.Analysis.Lexical
import FrontEnd.Proofs.Analysis.Telling

/-!
# Resolving names by a traversal

A traversal decides about names as lexical scoping does. Its overlay records the latest of the
declarations mentioned so far, but for those that the scope tree makes itself (`Overlay.Records`).
A complete run keeps that record, comes back to the scope it began in, and decides about every
visited occurrence as the mentions before it say (`Follows`).

Main statements: `Tells.follows`, by induction on what the steps of a run tell, and
`Program.resolutions_eq` for a whole pass.
-/

namespace FrontEnd

/-! ## Overlays -/

namespace Mention

/-- The last declaration of a name in a scope is the one that counts. -/
lemma latest?_declared (before : List Mention) (r : ScopeId) (d : Declaration) (s : ScopeId)
    (name : String) :
    latest? (before ++ [.declared r d]) s name =
      if s = r ∧ name = d.name then some d else latest? before s name := by
  simp only [latest?, List.filterMap_append, List.filterMap_cons, declaration?]
  by_cases h : s = r ∧ name = d.name
  · obtain ⟨rfl, rfl⟩ := h
    simp
  · have h' : ¬ (r = s ∧ d.name = name) := fun e => h ⟨e.1.symm, e.2.symm⟩
    simp [h, h']

/-- A use declares nothing. -/
lemma latest?_used (before : List Mention) (o : Occurrence) (s : ScopeId) (name : String) :
    latest? (before ++ [.used o]) s name = latest? before s name := by
  simp [latest?, declaration?]

end Mention

/-- An overlay that holds the latest of the mentioned declarations of each name in each scope, where
the scope tree has none. -/
def Overlay.Records (tree : ScopeTree) (o : Overlay) (before : List Mention) : Prop :=
  ∀ s name, o.find? s name =
    if (tree.declared? s name).isSome then none else Mention.latest? before s name

namespace Overlay.Records

/-- At the start nothing is declared and nothing recorded. -/
lemma empty (tree : ScopeTree) : Overlay.empty.Records tree [] := by
  intro s name
  simp [Overlay.empty, find?, Mention.latest?]

/-- Occurrences leave the record as it is. -/
lemma used {tree before} {o : Overlay} (rc : o.Records tree before) (u : Occurrence) :
    o.Records tree (before ++ [.used u]) := by
  intro s name
  rw [rc s name, Mention.latest?_used]

/-- A declaration goes into the record. -/
lemma declare {tree before} {p : Position} (rc : p.overlay.Records tree before)
    (d : Declaration) :
    (p.declare tree d).1.overlay.Records tree (before ++ [.declared p.scope d]) := by
  intro s name
  unfold Position.declare
  rw [Mention.latest?_declared]
  cases hd : tree.declared? p.scope d.name with
  | some _ =>
    -- The tree has the name itself, so neither side speaks of the new declaration.
    by_cases h : s = p.scope ∧ name = d.name
    · obtain ⟨rfl, rfl⟩ := h
      simp [rc p.scope d.name, hd]
    · simp [rc s name, h]
  | none =>
    by_cases h : s = p.scope ∧ name = d.name
    · obtain ⟨rfl, rfl⟩ := h
      simp [Overlay.find?_insert, hd]
    · simp [Overlay.find?_insert, rc s name, h]

/-- With its record, a traversal looks names up as lexical scoping does. -/
lemma lookup?_eq {tree before} {p : Position} (rc : p.overlay.Records tree before)
    (name : String) : p.lookup? tree name = tree.seen? before name p.scope := by
  unfold Position.lookup? ScopeTree.seen?
  congr 1
  funext s
  unfold Position.declared? ScopeTree.binding?
  rw [rc s name]
  cases tree.declared? s name <;> rfl

end Overlay.Records

/-! ## Steps -/

/-- A position and the events on the way to it, after a run from another position that told some
mentions. -/
structure Follows (tree : ScopeTree) (p : Position) (before ms : List Mention) (es : List Event)
    (q : Position) : Prop where
  scope : q.scope = p.scope
  saved : q.saved = p.saved
  overlay : q.overlay.Records tree (before ++ ms)
  resolutions : Event.resolutions es = Mention.resolutions tree before ms

/-- A quiet step decides nothing and stays where it is. -/
lemma Step.perform_quiet {env p q es} {step : Step} (qt : step.isQuiet)
    (h : step.perform env p = .ok (q, es)) : q = p ∧ Event.resolutions es = [] := by
  cases step with
  | operate kind span =>
    rw [Step.perform] at h
    split at h
    all_goals
      cases h
      exact ⟨rfl, rfl⟩
  | importLiteral value span =>
    cases h
    exact ⟨rfl, rfl⟩
  | violate v =>
    rw [Step.perform] at h
    split at h
    · cases h
      exact ⟨rfl, rfl⟩
    · cases h
  | remark r =>
    cases h
    exact ⟨rfl, rfl⟩
  | _ => cases qt

/-- A declaration decides about no use. -/
lemma Position.resolutions_declare (p : Position) (tree : ScopeTree) (d : Declaration) :
    Event.resolutions (p.declare tree d).2 = [] := by
  unfold Position.declare
  split
  · rfl
  · split <;> rfl

/-! ## Runs -/

/-- A complete run of steps that tell mentions follows these mentions. -/
lemma Tells.follows {s steps ms} (tl : Tells s steps ms) {env p q before es} (hs : p.scope = s)
    (rc : p.overlay.Records env.tree before) (rn : Runs env p steps es q) :
    Follows env.tree p before ms es q := by
  induction tl generalizing p q before es with
  | nil =>
    obtain ⟨rfl, rfl⟩ := rn.nil_inv
    exact ⟨rfl, rfl, by simpa using rc, rfl⟩
  | append _ _ ihm ihn =>
    obtain ⟨o, fs, gs, rm, ro, rfl⟩ := rn.split
    have fm := ihm hs rc rm
    have fn := ihn (fm.scope.trans hs) fm.overlay ro
    refine ⟨fn.scope.trans fm.scope, fn.saved.trans fm.saved, ?_, ?_⟩
    · rw [← List.append_assoc]
      exact fn.overlay
    · rw [Event.resolutions_append, Mention.resolutions_append, fm.resolutions, fn.resolutions]
  | quiet qt =>
    obtain ⟨rfl, he⟩ := Step.perform_quiet qt rn.one_inv
    exact ⟨rfl, rfl, by simpa using rc, he⟩
  | @declare s d =>
    subst hs
    have e : p.declare env.tree d = (q, es) := Except.ok.inj rn.one_inv
    obtain ⟨hs, hv⟩ := p.scope_declare env.tree d
    have hr := p.resolutions_declare env.tree d
    have ho := rc.declare d
    rw [e] at hs hv hr ho
    exact ⟨hs, hv, ho, hr⟩
  | @use o vs =>
    obtain ⟨rfl, rfl⟩ := Step.perform_use rn.one_inv
    refine ⟨rfl, rfl, rc.used o, ?_⟩
    rw [rc.lookup?_eq, hs]
    simp [Mention.resolutions, Mention.resolution?, vs, Event.resolutions, Event.resolution?,
      Occurrence.resolution, Occurrence.access]
  | @skip s o vs =>
    obtain ⟨rfl, rfl⟩ := rn.nil_inv
    refine ⟨rfl, rfl, rc.used o, ?_⟩
    simp [Mention.resolutions, Mention.resolution?, vs, Event.resolutions]
  | @block s inner steps ms _ ih =>
    -- The block is entered, performed from its own context, and left to where it was entered.
    obtain ⟨o, fs, inside, rfl, rfl⟩ := rn.block_inv
    have fm := ih (p := p.enter inner) rfl rc inside
    have ho : o.saved = p.scope :: p.saved := fm.saved
    rw [Position.leave, ho]
    refine ⟨rfl, rfl, fm.overlay, ?_⟩
    rw [Event.resolutions_append]
    exact (List.append_nil _).trans fm.resolutions

/-- The decisions of a pass that succeeds are those that the mentions of the program say. -/
lemma Program.resolutions_eq {p : Program} {lex policy a}
    (ok : (p.analyze lex policy).result = .ok a) :
    a.resolutions = Mention.resolutions p.scopes [] p.mentions := by
  obtain ⟨q, rn, _, _⟩ := p.runs_of_analyze ok
  exact (p.tells.follows rfl (Overlay.Records.empty p.scopes) rn).resolutions

end FrontEnd
