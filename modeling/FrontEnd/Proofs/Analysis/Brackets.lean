import FrontEnd.Proofs.Analysis.Moments
import FrontEnd.Proofs.Analysis.Runs

/-!
# Scopes entered and left

Whatever a traversal does, it comes back: to the scope and the saved scopes it began with, and with
events that enter and leave scopes in pairs, one inside the other (`Run.Nested`). This holds of a
traversal that breaks a rule as of one that does not, since a block is left on both paths.

Steps that neither enter nor leave a scope are performed in place (`Setting.nested_plain`), parts
one after the other come back if each of them does (`Run.Nested.andThen`), and a block comes back if
what is inside it does (`Run.Nested.within`).

Main statement: `Stmt.nested`, by induction on statements, blocks and branches.
-/

namespace FrontEnd

/-! ## Well-nested events -/

/-- Events of a stay in a scope: each scope entered from it is left to it, after a stay of its
own. -/
inductive Bracketed : ScopeId → List Event → Prop where
  | nil {s} :
    Bracketed s []
  | append {s es fs} :
    Bracketed s es →
    Bracketed s fs →
    Bracketed s (es ++ fs)
  | plain {s e} :
    ¬ e.isEntered →
    ¬ e.isLeft →
    Bracketed s [e]
  | pair {s inner es} :
    Bracketed inner es →
    Bracketed s (.entered inner s :: es ++ [.left inner s])

namespace Bracketed

/-- Events that neither enter nor leave a scope belong to one stay. -/
lemma plainAll {s} :
    ∀ {es : List Event}, (∀ e ∈ es, ¬ e.isEntered ∧ ¬ e.isLeft) → Bracketed s es
  | [], _ => .nil
  | e :: es, h => by
    obtain ⟨he, hl⟩ := h e (by simp)
    have hd : Bracketed s [e] := .plain he hl
    exact hd.append (plainAll fun x hx => h x (by simp [hx]))

/-- As many scopes are left as are entered. -/
lemma countP_eq {s es} (br : Bracketed s es) :
    es.countP Event.isEntered = es.countP Event.isLeft := by
  induction br with
  | nil => rfl
  | append _ _ ihe ihf => rw [List.countP_append, List.countP_append, ihe, ihf]
  | plain he hl => simp [he, hl]
  | pair _ ih => simp [List.countP_cons, Event.isEntered, Event.isLeft, ih]

end Bracketed

/-! ## Plain steps -/

/-- What a traversal from a position comes back with. -/
structure Run.Nested (p : Position) (r : Run) : Prop where
  scope : r.position.scope = p.scope
  saved : r.position.saved = p.saved
  bracketed : Bracketed p.scope r.events

/-- Nothing is done where nothing is to be done. -/
lemma Run.Nested.refl (p : Position) : Run.Nested p ⟨p, [], none⟩ :=
  ⟨rfl, rfl, .nil⟩

/-- A declaration is told without entering or leaving a scope. -/
lemma Position.plain_declare (p : Position) (tree : ScopeTree) (d : Declaration) :
    ∀ e ∈ (p.declare tree d).2, ¬ e.isEntered ∧ ¬ e.isLeft := by
  unfold Position.declare
  split
  · simp [Event.isEntered, Event.isLeft]
  · split <;> simp [Event.isEntered, Event.isLeft]

/-- A plain step is performed in place, and tells no entering or leaving. -/
lemma Step.perform_plain {env p q es} {step : Step} (pl : step.isPlain)
    (h : step.perform env p = .ok (q, es)) :
    q.scope = p.scope ∧ q.saved = p.saved ∧ ∀ e ∈ es, ¬ e.isEntered ∧ ¬ e.isLeft := by
  cases step with
  | enter s => cases pl
  | leave => cases pl
  | declare d =>
    have e : p.declare env.tree d = (q, es) := Except.ok.inj h
    obtain ⟨hs, hv⟩ := p.scope_declare env.tree d
    have he := p.plain_declare env.tree d
    rw [e] at hs hv he
    exact ⟨hs, hv, he⟩
  | use u =>
    obtain ⟨rfl, rfl⟩ := Step.perform_use h
    simp [Event.isEntered, Event.isLeft]
  | operate kind span =>
    rw [Step.perform] at h
    split at h <;> cases h <;> simp [Event.isEntered, Event.isLeft]
  | importLiteral value span =>
    cases h
    simp [Event.isEntered, Event.isLeft]
  | violate v =>
    rw [Step.perform] at h
    split at h <;> cases h
    simp
  | remark r =>
    cases h
    simp [Event.isEntered, Event.isLeft]

/-- Plain steps are performed in place, whether one of them breaks a rule or not. -/
lemma Setting.nested_plain (env : Setting) (p : Position) {steps : List Step}
    (plain : ∀ step ∈ steps, step.isPlain) : (env.run p steps).Nested p := by
  induction steps generalizing p with
  | nil => exact .refl p
  | cons step rest ih =>
    obtain ⟨pl, plain⟩ := List.forall_mem_cons.mp plain
    cases h : step.perform env p with
    | error v =>
      rw [Setting.run, h]
      exact ⟨rfl, rfl, .nil⟩
    | ok result =>
      obtain ⟨q, es⟩ := result
      obtain ⟨hs, hv, he⟩ := Step.perform_plain pl h
      have later := ih q plain
      rw [Setting.run_cons h]
      refine ⟨later.scope.trans hs, later.saved.trans hv, ?_⟩
      exact (Bracketed.plainAll he).append (hs ▸ later.bracketed)

/-! ## Parts of a traversal -/

namespace Run

/-- A part that follows comes back to where the part before it came back to. A rule broken in the
first part ends the whole, and that part has come back already. -/
lemma Nested.andThen {p : Position} {r : Run} {next : Position → Run} (nr : r.Nested p)
    (nn : ∀ q, (next q).Nested q) : (r.andThen next).Nested p := by
  unfold Run.andThen
  cases r.violation? with
  | some v => exact nr
  | none =>
    have later := nn r.position
    refine ⟨later.scope.trans nr.scope, later.saved.trans nr.saved, ?_⟩
    exact nr.bracketed.append (nr.scope ▸ later.bracketed)

/-- What a traversal does inside a scope, with the scope entered before it and left behind it. -/
def within (p : Position) (s : ScopeId) (r : Run) : Run :=
  Run.leave { r with events := .entered s p.scope :: r.events }

/-- A traversal that has come back inside a scope leaves that scope, to where it
was entered from. -/
lemma Nested.within_eq {p : Position} {s : ScopeId} {r : Run} (nr : r.Nested (p.enter s)) :
    r.within p s = ⟨{ r.position with scope := p.scope, saved := p.saved },
      .entered s p.scope :: r.events ++ [.left s p.scope], r.violation?⟩ := by
  have hs : r.position.saved = p.scope :: p.saved := nr.saved
  have hc : r.position.scope = s := nr.scope
  rw [within, Run.leave, Position.leave, hs, hc]

/-- A block comes back, if what is done inside it does. -/
lemma Nested.within {p : Position} {s : ScopeId} {r : Run} (nr : r.Nested (p.enter s)) :
    (r.within p s).Nested p := by
  rw [nr.within_eq]
  exact ⟨rfl, rfl, .pair nr.bracketed⟩

end Run

/-- Entering a scope is told before what is done inside it. -/
lemma Setting.run_enter (env : Setting) (p : Position) (s : ScopeId) (first : List Step)
    (next : Position → Run) :
    (env.run p (.enter s :: first)).andThen next =
      { (env.run (p.enter s) first).andThen next with
        events := .entered s p.scope :: ((env.run (p.enter s) first).andThen next).events } := by
  have enters : (Step.enter s).perform env p = .ok (p.enter s, [.entered s p.scope]) := rfl
  rw [Setting.run_cons enters, Run.andThen, Run.andThen]
  cases (env.run (p.enter s) first).violation? <;> rfl

/-- A block does in its scope what comes first in it, and then its statements. -/
lemma Block.traverse_mk (env : Setting) (p : Position) (context : ScopeId) (body : List Stmt)
    (span : Span) (first : List Step) :
    (Block.mk context body span).traverse env p first =
      ((env.run (p.enter context) first).andThen fun q => Stmt.traverseAll env q body).within p
        context := by
  rw [Block.traverse, Setting.run_enter, Run.within]

/-! ## Statements -/

/-- A test with the branch behind it and what follows comes back, if these do. -/
lemma Expr.nested_branch (env : Setting) (p : Position) (test : Expr)
    {branch later : Position → Run} (nb : ∀ q, (branch q).Nested q) (nl : ∀ q, (later q).Nested q) :
    (((env.run p (test.steps false)).andThen branch).andThen later).Nested p :=
  ((env.nested_plain p (test.level [] false).plain).andThen nb).andThen nl

mutual

/-- A traversal of a statement comes back, from every position and on every path. -/
lemma Stmt.nested (env : Setting) :
    ∀ (p : Position) (s : Stmt), (s.traverse env p).Nested p
  | p, .expression e _ => env.nested_plain p (e.level [] false).plain
  | p, .imports specifiers _ => env.nested_plain p (Expr.plain_importSteps specifiers)
  | p, .variables declared _ =>
    env.nested_plain p (Level.flatMap (Variable.level []) declared).plain
  | p, .conditional test consequent alternate _ =>
    test.nested_branch env p (fun q => Block.nestedOption env q consequent) fun q =>
      Alternate.nested env q alternate
  | p, .function name parameters body isExported _ =>
    (env.nested_plain p (Step.plain_announce name isExported)).andThen fun q =>
      Block.nested env q body (Parameter.level [] parameters).plain
  | p, .returns none _ => .refl p
  | p, .returns (some values) span =>
    env.nested_plain p (Expr.level_return env.tree [] p.scope values span).plain
  | p, .enumeration e _ => env.nested_plain p e.plain_steps

/-- Statements come back one after the other. -/
lemma Stmt.nestedAll (env : Setting) :
    ∀ (p : Position) (ss : List Stmt), (Stmt.traverseAll env p ss).Nested p
  | p, [] => .refl p
  | p, s :: rest => (Stmt.nested env p s).andThen fun q => Stmt.nestedAll env q rest

/-- A block comes back, also if a rule is broken inside it. -/
lemma Block.nested (env : Setting) :
    ∀ (p : Position) (b : Block) {first : List Step}, (∀ step ∈ first, step.isPlain) →
      (b.traverse env p first).Nested p
  | p, .mk context body span, first, plain => by
    rw [Block.traverse_mk]
    exact ((env.nested_plain _ plain).andThen fun q => Stmt.nestedAll env q body).within

/-- So does a branch that may be missing. -/
lemma Block.nestedOption (env : Setting) :
    ∀ (p : Position) (b : Option Block), (Block.traverseOption env p b).Nested p
  | p, none => .refl p
  | p, some b => Block.nested env p b (List.forall_mem_nil _)

/-- What follows the first branch comes back, over the whole chain of tests. -/
lemma Alternate.nested (env : Setting) :
    ∀ (p : Position) (a : Alternate), (a.traverse env p).Nested p
  | p, .absent => .refl p
  | p, .otherwise block => Block.nested env p block (List.forall_mem_nil _)
  | p, .elseIf test consequent alternate =>
    test.nested_branch env p (fun q => Block.nestedOption env q consequent) fun q =>
      Alternate.nested env q alternate

end

/-- A pass over a program comes back to where it began. -/
lemma Program.nested (p : Program) (lex : Lexicon) (policy : Policy) :
    (p.traverse lex policy).Nested p.start :=
  Stmt.nestedAll _ _ _

end FrontEnd
