import FrontEnd.Proofs.Analysis.Brackets

/-!
# Traversals by steps in a row

A traversal of a program performs its steps in a row. Where a broken rule stops it, it goes back
from there through all scopes that it has entered (`Position.unwind`), which is what leaving the
blocks around one by one comes to. The row of a program lays out each return by the context of the
block that it stands in, and a traversal by the scope that it is in, which are the same.

Main statements: `Stmt.traverse_eq` and `Program.traverse_eq`. With them a pass over a program is
known by the steps that it performs (`Program.analyze_cases`).
-/

namespace FrontEnd

/-! ## Going back -/

namespace Position

/-- Goes back until as many scopes are remembered as at the start. -/
def unwind (depth : Nat) (p : Position) : Position × List Event :=
  go p.scope p.saved
where
  /-- The walk back through the remembered scopes. -/
  go (scope : ScopeId) : List ScopeId → Position × List Event
    | [] => ({ p with scope, saved := [] }, [])
    | target :: saved =>
      if saved.length < depth then ({ p with scope, saved := target :: saved }, [])
      else
        let (q, events) := go target saved
        (q, .left scope target :: events)

/-- There is nothing to go back from where no more scopes are remembered than at the start. -/
lemma unwind.go_of_le {p : Position} {depth scope} {saved : List ScopeId}
    (h : saved.length ≤ depth) : unwind.go depth p scope saved = ({ p with scope, saved }, []) := by
  cases saved with
  | nil => rfl
  | cons target saved => rw [unwind.go, if_pos (Nat.lt_of_succ_le h)]

/-- Nothing is left at the depth that is gone back to. -/
lemma unwind_length (p : Position) : p.unwind p.saved.length = (p, []) :=
  unwind.go_of_le (Nat.le_refl _)

/-- Going back one scope further leaves that scope last. -/
lemma unwind_succ {p : Position} {depth target saved} (hd : saved.length = depth)
    (h : (p.unwind (depth + 1)).1.saved = target :: saved) :
    p.unwind depth =
      ({ (p.unwind (depth + 1)).1 with scope := target, saved },
        (p.unwind (depth + 1)).2 ++ [.left (p.unwind (depth + 1)).1.scope target]) := by
  unfold unwind at h ⊢
  generalize p.scope = scope at h ⊢
  generalize p.saved = through at h ⊢
  induction through generalizing scope with
  | nil => cases h
  | cons next older ih =>
    rw [unwind.go] at h
    rw [unwind.go, unwind.go]
    -- Both walks go the same way, until the shorter one ends.
    by_cases hn : older.length < depth + 1
    · rw [if_pos hn] at h ⊢
      cases h
      rw [if_neg (by omega), unwind.go_of_le (Nat.le_of_eq hd)]
      rfl
    · rw [if_neg hn] at h ⊢
      rw [if_neg (by omega), ih next h]
      rfl

end Position

/-- Going back decides nothing about names. -/
lemma Position.resolutions_unwind (depth : Nat) (p : Position) :
    Event.resolutions (p.unwind depth).2 = [] := by
  unfold Position.unwind
  generalize p.scope = scope
  induction p.saved generalizing scope with
  | nil => rfl
  | cons target saved ih =>
    unfold Position.unwind.go
    split
    · rfl
    · exact ih target

/-! ## Steps in a row -/

/-- Performs steps in a row, and goes back to the start if a broken rule stops them. -/
def Setting.runFlat (env : Setting) (p : Position) (steps : List Step) : Run :=
  let r := env.run p steps
  match r.violation? with
  | none => r
  | some _ =>
    let (position, events) := r.position.unwind p.saved.length
    { r with position, events := r.events ++ events }

/-- A complete run is what a traversal gives. -/
lemma Runs.runFlat_eq {env p q steps es} (rn : Runs env p steps es q) :
    env.runFlat p steps = ⟨q, es, none⟩ := by
  rw [Setting.runFlat, rn.run_eq]

namespace Setting

/-- Performing steps without breaking a rule is a complete run. -/
lemma runs_of_run (env : Setting) {p steps} (ok : (env.run p steps).violation? = none) :
    Runs env p steps (env.run p steps).events (env.run p steps).position := by
  obtain ⟨es, q, rn, er⟩ | ⟨_, _, _, _, _, v, _, _, _, er⟩ := env.run_cases p steps
  · rw [er]
    exact rn
  · rw [er] at ok
    cases ok

/-- A traversal breaks the rule that performing the steps breaks. -/
lemma runFlat_of_violation {env : Setting} {p q steps es v}
    (h : env.run p steps = ⟨q, es, some v⟩) :
    env.runFlat p steps =
      ⟨(q.unwind p.saved.length).1, es ++ (q.unwind p.saved.length).2, some v⟩ := by
  rw [runFlat, h]

/-- Steps are traversed one part after the other, if the first part comes back. -/
lemma runFlat_append {env : Setting} {p first} (second : List Step)
    (h : (env.runFlat p first).position.saved = p.saved) :
    env.runFlat p (first ++ second) =
      (env.runFlat p first).andThen fun q => env.runFlat q second := by
  obtain ⟨es, q, rn, er⟩ | ⟨_, _, _, es, q, v, _, _, _, er⟩ := env.run_cases p first
  · rw [rn.runFlat_eq] at h ⊢
    rw [Run.andThen]
    cases hs : env.run q second with
    | mk r fs v? =>
      have whole : env.run p (first ++ second) = ⟨r, es ++ fs, v?⟩ := by
        simp only [run_append, er, Run.andThen, hs]
      cases v? with
      | none => rw [runFlat, runFlat, whole, hs]
      | some v =>
        rw [runFlat_of_violation whole, runFlat_of_violation hs, ← h, List.append_assoc]
  · have whole : env.run p (first ++ second) = ⟨q, es, some v⟩ := by
      rw [run_append, er, Run.andThen]
    rw [runFlat_of_violation whole, runFlat_of_violation er, Run.andThen]

/-- A block is traversed in its own scope, which is left whether a rule is broken in it or not. -/
lemma runFlat_block {env : Setting} {p inner steps}
    (h : (env.runFlat (p.enter inner) steps).Nested (p.enter inner)) :
    env.runFlat p (.enter inner :: steps ++ [.leave]) =
      let r := env.runFlat (p.enter inner) steps
      ⟨{ r.position with scope := p.scope, saved := p.saved },
        .entered inner p.scope :: r.events ++ [.left inner p.scope], r.violation?⟩ := by
  have enters : (Step.enter inner).perform env p = .ok (p.enter inner, [.entered inner p.scope]) :=
    rfl
  obtain ⟨es, q, rn, er⟩ | ⟨_, _, _, es, q, v, _, _, _, er⟩ := env.run_cases (p.enter inner) steps
  · rw [rn.runFlat_eq] at h ⊢
    have leaves : Step.leave.perform env q =
        .ok ({ q with scope := p.scope, saved := p.saved }, [.left inner p.scope]) := by
      have hs : q.saved = p.scope :: p.saved := h.saved
      have hc : q.scope = inner := h.scope
      rw [Step.perform, Position.leave, hs, hc]
    exact (Runs.cons enters (rn.append (.cons leaves .nil))).runFlat_eq
  · have whole : env.run p (.enter inner :: (steps ++ [.leave])) =
        ⟨q, [.entered inner p.scope] ++ es, some v⟩ := by
      rw [run_cons enters, run_append, er, Run.andThen]
    rw [runFlat_of_violation er] at h ⊢
    -- Going back from inside the block comes by the block's own scope, and then leaves it.
    have back := Position.unwind_succ rfl h.saved
    have hc : (q.unwind (p.saved.length + 1)).1.scope = inner := h.scope
    rw [List.cons_append, runFlat_of_violation whole, back, hc]
    simp [Position.enter]

end Setting

/-- Plain steps are performed in place, so that there is nowhere to go back to. -/
lemma Setting.runFlat_of_plain (env : Setting) (p : Position) {steps : List Step}
    (plain : ∀ step ∈ steps, step.isPlain) : env.run p steps = env.runFlat p steps := by
  have nest := env.nested_plain p plain
  cases h : env.run p steps with
  | mk q es v? =>
    cases v? with
    | none => rw [Setting.runFlat, h]
    | some v =>
      rw [h] at nest
      rw [Setting.runFlat_of_violation h, ← nest.saved, Position.unwind_length, List.append_nil]

/-! ## Statements -/

/-- A part of a traversal and what follows it perform their steps in a row. -/
lemma Run.Nested.andThen_eq {env : Setting} {p : Position} {r : Run} {next : Position → Run}
    {first second : List Step} (nr : r.Nested p) (er : r = env.runFlat p first)
    (en : ∀ q, q.scope = p.scope → next q = env.runFlat q second) :
    r.andThen next = env.runFlat p (first ++ second) := by
  subst er
  rw [Setting.runFlat_append second nr.saved, Run.andThen, Run.andThen, en _ nr.scope]

/-- A test, the branch behind it and what follows perform their steps in a row, if the branch and
what follows do. -/
lemma Expr.branch_eq (env : Setting) (p : Position) (test : Expr) {branch later : Position → Run}
    {second third : List Step} (nb : ∀ q, (branch q).Nested q)
    (eb : ∀ q, branch q = env.runFlat q second) (el : ∀ q, later q = env.runFlat q third) :
    ((env.run p (test.steps false)).andThen branch).andThen later =
      env.runFlat p (test.steps false ++ second ++ third) := by
  have plain := (test.level [] false).plain
  have tested := env.nested_plain p plain
  have whole := tested.andThen_eq (env.runFlat_of_plain p plain) fun q _ => eb q
  exact (tested.andThen nb).andThen_eq whole fun q _ => el q

mutual

/-- A statement is traversed by performing its steps in a row. -/
lemma Stmt.traverse_eq (env : Setting) :
    ∀ (p : Position) (s : Stmt), s.traverse env p = env.runFlat p (s.steps env.tree p.scope)
  | p, .expression e _ => env.runFlat_of_plain p (e.level [] false).plain
  | p, .imports specifiers _ => env.runFlat_of_plain p (Expr.plain_importSteps specifiers)
  | p, .variables declared _ =>
    env.runFlat_of_plain p (Level.flatMap (Variable.level []) declared).plain
  | p, .conditional test consequent alternate _ =>
    test.branch_eq env p (fun q => Block.nestedOption env q consequent)
      (fun q => Block.traverseOption_eq env q consequent)
      fun q => Alternate.traverse_eq env q alternate
  | p, .function name parameters body isExported _ => by
    have plain := Step.plain_announce name isExported
    rw [Stmt.steps, List.append_cons]
    exact (env.nested_plain p plain).andThen_eq (env.runFlat_of_plain p plain) fun q _ =>
      Block.traverse_eq env q body (Parameter.level [] parameters).plain
  | _, .returns none _ => rfl
  | p, .returns (some values) span =>
    env.runFlat_of_plain p (Expr.level_return env.tree [] p.scope values span).plain
  | p, .enumeration e _ => env.runFlat_of_plain p e.plain_steps

/-- Statements of a block are traversed by performing their steps in a row. -/
lemma Stmt.traverseAll_eq (env : Setting) :
    ∀ (p : Position) (ss : List Stmt),
      Stmt.traverseAll env p ss = env.runFlat p (Stmt.stepsOf env.tree p.scope ss)
  | _, [] => rfl
  | p, s :: rest =>
    (Stmt.nested env p s).andThen_eq (Stmt.traverse_eq env p s) fun q hs =>
      hs ▸ Stmt.traverseAll_eq env q rest

/-- In a block the steps are laid out by its context, which is the scope that it is traversed in. -/
lemma Block.traverse_eq (env : Setting) :
    ∀ (p : Position) (b : Block) {first : List Step}, (∀ step ∈ first, step.isPlain) →
      b.traverse env p first = env.runFlat p (b.steps env.tree first)
  | p, .mk context body span, first, plain => by
    have opened := env.nested_plain (p.enter context) plain
    have inside := opened.andThen_eq (env.runFlat_of_plain _ plain) fun q hs =>
      hs ▸ Stmt.traverseAll_eq env q body
    have nest := opened.andThen fun q => Stmt.nestedAll env q body
    rw [Block.traverse_mk, nest.within_eq, inside, Block.steps]
    rw [inside] at nest
    exact (Setting.runFlat_block nest).symm

/-- A branch that may be missing is traversed by performing its steps in a row. -/
lemma Block.traverseOption_eq (env : Setting) :
    ∀ (p : Position) (b : Option Block),
      Block.traverseOption env p b = env.runFlat p (Block.stepsOf env.tree b)
  | _, none => rfl
  | p, some b => Block.traverse_eq env p b (List.forall_mem_nil _)

/-- What follows the first branch is traversed by performing its steps in a row. -/
lemma Alternate.traverse_eq (env : Setting) :
    ∀ (p : Position) (a : Alternate), a.traverse env p = env.runFlat p (a.steps env.tree)
  | _, .absent => rfl
  | p, .otherwise block => Block.traverse_eq env p block (List.forall_mem_nil _)
  | p, .elseIf test consequent alternate =>
    test.branch_eq env p (fun q => Block.nestedOption env q consequent)
      (fun q => Block.traverseOption_eq env q consequent)
      fun q => Alternate.traverse_eq env q alternate

end

/-! ## Passes -/

namespace Program

/-- A program is traversed by performing its steps in a row. -/
lemma traverse_eq (p : Program) (lex : Lexicon) (policy : Policy) :
    p.traverse lex policy = (p.setting lex policy).runFlat p.start p.steps :=
  Stmt.traverseAll_eq _ _ _

/-- The program with the accesses of some decisions. -/
def annotated (p : Program) (rs : List Resolution) : Program :=
  p.annotate (rs.map Resolution.access)

/-- A pass over a program performs all its steps, or those up to a step that breaks a rule. -/
lemma analyze_cases (p : Program) (lex : Lexicon) (policy : Policy) :
    (∃ es q, Runs (p.setting lex policy) p.start p.steps es q ∧
      p.analyze lex policy =
        ⟨p.annotated (Event.resolutions es), es, .ok ⟨es, q.overlay, q.scope⟩⟩) ∨
    ∃ first step rest es q v, p.steps = first ++ step :: rest ∧
      Runs (p.setting lex policy) p.start first es q ∧
      step.perform (p.setting lex policy) q = .error v ∧
      (p.analyze lex policy).result = .error v ∧
      (p.analyze lex policy).program = p.annotated (Event.resolutions es) ∧
      Event.resolutions (p.analyze lex policy).events = Event.resolutions es := by
  obtain ⟨es, q, rn, er⟩ | ⟨first, step, rest, es, q, v, ep, rn, hv, er⟩ :=
    (p.setting lex policy).run_cases p.start p.steps
  · refine .inl ⟨es, q, rn, ?_⟩
    rw [analyze, p.traverse_eq, rn.runFlat_eq]
    rfl
  · refine .inr ⟨first, step, rest, es, q, v, ep, rn, hv, ?_⟩
    let back := q.unwind p.start.saved.length
    have et : p.traverse lex policy = ⟨back.1, es ++ back.2, some v⟩ := by
      rw [p.traverse_eq, Setting.runFlat_of_violation er]
    have hr : Event.resolutions (es ++ back.2) = Event.resolutions es := by
      rw [Event.resolutions_append, q.resolutions_unwind, List.append_nil]
    rw [analyze, et, ← hr]
    exact ⟨rfl, rfl, rfl⟩

/-- A pass that succeeds is a complete run. -/
lemma runs_of_analyze {p : Program} {lex policy a} (ok : (p.analyze lex policy).result = .ok a) :
    ∃ q, Runs (p.setting lex policy) p.start p.steps a.events q ∧
      a = ⟨a.events, q.overlay, q.scope⟩ ∧
      (p.analyze lex policy).program = p.annotated a.resolutions := by
  obtain ⟨es, q, rn, er⟩ | ⟨_, _, _, _, _, v, _, _, _, hv, _⟩ := p.analyze_cases lex policy
  · rw [er] at ok ⊢
    cases ok
    exact ⟨q, rn, rfl, rfl⟩
  · cases hv.symm.trans ok

end Program

end FrontEnd
