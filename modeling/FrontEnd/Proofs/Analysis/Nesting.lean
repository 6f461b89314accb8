import FrontEnd.Proofs.Analysis.Itinerary

/-!
# The scopes of a pass

A traversal of a statement comes back to where it was, whether it breaks a rule or not. A pass over
a program therefore ends with no scope saved, is in the scopes of the blocks around whatever it
visits, and if it succeeds has entered and left a scope once for each block inside the program.

Main statement: `Program.traverse_nests`.
-/

namespace FrontEnd

/-! ## Counting blocks -/

/-- The blocks that follow the first branch, up to the end of the chain of tests. -/
def Alternate.blockCount : Alternate → Nat
  | .absent => 0
  | .otherwise _ => 1
  | .elseIf _ consequent alternate => consequent.toList.length + alternate.blockCount

/-- The blocks of a statement itself: the body of a function, and the branches of a conditional. -/
def Stmt.blockCount : Stmt → Nat
  | .expression _ _ | .imports _ _ | .variables _ _ | .returns _ _ | .enumeration _ _ => 0
  | .conditional _ consequent alternate _ => consequent.toList.length + alternate.blockCount
  | .function _ _ _ _ _ => 1

def Stmt.blockSum : List (ScopeId × Stmt) → Nat
  | [] => 0
  | (_, s) :: rest => s.blockCount + Stmt.blockSum rest

/-- The blocks inside the outermost block of a program, at any depth. -/
def Program.blockCount (p : Program) : Nat :=
  Stmt.blockSum p.statements

/-- The blocks of two lists of statements add up. -/
lemma Stmt.blockSum_append (ss ts : List (ScopeId × Stmt)) :
    Stmt.blockSum (ss ++ ts) = Stmt.blockSum ss + Stmt.blockSum ts := by
  induction ss with
  | nil => exact (Nat.zero_add _).symm
  | cons s ss ih => rw [List.cons_append, Stmt.blockSum, Stmt.blockSum, ih, Nat.add_assoc]

/-! ## Entering blocks -/

def Step.isEnter : Step → Bool
  | enter _ => true
  | _ => false

/-- How many scopes some steps enter. -/
def Step.enters (steps : List Step) : Nat :=
  steps.countP Step.isEnter

namespace Step

/-- So do the scopes that two parts enter. -/
lemma enters_append (first second : List Step) :
    enters (first ++ second) = enters first + enters second :=
  List.countP_append

/-- Plain steps enter no scope. -/
lemma enters_of_plain {steps : List Step} (h : ∀ step ∈ steps, step.isPlain) :
    enters steps = 0 := by
  rw [enters, List.countP_eq_zero]
  intro step hs
  have := h step hs
  cases step <;> simp_all [isPlain, isEnter]

end Step

/-- What stands between two blocks enters no scope. -/
lemma Level.enters {path steps ms} (lv : Level path steps ms) : Step.enters steps = 0 :=
  Step.enters_of_plain lv.plain

-- What is counted does not depend on the path, which is left empty.
mutual

/-- A statement enters its own blocks and those of the statements inside it. -/
lemma Stmt.enters (tree : ScopeTree) (context : ScopeId) :
    ∀ s : Stmt, Step.enters (s.steps tree context) = s.blockCount + Stmt.blockSum s.inner
  | .expression e _ => (e.level [] false).enters
  | .imports specifiers _ => Step.enters_of_plain (Expr.plain_importSteps specifiers)
  | .variables declared _ => (Level.flatMap (Variable.level []) declared).enters
  | .conditional test consequent alternate _ => by
    rw [Stmt.steps, Stmt.blockCount, Stmt.inner, Step.enters_append, Step.enters_append,
      (test.level [] false).enters, Block.entersOf tree consequent, Alternate.enters tree alternate,
      Stmt.blockSum_append]
    omega
  | .function name parameters body isExported _ => by
    have exported := Step.enters_of_plain
      (Step.plain_remarkIf isExported (.exportedFunction name))
    have inside := Block.enters tree body (Parameter.level [] parameters).enters
    rw [Stmt.steps, Stmt.blockCount, Stmt.inner, Step.enters_append, exported, Nat.zero_add]
    exact inside
  | .returns none _ => rfl
  | .returns (some values) span => (Expr.level_return tree [] context values span).enters
  | .enumeration e _ => Step.enters_of_plain e.plain_steps

/-- Statements in a row enter their own blocks and those inside them. -/
lemma Stmt.entersOf (tree : ScopeTree) (context : ScopeId) :
    ∀ ss : List Stmt,
      Step.enters (Stmt.stepsOf tree context ss) = Stmt.blockSum (Stmt.statementsOf context ss)
  | [] => rfl
  | s :: rest => by
    rw [Stmt.stepsOf, Stmt.statementsOf, Step.enters_append, Stmt.enters tree context s,
      Stmt.entersOf tree context rest, Stmt.blockSum_append, Stmt.blockSum]

/-- A block enters itself and the blocks of its statements. -/
lemma Block.enters (tree : ScopeTree) :
    ∀ (b : Block) {first}, Step.enters first = 0 →
      Step.enters (b.steps tree first) = 1 + Stmt.blockSum b.statements
  | .mk context body _, first, h => by
    have hd : Step.enters [.enter context] = 1 := rfl
    have tl : Step.enters [.leave] = 0 := rfl
    rw [Block.steps, Block.statements, ← List.singleton_append, Step.enters_append,
      Step.enters_append, Step.enters_append, hd, h, tl, Stmt.entersOf tree context body,
      Nat.add_zero, Nat.add_zero]

/-- A missing branch enters none. -/
lemma Block.entersOf (tree : ScopeTree) :
    ∀ b : Option Block, Step.enters (Block.stepsOf tree b) =
      b.toList.length + Stmt.blockSum (Block.statementsOf b)
  | none => rfl
  | some b => Block.enters tree b rfl

/-- Further branches enter their own blocks and those inside them. -/
lemma Alternate.enters (tree : ScopeTree) :
    ∀ a : Alternate, Step.enters (a.steps tree) = a.blockCount + Stmt.blockSum a.statements
  | .absent => rfl
  | .otherwise block => Block.enters tree block rfl
  | .elseIf test consequent alternate => by
    rw [Alternate.steps, Alternate.blockCount, Alternate.statements, Step.enters_append,
      Step.enters_append, (test.level [] false).enters, Block.entersOf tree consequent,
      Alternate.enters tree alternate, Stmt.blockSum_append]
    omega

end

/-- A program enters all blocks but the outermost. -/
lemma Program.enters (p : Program) : Step.enters p.steps = p.blockCount := by
  obtain ⟨⟨context, body, span⟩, tree⟩ := p
  exact Stmt.entersOf tree context body

/-! ## Runs -/

/-- A scope is entered by the steps that enter one. -/
lemma Step.entered_perform {env p q es} {step : Step} (h : step.perform env p = .ok (q, es)) :
    es.countP Event.isEntered = Step.enters [step] := by
  cases pl : step.isPlain with
  | true =>
    obtain ⟨_, _, he⟩ := Step.perform_plain pl h
    rw [Step.enters_of_plain (by simpa using pl), List.countP_eq_zero]
    exact fun e hm => (he e hm).1
  | false =>
    cases step with
    | enter s =>
      cases h
      rfl
    | leave =>
      rw [Step.perform, Position.leave] at h
      split at h <;> cases h <;> rfl
    | _ => cases pl

/-- A complete run enters as many scopes as its steps do. -/
lemma Runs.entered_eq {env p q steps es} (rn : Runs env p steps es q) :
    es.countP Event.isEntered = Step.enters steps := by
  induction rn with
  | nil => rfl
  | @cons _ _ _ step rest _ _ h _ ih =>
    rw [List.countP_append, Step.entered_perform h, ih, ← Step.enters_append,
      List.singleton_append]

/-! ## Passes -/

namespace Program

/-- A pass that succeeds enters each block once and leaves each block once. -/
lemma scopes_of_analyze {p : Program} {lex policy a} (ok : (p.analyze lex policy).result = .ok a) :
    a.finalScope = p.context ∧ a.pushes = p.blockCount ∧ a.pops = p.blockCount := by
  obtain ⟨q, rn, ha, _⟩ := p.runs_of_analyze ok
  have nest : (Run.mk q a.events none).Nested p.start := by
    rw [← rn.runFlat_eq, ← p.traverse_eq]
    exact p.nested lex policy
  have pushes : a.pushes = p.blockCount := rn.entered_eq.trans p.enters
  have pops : a.pops = a.pushes := nest.bracketed.countP_eq.symm
  refine ⟨?_, pushes, pops.trans pushes⟩
  rw [ha]
  exact nest.scope

/-- Every statement is traversed in place, on every path. Hence a pass has no scope left at its end,
it performs the steps of the program in a row, always in the scopes of the blocks around what it
visits, and a pass that succeeds ends where it began, having entered and left every block. -/
theorem traverse_nests :
    (∀ (env : Setting) (p : Position) (s : Stmt),
      let r := s.traverse env p
      r.position.scope = p.scope ∧ r.position.saved = p.saved ∧
        r.events.countP Event.isEntered = r.events.countP Event.isLeft ∧
        Bracketed p.scope r.events) ∧
    ∀ (p : Program) (lex : Lexicon) (policy : Policy),
      (p.traverse lex policy).position.saved = [] ∧
      p.traverse lex policy = (p.setting lex policy).runFlat p.start p.steps ∧
      Moment.steps p.moments = p.steps ∧
      (∀ first m rest, p.moments = first ++ m :: rest →
        let r := (p.setting lex policy).run p.start (Moment.steps first)
        r.violation? = none → r.position.saved.reverse ++ [r.position.scope] = m.path) ∧
      ∀ a, (p.analyze lex policy).result = .ok a →
        a.finalScope = p.context ∧ a.pushes = p.blockCount ∧ a.pops = p.blockCount := by
  constructor
  · intro env p s
    have nest := Stmt.nested env p s
    exact ⟨nest.scope, nest.saved, nest.bracketed.countP_eq, nest.bracketed⟩
  · intro p lex policy
    refine ⟨(p.nested lex policy).saved, p.traverse_eq lex policy, p.steps_moments, ?_,
      fun a ok => scopes_of_analyze ok⟩
    intro first m rest here r ok
    exact path_eq here ok

end Program

/-- A function with a chain of tests, whose second branch is missing and whose last stands alone. -/
def branching : Program :=
  let test := Expr.literal ⟨.boolean, "true"⟩ .origin
  let last := .mk ⟨3⟩ [.expression test .origin] .origin
  let chain := .conditional test (some (.mk ⟨2⟩ [] .origin)) (.elseIf test none (.otherwise last))
    .origin
  let scopes := (ScopeTree.empty.openFunction .root []).2
  let scopes := (scopes.openScope ⟨1⟩ .block).2
  ⟨.mk .root [.function "f" [] (.mk ⟨1⟩ [chain] .origin) false .origin] .origin,
    (scopes.openScope ⟨1⟩ .block).2⟩

/-- Three blocks are entered and left, and the statement of the last branch is three blocks deep. -/
theorem branching_traverse_nests :
    ∃ a, (branching.analyze .empty .strict).result = .ok a ∧
      (a.finalScope = .root ∧ a.pushes = 3 ∧ a.pops = 3) ∧
      let r := (branching.setting .empty .strict).run branching.start
        (Moment.steps (branching.moments.take 11))
      r.violation? = none ∧
        r.position.saved.reverse ++ [r.position.scope] = [.root, ⟨1⟩, ⟨3⟩] := by
  obtain ⟨_, _, _, visits, done⟩ := Program.traverse_nests.2 branching .empty .strict
  have here : branching.moments = branching.moments.take 11 ++
      .node [.root, ⟨1⟩, ⟨3⟩] (.statement (.expression (.literal ⟨.boolean, "true"⟩ .origin)
        .origin)) :: branching.moments.drop 12 := rfl
  exact ⟨_, rfl, done _ rfl, rfl, visits _ _ _ here rfl⟩

end FrontEnd
