import FrontEnd.Proofs.Analysis.Flattening

/-!
# The itinerary of a traversal

The moments of a program tell with each node and each step the contexts of the blocks around it. A
traversal has its own idea of where it is, the scopes it has saved and the one it is in
(`Position.path`).

Main statements: `Program.steps_moments`, the steps on the way are the steps of the program, and
`Program.path_eq`, a traversal is where the tree says whenever it comes by a node or a step.
-/

namespace FrontEnd

/-! ## Paths -/

/-- The scopes that a position is in, from the outermost inwards. -/
def Position.path (p : Position) : List ScopeId :=
  p.saved.reverse ++ [p.scope]

/-- Entering a scope makes the path longer by it. -/
lemma Position.path_enter (p : Position) (s : ScopeId) : (p.enter s).path = p.path ++ [s] := by
  simp [path, enter]

/-- A plain step is performed on the same path. -/
lemma Step.path_plain {env p q es} {step : Step} (pl : step.isPlain)
    (h : step.perform env p = .ok (q, es)) : q.path = p.path := by
  obtain ⟨hs, hv, _⟩ := Step.perform_plain pl h
  rw [Position.path, hs, hv, Position.path]

/-- Leaving the innermost of several scopes. -/
lemma Step.path_leave {env p q es path s} (out : path ≠ []) (hp : p.path = path ++ [s])
    (h : Step.leave.perform env p = .ok (q, es)) : q.path = path := by
  obtain ⟨hv, -⟩ := List.append_inj' hp rfl
  cases hs : p.saved with
  | nil =>
    rw [hs] at hv
    exact absurd hv.symm out
  | cons target saved =>
    rw [Step.perform, Position.leave, hs] at h
    cases h
    rw [← hv, hs, List.reverse_cons, Position.path]

/-- Moments that come one after the other, each inside the blocks that it is told with: from some
blocks to others. -/
inductive Leads : List ScopeId → List Moment → List ScopeId → Prop where
  | nil {path} :
    Leads path [] path
  | node {path n ms last} :
    Leads path ms last →
    Leads path (.node path n :: ms) last
  | plain {path step ms last} :
    step.isPlain →
    Leads path ms last →
    Leads path (.step path step :: ms) last
  | enter {path s ms last} :
    Leads (path ++ [s]) ms last →
    Leads path (.step path (.enter s) :: ms) last
  | leave {path s ms last} :
    path ≠ [] →
    Leads path ms last →
    Leads (path ++ [s]) (.step (path ++ [s]) .leave :: ms) last

namespace Leads

/-- Moments that lead on from where others lead to. -/
lemma append {path mid last ms ns} (ld : Leads path ms mid) (le : Leads mid ns last) :
    Leads path (ms ++ ns) last := by
  induction ld with
  | nil => exact le
  | node _ ih => exact .node (ih le)
  | plain pl _ ih => exact .plain pl (ih le)
  | enter _ ih => exact .enter (ih le)
  | leave out _ ih => exact .leave out (ih le)

/-- A block leads back to the blocks around it. -/
lemma block {path inner ms} (out : path ≠ []) (ld : Leads (path ++ [inner]) ms (path ++ [inner])) :
    Leads path (.step path (.enter inner) :: ms ++ [.step (path ++ [inner]) .leave]) path :=
  .enter (ld.append (.leave out .nil))

/-- What comes before a moment leads to the blocks around it. -/
lemma upTo {path last first m rest} (ld : Leads path (first ++ m :: rest) last) :
    Leads path first m.path := by
  induction first generalizing path with
  | nil => cases ld <;> exact .nil
  | cons _ first ih =>
    cases ld with
    | node ld => exact .node (ih ld)
    | plain pl ld => exact .plain pl (ih ld)
    | enter ld => exact .enter (ih ld)
    | leave out ld => exact .leave out (ih ld)

/-- A complete run is led along. -/
lemma path_eq {path last ms} (ld : Leads path ms last) {env p q es} (hp : p.path = path)
    (rn : Runs env p (Moment.steps ms) es q) : q.path = last := by
  induction ld generalizing p es with
  | nil =>
    obtain ⟨rfl, -⟩ := rn.nil_inv
    exact hp
  | node _ ih => exact ih hp rn
  | plain pl _ ih =>
    cases rn with
    | cons h rn => exact ih ((Step.path_plain pl h).trans hp) rn
  | enter _ ih =>
    cases rn with
    | cons h rn =>
      cases h
      exact ih (by rw [Position.path_enter, hp]) rn
  | leave out _ ih =>
    -- There is a block around the one that is left, so a scope is saved to go back to.
    cases rn with
    | cons h rn => exact ih (Step.path_leave out hp h) rn

end Leads

/-! ## Statements -/

/-- Moments with their steps, which lead back to where they began. -/
structure Charts (path : List ScopeId) (steps : List Step) (ms : List Moment) : Prop where
  steps_eq : Moment.steps ms = steps
  leads : Leads path ms path

namespace Charts

/-- Nothing leads back to where it began. -/
lemma nil {path} : Charts path [] [] :=
  ⟨rfl, .nil⟩

/-- Coming by a node is no step. -/
lemma node {path steps ms} (n : Node) (ct : Charts path steps ms) :
    Charts path steps (.node path n :: ms) :=
  ⟨ct.steps_eq, .node ct.leads⟩

/-- Parts one after the other. -/
lemma append {path steps more ms ns} (ct : Charts path steps ms) (cu : Charts path more ns) :
    Charts path (steps ++ more) (ms ++ ns) :=
  ⟨by rw [Moment.steps_append, ct.steps_eq, cu.steps_eq], ct.leads.append cu.leads⟩

/-- A block is entered and left around what is inside it. -/
lemma block {path inner steps ms} (out : path ≠ []) (ct : Charts (path ++ [inner]) steps ms) :
    Charts path (.enter inner :: steps ++ [.leave])
      (.step path (.enter inner) :: ms ++ [.step (path ++ [inner]) .leave]) :=
  ⟨by simp [ct.steps_eq], ct.leads.block out⟩

end Charts

/-- Without blocks to enter or leave, all moments are inside the same. -/
lemma Level.leads {path ms steps} (lv : Level path steps ms) : Leads path ms path := by
  induction ms generalizing steps with
  | nil => exact .nil
  | cons m ms ih =>
    obtain ⟨rfl, hp⟩ := List.forall_mem_cons.mp lv.path_eq
    obtain rfl := lv.steps_eq
    cases m with
    | node path n => exact .node (ih ⟨rfl, hp, lv.plain⟩)
    | step path s =>
      obtain ⟨pl, hs⟩ := List.forall_mem_cons.mp lv.plain
      exact .plain pl (ih ⟨rfl, hp, hs⟩)

/-- What stands between two blocks leads back to where it began. -/
lemma Level.charts {path steps ms} (lv : Level path steps ms) : Charts path steps ms :=
  ⟨lv.steps_eq, lv.leads⟩

mutual

/-- The moments of a statement lead back to the blocks around it. -/
lemma Stmt.charts (tree : ScopeTree) (outer : List ScopeId) (context : ScopeId) :
    ∀ s : Stmt, Charts (outer ++ [context]) (s.steps tree context) (s.moments tree outer context)
  | .expression e _ => (e.level _ false).charts.node _
  | .imports specifiers _ => (Level.plainAll (Expr.plain_importSteps specifiers)).charts.node _
  | .variables declared _ => (Level.flatMap (Variable.level _) declared).charts.node _
  | .conditional test consequent alternate _ => by
    rw [Stmt.steps, Stmt.moments]
    exact (((test.level _ false).charts.append (Block.chartsOf tree (by simp) consequent)).append
      (Alternate.charts tree (by simp) alternate)).node _
  | .function name parameters body isExported _ => by
    have exported : Level (outer ++ [context]) _ _ := .plainAll
      (Step.plain_remarkIf isExported (.exportedFunction name))
    have declares : Level (outer ++ [context]) [.declare (.ofFunction name)]
        [.step (outer ++ [context]) (.declare (.ofFunction name))] := Level.nil.step rfl
    have out : outer ++ [context] ≠ [] := by simp
    have inside := Block.charts tree out body (Parameter.level _ parameters).charts
    rw [Stmt.steps, Stmt.moments]
    exact (exported.charts.append (declares.charts.append inside)).node _
  | .returns none _ => Charts.nil.node _
  | .returns (some values) span =>
    (Expr.level_return tree _ context values span).charts.node _
  | .enumeration e _ => (Level.plainAll e.plain_steps).charts.node _

/-- So do those of statements in a row. -/
lemma Stmt.chartsOf (tree : ScopeTree) (outer : List ScopeId) (context : ScopeId) :
    ∀ ss : List Stmt, Charts (outer ++ [context]) (Stmt.stepsOf tree context ss)
      (Stmt.momentsOf tree outer context ss)
  | [] => .nil
  | s :: rest => by
    rw [Stmt.stepsOf, Stmt.momentsOf]
    exact (Stmt.charts tree outer context s).append (Stmt.chartsOf tree outer context rest)

/-- So do those of a block, with what comes first in it. -/
lemma Block.charts (tree : ScopeTree) {path : List ScopeId} (out : path ≠ []) :
    ∀ (b : Block) {first ms}, Charts (path ++ [b.context]) first ms →
      Charts path (b.steps tree first) (b.moments tree path ms)
  | .mk context body _, _, _, ct => by
    rw [Block.steps, Block.moments]
    exact (ct.append (Stmt.chartsOf tree path context body)).block out

/-- So do those of a branch that may be missing. -/
lemma Block.chartsOf (tree : ScopeTree) {path : List ScopeId} (out : path ≠ []) :
    ∀ b : Option Block, Charts path (Block.stepsOf tree b) (Block.momentsOf tree path b)
  | none => .nil
  | some b => Block.charts tree out b .nil

/-- So do those of further branches. -/
lemma Alternate.charts (tree : ScopeTree) {path : List ScopeId} (out : path ≠ []) :
    ∀ a : Alternate, Charts path (a.steps tree) (a.moments tree path)
  | .absent => Charts.nil.node _
  | .otherwise block => (Block.charts tree out block .nil).node _
  | .elseIf test consequent alternate => by
    rw [Alternate.steps, Alternate.moments]
    exact (((test.level _ false).charts.append (Block.chartsOf tree out consequent)).append
      (Alternate.charts tree out alternate)).node _

end

namespace Program

/-- The moments of a program lead back to its outermost block. -/
lemma charts (p : Program) : Charts [p.context] p.steps p.moments :=
  Stmt.chartsOf p.scopes [] p.context p.block.body

/-- The steps of a program are those that a traversal comes by. -/
lemma steps_moments (p : Program) : Moment.steps p.moments = p.steps :=
  p.charts.steps_eq

/-- Whenever a traversal of a program comes by a node or a step, it is in the scopes of the blocks
around. -/
lemma path_eq {p : Program} {first m rest} (here : p.moments = first ++ m :: rest)
    {env : Setting} (ok : (env.run p.start (Moment.steps first)).violation? = none) :
    (env.run p.start (Moment.steps first)).position.path = m.path := by
  have ld := p.charts.leads
  rw [here] at ld
  exact ld.upTo.path_eq rfl (env.runs_of_run ok)

end Program

end FrontEnd
