import FrontEnd.Proofs.Analysis.Telling

/-!
# The moments of a traversal

All that a traversal of a program comes by, in order: the nodes that it visits and the steps that
it performs, each with the contexts of the blocks around it, from the outermost inwards. These paths
are read off the tree of the program.

What stands between two blocks is performed without entering or leaving a scope (`Step.isPlain`),
and all of it is inside the same blocks (`Level`).
-/

namespace FrontEnd

/-- A part of a program that a traversal visits. -/
inductive Node where
  | expression (e : Expr)
  | variable (v : Variable)
  | parameter (p : Parameter)
  | statement (s : Stmt)
  | alternate (a : Alternate)

/-- A node is come by, or a step, inside the blocks with these contexts. -/
inductive Moment where
  | node (path : List ScopeId) (n : Node)
  | step (path : List ScopeId) (s : Step)

namespace Moment

def path : Moment → List ScopeId
  | node path _ | step path _ => path

def step? : Moment → Option Step
  | node _ _ => none
  | step _ s => some s

/-- The steps among moments. -/
def steps (ms : List Moment) : List Step :=
  ms.filterMap step?

/-- No moments, no steps. -/
@[simp]
lemma steps_nil : steps [] = [] := rfl

/-- Coming by a node is not a step. -/
@[simp]
lemma steps_node (path : List ScopeId) (n : Node) (ms : List Moment) :
    steps (.node path n :: ms) = steps ms := rfl

/-- A step is one. -/
@[simp]
lemma steps_step (path : List ScopeId) (s : Step) (ms : List Moment) :
    steps (.step path s :: ms) = s :: steps ms := rfl

/-- The steps of two parts in a row. -/
@[simp]
lemma steps_append (ms ns : List Moment) : steps (ms ++ ns) = steps ms ++ steps ns := by
  simp [steps]

end Moment

/-! ## Nodes and steps in the order of the visit -/

namespace Expr

mutual

/-- The moments of an expression, which may be the property of a member expression. -/
def moments (path : List ScopeId) (e : Expr) (isProperty : Bool) : List Moment :=
  .node path (.expression e) ::
    match e with
    | literal _ _ | parameter _ _ => []
    | identifier i span => [.step path (.use ⟨i.name, i.isPointer, isProperty, span⟩)]
    | binary left operator right span =>
      left.moments path false ++ .step path (.operate operator span) :: right.moments path false
    | call callee arguments _ => callee.moments path false ++ momentsOf path arguments
    | member object property _ => object.moments path false ++ property.moments path true
    | array elements _ => momentsOf path elements

/-- The moments of some expressions, one after the other. -/
def momentsOf (path : List ScopeId) : List Expr → List Moment
  | [] => []
  | e :: rest => e.moments path false ++ momentsOf path rest

end

/-- The moments of the values of a return, the first of which is for the slot `index`. -/
def slotMoments (path : List ScopeId) (index : Nat) : List Expr → List Moment
  | [] => []
  | e :: rest =>
    .step path (.remark (.returnSlot index)) ::
      (e.moments path false ++ slotMoments path (index + 1) rest)

/-- The moments of a return with values, in a block with this context. -/
def returnMoments (tree : ScopeTree) (path : List ScopeId) (context : ScopeId)
    (values : List Expr) (span : Span) : List Moment :=
  let declared? := tree.returnCount? context
  let broken := (SemanticError.ofReturn? declared? values.length).toList
  (broken.map fun e => .violate ⟨e, span⟩).map (.step path) ++
    if declared?.getD 0 = 0 then momentsOf path values
    else slotMoments path 0 (values.take (declared?.getD 0))

end Expr

def Variable.moments (path : List ScopeId) (v : Variable) : List Moment :=
  .node path (.variable v) ::
    (v.init?.elim [] (·.moments path false) ++ [.step path (.declare v.declaration)])

def Parameter.moments (path : List ScopeId) (p : Parameter) : List Moment :=
  [.node path (.parameter p), .step path (.declare p.declaration)]

mutual

/-- The moments of a statement in a block with this context, inside some other blocks. -/
def Stmt.moments (tree : ScopeTree) (outer : List ScopeId) (context : ScopeId) (s : Stmt) :
    List Moment :=
  .node (outer ++ [context]) (.statement s) ::
    match s with
    | .expression e _ => e.moments (outer ++ [context]) false
    | .imports specifiers _ =>
      (specifiers.flatMap Expr.importSteps).map (.step (outer ++ [context]))
    | .variables declared _ => declared.flatMap (Variable.moments (outer ++ [context]))
    | .conditional test consequent alternate _ =>
      test.moments (outer ++ [context]) false ++
        Block.momentsOf tree (outer ++ [context]) consequent ++
        alternate.moments tree (outer ++ [context])
    | .function name parameters body isExported _ =>
      (if isExported then [.remark (.exportedFunction name)] else []).map
          (.step (outer ++ [context])) ++
        .step (outer ++ [context]) (.declare (.ofFunction name)) ::
        body.moments tree (outer ++ [context])
          (parameters.flatMap (Parameter.moments (outer ++ [context] ++ [body.context])))
    | .returns argument span => argument.elim [] fun values =>
      Expr.returnMoments tree (outer ++ [context]) context values span
    | .enumeration e _ => e.steps.map (.step (outer ++ [context]))

/-- The moments of some statements in a block with this context. -/
def Stmt.momentsOf (tree : ScopeTree) (outer : List ScopeId) (context : ScopeId) :
    List Stmt → List Moment
  | [] => []
  | s :: rest => s.moments tree outer context ++ Stmt.momentsOf tree outer context rest

/-- The moments of a block, after those that come first in it. -/
def Block.moments (tree : ScopeTree) (path : List ScopeId) :
    Block → (first : List Moment) → List Moment
  | .mk context body _, first =>
    .step path (.enter context) :: first ++ Stmt.momentsOf tree path context body ++
      [.step (path ++ [context]) .leave]

/-- The moments of a branch that may be missing. -/
def Block.momentsOf (tree : ScopeTree) (path : List ScopeId) : Option Block → List Moment
  | none => []
  | some b => b.moments tree path []

/-- The moments of what follows the first branch. A further test belongs to the block around. -/
def Alternate.moments (tree : ScopeTree) (path : List ScopeId) (a : Alternate) : List Moment :=
  .node path (.alternate a) ::
    match a with
    | .absent => []
    | .otherwise block => block.moments tree path []
    | .elseIf test consequent alternate =>
      test.moments path false ++ Block.momentsOf tree path consequent ++
        alternate.moments tree path

end

/-- All that a traversal of a program comes by. -/
def Program.moments (p : Program) : List Moment :=
  Stmt.momentsOf p.scopes [] p.context p.block.body

/-! ## Parts without blocks -/

/-- Whether a step neither enters nor leaves a scope. -/
def Step.isPlain : Step → Bool
  | enter _ | leave => false
  | declare _ | use _ | operate _ _ | importLiteral _ _ | violate _ | remark _ => true

/-- A step that is neither about a scope nor about a name is plain. -/
lemma Step.isPlain_of_isQuiet {step : Step} (qt : step.isQuiet) : step.isPlain := by
  cases step <;> trivial

/-- A remark that may be made is plain. -/
lemma Step.plain_remarkIf (told : Bool) (r : Remark) :
    ∀ step ∈ if told then [Step.remark r] else [], step.isPlain := by
  cases told <;> simp [isPlain]

/-- What is done about a function before its body is entered is plain. -/
lemma Step.plain_announce (name : String) (isExported : Bool) :
    ∀ step ∈ (if isExported then [Step.remark (.exportedFunction name)] else []) ++
      [.declare (.ofFunction name)], step.isPlain := by
  rw [List.forall_mem_append]
  exact ⟨plain_remarkIf _ _, List.forall_mem_singleton.mpr rfl⟩

/-- Moments with their steps, none of which enters or leaves a block. -/
structure Level (path : List ScopeId) (steps : List Step) (ms : List Moment) : Prop where
  steps_eq : Moment.steps ms = steps
  path_eq : ∀ m ∈ ms, m.path = path
  plain : ∀ step ∈ steps, step.isPlain

namespace Level

/-- Nothing is on every level. -/
lemma nil {path} : Level path [] [] :=
  ⟨rfl, nofun, nofun⟩

/-- Two parts on the same level. -/
lemma append {path steps more ms ns} (lv : Level path steps ms) (lw : Level path more ns) :
    Level path (steps ++ more) (ms ++ ns) := by
  refine ⟨by rw [Moment.steps_append, lv.steps_eq, lw.steps_eq], ?_, ?_⟩
  · intro m hm
    exact (List.mem_append.mp hm).elim (lv.path_eq m) (lw.path_eq m)
  · intro step hs
    exact (List.mem_append.mp hs).elim (lv.plain step) (lw.plain step)

/-- A node on the same level. -/
lemma node {path steps ms} (n : Node) (lv : Level path steps ms) :
    Level path steps (.node path n :: ms) :=
  ⟨lv.steps_eq, List.forall_mem_cons.mpr ⟨rfl, lv.path_eq⟩, lv.plain⟩

/-- A plain step on the same level. -/
lemma step {path step steps ms} (pl : step.isPlain) (lv : Level path steps ms) :
    Level path (step :: steps) (.step path step :: ms) :=
  ⟨congrArg (step :: ·) lv.steps_eq, List.forall_mem_cons.mpr ⟨rfl, lv.path_eq⟩,
    List.forall_mem_cons.mpr ⟨pl, lv.plain⟩⟩

/-- Plain steps are on one level, each a moment of its own. -/
lemma plainAll {path} :
    ∀ {steps : List Step}, (∀ step ∈ steps, step.isPlain) →
      Level path steps (steps.map (.step path))
  | [], _ => .nil
  | step :: _, h => by
    obtain ⟨hd, tl⟩ := List.forall_mem_cons.mp h
    exact (plainAll tl).step hd

/-- Parts in a row are on one level if each of them is. -/
lemma flatMap {α : Type} {path} {steps : α → List Step} {ms : α → List Moment}
    (lv : ∀ x, Level path (steps x) (ms x)) :
    ∀ xs : List α, Level path (xs.flatMap steps) (xs.flatMap ms)
  | [] => .nil
  | x :: xs => by
    rw [List.flatMap_cons, List.flatMap_cons]
    exact (lv x).append (flatMap lv xs)

end Level

namespace Expr

mutual

/-- An expression is visited without entering a block. -/
lemma level (path : List ScopeId) :
    ∀ (isProperty : Bool) (e : Expr), Level path (e.steps isProperty) (e.moments path isProperty)
  | _, literal _ _ => Level.nil.node _
  | _, parameter _ _ => Level.nil.node _
  | _, identifier _ _ => (Level.nil.step rfl).node _
  | _, binary left _ right _ => by
    rw [steps, moments]
    exact ((level path false left).append ((level path false right).step rfl)).node _
  | _, call callee arguments _ => by
    rw [steps, moments]
    exact ((level path false callee).append (levelOf path arguments)).node _
  | _, member object property _ => by
    rw [steps, moments]
    exact ((level path false object).append (level path true property)).node _
  | _, array elements _ => by
    rw [steps, moments]
    exact (levelOf path elements).node _

/-- So are expressions in a row. -/
lemma levelOf (path : List ScopeId) :
    ∀ es : List Expr, Level path (stepsOf es) (momentsOf path es)
  | [] => .nil
  | e :: rest => by
    rw [stepsOf, momentsOf]
    exact (level path false e).append (levelOf path rest)

end

/-- So are the values of a return, slot by slot. -/
lemma level_slot (path : List ScopeId) (index : Nat) (es : List Expr) :
    Level path (slotSteps index es) (slotMoments path index es) := by
  induction es generalizing index with
  | nil => exact .nil
  | cons e rest ih => exact ((level path false e).append (ih (index + 1))).step rfl

/-- So is a return, with the rule that it may break. -/
lemma level_return (tree : ScopeTree) (path : List ScopeId) (context : ScopeId)
    (values : List Expr) (span : Span) :
    Level path (returnSteps tree context values span)
      (returnMoments tree path context values span) := by
  have breaks : ∀ es : List SemanticError, ∀ step ∈ es.map fun e => Step.violate ⟨e, span⟩,
      step.isPlain := by
    intro es step h
    obtain ⟨_, _, rfl⟩ := List.mem_map.mp h
    rfl
  rw [returnSteps_eq, valueSteps, returnMoments]
  refine (Level.plainAll (breaks _)).append ?_
  split
  · exact levelOf path values
  · exact level_slot path 0 _

/-- Imports are told in place. -/
lemma plain_importSteps (es : List Expr) :
    ∀ step ∈ es.flatMap importSteps, step.isPlain :=
  fun step h => Step.isPlain_of_isQuiet (quiet_importSteps es step h)

end Expr

/-- A variable is visited in place, its first value before it is declared. -/
lemma Variable.level (path : List ScopeId) (v : Variable) :
    Level path v.steps (v.moments path) := by
  unfold Variable.steps Variable.moments
  have declares : Level path [.declare v.declaration] [.step path (.declare v.declaration)] :=
    Level.nil.step rfl
  cases v.init? with
  | none => exact declares.node _
  | some e => exact ((e.level path false).append declares).node _

/-- Parameters are declared in place. -/
lemma Parameter.level (path : List ScopeId) :
    ∀ ps : List Parameter, Level path (ps.map fun p => .declare p.declaration)
      (ps.flatMap (Parameter.moments path))
  | [] => .nil
  | _ :: ps => ((Parameter.level path ps).step rfl).node _

/-- An enumeration is declared and checked in place. -/
lemma Enumeration.plain_steps (e : Enumeration) : ∀ step ∈ e.steps, step.isPlain := by
  intro step h
  simp only [steps, List.mem_append, List.mem_cons, List.mem_map, List.not_mem_nil, or_false] at h
  obtain (h | rfl | rfl) | ⟨_, _, rfl⟩ := h
  · exact Step.plain_remarkIf _ _ step h
  all_goals rfl

end FrontEnd
