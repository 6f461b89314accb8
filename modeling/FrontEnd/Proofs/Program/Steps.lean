import FrontEnd.Analysis.Step

/-!
# The steps of a program in a row

All that a traversal of a program meets, from the first step to the last, if no broken rule stops
it. Where a traversal goes into a block and out of it, the row has a step that enters a scope and
one that leaves it. A return is laid out by the context of the block that it stands in. A traversal
goes by the scope that it is in when it comes to the return; that the two are the same at every
return is part of `Stmt.traverse_eq`.
-/

namespace FrontEnd

mutual

/-- The steps of a statement in a block with this context. -/
def Stmt.steps (tree : ScopeTree) (context : ScopeId) : Stmt → List Step
  | .expression e _ => e.steps false
  | .imports specifiers _ => specifiers.flatMap Expr.importSteps
  | .variables declared _ => declared.flatMap Variable.steps
  | .conditional test consequent alternate _ =>
    test.steps false ++ Block.stepsOf tree consequent ++ alternate.steps tree
  | .function name parameters body isExported _ =>
    (if isExported then [.remark (.exportedFunction name)] else []) ++
      .declare (.ofFunction name) ::
      body.steps tree (parameters.map fun p => .declare p.declaration)
  | .returns argument span => argument.elim [] fun values =>
    Expr.returnSteps tree context values span
  | .enumeration e _ => e.steps

/-- The steps of some statements in a block with this context. -/
def Stmt.stepsOf (tree : ScopeTree) (context : ScopeId) : List Stmt → List Step
  | [] => []
  | s :: rest => s.steps tree context ++ Stmt.stepsOf tree context rest

/-- The steps of a block in its scope, after those that come first in it. -/
def Block.steps (tree : ScopeTree) : Block → (first : List Step) → List Step
  | .mk context body _, first =>
    .enter context :: first ++ Stmt.stepsOf tree context body ++ [.leave]

/-- The steps of a branch that may be missing. -/
def Block.stepsOf (tree : ScopeTree) : Option Block → List Step
  | none => []
  | some b => b.steps tree []

/-- The steps of what follows the first branch. A further test belongs to the block around. -/
def Alternate.steps (tree : ScopeTree) : Alternate → List Step
  | .absent => []
  | .otherwise block => block.steps tree []
  | .elseIf test consequent alternate =>
    test.steps false ++ Block.stepsOf tree consequent ++ alternate.steps tree

end

/-- The steps of a program. The outermost block is neither entered nor left. -/
def Program.steps (p : Program) : List Step :=
  Stmt.stepsOf p.scopes p.context p.block.body

end FrontEnd
