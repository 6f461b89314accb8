import FrontEnd.Program.Expr
import FrontEnd.Scope.Tree

/-!
# Statements

Statements, and the blocks they stand in. Every block names the scope that its declarations belong
to, its context.
-/

namespace FrontEnd

/-- A declared variable with its first value, if it has one. Its place in the source is not kept,
since no analysis speaks of it. -/
structure Variable where
  name : String
  isReference : Bool
  isPointer : Bool
  init? : Option Expr
deriving Repr

/-- A member of an enumeration. -/
structure EnumMember where
  name : String
  value? : Option Expr
  span : Span
deriving Repr

/-- A declared enumeration. -/
structure Enumeration where
  name : String
  members : List EnumMember
  isExported : Bool
deriving Repr

mutual

/-- A statement. One variable and several are declared by the same statement, and one value and
several are returned by the same, as a list: an analysis treats them alike. -/
inductive Stmt where
  | expression (e : Expr) (span : Span)
  | imports (specifiers : List Expr) (span : Span)
  | variables (declared : List Variable) (span : Span)
  | conditional (test : Expr) (consequent : Option Block) (alternate : Alternate) (span : Span)
  | function (name : String) (parameters : List Parameter) (body : Block) (isExported : Bool)
      (span : Span)
  /-- A return, with its values if it has an argument. -/
  | returns (argument : Option (List Expr)) (span : Span)
  | enumeration (e : Enumeration) (span : Span)

/-- Statements in the scope of their own. -/
inductive Block where
  | mk (context : ScopeId) (body : List Stmt) (span : Span)

/-- What follows the first branch of a conditional. -/
inductive Alternate where
  | absent
  | otherwise (block : Block)
  | elseIf (test : Expr) (consequent : Option Block) (alternate : Alternate)

end

namespace Block

def context : Block → ScopeId
  | mk context _ _ => context

def body : Block → List Stmt
  | mk _ body _ => body

def span : Block → Span
  | mk _ _ span => span

end Block

/-- A program: a block, and the scopes that its blocks name. -/
structure Program where
  block : Block
  scopes : ScopeTree

/-- The scope of the outermost block. -/
def Program.context (p : Program) : ScopeId :=
  p.block.context

/-! ## Declarations that statements make -/

def Variable.declaration (v : Variable) : Declaration :=
  ⟨v.name, .var, v.isPointer, v.isReference⟩

def Parameter.declaration (p : Parameter) : Declaration :=
  ⟨p.name, .param, p.isPointer, p.isReference⟩

/-- The declaration of a function with this name. -/
def Declaration.ofFunction (name : String) : Declaration :=
  ⟨name, .func, false, false⟩

def Enumeration.declaration (e : Enumeration) : Declaration :=
  ⟨e.name, .enum, false, false⟩

/-! ## Identifiers in document order -/

/-- All identifiers of the first values of some variables. -/
def Variable.identifiersOf (vs : List Variable) : List Identifier :=
  vs.flatMap fun v => v.init?.elim [] Expr.identifiers

/-- All identifiers of the values of the members. -/
def Enumeration.identifiers (e : Enumeration) : List Identifier :=
  e.members.flatMap fun m => m.value?.elim [] Expr.identifiers

mutual

/-- All identifiers of a statement. -/
def Stmt.identifiers : Stmt → List Identifier
  | .expression e _ => e.identifiers
  | .imports specifiers _ => Expr.identifiersOf specifiers
  | .variables declared _ => Variable.identifiersOf declared
  | .conditional test consequent alternate _ =>
    test.identifiers ++ Block.identifiersOf consequent ++ alternate.identifiers
  | .function _ _ body _ _ => body.identifiers
  | .returns argument _ => argument.elim [] Expr.identifiersOf
  | .enumeration e _ => e.identifiers

/-- All identifiers of some statements. -/
def Stmt.identifiersOf : List Stmt → List Identifier
  | [] => []
  | s :: rest => s.identifiers ++ Stmt.identifiersOf rest

/-- All identifiers of a block. -/
def Block.identifiers : Block → List Identifier
  | .mk _ body _ => Stmt.identifiersOf body

/-- All identifiers of a branch that may be missing. -/
def Block.identifiersOf : Option Block → List Identifier
  | none => []
  | some b => b.identifiers

/-- All identifiers of what follows the first branch. -/
def Alternate.identifiers : Alternate → List Identifier
  | .absent => []
  | .otherwise block => block.identifiers
  | .elseIf test consequent alternate =>
    test.identifiers ++ Block.identifiersOf consequent ++ alternate.identifiers

end

/-- All identifiers of a program. -/
def Program.identifiers (p : Program) : List Identifier :=
  p.block.identifiers

end FrontEnd
