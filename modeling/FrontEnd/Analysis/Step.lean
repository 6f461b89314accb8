import FrontEnd.Fault
import FrontEnd.Program.Stmt

/-!
# Steps of an analysis

An analysis visits a program from left to right. What it meets between two blocks is laid out first,
as a list of steps: the declarations made, the names used, the operators, and the rules that the
program breaks. The steps depend on the program alone, and on the scope around a return. What a name
means, and whether a broken rule counts, is settled when the steps are performed.

Import specifiers and the values of enumeration members are not visited, nor are the values of a
return beyond those that its function declares.
-/

namespace FrontEnd

/-- A use of a name at a place of the source. -/
structure Use where
  name : String
  /-- The use is marked as a pointer. -/
  asPointer : Bool
  /-- The use is the property of a member expression. -/
  isMember : Bool
  span : Span
deriving DecidableEq, Repr

/-- A rule that a program breaks. -/
inductive SemanticError where
  | undefinedIdentifier (name : String)
  | returnOutsideFunction
  | returnCount (expected found : Nat)
  | duplicateMember (member enumeration : String)
deriving DecidableEq, Repr

def SemanticError.message : SemanticError → String
  | undefinedIdentifier name => s!"undefined identifier '{name}'"
  | returnOutsideFunction => "return outside of a function"
  | returnCount expected found => s!"expected {expected} return value(s), found {found}"
  | duplicateMember member enumeration =>
    s!"duplicate member '{member}' in enum '{enumeration}'"

/-- A broken rule and its place. -/
structure Violation where
  error : SemanticError
  span : Span
deriving DecidableEq, Repr

def Violation.fault (v : Violation) : Fault :=
  .semantic v.error.message v.span

/-- Something worth telling that has no effect. -/
inductive Remark where
  | exportedFunction (name : String)
  | exportedEnumeration (name : String)
  | returnSlot (index : Nat)
  | enumerationSize (name : String) (members : Nat)
deriving DecidableEq, Repr

/-- One thing that an analysis meets. -/
inductive Step where
  /-- A block begins. -/
  | enter (scope : ScopeId)
  /-- The innermost block ends. -/
  | leave
  /-- A name is declared in the scope of the innermost block. -/
  | declare (d : Declaration)
  /-- A name is used. -/
  | use (u : Use)
  /-- A binary expression, between its operands. -/
  | operate (kind : TokenKind) (span : Span)
  /-- A literal is imported. -/
  | importLiteral (value : String) (span : Span)
  /-- A rule is broken. -/
  | violate (v : Violation)
  | remark (r : Remark)
deriving DecidableEq, Repr

namespace Expr

mutual

/-- The steps of an expression, which may be the property of a member expression. -/
def steps : Expr → (isProperty : Bool) → List Step
  | literal _ _, _ | parameter _ _, _ => []
  | identifier i span, isProperty => [.use ⟨i.name, i.isPointer, isProperty, span⟩]
  | binary left operator right span, _ =>
    left.steps false ++ .operate operator span :: right.steps false
  | call callee arguments _, _ => callee.steps false ++ stepsOf arguments
  | member object property _, _ => object.steps false ++ property.steps true
  | array elements _, _ => stepsOf elements

/-- The steps of some expressions, one after the other. -/
def stepsOf : List Expr → List Step
  | [] => []
  | e :: rest => e.steps false ++ stepsOf rest

end

/-- The steps of the values of a return, the first of which is for the slot `index`. -/
def slotSteps (index : Nat) : List Expr → List Step
  | [] => []
  | e :: rest => .remark (.returnSlot index) :: (e.steps false ++ slotSteps (index + 1) rest)

end Expr

/-- A declaration comes after its first value, which still sees the names around it. -/
def Variable.steps (v : Variable) : List Step :=
  v.init?.elim [] (·.steps false) ++ [.declare v.declaration]

/-- The step of an import specifier. -/
def Expr.importSteps : Expr → List Step
  | .literal l span => [.importLiteral l.value span]
  | _ => []

/-- The number of values that the function around a scope declares to return. -/
def ScopeTree.returnCount? (tree : ScopeTree) (context : ScopeId) : Option Nat :=
  (tree.nearest? context .function).map fun f => (tree.returns f).length

/-- The rule that a return with this many values breaks, given the number that its function
declares: a function that declares none returns one value. -/
def SemanticError.ofReturn? (declared? : Option Nat) (found : Nat) : Option SemanticError :=
  match declared? with
  | none => some .returnOutsideFunction
  | some declared =>
    if found = max declared 1 then none else some (.returnCount (max declared 1) found)

/-- The steps of a return with values. Without declared slots every value is visited, else as many
as there are slots. -/
def Expr.returnSteps (tree : ScopeTree) (context : ScopeId) (values : List Expr) (span : Span) :
    List Step :=
  let declared? := tree.returnCount? context
  let broken := (SemanticError.ofReturn? declared? values.length).toList
  broken.map (fun e => .violate ⟨e, span⟩) ++
    match declared?.getD 0 with
    | 0 => Expr.stepsOf values
    | n + 1 => Expr.slotSteps 0 (values.take (n + 1))

/-- The first member whose name an earlier member, or one of `seen`, has. -/
def EnumMember.firstDuplicate? (seen : List String) : List EnumMember → Option EnumMember
  | [] => none
  | m :: rest =>
    if seen.contains m.name then some m else firstDuplicate? (m.name :: seen) rest

def Enumeration.steps (e : Enumeration) : List Step :=
  let exported := if e.isExported then [.remark (.exportedEnumeration e.name)] else []
  let duplicate := (EnumMember.firstDuplicate? [] e.members).toList
  exported ++
    [.declare e.declaration, .remark (.enumerationSize e.name e.members.length)] ++
    duplicate.map fun m => .violate ⟨.duplicateMember m.name e.name, m.span⟩

end FrontEnd
