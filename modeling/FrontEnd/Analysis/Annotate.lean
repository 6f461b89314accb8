import FrontEnd.Analysis.Step

/-!
# Annotated programs

Writing the accesses that an analysis found back into the program. The accesses come in the order
in which the analysis met the identifiers, and each visited identifier takes the next one. Those
that are not visited, and those left over once the accesses are used up, keep what they have.
-/

namespace FrontEnd

namespace Expr

mutual

/-- Writes accesses into the identifiers of an expression, and hands on the rest of them. -/
def annotate : Expr → List Access → Expr × List Access
  | literal l span, marks => (literal l span, marks)
  | parameter p span, marks => (parameter p span, marks)
  | identifier i span, [] => (identifier i span, [])
  | identifier i span, mark :: marks => (identifier { i with access := some mark } span, marks)
  | binary left operator right span, marks =>
    let (left, marks) := left.annotate marks
    let (right, marks) := right.annotate marks
    (binary left operator right span, marks)
  | call callee arguments span, marks =>
    let (callee, marks) := callee.annotate marks
    let (arguments, marks) := annotateAll arguments marks
    (call callee arguments span, marks)
  | member object property span, marks =>
    let (object, marks) := object.annotate marks
    let (property, marks) := property.annotate marks
    (member object property span, marks)
  | array elements span, marks =>
    let (elements, marks) := annotateAll elements marks
    (array elements span, marks)

/-- Writes accesses into some expressions, one after the other. -/
def annotateAll : List Expr → List Access → List Expr × List Access
  | [], marks => ([], marks)
  | e :: rest, marks =>
    let (e, marks) := e.annotate marks
    let (rest, marks) := annotateAll rest marks
    (e :: rest, marks)

end

/-- Writes accesses into the first `count` expressions. -/
def annotateFirst (count : Nat) (es : List Expr) (marks : List Access) :
    List Expr × List Access :=
  let (first, marks) := annotateAll (es.take count) marks
  (first ++ es.drop count, marks)

end Expr

/-- Writes accesses into the first value of a variable. -/
def Variable.annotate (v : Variable) (marks : List Access) : Variable × List Access :=
  match v.init? with
  | none => (v, marks)
  | some e =>
    let (e, marks) := e.annotate marks
    ({ v with init? := some e }, marks)

/-- Writes accesses into the first values of some variables, one after the other. -/
def Variable.annotateAll : List Variable → List Access → List Variable × List Access
  | [], marks => ([], marks)
  | v :: rest, marks =>
    let (v, marks) := v.annotate marks
    let (rest, marks) := annotateAll rest marks
    (v :: rest, marks)

/-- Writes accesses into those values of a return that an analysis visits. -/
def Expr.annotateReturn (tree : ScopeTree) (context : ScopeId) (values : List Expr)
    (marks : List Access) : List Expr × List Access :=
  match (tree.returnCount? context).getD 0 with
  | 0 => Expr.annotateAll values marks
  | n + 1 => Expr.annotateFirst (n + 1) values marks

mutual

/-- Writes accesses into a statement of a block with this context. -/
def Stmt.annotate (tree : ScopeTree) (context : ScopeId) :
    Stmt → List Access → Stmt × List Access
  | .expression e span, marks =>
    let (e, marks) := e.annotate marks
    (.expression e span, marks)
  | .imports specifiers span, marks => (.imports specifiers span, marks)
  | .variables declared span, marks =>
    let (declared, marks) := Variable.annotateAll declared marks
    (.variables declared span, marks)
  | .conditional test consequent alternate span, marks =>
    let (test, marks) := test.annotate marks
    let (consequent, marks) := Block.annotateOption tree consequent marks
    let (alternate, marks) := alternate.annotate tree marks
    (.conditional test consequent alternate span, marks)
  | .function name parameters body isExported span, marks =>
    let (body, marks) := body.annotate tree marks
    (.function name parameters body isExported span, marks)
  | .returns none span, marks => (.returns none span, marks)
  | .returns (some values) span, marks =>
    let (values, marks) := Expr.annotateReturn tree context values marks
    (.returns (some values) span, marks)
  | .enumeration e span, marks => (.enumeration e span, marks)

/-- Writes accesses into some statements of a block with this context. -/
def Stmt.annotateAll (tree : ScopeTree) (context : ScopeId) :
    List Stmt → List Access → List Stmt × List Access
  | [], marks => ([], marks)
  | s :: rest, marks =>
    let (s, marks) := s.annotate tree context marks
    let (rest, marks) := Stmt.annotateAll tree context rest marks
    (s :: rest, marks)

/-- Writes accesses into the statements of a block. -/
def Block.annotate (tree : ScopeTree) : Block → List Access → Block × List Access
  | .mk context body span, marks =>
    let (body, marks) := Stmt.annotateAll tree context body marks
    (.mk context body span, marks)

/-- Writes accesses into a branch that may be missing. -/
def Block.annotateOption (tree : ScopeTree) :
    Option Block → List Access → Option Block × List Access
  | none, marks => (none, marks)
  | some b, marks =>
    let (b, marks) := b.annotate tree marks
    (some b, marks)

/-- Writes accesses into what follows the first branch. -/
def Alternate.annotate (tree : ScopeTree) : Alternate → List Access → Alternate × List Access
  | .absent, marks => (.absent, marks)
  | .otherwise block, marks =>
    let (block, marks) := block.annotate tree marks
    (.otherwise block, marks)
  | .elseIf test consequent alternate, marks =>
    let (test, marks) := test.annotate marks
    let (consequent, marks) := Block.annotateOption tree consequent marks
    let (alternate, marks) := alternate.annotate tree marks
    (.elseIf test consequent alternate, marks)

end

/-- The program with accesses written into its visited identifiers. -/
def Program.annotate (p : Program) (marks : List Access) : Program :=
  { p with block := (p.block.annotate p.scopes marks).1 }

end FrontEnd
