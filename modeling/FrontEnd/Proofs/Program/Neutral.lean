import FrontEnd.Analysis.Annotate
import FrontEnd.Proofs.Program.Content

/-!
# Programs with one operator

`Program.neutral` is the program with the same operator everywhere, so that two programs with one
neutral form differ in the kinds of their operators alone. Operators stand in no other step than
their own, and take no accesses.

Main statements: `Program.steps_neutral` and `Program.annotate_neutral`.
-/

namespace FrontEnd

namespace Expr

mutual

/-- The expression with one operator everywhere. -/
def neutral : Expr → Expr
  | literal l span => literal l span
  | parameter p span => parameter p span
  | identifier i span => identifier i span
  | binary left _ right span => binary left.neutral default right.neutral span
  | call callee arguments span => call callee.neutral (neutralOf arguments) span
  | member object property span => member object.neutral property.neutral span
  | array elements span => array (neutralOf elements) span

/-- Expressions with one operator everywhere. -/
def neutralOf : List Expr → List Expr
  | [] => []
  | e :: rest => e.neutral :: neutralOf rest

end

/-- Operators are taken out of a list of expressions one by one. -/
lemma neutralOf_eq_map (es : List Expr) : neutralOf es = es.map neutral := by
  induction es with
  | nil => rfl
  | cons e es ih => rw [neutralOf, ih, List.map_cons]

end Expr

def Variable.neutral (v : Variable) : Variable :=
  { v with init? := v.init?.map Expr.neutral }

def EnumMember.neutral (m : EnumMember) : EnumMember :=
  { m with value? := m.value?.map Expr.neutral }

def Enumeration.neutral (e : Enumeration) : Enumeration :=
  { e with members := e.members.map EnumMember.neutral }

mutual

/-- The statement with one operator everywhere. -/
def Stmt.neutral : Stmt → Stmt
  | .expression e span => .expression e.neutral span
  | .imports specifiers span => .imports (Expr.neutralOf specifiers) span
  | .variables declared span => .variables (declared.map Variable.neutral) span
  | .conditional test consequent alternate span =>
    .conditional test.neutral (Block.neutralOf consequent) alternate.neutral span
  | .function name parameters body isExported span =>
    .function name parameters body.neutral isExported span
  | .returns argument span => .returns (argument.map Expr.neutralOf) span
  | .enumeration e span => .enumeration e.neutral span

/-- Statements with one operator everywhere. -/
def Stmt.neutralOf : List Stmt → List Stmt
  | [] => []
  | s :: rest => s.neutral :: Stmt.neutralOf rest

/-- The block with one operator everywhere. -/
def Block.neutral : Block → Block
  | .mk context body span => .mk context (Stmt.neutralOf body) span

/-- A branch that may be missing, with one operator everywhere. -/
def Block.neutralOf : Option Block → Option Block
  | none => none
  | some b => some b.neutral

/-- What follows the first branch, with one operator everywhere. -/
def Alternate.neutral : Alternate → Alternate
  | .absent => .absent
  | .otherwise block => .otherwise block.neutral
  | .elseIf test consequent alternate =>
    .elseIf test.neutral (Block.neutralOf consequent) alternate.neutral

end

/-- The program with one operator everywhere. -/
def Program.neutral (p : Program) : Program :=
  { p with block := p.block.neutral }

/-- The outermost block keeps its context. -/
lemma Program.context_neutral (p : Program) : p.neutral.context = p.context := by
  obtain ⟨⟨_, _, _⟩, _⟩ := p
  rfl

/-! ## Steps -/

/-- The step with the one operator. -/
def Step.neutral : Step → Step
  | operate _ span => operate default span
  | step => step

namespace Expr

mutual

/-- Without its operators an expression has the same steps, without their operators. -/
lemma steps_neutral : ∀ (e : Expr) (isProperty : Bool),
    e.neutral.steps isProperty = (e.steps isProperty).map Step.neutral
  | literal _ _, _ => rfl
  | parameter _ _, _ => rfl
  | identifier _ _, _ => rfl
  | binary left _ right _, _ => by
    simp only [neutral, steps, List.map_append, List.map_cons]
    rw [steps_neutral left, steps_neutral right]
    rfl
  | call callee arguments _, _ => by
    simp only [neutral, steps, List.map_append]
    rw [steps_neutral callee, stepsOf_neutralOf arguments]
  | member object property _, _ => by
    simp only [neutral, steps, List.map_append]
    rw [steps_neutral object, steps_neutral property]
  | array elements _, _ => by
    simp only [neutral, steps]
    rw [stepsOf_neutralOf elements]

/-- So have expressions in a row. -/
lemma stepsOf_neutralOf : ∀ es : List Expr,
    stepsOf (neutralOf es) = (stepsOf es).map Step.neutral
  | [] => rfl
  | e :: rest => by
    simp only [neutralOf, stepsOf, List.map_append]
    rw [steps_neutral e, stepsOf_neutralOf rest]

end

/-- So have the values of a return, slot by slot. -/
lemma slotSteps_neutral (index : Nat) (es : List Expr) :
    slotSteps index (es.map neutral) = (slotSteps index es).map Step.neutral := by
  induction es generalizing index with
  | nil => rfl
  | cons e es ih =>
    simp only [List.map_cons, slotSteps, List.map_append, steps_neutral, ih]
    rfl

/-- An imported literal has no operator. -/
lemma importSteps_neutral (e : Expr) : e.neutral.importSteps = e.importSteps.map Step.neutral := by
  cases e <;> rfl

/-- A return breaks the same rule and visits the same values. -/
lemma returnSteps_neutralOf (tree : ScopeTree) (context : ScopeId) (values : List Expr)
    (span : Span) :
    returnSteps tree context (neutralOf values) span =
      (returnSteps tree context values span).map Step.neutral := by
  have visited : valueSteps tree context (neutralOf values) =
      (valueSteps tree context values).map Step.neutral := by
    unfold valueSteps
    rw [apply_ite (List.map Step.neutral), stepsOf_neutralOf, neutralOf_eq_map, ← List.map_take,
      slotSteps_neutral]
  rw [returnSteps_eq, returnSteps_eq, visited, neutralOf_eq_map, List.length_map, List.map_append,
    List.map_map]
  rfl

end Expr

/-- A variable declares what it did after its first value. -/
lemma Variable.steps_neutral (v : Variable) : v.neutral.steps = v.steps.map Step.neutral := by
  obtain ⟨name, isReference, isPointer, init⟩ := v
  cases init with
  | none => rfl
  | some e =>
    simp only [Variable.steps, Variable.neutral, Option.map_some, Option.elim_some,
      e.steps_neutral false, List.map_append]
    rfl

/-- Members are told apart by their names alone. -/
lemma EnumMember.firstDuplicate?_neutral (seen : List String) (ms : List EnumMember) :
    firstDuplicate? seen (ms.map EnumMember.neutral) =
      (firstDuplicate? seen ms).map EnumMember.neutral := by
  induction ms generalizing seen with
  | nil => rfl
  | cons m ms ih =>
    rw [List.map_cons, firstDuplicate?, firstDuplicate?, ih,
      apply_ite (Option.map EnumMember.neutral)]
    rfl

/-- An enumeration has the same steps. -/
lemma Enumeration.steps_neutral (e : Enumeration) :
    e.neutral.steps = e.steps.map Step.neutral := by
  unfold Enumeration.steps Enumeration.neutral
  rw [EnumMember.firstDuplicate?_neutral, List.length_map]
  cases EnumMember.firstDuplicate? [] e.members <;> cases e.isExported <;> rfl

mutual

/-- A statement has the same steps, without their operators. -/
lemma Stmt.steps_neutral (tree : ScopeTree) (context : ScopeId) :
    ∀ s : Stmt, s.neutral.steps tree context = (s.steps tree context).map Step.neutral
  | .expression e _ => e.steps_neutral false
  | .imports specifiers _ => by
    simp only [Stmt.neutral, Stmt.steps, Expr.neutralOf_eq_map, List.flatMap_map,
      List.map_flatMap, Expr.importSteps_neutral]
  | .variables declared _ => by
    simp only [Stmt.neutral, Stmt.steps, List.flatMap_map, List.map_flatMap,
      Variable.steps_neutral]
  | .conditional test consequent alternate _ => by
    simp only [Stmt.neutral, Stmt.steps, List.map_append]
    rw [test.steps_neutral, Block.stepsOf_neutralOf tree consequent,
      Alternate.steps_neutral tree alternate]
  | .function name parameters body isExported _ => by
    have first : (parameters.map fun p => Step.declare p.declaration).map Step.neutral =
        parameters.map fun p => Step.declare p.declaration := List.map_map
    have inside := Block.steps_neutral tree body (parameters.map fun p => .declare p.declaration)
    rw [first] at inside
    simp only [Stmt.neutral, Stmt.steps, List.map_append, List.map_cons]
    rw [inside]
    cases isExported <;> rfl
  | .returns none _ => rfl
  | .returns (some values) span => Expr.returnSteps_neutralOf tree context values span
  | .enumeration e _ => e.steps_neutral

/-- So have statements in a row. -/
lemma Stmt.stepsOf_neutralOf (tree : ScopeTree) (context : ScopeId) :
    ∀ ss : List Stmt, Stmt.stepsOf tree context (Stmt.neutralOf ss) =
      (Stmt.stepsOf tree context ss).map Step.neutral
  | [] => rfl
  | s :: rest => by
    simp only [Stmt.neutralOf, Stmt.stepsOf, List.map_append]
    rw [Stmt.steps_neutral tree context s, Stmt.stepsOf_neutralOf tree context rest]

/-- So has a block, with what comes first in it. -/
lemma Block.steps_neutral (tree : ScopeTree) :
    ∀ (b : Block) (first : List Step),
      b.neutral.steps tree (first.map Step.neutral) = (b.steps tree first).map Step.neutral
  | .mk context body _, first => by
    simp only [Block.neutral, Block.steps, List.map_append, List.map_cons, List.map_nil]
    rw [Stmt.stepsOf_neutralOf tree context body]
    rfl

/-- So has a branch that may be missing. -/
lemma Block.stepsOf_neutralOf (tree : ScopeTree) :
    ∀ b : Option Block,
      Block.stepsOf tree (Block.neutralOf b) = (Block.stepsOf tree b).map Step.neutral
  | none => rfl
  | some b => Block.steps_neutral tree b []

/-- So have further branches. -/
lemma Alternate.steps_neutral (tree : ScopeTree) :
    ∀ a : Alternate, a.neutral.steps tree = (a.steps tree).map Step.neutral
  | .absent => rfl
  | .otherwise block => Block.steps_neutral tree block []
  | .elseIf test consequent alternate => by
    simp only [Alternate.neutral, Alternate.steps, List.map_append]
    rw [test.steps_neutral, Block.stepsOf_neutralOf tree consequent,
      Alternate.steps_neutral tree alternate]

end

/-- The steps of a program with one operator are the steps of the program, with that operator. -/
lemma Program.steps_neutral (p : Program) : p.neutral.steps = p.steps.map Step.neutral := by
  obtain ⟨⟨context, body, _⟩, tree⟩ := p
  exact Stmt.stepsOf_neutralOf tree context body

/-! ## Accesses -/

namespace Expr

mutual

/-- Accesses are written into an expression past its operators. -/
lemma annotate_neutral : ∀ (e : Expr) (marks : List Access),
    e.neutral.annotate marks = ((e.annotate marks).1.neutral, (e.annotate marks).2)
  | literal _ _, _ => rfl
  | parameter _ _, _ => rfl
  | identifier _ _, [] => rfl
  | identifier _ _, _ :: _ => rfl
  | binary left _ right _, marks => by
    simp only [neutral, annotate]
    rw [annotate_neutral left, annotate_neutral right]
  | call callee arguments _, marks => by
    simp only [neutral, annotate]
    rw [annotate_neutral callee, annotateAll_neutralOf arguments]
  | member object property _, marks => by
    simp only [neutral, annotate]
    rw [annotate_neutral object, annotate_neutral property]
  | array elements _, marks => by
    simp only [neutral, annotate]
    rw [annotateAll_neutralOf elements]

/-- So they are into expressions in a row. -/
lemma annotateAll_neutralOf : ∀ (es : List Expr) (marks : List Access),
    annotateAll (neutralOf es) marks =
      (neutralOf (annotateAll es marks).1, (annotateAll es marks).2)
  | [], _ => rfl
  | e :: rest, marks => by
    simp only [neutralOf, annotateAll]
    rw [annotate_neutral e, annotateAll_neutralOf rest]

end

/-- So they are into the first of some values. -/
lemma annotateFirst_neutralOf (count : Nat) (es : List Expr) (marks : List Access) :
    annotateFirst count (neutralOf es) marks =
      (neutralOf (annotateFirst count es marks).1, (annotateFirst count es marks).2) := by
  have first : (neutralOf es).take count = neutralOf (es.take count) := by
    rw [neutralOf_eq_map, neutralOf_eq_map, List.map_take]
  simp only [annotateFirst]
  rw [first, annotateAll_neutralOf]
  simp only [neutralOf_eq_map, List.map_append, List.map_drop]

/-- So they are into the visited values of a return. -/
lemma annotateReturn_neutralOf (tree : ScopeTree) (context : ScopeId) (values : List Expr)
    (marks : List Access) :
    annotateReturn tree context (neutralOf values) marks =
      (neutralOf (annotateReturn tree context values marks).1,
        (annotateReturn tree context values marks).2) := by
  unfold annotateReturn
  cases (tree.returnCount? context).getD 0 with
  | zero => exact annotateAll_neutralOf values marks
  | succ n => exact annotateFirst_neutralOf (n + 1) values marks

end Expr

namespace Variable

/-- So they are into the first value of a variable. -/
lemma annotate_neutral (v : Variable) (marks : List Access) :
    v.neutral.annotate marks = ((v.annotate marks).1.neutral, (v.annotate marks).2) := by
  obtain ⟨name, isReference, isPointer, init⟩ := v
  cases init with
  | none => rfl
  | some e =>
    simp only [neutral, annotate, Option.map_some]
    rw [e.annotate_neutral]

/-- So they are into variables in a row. -/
lemma annotateAll_neutral (vs : List Variable) (marks : List Access) :
    annotateAll (vs.map neutral) marks =
      ((annotateAll vs marks).1.map neutral, (annotateAll vs marks).2) := by
  induction vs generalizing marks with
  | nil => rfl
  | cons v vs ih =>
    simp only [List.map_cons, annotateAll]
    rw [v.annotate_neutral, ih]

end Variable

mutual

/-- Accesses are written into a statement past its operators. -/
lemma Stmt.annotate_neutral (tree : ScopeTree) (context : ScopeId) :
    ∀ (s : Stmt) (marks : List Access), s.neutral.annotate tree context marks =
      ((s.annotate tree context marks).1.neutral, (s.annotate tree context marks).2)
  | .expression e _, marks => by
    simp only [Stmt.neutral, Stmt.annotate]
    rw [e.annotate_neutral]
  | .imports _ _, _ => rfl
  | .variables declared _, marks => by
    simp only [Stmt.neutral, Stmt.annotate]
    rw [Variable.annotateAll_neutral]
  | .conditional test consequent alternate _, marks => by
    simp only [Stmt.neutral, Stmt.annotate]
    rw [test.annotate_neutral, Block.annotateOption_neutralOf tree consequent,
      Alternate.annotate_neutral tree alternate]
  | .function _ _ body _ _, marks => by
    simp only [Stmt.neutral, Stmt.annotate]
    rw [Block.annotate_neutral tree body]
  | .returns none _, _ => rfl
  | .returns (some values) _, marks => by
    simp only [Stmt.neutral, Stmt.annotate, Option.map_some]
    rw [Expr.annotateReturn_neutralOf]
  | .enumeration _ _, _ => rfl

/-- So they are into statements in a row. -/
lemma Stmt.annotateAll_neutralOf (tree : ScopeTree) (context : ScopeId) :
    ∀ (ss : List Stmt) (marks : List Access),
      Stmt.annotateAll tree context (Stmt.neutralOf ss) marks =
        (Stmt.neutralOf (Stmt.annotateAll tree context ss marks).1,
          (Stmt.annotateAll tree context ss marks).2)
  | [], _ => rfl
  | s :: rest, marks => by
    simp only [Stmt.neutralOf, Stmt.annotateAll]
    rw [Stmt.annotate_neutral tree context s, Stmt.annotateAll_neutralOf tree context rest]

/-- So they are into a block. -/
lemma Block.annotate_neutral (tree : ScopeTree) :
    ∀ (b : Block) (marks : List Access),
      b.neutral.annotate tree marks = ((b.annotate tree marks).1.neutral, (b.annotate tree marks).2)
  | .mk context body _, marks => by
    simp only [Block.neutral, Block.annotate]
    rw [Stmt.annotateAll_neutralOf tree context body]

/-- So they are into a branch that may be missing. -/
lemma Block.annotateOption_neutralOf (tree : ScopeTree) :
    ∀ (b : Option Block) (marks : List Access),
      Block.annotateOption tree (Block.neutralOf b) marks =
        (Block.neutralOf (Block.annotateOption tree b marks).1,
          (Block.annotateOption tree b marks).2)
  | none, _ => rfl
  | some b, marks => by
    simp only [Block.neutralOf, Block.annotateOption]
    rw [Block.annotate_neutral tree b]

/-- So they are into further branches. -/
lemma Alternate.annotate_neutral (tree : ScopeTree) :
    ∀ (a : Alternate) (marks : List Access),
      a.neutral.annotate tree marks = ((a.annotate tree marks).1.neutral, (a.annotate tree marks).2)
  | .absent, _ => rfl
  | .otherwise block, marks => by
    simp only [Alternate.neutral, Alternate.annotate]
    rw [Block.annotate_neutral tree block]
  | .elseIf test consequent alternate, marks => by
    simp only [Alternate.neutral, Alternate.annotate]
    rw [test.annotate_neutral, Block.annotateOption_neutralOf tree consequent,
      Alternate.annotate_neutral tree alternate]

end

/-- Accesses go to the same places whatever the operators are. -/
lemma Program.annotate_neutral (p : Program) (marks : List Access) :
    p.neutral.annotate marks = (p.annotate marks).neutral := by
  unfold annotate neutral
  rw [Block.annotate_neutral]

end FrontEnd
