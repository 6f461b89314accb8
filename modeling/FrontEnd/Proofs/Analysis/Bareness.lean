import FrontEnd.Proofs.Program.Content

/-!
# Steps do not depend on accesses

A program and the same one without the accesses of its identifiers have the same steps. Whatever is
performed by the steps alone is therefore blind to what earlier passes wrote into the program.

Main statement: `Program.steps_bare`.
-/

namespace FrontEnd

namespace Expr

mutual

/-- The accesses in an expression do not matter to its steps. -/
lemma steps_bare : ∀ (e : Expr) (isProperty : Bool), e.bare.steps isProperty = e.steps isProperty
  | literal _ _, _ => rfl
  | parameter _ _, _ => rfl
  | identifier _ _, _ => rfl
  | binary left _ right _, _ => by
    simp only [bare, steps]
    rw [steps_bare left, steps_bare right]
  | call callee arguments _, _ => by
    simp only [bare, steps]
    rw [steps_bare callee, stepsOf_bareOf arguments]
  | member object property _, _ => by
    simp only [bare, steps]
    rw [steps_bare object, steps_bare property]
  | array elements _, _ => by
    simp only [bare, steps]
    rw [stepsOf_bareOf elements]

/-- Nor do those in a list of expressions. -/
lemma stepsOf_bareOf : ∀ es : List Expr, stepsOf (bareOf es) = stepsOf es
  | [] => rfl
  | e :: rest => by
    simp only [bareOf, stepsOf]
    rw [steps_bare e, stepsOf_bareOf rest]

end

/-- A list of expressions is bared one by one. -/
lemma bareOf_eq_map (es : List Expr) : bareOf es = es.map bare := by
  induction es with
  | nil => rfl
  | cons e es ih => rw [bareOf, ih, List.map_cons]

/-- The steps of the values of a return slot by slot do not look at accesses. -/
lemma slotSteps_bare (index : Nat) (es : List Expr) :
    slotSteps index (es.map bare) = slotSteps index es := by
  induction es generalizing index with
  | nil => rfl
  | cons e es ih => rw [List.map_cons, slotSteps, slotSteps, steps_bare, ih]

/-- An imported literal has no access to lose. -/
lemma importSteps_bare (e : Expr) : e.bare.importSteps = e.importSteps := by
  cases e <;> rfl

/-- The rules about returns and the visited values are those of the bare values. -/
lemma returnSteps_bareOf (tree : ScopeTree) (context : ScopeId) (values : List Expr)
    (span : Span) :
    returnSteps tree context (bareOf values) span = returnSteps tree context values span := by
  have visited : valueSteps tree context (bareOf values) = valueSteps tree context values := by
    unfold valueSteps
    rw [stepsOf_bareOf, bareOf_eq_map, ← List.map_take, slotSteps_bare]
  rw [returnSteps_eq, returnSteps_eq, visited, bareOf_eq_map, List.length_map]

end Expr

/-- The first value of a variable is visited whatever its accesses are. -/
lemma Variable.steps_bare (v : Variable) : v.bare.steps = v.steps := by
  obtain ⟨name, isReference, isPointer, init⟩ := v
  cases init with
  | none => rfl
  | some e =>
    have he := e.steps_bare false
    simp only [Variable.steps, Variable.bare, Option.map_some, Option.elim_some, he]
    rfl

/-- A duplicate is found by names alone. -/
lemma EnumMember.firstDuplicate?_bare (seen : List String) (ms : List EnumMember) :
    firstDuplicate? seen (ms.map EnumMember.bare) =
      (firstDuplicate? seen ms).map EnumMember.bare := by
  induction ms generalizing seen with
  | nil => rfl
  | cons m ms ih =>
    rw [List.map_cons, firstDuplicate?, firstDuplicate?, ih, apply_ite (Option.map EnumMember.bare)]
    rfl

/-- An enumeration is checked by the names of its members alone. -/
lemma Enumeration.steps_bare (e : Enumeration) : e.bare.steps = e.steps := by
  unfold Enumeration.steps Enumeration.bare
  rw [EnumMember.firstDuplicate?_bare, List.length_map]
  cases EnumMember.firstDuplicate? [] e.members <;> rfl

mutual

/-- The steps of a statement do not depend on the accesses in it. -/
lemma Stmt.steps_bare (tree : ScopeTree) (context : ScopeId) :
    ∀ s : Stmt, s.bare.steps tree context = s.steps tree context
  | .expression e _ => e.steps_bare false
  | .imports specifiers _ => by
    simp only [Stmt.bare, Stmt.steps, Expr.bareOf_eq_map, List.flatMap_map, Expr.importSteps_bare]
  | .variables declared _ => by
    simp only [Stmt.bare, Stmt.steps, List.flatMap_map, Variable.steps_bare]
  | .conditional test consequent alternate _ => by
    simp only [Stmt.bare, Stmt.steps]
    rw [test.steps_bare, Block.stepsOf_bareOf tree consequent, Alternate.steps_bare tree alternate]
  | .function name parameters body _ _ => by
    simp only [Stmt.bare, Stmt.steps]
    rw [Block.steps_bare tree body]
  | .returns none _ => rfl
  | .returns (some values) span => Expr.returnSteps_bareOf tree context values span
  | .enumeration e _ => e.steps_bare

/-- So it is for statements in a row. -/
lemma Stmt.stepsOf_bareOf (tree : ScopeTree) (context : ScopeId) :
    ∀ ss : List Stmt, Stmt.stepsOf tree context (Stmt.bareOf ss) = Stmt.stepsOf tree context ss
  | [] => rfl
  | s :: rest => by
    simp only [Stmt.bareOf, Stmt.stepsOf]
    rw [Stmt.steps_bare tree context s, Stmt.stepsOf_bareOf tree context rest]

/-- A block keeps its context, so that its steps are the same too. -/
lemma Block.steps_bare (tree : ScopeTree) :
    ∀ (b : Block) (first : List Step), b.bare.steps tree first = b.steps tree first
  | .mk context body _, first => by
    simp only [Block.bare, Block.steps]
    rw [Stmt.stepsOf_bareOf tree context body]

/-- A missing branch has no accesses. -/
lemma Block.stepsOf_bareOf (tree : ScopeTree) :
    ∀ b : Option Block, Block.stepsOf tree (Block.bareOf b) = Block.stepsOf tree b
  | none => rfl
  | some b => Block.steps_bare tree b []

/-- Further branches and their tests have the same steps without accesses. -/
lemma Alternate.steps_bare (tree : ScopeTree) :
    ∀ a : Alternate, a.bare.steps tree = a.steps tree
  | .absent => rfl
  | .otherwise block => Block.steps_bare tree block []
  | .elseIf test consequent alternate => by
    simp only [Alternate.bare, Alternate.steps]
    rw [test.steps_bare, Block.stepsOf_bareOf tree consequent, Alternate.steps_bare tree alternate]

end

namespace Program

/-- The outermost block keeps its context. -/
lemma context_bare (p : Program) : p.bare.context = p.context := by
  obtain ⟨⟨_, _, _⟩, _⟩ := p
  rfl

/-- A program without its accesses has the same steps, hence a pass never reads an access. -/
lemma steps_bare (p : Program) : p.bare.steps = p.steps := by
  obtain ⟨⟨context, body, _⟩, tree⟩ := p
  exact Stmt.stepsOf_bareOf tree context body

end Program

end FrontEnd
