import FrontEnd.Proofs.Analysis.Annotation
import FrontEnd.Proofs.Analysis.Bareness

/-!
# Passes do not depend on earlier passes

A pass reads nothing that a pass writes. So any number of passes before it, of either policy and
whether they fail or not, leave its result as it is. A pass that succeeds writes an access into
every occurrence that any pass visits, and hides all that was written before
(`Program.annotate_again`).

Main statement: `Program.analyze_after`.
-/

namespace FrontEnd

/-- There are marks for all mentions that take one. -/
def Fills (ms : List Mention) (marks : List Access) : Prop :=
  ms.countP Mention.isVisited ≤ marks.length

/-- Marks for two parts are enough for the first, and what it leaves over for the second. -/
lemma Writes.fills {ms ns ms' : List Mention} {marks left} (wr : Writes ms marks ns left)
    (fl : Fills (ms ++ ms') marks) : Fills ms marks ∧ Fills ms' left := by
  obtain ⟨-, rfl⟩ := wr
  unfold Fills at *
  rw [List.countP_append] at fl
  rw [List.length_drop]
  omega

/-! ## Annotating twice -/

namespace Expr

mutual

/-- With enough marks, annotating an expression again leaves nothing of the first time. -/
lemma annotate_again (s : ScopeId) :
    ∀ (isProperty : Bool) (e : Expr) (old marks : List Access),
      Fills ((e.occurrences s .visited isProperty).map .used) marks →
      (e.annotate old).1.annotate marks = e.annotate marks
  | _, literal _ _, _, _, _ => rfl
  | _, parameter _ _, _, _, _ => rfl
  -- Without a mark an identifier would keep the old one.
  | _, identifier _ _, _, [], fl => by cases fl
  | _, identifier _ _, [], _ :: _, _ => rfl
  | _, identifier _ _, _ :: _, _ :: _, _ => rfl
  | _, binary left _ right _, old, marks, fl => by
    rw [occurrences, List.map_append] at fl
    obtain ⟨hl, hr⟩ := (left.writes s false marks).fills fl
    simp only [annotate]
    rw [annotate_again s false left old marks hl, annotate_again s false right _ _ hr]
  | _, call callee arguments _, old, marks, fl => by
    rw [occurrences, List.map_append] at fl
    obtain ⟨hc, ha⟩ := (callee.writes s false marks).fills fl
    simp only [annotate]
    rw [annotate_again s false callee old marks hc, annotateAll_again s arguments _ _ ha]
  | _, member object property _, old, marks, fl => by
    rw [occurrences, List.map_append] at fl
    obtain ⟨ho, hp⟩ := (object.writes s false marks).fills fl
    simp only [annotate]
    rw [annotate_again s false object old marks ho, annotate_again s true property _ _ hp]
  | _, array elements _, old, marks, fl => by
    simp only [annotate]
    rw [annotateAll_again s elements old marks fl]

/-- Marks that fill a list of expressions hide the marks before them. -/
lemma annotateAll_again (s : ScopeId) :
    ∀ (es : List Expr) (old marks : List Access),
      Fills ((occurrencesOf s .visited es).map .used) marks →
      annotateAll (annotateAll es old).1 marks = annotateAll es marks
  | [], _, _, _ => rfl
  | e :: rest, old, marks, fl => by
    rw [occurrencesOf, List.map_append] at fl
    obtain ⟨he, hr⟩ := (e.writes s false marks).fills fl
    simp only [annotateAll]
    rw [annotate_again s false e old marks he, annotateAll_again s rest _ _ hr]

end

/-- Marks that fill the visited values of a return hide the marks before them. -/
lemma annotateReturn_again (tree : ScopeTree) (context : ScopeId) (values : List Expr)
    (old marks : List Access)
    (fl : Fills ((returnOccurrences tree context values).map .used) marks) :
    annotateReturn tree context (annotateReturn tree context values old).1 marks =
      annotateReturn tree context values marks := by
  have hc : visitedCount tree context (annotateReturn tree context values old).1 =
      visitedCount tree context values := by
    rw [visitedCount, visitedCount, length_annotateReturn]
  rw [annotateReturn_eq, hc, annotateReturn_eq, annotateReturn_eq]
  rw [returnOccurrences, List.map_append] at fl
  obtain ⟨ht, -⟩ := (writesOf context (values.take _) marks).fills fl
  rw [annotateFirst, take_annotateFirst, drop_annotateFirst,
    annotateAll_again context _ old marks ht, annotateFirst]

end Expr

namespace Variable

/-- Marks that fill the first value of a variable hide the marks before them. -/
lemma annotate_again (context : ScopeId) (v : Variable) (old marks : List Access)
    (fl : Fills (v.mentions context) marks) :
    (v.annotate old).1.annotate marks = v.annotate marks := by
  obtain ⟨name, isReference, isPointer, init⟩ := v
  cases init with
  | none => rfl
  | some e =>
    obtain ⟨he, -⟩ := (e.writes context false marks).fills fl
    simp only [annotate]
    rw [e.annotate_again context false old marks he]

/-- So it is for variables in a row. -/
lemma annotateAll_again (context : ScopeId) (vs : List Variable) (old marks : List Access)
    (fl : Fills (vs.flatMap (Variable.mentions context)) marks) :
    annotateAll (annotateAll vs old).1 marks = annotateAll vs marks := by
  induction vs generalizing old marks with
  | nil => rfl
  | cons v vs ih =>
    obtain ⟨hv, hs⟩ := (v.writes context marks).fills fl
    simp only [annotateAll]
    rw [v.annotate_again context old marks hv, ih _ _ hs]

end Variable

mutual

/-- Marks that fill a statement hide the marks before them. -/
lemma Stmt.annotate_again (tree : ScopeTree) (context : ScopeId) :
    ∀ (s : Stmt) (old marks : List Access), Fills (s.mentions tree context) marks →
      (s.annotate tree context old).1.annotate tree context marks = s.annotate tree context marks
  | .expression e _, old, marks, fl => by
    simp only [Stmt.annotate]
    rw [e.annotate_again context false old marks fl]
  | .imports _ _, _, _, _ => rfl
  | .variables declared _, old, marks, fl => by
    simp only [Stmt.annotate]
    rw [Variable.annotateAll_again context declared old marks fl]
  | .conditional test consequent alternate _, old, marks, fl => by
    rw [Stmt.mentions, List.append_assoc] at fl
    obtain ⟨ht, fl⟩ := (test.writes context false marks).fills fl
    obtain ⟨hc, ha⟩ := (Block.writesOf tree consequent _).fills fl
    simp only [Stmt.annotate]
    rw [test.annotate_again context false old marks ht,
      Block.annotateOption_again tree consequent _ _ hc,
      Alternate.annotate_again tree context alternate _ _ ha]
  | .function name parameters body _ _, old, marks, fl => by
    have declared : Writes (.declared context (.ofFunction name) ::
        parameters.map fun p => .declared body.context p.declaration) marks _ marks :=
      .keep (by simp [Mention.isVisited]) marks
    obtain ⟨-, hb⟩ := declared.fills fl
    simp only [Stmt.annotate]
    rw [Block.annotate_again tree body old marks hb]
  | .returns none _, _, _, _ => rfl
  | .returns (some values) _, old, marks, fl => by
    simp only [Stmt.annotate]
    rw [Expr.annotateReturn_again tree context values old marks fl]
  | .enumeration _ _, _, _, _ => rfl

/-- So it is for statements in a row, each of which takes its own part of the marks. -/
lemma Stmt.annotateAll_again (tree : ScopeTree) (context : ScopeId) :
    ∀ (ss : List Stmt) (old marks : List Access), Fills (Stmt.mentionsOf tree context ss) marks →
      Stmt.annotateAll tree context (Stmt.annotateAll tree context ss old).1 marks =
        Stmt.annotateAll tree context ss marks
  | [], _, _, _ => rfl
  | s :: rest, old, marks, fl => by
    obtain ⟨hs, hr⟩ := (Stmt.writes tree context s marks).fills fl
    simp only [Stmt.annotateAll]
    rw [Stmt.annotate_again tree context s old marks hs,
      Stmt.annotateAll_again tree context rest _ _ hr]

/-- So it is for a block. -/
lemma Block.annotate_again (tree : ScopeTree) :
    ∀ (b : Block) (old marks : List Access), Fills (b.mentions tree) marks →
      (b.annotate tree old).1.annotate tree marks = b.annotate tree marks
  | .mk context body _, old, marks, fl => by
    simp only [Block.annotate]
    rw [Stmt.annotateAll_again tree context body old marks fl]

/-- A missing branch takes no marks. -/
lemma Block.annotateOption_again (tree : ScopeTree) :
    ∀ (b : Option Block) (old marks : List Access), Fills (Block.mentionsOf tree b) marks →
      Block.annotateOption tree (Block.annotateOption tree b old).1 marks =
        Block.annotateOption tree b marks
  | none, _, _, _ => rfl
  | some b, old, marks, fl => by
    simp only [Block.annotateOption]
    rw [Block.annotate_again tree b old marks fl]

/-- So it is for further branches, tests included. -/
lemma Alternate.annotate_again (tree : ScopeTree) (context : ScopeId) :
    ∀ (a : Alternate) (old marks : List Access), Fills (a.mentions tree context) marks →
      (a.annotate tree old).1.annotate tree marks = a.annotate tree marks
  | .absent, _, _, _ => rfl
  | .otherwise block, old, marks, fl => by
    simp only [Alternate.annotate]
    rw [Block.annotate_again tree block old marks fl]
  | .elseIf test consequent alternate, old, marks, fl => by
    rw [Alternate.mentions, List.append_assoc] at fl
    obtain ⟨ht, fl⟩ := (test.writes context false marks).fills fl
    obtain ⟨hc, ha⟩ := (Block.writesOf tree consequent _).fills fl
    simp only [Alternate.annotate]
    rw [test.annotate_again context false old marks ht,
      Block.annotateOption_again tree consequent _ _ hc,
      Alternate.annotate_again tree context alternate _ _ ha]

end

/-! ## Passes -/

namespace Program

/-- With a mark for every visited occurrence, annotating a program again leaves nothing of the first
time. -/
lemma annotate_again {p : Program} {marks : List Access} (fl : Fills p.mentions marks)
    (old : List Access) : (p.annotate old).annotate marks = p.annotate marks := by
  unfold annotate
  rw [Block.annotate_again p.scopes p.block old marks fl]

/-- Programs that differ in accesses alone have the same scopes. -/
lemma scopes_eq_of_bare {p q : Program} (h : q.bare = p.bare) : q.scopes = p.scopes := by
  show q.bare.scopes = p.bare.scopes
  rw [h]

/-- Programs that differ in accesses alone are traversed alike. -/
lemma traverse_eq_of_bare {p q : Program} (h : q.bare = p.bare) (lex : Lexicon)
    (policy : Policy) : q.traverse lex policy = p.traverse lex policy := by
  have hc : q.context = p.context := by rw [← q.context_bare, h, p.context_bare]
  have ht : q.steps = p.steps := by rw [← q.steps_bare, h, p.steps_bare]
  rw [traverse_eq, traverse_eq, setting, setting, start, start, scopes_eq_of_bare h, hc, ht]

/-- Passes over programs that differ in accesses alone find the same. -/
lemma result_eq_of_bare {p q : Program} (h : q.bare = p.bare) (lex : Lexicon) (policy : Policy) :
    (q.analyze lex policy).result = (p.analyze lex policy).result := by
  unfold analyze
  rw [traverse_eq_of_bare h]

/-- A pass changes accesses alone. -/
lemma bare_analyze (p : Program) (lex : Lexicon) (policy : Policy) :
    (p.analyze lex policy).program.bare = p.bare :=
  p.bare_annotate _

/-- A pass that succeeds hides the accesses that an earlier pass wrote. -/
lemma analyze_annotate {p : Program} {lex policy a} (ok : (p.analyze lex policy).result = .ok a)
    (old : List Access) :
    ((p.annotate old).analyze lex policy).program = (p.analyze lex policy).program := by
  have same : ((p.annotate old).analyze lex policy).result = .ok a := by
    rw [result_eq_of_bare (p.bare_annotate old), ok]
  obtain ⟨_, _, _, ep⟩ := p.runs_of_analyze ok
  obtain ⟨_, _, _, eq⟩ := (p.annotate old).runs_of_analyze same
  have count : p.mentions.countP Mention.isVisited =
      (a.resolutions.map Resolution.access).length := by
    rw [List.length_map, p.resolutions_eq ok, Mention.length_resolutions]
  have fl : Fills p.mentions (a.resolutions.map Resolution.access) := Nat.le_of_eq count
  rw [ep, eq, annotated, annotated, annotate_again fl]

/-- The program after a pass under each of some lexicons and policies. -/
def after (p : Program) (history : List (Lexicon × Policy)) : Program :=
  history.foldl (fun q c => (q.analyze c.1 c.2).program) p

/-- Passes change accesses alone, however many there are. -/
lemma bare_after (p : Program) (history : List (Lexicon × Policy)) :
    (p.after history).bare = p.bare := by
  induction history generalizing p with
  | nil => rfl
  | cons c history ih => exact (ih _).trans (p.bare_analyze c.1 c.2)

/-- A pass that succeeds leaves the same program, whatever passes came before it. -/
lemma program_analyze_after {p : Program} {lex policy a}
    (ok : (p.analyze lex policy).result = .ok a) (history : List (Lexicon × Policy)) :
    ((p.after history).analyze lex policy).program = (p.analyze lex policy).program := by
  induction history generalizing p with
  | nil => rfl
  | cons c history ih =>
    have same : ((p.analyze c.1 c.2).program.analyze lex policy).result = .ok a := by
      rw [result_eq_of_bare (p.bare_analyze c.1 c.2), ok]
    exact (ih same).trans (analyze_annotate ok _)

/-- Whatever passes came before, a pass has the result that it has on the original program, the
scopes stay, and a pass that succeeds gives back the same program. The result depends on no access
in the program. -/
theorem analyze_after (p : Program) (history : List (Lexicon × Policy)) (lex : Lexicon)
    (policy : Policy) :
    ((p.after history).analyze lex policy).result = (p.analyze lex policy).result ∧
      (p.after history).scopes = p.scopes ∧
      ((p.after history).analyze lex policy).program.scopes = p.scopes ∧
      (∀ a, ((p.after history).analyze lex policy).result = .ok a →
        ((p.after history).analyze lex policy).program = (p.analyze lex policy).program) ∧
      ∀ q : Program, q.bare = p.bare →
        (q.analyze lex policy).result = (p.analyze lex policy).result := by
  have same := result_eq_of_bare (p.bare_after history) lex policy
  have scopes := scopes_eq_of_bare (p.bare_after history)
  refine ⟨same, scopes, scopes, ?_, fun q h => result_eq_of_bare h lex policy⟩
  intro a ok
  exact program_analyze_after (same.symm.trans ok) history

end Program

end FrontEnd
