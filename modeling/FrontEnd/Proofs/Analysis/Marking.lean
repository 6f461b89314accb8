import FrontEnd.Analysis.Annotate
import FrontEnd.Proofs.Analysis.Telling

/-!
# Marks in a program

What annotating a program does to its mentions. The accesses go to the visited occurrences in
order: an occurrence takes the mark whose number is that of the visited occurrences before it
(`Mention.getElem?_mark`). All else of the program stays as it is.

Main statements: `Program.mentions_annotate` and `Program.bare_annotate`.
-/

namespace FrontEnd

namespace Mention

/-- The mention with a mark, if there is one and the mention is visited. -/
def marked : Mention → Option Access → Mention
  | declared s d, _ => declared s d
  | used o, none => used o
  | used o, some mark => if o.isVisited then used (o.withAccess (some mark)) else used o

/-- Mentions with marks on those that are visited, for as long as there are marks. -/
def mark : List Mention → List Access → List Mention
  | [], _ => []
  | m :: rest, marks =>
    m.marked marks[0]? :: mark rest (marks.drop (if m.isVisited then 1 else 0))

/-- Without a mark a mention stays as it is. -/
lemma marked_none (m : Mention) : m.marked none = m := by
  cases m <;> rfl

/-- So does a mention that is not of a visited occurrence, whatever the mark. -/
lemma marked_of_not_visited {m : Mention} (hv : ¬ m.isVisited) (mark? : Option Access) :
    m.marked mark? = m := by
  cases m with
  | declared s d => rfl
  | used o =>
    cases mark? with
    | none => rfl
    | some mark => exact if_neg hv

/-- A visited occurrence takes the first mark. -/
lemma mark_cons_visited {o : Occurrence} (vs : o.isVisited) (ms : List Mention) (access : Access)
    (marks : List Access) :
    mark (used o :: ms) (access :: marks) =
      used (o.withAccess (some access)) :: mark ms marks := by
  simp [mark, marked, isVisited, vs]

/-- What is not visited takes no mark. -/
lemma mark_cons_keep {m : Mention} (hv : ¬ m.isVisited) (ms : List Mention)
    (marks : List Access) : mark (m :: ms) marks = m :: mark ms marks := by
  rw [mark, marked_of_not_visited hv, if_neg hv, List.drop_zero]

/-- Marks that the first mentions leave over go to the others. -/
lemma mark_append (ms ns : List Mention) (marks : List Access) :
    mark (ms ++ ns) marks = mark ms marks ++ mark ns (marks.drop (ms.countP isVisited)) := by
  induction ms generalizing marks with
  | nil => simp [mark]
  | cons m ms ih =>
    rw [List.cons_append, mark, mark, ih, List.cons_append, List.drop_drop, List.countP_cons,
      Nat.add_comm]

/-- Without marks all mentions stay as they are. -/
lemma mark_nil (ms : List Mention) : mark ms [] = ms := by
  induction ms with
  | nil => rfl
  | cons m ms ih => rw [mark, List.drop_nil, ih, List.getElem?_nil, marked_none]

/-- Marks beyond those that the mentions take make no difference. -/
lemma mark_more {ms : List Mention} {marks : List Access}
    (hl : ms.countP isVisited ≤ marks.length) (more : List Access) :
    mark ms (marks ++ more) = mark ms marks := by
  induction ms generalizing marks with
  | nil => rfl
  | cons m ms ih =>
    by_cases hv : m.isVisited
    · cases m with
      | declared s d => cases hv
      | used o =>
        rw [List.countP_cons_of_pos hv] at hl
        cases marks with
        | nil => cases hl
        | cons access marks =>
          rw [List.cons_append, mark_cons_visited hv, mark_cons_visited hv,
            ih (Nat.le_of_succ_le_succ hl)]
    · rw [List.countP_cons_of_neg hv] at hl
      rw [mark_cons_keep hv, mark_cons_keep hv, ih hl]

/-- A mention takes the mark whose number is that of the visited mentions before it. -/
lemma getElem?_mark (ms : List Mention) (marks : List Access) (i : Nat) :
    (mark ms marks)[i]? = ms[i]?.map (·.marked marks[(ms.take i).countP isVisited]?) := by
  induction ms generalizing marks i with
  | nil => simp [mark]
  | cons m ms ih =>
    cases i with
    | zero => simp [mark]
    | succ i =>
      rw [mark, List.getElem?_cons_succ, ih, List.getElem?_cons_succ, List.take_succ_cons,
        List.countP_cons, List.getElem?_drop, Nat.add_comm]

end Mention

/-- Marks, and mentions before and after they are written in, with the marks left over. -/
structure Writes (ms : List Mention) (marks : List Access) (ns : List Mention)
    (left : List Access) : Prop where
  mentions : ns = Mention.mark ms marks
  left : left = marks.drop (ms.countP Mention.isVisited)

namespace Writes

/-- Where nothing is mentioned, no mark is taken. -/
lemma nil (marks : List Access) : Writes [] marks [] marks :=
  ⟨rfl, rfl⟩

/-- The marks that one part leaves over go to the next. -/
lemma append {ms ns ms' ns' marks mid left} (first : Writes ms marks ns mid)
    (second : Writes ms' mid ns' left) : Writes (ms ++ ms') marks (ns ++ ns') left := by
  obtain ⟨rfl, rfl⟩ := first
  obtain ⟨rfl, rfl⟩ := second
  refine ⟨(Mention.mark_append ms ms' marks).symm, ?_⟩
  rw [List.drop_drop, List.countP_append]

/-- Mentions that are not visited take no marks. -/
lemma keep {ms : List Mention} (hv : ∀ m ∈ ms, ¬ m.isVisited) (marks : List Access) :
    Writes ms marks ms marks := by
  induction ms with
  | nil => exact .nil marks
  | cons m ms ih =>
    have hd : Writes [m] marks [m] marks := by
      have hm : m.isVisited = false := by simpa using hv m (by simp)
      refine ⟨?_, by simp [hm]⟩
      rw [Mention.mark_cons_keep (by simp [hm])]
      rfl
    exact hd.append (ih fun x hx => hv x (by simp [hx]))

end Writes

/-! ## Expressions -/

namespace Expr

mutual

/-- Annotating an expression writes marks into its occurrences. -/
lemma writes (s : ScopeId) :
    ∀ (isProperty : Bool) (e : Expr) (marks : List Access),
      Writes ((e.occurrences s .visited isProperty).map .used) marks
        (((e.annotate marks).1.occurrences s .visited isProperty).map .used) (e.annotate marks).2
  | _, literal _ _, marks => .nil marks
  | _, parameter _ _, marks => .nil marks
  | _, identifier _ _, [] => ⟨rfl, rfl⟩
  | _, identifier _ _, _ :: _ => ⟨rfl, rfl⟩
  | _, binary left _ right _, marks => by
    simp only [annotate, occurrences, List.map_append]
    exact (writes s false left marks).append (writes s false right _)
  | _, call callee arguments _, marks => by
    simp only [annotate, occurrences, List.map_append]
    exact (writes s false callee marks).append (writesOf s arguments _)
  | _, member object property _, marks => by
    simp only [annotate, occurrences, List.map_append]
    exact (writes s false object marks).append (writes s true property _)
  | _, array elements _, marks => writesOf s elements marks

/-- Expressions in a row take their marks one after the other. -/
lemma writesOf (s : ScopeId) :
    ∀ (es : List Expr) (marks : List Access),
      Writes ((occurrencesOf s .visited es).map .used) marks
        ((occurrencesOf s .visited (annotateAll es marks).1).map .used) (annotateAll es marks).2
  | [], marks => .nil marks
  | e :: rest, marks => by
    simp only [annotateAll, occurrencesOf, List.map_append]
    exact (writes s false e marks).append (writesOf s rest _)

end

mutual

/-- Annotating an expression changes its accesses alone. -/
lemma bare_annotate : ∀ (e : Expr) (marks : List Access), (e.annotate marks).1.bare = e.bare
  | literal _ _, _ => rfl
  | parameter _ _, _ => rfl
  | identifier _ _, [] => rfl
  | identifier _ _, _ :: _ => rfl
  | binary left _ right _, marks => by
    simp only [annotate, bare]
    rw [bare_annotate left, bare_annotate right]
  | call callee arguments _, marks => by
    simp only [annotate, bare]
    rw [bare_annotate callee, bareOf_annotateAll arguments]
  | member object property _, marks => by
    simp only [annotate, bare]
    rw [bare_annotate object, bare_annotate property]
  | array elements _, marks => by
    simp only [annotate, bare]
    rw [bareOf_annotateAll elements]

/-- Expressions in a row change in their accesses alone. -/
lemma bareOf_annotateAll :
    ∀ (es : List Expr) (marks : List Access), bareOf (annotateAll es marks).1 = bareOf es
  | [], _ => rfl
  | e :: rest, marks => by
    simp only [annotateAll, bareOf]
    rw [bare_annotate e, bareOf_annotateAll rest]

end

/-- There are as many expressions as before. -/
lemma length_annotateAll (es : List Expr) (marks : List Access) :
    (annotateAll es marks).1.length = es.length := by
  induction es generalizing marks with
  | nil => rfl
  | cons e es ih => simp [annotateAll, ih]

/-- Two lists of expressions are bared one by one. -/
lemma bareOf_append (es fs : List Expr) : bareOf (es ++ fs) = bareOf es ++ bareOf fs := by
  induction es with
  | nil => rfl
  | cons e es ih => simp [bareOf, ih]

/-- A return is annotated as far as it is visited. -/
lemma annotateReturn_eq (tree : ScopeTree) (context : ScopeId) (values : List Expr)
    (marks : List Access) :
    annotateReturn tree context values marks =
      annotateFirst (visitedCount tree context values) values marks := by
  unfold annotateReturn visitedCount
  cases (tree.returnCount? context).getD 0 with
  | zero => simp [annotateFirst]
  | succ n => simp

/-- A return has as many values as before. -/
lemma length_annotateReturn (tree : ScopeTree) (context : ScopeId) (values : List Expr)
    (marks : List Access) :
    (annotateReturn tree context values marks).1.length = values.length := by
  rw [annotateReturn_eq, annotateFirst, List.length_append, length_annotateAll,
    ← List.length_append, List.take_append_drop]

/-- The first expressions are those that are annotated. -/
lemma take_annotateFirst (count : Nat) (es : List Expr) (marks : List Access) :
    (annotateFirst count es marks).1.take count = (annotateAll (es.take count) marks).1 := by
  have hl : (annotateAll (es.take count) marks).1.length = min count es.length := by
    rw [length_annotateAll, List.length_take]
  rw [annotateFirst, List.take_append, List.take_of_length_le (by omega)]
  rcases Nat.le_total count es.length with h | h
  · simp [hl, h]
  · simp [List.drop_eq_nil_of_le h]

/-- The other expressions stay as they are. -/
lemma drop_annotateFirst (count : Nat) (es : List Expr) (marks : List Access) :
    (annotateFirst count es marks).1.drop count = es.drop count := by
  have hl : (annotateAll (es.take count) marks).1.length = min count es.length := by
    rw [length_annotateAll, List.length_take]
  rw [annotateFirst, List.drop_append, List.drop_eq_nil_of_le (by omega), List.nil_append]
  rcases Nat.le_total count es.length with h | h
  · simp [hl, h]
  · simp [List.drop_eq_nil_of_le h]

/-- Annotating a return writes marks into its occurrences. -/
lemma writes_return (tree : ScopeTree) (context : ScopeId) (values : List Expr)
    (marks : List Access) :
    Writes ((returnOccurrences tree context values).map .used) marks
      ((returnOccurrences tree context (annotateReturn tree context values marks).1).map .used)
      (annotateReturn tree context values marks).2 := by
  -- The annotated return has as many values, so it is cut at the same place.
  have hc : visitedCount tree context (annotateReturn tree context values marks).1 =
      visitedCount tree context values := by
    rw [visitedCount, visitedCount, length_annotateReturn]
  have kept : ∀ m ∈ (occurrencesOf context .surplus
      (values.drop (visitedCount tree context values))).map Mention.used, ¬ m.isVisited := by
    intro m hm
    obtain ⟨o, ho, rfl⟩ := List.mem_map.mp hm
    rw [Mention.isVisited, Occurrence.isVisited, (place_of_mem_occurrencesOf _ ho).2]
    decide
  have first := writesOf context (values.take (visitedCount tree context values)) marks
  rw [returnOccurrences, returnOccurrences, hc, annotateReturn_eq, take_annotateFirst,
    drop_annotateFirst, List.map_append, List.map_append]
  exact first.append (.keep kept _)

/-- The values of a return change in their accesses alone. -/
lemma bareOf_annotateReturn (tree : ScopeTree) (context : ScopeId) (values : List Expr)
    (marks : List Access) :
    bareOf (annotateReturn tree context values marks).1 = bareOf values := by
  rw [annotateReturn_eq, annotateFirst, bareOf_append, bareOf_annotateAll, ← bareOf_append,
    List.take_append_drop]

end Expr

/-! ## Statements -/

namespace Variable

/-- A variable declares what it did. -/
lemma declaration_annotate (v : Variable) (marks : List Access) :
    (v.annotate marks).1.declaration = v.declaration := by
  unfold annotate
  cases v.init? <;> rfl

/-- Annotating a variable writes marks into its mentions. -/
lemma writes (context : ScopeId) (v : Variable) (marks : List Access) :
    Writes (v.mentions context) marks ((v.annotate marks).1.mentions context)
      (v.annotate marks).2 := by
  have declared : ∀ left, Writes [.declared context v.declaration] left
      [.declared context v.declaration] left := .keep (by simp [Mention.isVisited])
  rw [mentions, mentions, declaration_annotate]
  obtain ⟨name, isReference, isPointer, init⟩ := v
  cases init with
  | none => exact declared marks
  | some e => exact (e.writes context false marks).append (declared _)

/-- Variables in a row take their marks one after the other. -/
lemma writesOf (context : ScopeId) (vs : List Variable) (marks : List Access) :
    Writes (vs.flatMap (Variable.mentions context)) marks
      ((annotateAll vs marks).1.flatMap (Variable.mentions context)) (annotateAll vs marks).2 := by
  induction vs generalizing marks with
  | nil => exact .nil marks
  | cons v vs ih =>
    simp only [annotateAll, List.flatMap_cons]
    exact (v.writes context marks).append (ih _)

/-- A variable changes in the accesses of its first value alone. -/
lemma bare_annotate (v : Variable) (marks : List Access) : (v.annotate marks).1.bare = v.bare := by
  obtain ⟨name, isReference, isPointer, init⟩ := v
  cases init with
  | none => rfl
  | some e => simp [annotate, bare, e.bare_annotate marks]

/-- So do variables in a row. -/
lemma bare_annotateAll (vs : List Variable) (marks : List Access) :
    (annotateAll vs marks).1.map Variable.bare = vs.map Variable.bare := by
  induction vs generalizing marks with
  | nil => rfl
  | cons v vs ih => simp [annotateAll, ih, v.bare_annotate]

end Variable

/-- What an enumeration mentions takes no marks. -/
lemma Enumeration.not_visited {context m} {e : Enumeration} (hm : m ∈ e.mentions context) :
    ¬ m.isVisited := by
  rcases List.mem_cons.mp hm with rfl | hm
  · simp [Mention.isVisited]
  · obtain ⟨o, ho, rfl⟩ := List.mem_map.mp hm
    exact EnumMember.not_visited ho

/-- A block keeps its context. -/
lemma Block.context_annotate (tree : ScopeTree) (b : Block) (marks : List Access) :
    (b.annotate tree marks).1.context = b.context := by
  cases b
  rfl

mutual

/-- Annotating a statement writes marks into its mentions. -/
lemma Stmt.writes (tree : ScopeTree) (context : ScopeId) :
    ∀ (s : Stmt) (marks : List Access),
      Writes (s.mentions tree context) marks
        ((s.annotate tree context marks).1.mentions tree context) (s.annotate tree context marks).2
  | .expression e _, marks => e.writes context false marks
  | .imports specifiers _, marks => by
    apply Writes.keep
    intro m hm
    obtain ⟨o, ho, rfl⟩ := List.mem_map.mp hm
    rw [Mention.isVisited, Occurrence.isVisited, (Expr.place_of_mem_occurrencesOf _ ho).2]
    decide
  | .variables declared _, marks => Variable.writesOf context declared marks
  | .conditional test consequent alternate _, marks => by
    simp only [Stmt.annotate, Stmt.mentions]
    exact ((test.writes context false marks).append (Block.writesOf tree consequent _)).append
      (Alternate.writes tree context alternate _)
  | .function name parameters body _ _, marks => by
    simp only [Stmt.annotate, Stmt.mentions, Block.context_annotate]
    refine Writes.append (.keep ?_ marks) (Block.writes tree body marks)
    simp [Mention.isVisited]
  | .returns none _, marks => .nil marks
  | .returns (some values) _, marks => Expr.writes_return tree context values marks
  | .enumeration e _, marks => .keep (fun _ => e.not_visited) marks

/-- Statements in a row take their marks one after the other. -/
lemma Stmt.writesOf (tree : ScopeTree) (context : ScopeId) :
    ∀ (ss : List Stmt) (marks : List Access),
      Writes (Stmt.mentionsOf tree context ss) marks
        (Stmt.mentionsOf tree context (Stmt.annotateAll tree context ss marks).1)
        (Stmt.annotateAll tree context ss marks).2
  | [], marks => .nil marks
  | s :: rest, marks => by
    simp only [Stmt.annotateAll, Stmt.mentionsOf]
    exact (Stmt.writes tree context s marks).append (Stmt.writesOf tree context rest _)

/-- Annotating a block writes marks into its mentions. -/
lemma Block.writes (tree : ScopeTree) :
    ∀ (b : Block) (marks : List Access),
      Writes (b.mentions tree) marks ((b.annotate tree marks).1.mentions tree)
        (b.annotate tree marks).2
  | .mk context body _, marks => Stmt.writesOf tree context body marks

/-- A missing branch takes no marks. -/
lemma Block.writesOf (tree : ScopeTree) :
    ∀ (b : Option Block) (marks : List Access),
      Writes (Block.mentionsOf tree b) marks
        (Block.mentionsOf tree (Block.annotateOption tree b marks).1)
        (Block.annotateOption tree b marks).2
  | none, marks => .nil marks
  | some b, marks => Block.writes tree b marks

/-- Further branches take their marks in order, tests before blocks. -/
lemma Alternate.writes (tree : ScopeTree) (context : ScopeId) :
    ∀ (a : Alternate) (marks : List Access),
      Writes (a.mentions tree context) marks ((a.annotate tree marks).1.mentions tree context)
        (a.annotate tree marks).2
  | .absent, marks => .nil marks
  | .otherwise block, marks => Block.writes tree block marks
  | .elseIf test consequent alternate, marks => by
    simp only [Alternate.annotate, Alternate.mentions]
    exact ((test.writes context false marks).append (Block.writesOf tree consequent _)).append
      (Alternate.writes tree context alternate _)

end

mutual

/-- Annotating a statement changes its accesses alone. -/
lemma Stmt.bare_annotate (tree : ScopeTree) (context : ScopeId) :
    ∀ (s : Stmt) (marks : List Access), (s.annotate tree context marks).1.bare = s.bare
  | .expression e _, marks => by
    simp only [Stmt.annotate, Stmt.bare]
    rw [e.bare_annotate]
  | .imports _ _, _ => rfl
  | .variables declared _, marks => by
    simp only [Stmt.annotate, Stmt.bare]
    rw [Variable.bare_annotateAll]
  | .conditional test consequent alternate _, marks => by
    simp only [Stmt.annotate, Stmt.bare]
    rw [test.bare_annotate, Block.bareOf_annotateOption tree consequent,
      Alternate.bare_annotate tree alternate]
  | .function name parameters body _ _, marks => by
    simp only [Stmt.annotate, Stmt.bare]
    rw [Block.bare_annotate tree body]
  | .returns none _, _ => rfl
  | .returns (some values) _, marks => by
    simp only [Stmt.annotate, Stmt.bare, Option.map_some]
    rw [Expr.bareOf_annotateReturn]
  | .enumeration _ _, _ => rfl

/-- Statements in a row change in their accesses alone. -/
lemma Stmt.bareOf_annotateAll (tree : ScopeTree) (context : ScopeId) :
    ∀ (ss : List Stmt) (marks : List Access),
      Stmt.bareOf (Stmt.annotateAll tree context ss marks).1 = Stmt.bareOf ss
  | [], _ => rfl
  | s :: rest, marks => by
    simp only [Stmt.annotateAll, Stmt.bareOf]
    rw [Stmt.bare_annotate tree context s, Stmt.bareOf_annotateAll tree context rest]

/-- Annotating a block changes its accesses alone. -/
lemma Block.bare_annotate (tree : ScopeTree) :
    ∀ (b : Block) (marks : List Access), (b.annotate tree marks).1.bare = b.bare
  | .mk context body _, marks => by
    simp only [Block.annotate, Block.bare]
    rw [Stmt.bareOf_annotateAll tree context body]

/-- So does a branch that may be missing. -/
lemma Block.bareOf_annotateOption (tree : ScopeTree) :
    ∀ (b : Option Block) (marks : List Access),
      Block.bareOf (Block.annotateOption tree b marks).1 = Block.bareOf b
  | none, _ => rfl
  | some b, marks => by
    simp only [Block.annotateOption, Block.bareOf]
    rw [Block.bare_annotate tree b]

/-- So do further branches. -/
lemma Alternate.bare_annotate (tree : ScopeTree) :
    ∀ (a : Alternate) (marks : List Access), (a.annotate tree marks).1.bare = a.bare
  | .absent, _ => rfl
  | .otherwise block, marks => by
    simp only [Alternate.annotate, Alternate.bare]
    rw [Block.bare_annotate tree block]
  | .elseIf test consequent alternate, marks => by
    simp only [Alternate.annotate, Alternate.bare]
    rw [test.bare_annotate, Block.bareOf_annotateOption tree consequent,
      Alternate.bare_annotate tree alternate]

end

namespace Program

/-- Annotating a program writes the marks into its mentions. -/
lemma mentions_annotate (p : Program) (marks : List Access) :
    (p.annotate marks).mentions = Mention.mark p.mentions marks :=
  (Block.writes p.scopes p.block marks).mentions

/-- Annotating a program changes its accesses alone. -/
lemma bare_annotate (p : Program) (marks : List Access) : (p.annotate marks).bare = p.bare := by
  unfold annotate bare
  rw [Block.bare_annotate]

end Program

end FrontEnd
