import FrontEnd.Analysis.Event
import FrontEnd.Lexicon.Basic
import FrontEnd.Proofs.Program.Content

/-!
# Outermost expressions

The expressions of a program that are not part of another one, in document order, each with where
it stands (`Program.outermost`). What there is to note about a program is read off them
(`Program.notes`): the literals that are imported, and the operators that a lexicon does not know,
in a visited expression from left to right with each between its operands.

Main statement: `Program.placed_occurrences`, the outermost expressions hold all identifiers of the
program, and an expression is visited if its identifiers are.
-/

namespace FrontEnd

/-! ## Outermost expressions -/

/-- The first value of a variable. -/
def Variable.outermost (v : Variable) : List (Standing × Expr) :=
  v.init?.toList.map (.visited, ·)

/-- The values of the members. -/
def Enumeration.outermost (e : Enumeration) : List (Standing × Expr) :=
  (e.members.filterMap EnumMember.value?).map (.memberValue, ·)

/-- The values of a return, visited or not. -/
def Expr.returnOutermost (tree : ScopeTree) (context : ScopeId) (values : List Expr) :
    List (Standing × Expr) :=
  let count := visitedCount tree context values
  (values.take count).map (.visited, ·) ++ (values.drop count).map (.surplus, ·)

mutual

/-- The outermost expressions of a statement in a block with this context. -/
def Stmt.outermost (tree : ScopeTree) (context : ScopeId) : Stmt → List (Standing × Expr)
  | .expression e _ => [(.visited, e)]
  | .imports specifiers _ => specifiers.map (.imported, ·)
  | .variables declared _ => declared.flatMap Variable.outermost
  | .conditional test consequent alternate _ =>
    (.visited, test) :: (Block.outermostOf tree consequent ++ alternate.outermost tree)
  | .function _ _ body _ _ => body.outermost tree
  | .returns argument _ => argument.elim [] (Expr.returnOutermost tree context)
  | .enumeration e _ => e.outermost

/-- The outermost expressions of some statements in a block with this context. -/
def Stmt.outermostOf (tree : ScopeTree) (context : ScopeId) : List Stmt → List (Standing × Expr)
  | [] => []
  | s :: rest => s.outermost tree context ++ Stmt.outermostOf tree context rest

/-- The outermost expressions of a block. -/
def Block.outermost (tree : ScopeTree) : Block → List (Standing × Expr)
  | .mk context body _ => Stmt.outermostOf tree context body

/-- The outermost expressions of a branch that may be missing. -/
def Block.outermostOf (tree : ScopeTree) : Option Block → List (Standing × Expr)
  | none => []
  | some b => b.outermost tree

/-- The outermost expressions of what follows the first branch. -/
def Alternate.outermost (tree : ScopeTree) : Alternate → List (Standing × Expr)
  | .absent => []
  | .otherwise block => block.outermost tree
  | .elseIf test consequent alternate =>
    (.visited, test) :: (Block.outermostOf tree consequent ++ alternate.outermost tree)

end

/-- The outermost expressions of a program, in document order, each with where it stands. -/
def Program.outermost (p : Program) : List (Standing × Expr) :=
  p.block.outermost p.scopes

/-! ## Notes -/

/-- A kind belongs to one of the symbols that a binary expression may have for its operator. -/
def Lexicon.Knows (lex : Lexicon) (kind : TokenKind) : Prop :=
  ∃ symbol ∈ ["*", "/", "+", "-", ">", "<", "=", "%", "==", "."], lex.kindOf symbol = some kind

instance (lex : Lexicon) (kind : TokenKind) : Decidable (lex.Knows kind) :=
  inferInstanceAs (Decidable (∃ symbol ∈ _, _))

namespace Expr

mutual

/-- The operators of an expression that a lexicon does not know, each after those of its left
operand and before those of its right one. -/
def unknownOperators (lex : Lexicon) : Expr → List Note
  | literal _ _ | parameter _ _ | identifier _ _ => []
  | binary left kind right span =>
    left.unknownOperators lex ++
      (if lex.Knows kind then [] else [.unknownOperator kind span]) ++
      right.unknownOperators lex
  | call callee arguments _ => callee.unknownOperators lex ++ unknownOperatorsOf lex arguments
  | member object property _ => object.unknownOperators lex ++ property.unknownOperators lex
  | array elements _ => unknownOperatorsOf lex elements

/-- The operators of some expressions that a lexicon does not know, one after the other. -/
def unknownOperatorsOf (lex : Lexicon) : List Expr → List Note
  | [] => []
  | e :: rest => e.unknownOperators lex ++ unknownOperatorsOf lex rest

end

/-- What there is to note about an outermost expression: its operators if it is visited, and itself
if it is a literal that is imported. -/
def notes (lex : Lexicon) : Standing × Expr → List Note
  | (.visited, e) => e.unknownOperators lex
  | (.imported, .literal l span) => [.importLiteral l.value span]
  | _ => []

end Expr

/-- What there is to note about a program. -/
def Program.notes (p : Program) (lex : Lexicon) : List Note :=
  p.outermost.flatMap (Expr.notes lex)

/-! ## No identifier is left out -/

/-- The identifiers of an outermost expression, each standing where that does. -/
def Expr.standings (entry : Standing × Expr) : List (Standing × Identifier) :=
  entry.2.identifiers.map (entry.1, ·)

/-- An identifier and where it stands. -/
def Occurrence.placed (o : Occurrence) : Standing × Identifier :=
  (o.standing, o.identifier)

namespace Mention

/-- The identifiers among mentions, each with where it stands. -/
def placed (ms : List Mention) : List (Standing × Identifier) :=
  (ms.filterMap occurrence?).map Occurrence.placed

/-- A declaration has no place among the occurrences. -/
@[simp]
lemma placed_declared (s : ScopeId) (d : Declaration) (ms : List Mention) :
    placed (.declared s d :: ms) = placed ms := rfl

/-- The occurrences of two parts come one after the other. -/
@[simp]
lemma placed_append (ms ns : List Mention) : placed (ms ++ ns) = placed ms ++ placed ns := by
  simp [placed]

/-- Uses in a row have their places in a row. -/
@[simp]
lemma placed_used (os : List Occurrence) : placed (os.map .used) = os.map Occurrence.placed := by
  rw [placed, List.filterMap_map]
  exact congrArg (List.map _) List.filterMap_some

end Mention

namespace Expr

/-- All occurrences of an expression stand where it stands. -/
lemma placed_occurrences (scope : ScopeId) (standing : Standing) (isProperty : Bool) (e : Expr) :
    (e.occurrences scope standing isProperty).map Occurrence.placed = standings (standing, e) := by
  rw [standings, ← e.map_identifier_occurrences scope standing isProperty, List.map_map]
  apply List.map_congr_left
  intro o ho
  rw [Occurrence.placed, (e.place_of_mem_occurrences ho).2]
  rfl

/-- So do those of expressions in a row. -/
lemma placed_occurrencesOf (scope : ScopeId) (standing : Standing) (es : List Expr) :
    (occurrencesOf scope standing es).map Occurrence.placed =
      (es.map (standing, ·)).flatMap standings := by
  induction es with
  | nil => rfl
  | cons e es ih =>
    rw [occurrencesOf, List.map_append, placed_occurrences, ih]
    rfl

/-- The values of a return stand in its slots, or beyond them. -/
lemma placed_returnOccurrences (tree : ScopeTree) (context : ScopeId) (values : List Expr) :
    (returnOccurrences tree context values).map Occurrence.placed =
      (returnOutermost tree context values).flatMap standings := by
  simp only [returnOccurrences, returnOutermost, List.map_append, List.flatMap_append,
    placed_occurrencesOf]

end Expr

/-- The occurrences of a variable are those of its first value. -/
lemma Variable.placed_mentions (context : ScopeId) (v : Variable) :
    Mention.placed (v.mentions context) = v.outermost.flatMap Expr.standings := by
  rw [mentions, outermost, Mention.placed_append, Mention.placed_used]
  cases v.init? with
  | none => rfl
  | some e =>
    rw [Option.elim_some, Expr.placed_occurrences]
    rfl

/-- So it is for variables in a row. -/
lemma Variable.placed_mentionsOf (context : ScopeId) (vs : List Variable) :
    Mention.placed (vs.flatMap (Variable.mentions context)) =
      (vs.flatMap Variable.outermost).flatMap Expr.standings := by
  induction vs with
  | nil => rfl
  | cons v vs ih =>
    simp only [List.flatMap_cons, List.flatMap_append, Mention.placed_append, ih,
      v.placed_mentions context]

/-- The occurrences of an enumeration are those of the values of its members. -/
lemma Enumeration.placed_mentions (context : ScopeId) (e : Enumeration) :
    Mention.placed (e.mentions context) = e.outermost.flatMap Expr.standings := by
  rw [mentions, outermost, Mention.placed_declared, Mention.placed_used]
  induction e.members with
  | nil => rfl
  | cons m ms ih =>
    rw [List.flatMap_cons, List.map_append, ih]
    cases hv : m.value? with
    | none => rw [List.filterMap_cons_none hv]; rfl
    | some value =>
      rw [List.filterMap_cons_some hv, Option.elim_some, Expr.placed_occurrences]
      rfl

/-- Parameters have no occurrences. -/
lemma Parameter.placed_mentions (context : ScopeId) (ps : List Parameter) :
    Mention.placed (ps.map fun p => .declared context p.declaration) = [] := by
  induction ps with
  | nil => rfl
  | cons p ps ih => exact ih

mutual

/-- The occurrences of a statement are those of its outermost expressions, in order. -/
lemma Stmt.placed_mentions (tree : ScopeTree) (context : ScopeId) :
    ∀ s : Stmt, Mention.placed (s.mentions tree context) =
      (s.outermost tree context).flatMap Expr.standings
  | .expression e _ => by
    simp [Stmt.mentions, Stmt.outermost, Expr.placed_occurrences]
  | .imports specifiers _ => by
    simp only [Stmt.mentions, Stmt.outermost, Mention.placed_used, Expr.placed_occurrencesOf]
  | .variables declared _ => Variable.placed_mentionsOf context declared
  | .conditional test consequent alternate _ => by
    simp [Stmt.mentions, Stmt.outermost, Expr.placed_occurrences,
      Block.placed_mentionsOf tree consequent, Alternate.placed_mentions tree context alternate]
  | .function name parameters body _ _ => by
    simp [Stmt.mentions, Stmt.outermost, Parameter.placed_mentions,
      Block.placed_mentions tree body]
  | .returns none _ => rfl
  | .returns (some values) _ => by
    simp only [Stmt.mentions, Stmt.outermost, Option.elim_some, Mention.placed_used,
      Expr.placed_returnOccurrences]
  | .enumeration e _ => e.placed_mentions context

/-- So it is for statements in a row. -/
lemma Stmt.placed_mentionsOf (tree : ScopeTree) (context : ScopeId) :
    ∀ ss : List Stmt, Mention.placed (Stmt.mentionsOf tree context ss) =
      (Stmt.outermostOf tree context ss).flatMap Expr.standings
  | [] => rfl
  | s :: rest => by
    simp [Stmt.mentionsOf, Stmt.outermostOf, Stmt.placed_mentions tree context s,
      Stmt.placed_mentionsOf tree context rest]

/-- So it is for a block. -/
lemma Block.placed_mentions (tree : ScopeTree) :
    ∀ b : Block, Mention.placed (b.mentions tree) = (b.outermost tree).flatMap Expr.standings
  | .mk context body _ => Stmt.placed_mentionsOf tree context body

/-- So it is for a branch that may be missing. -/
lemma Block.placed_mentionsOf (tree : ScopeTree) :
    ∀ b : Option Block, Mention.placed (Block.mentionsOf tree b) =
      (Block.outermostOf tree b).flatMap Expr.standings
  | none => rfl
  | some b => Block.placed_mentions tree b

/-- So it is for further branches. -/
lemma Alternate.placed_mentions (tree : ScopeTree) (context : ScopeId) :
    ∀ a : Alternate, Mention.placed (a.mentions tree context) =
      (a.outermost tree).flatMap Expr.standings
  | .absent => rfl
  | .otherwise block => Block.placed_mentions tree block
  | .elseIf test consequent alternate => by
    simp [Alternate.mentions, Alternate.outermost, Expr.placed_occurrences,
      Block.placed_mentionsOf tree consequent, Alternate.placed_mentions tree context alternate]

end

/-- The outermost expressions hold the identifiers of the program, which stand where these do. -/
lemma Program.placed_occurrences (p : Program) :
    p.occurrences.map Occurrence.placed = p.outermost.flatMap Expr.standings :=
  Block.placed_mentions p.scopes p.block

end FrontEnd
