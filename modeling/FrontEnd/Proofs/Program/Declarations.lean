import FrontEnd.Proofs.Program.Content

/-!
# The declarations of a program

What the statements of a program declare, at any depth and in document order, each with the scope
that it binds in (`Program.declarations`). Variables, functions and enumerations bind in the context
of the block around them, parameters in that of the body of their function.

Main statement: `Program.declarations_mentions`, these are the declarations that the program
mentions.
-/

namespace FrontEnd

/-- What a statement of a block with this context declares, apart from those inside it. -/
def Stmt.declares (context : ScopeId) : Stmt → List (ScopeId × Declaration)
  | .expression _ _ | .imports _ _ | .conditional _ _ _ _ | .returns _ _ => []
  | .variables declared _ =>
    declared.map fun v => (context, ⟨v.name, .var, v.isPointer, v.isReference⟩)
  | .function name parameters body _ _ =>
    (context, ⟨name, .func, false, false⟩) ::
      parameters.map fun p => (body.context, ⟨p.name, .param, p.isPointer, p.isReference⟩)
  | .enumeration e _ => [(context, ⟨e.name, .enum, false, false⟩)]

/-- What some statements declare, each in a block with its context. -/
def Stmt.declaresOf (statements : List (ScopeId × Stmt)) : List (ScopeId × Declaration) :=
  statements.flatMap fun entry => entry.2.declares entry.1

/-- The declarations of a program, with the scopes that they bind in. -/
def Program.declarations (p : Program) : List (ScopeId × Declaration) :=
  Stmt.declaresOf p.statements

/-- A statement declares its names before the others. -/
lemma Stmt.declaresOf_cons (context : ScopeId) (s : Stmt) (rest : List (ScopeId × Stmt)) :
    Stmt.declaresOf ((context, s) :: rest) = s.declares context ++ Stmt.declaresOf rest :=
  List.flatMap_cons

/-- Two lists of statements declare one after the other. -/
@[simp]
lemma Stmt.declaresOf_append (first second : List (ScopeId × Stmt)) :
    Stmt.declaresOf (first ++ second) = Stmt.declaresOf first ++ Stmt.declaresOf second :=
  List.flatMap_append

/-! ## Mentioned declarations -/

namespace Mention

/-- The declaration that a mention is, with its scope. -/
def declared? : Mention → Option (ScopeId × Declaration)
  | declared s d => some (s, d)
  | used _ => none

def declarations (ms : List Mention) : List (ScopeId × Declaration) :=
  ms.filterMap declared?

/-- A mentioned declaration is one. -/
@[simp]
lemma declarations_declared (s : ScopeId) (d : Declaration) (ms : List Mention) :
    declarations (.declared s d :: ms) = (s, d) :: declarations ms := rfl

/-- The declarations of two parts come one after the other. -/
@[simp]
lemma declarations_append (ms ns : List Mention) :
    declarations (ms ++ ns) = declarations ms ++ declarations ns :=
  List.filterMap_append

/-- Uses declare nothing. -/
@[simp]
lemma declarations_used (os : List Occurrence) : declarations (os.map .used) = [] := by
  rw [declarations, List.filterMap_map, List.filterMap_eq_nil_iff]
  exact fun _ _ => rfl

end Mention

/-- Variables declare their names in order. -/
lemma Variable.declarations_mentionsOf (context : ScopeId) (vs : List Variable) :
    Mention.declarations (vs.flatMap (Variable.mentions context)) =
      vs.map fun v => (context, v.declaration) := by
  induction vs with
  | nil => rfl
  | cons v vs ih =>
    rw [List.flatMap_cons, Mention.declarations_append, ih, Variable.mentions,
      Mention.declarations_append, Mention.declarations_used]
    rfl

/-- Parameters declare their names in order. -/
lemma Parameter.declarations_mentions (context : ScopeId) (ps : List Parameter) :
    Mention.declarations (ps.map fun p => .declared context p.declaration) =
      ps.map fun p => (context, p.declaration) := by
  induction ps with
  | nil => rfl
  | cons p ps ih => rw [List.map_cons, Mention.declarations_declared, ih, List.map_cons]

mutual

/-- A statement mentions its own declarations and those of the statements inside it. -/
lemma Stmt.declarations_mentions (tree : ScopeTree) (context : ScopeId) :
    ∀ s : Stmt, Mention.declarations (s.mentions tree context) =
      s.declares context ++ Stmt.declaresOf s.inner
  | .expression _ _ => Mention.declarations_used _
  | .imports _ _ => Mention.declarations_used _
  | .variables declared _ => by
    rw [Stmt.mentions, Variable.declarations_mentionsOf context declared, Stmt.inner]
    exact (List.append_nil _).symm
  | .conditional test consequent alternate _ => by
    rw [Stmt.mentions, Stmt.declares, Stmt.inner, Mention.declarations_append,
      Mention.declarations_append, Mention.declarations_used,
      Block.declarations_mentionsOf tree consequent,
      Alternate.declarations_mentions tree context alternate, Stmt.declaresOf_append,
      List.nil_append, List.nil_append]
  | .function name parameters body _ _ => by
    rw [Stmt.mentions, Stmt.inner, List.cons_append, Mention.declarations_declared,
      Mention.declarations_append, Parameter.declarations_mentions,
      Block.declarations_mentions tree body]
    rfl
  | .returns none _ => rfl
  | .returns (some _) _ => Mention.declarations_used _
  | .enumeration e _ => by
    rw [Stmt.mentions, Enumeration.mentions, Mention.declarations_declared,
      Mention.declarations_used]
    rfl

/-- Statements in a row mention what their statements declare, in document order. -/
lemma Stmt.declarations_mentionsOf (tree : ScopeTree) (context : ScopeId) :
    ∀ ss : List Stmt, Mention.declarations (Stmt.mentionsOf tree context ss) =
      Stmt.declaresOf (Stmt.statementsOf context ss)
  | [] => rfl
  | s :: rest => by
    rw [Stmt.mentionsOf, Mention.declarations_append, Stmt.declarations_mentions tree context s,
      Stmt.declarations_mentionsOf tree context rest, Stmt.statementsOf, Stmt.declaresOf_append,
      Stmt.declaresOf_cons]

/-- A block mentions the declarations of its statements. -/
lemma Block.declarations_mentions (tree : ScopeTree) :
    ∀ b : Block, Mention.declarations (b.mentions tree) = Stmt.declaresOf b.statements
  | .mk context body _ => Stmt.declarations_mentionsOf tree context body

/-- So does a branch that may be missing. -/
lemma Block.declarations_mentionsOf (tree : ScopeTree) :
    ∀ b : Option Block, Mention.declarations (Block.mentionsOf tree b) =
      Stmt.declaresOf (Block.statementsOf b)
  | none => rfl
  | some b => Block.declarations_mentions tree b

/-- So do further branches. -/
lemma Alternate.declarations_mentions (tree : ScopeTree) (context : ScopeId) :
    ∀ a : Alternate, Mention.declarations (a.mentions tree context) =
      Stmt.declaresOf a.statements
  | .absent => rfl
  | .otherwise block => Block.declarations_mentions tree block
  | .elseIf test consequent alternate => by
    rw [Alternate.mentions, Alternate.statements, Mention.declarations_append,
      Mention.declarations_append, Mention.declarations_used,
      Block.declarations_mentionsOf tree consequent,
      Alternate.declarations_mentions tree context alternate, Stmt.declaresOf_append,
      List.nil_append]

end

/-- A program mentions its declarations, in document order. -/
lemma Program.declarations_mentions (p : Program) :
    Mention.declarations p.mentions = p.declarations :=
  Block.declarations_mentions p.scopes p.block

end FrontEnd
