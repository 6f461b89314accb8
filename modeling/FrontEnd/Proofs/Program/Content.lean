import FrontEnd.Proofs.Program.Steps
import Mathlib.Tactic.Common

/-!
# The content of a program

What a program holds, read off its tree alone and from left to right: the identifiers, each with
its place and the context of the innermost block around it, and the declarations, each with the
scope that it binds in (`Program.mentions`). An identifier stands somewhere that an analysis visits,
or for one of three reasons it does not (`Standing`).

`Program.statements` lists the statements at any depth. `Program.bare` is the program without the
accesses of its identifiers, which is all of it that an analysis leaves alone.

Main statements: `Program.map_identifier_occurrences`, the occurrences are all identifiers of the
program, `Block.scope_of_mem_mentions`, each stands in the block of a statement, and
`Block.mentions_infix`, the mentions of a statement are a part of those around it.
-/

namespace FrontEnd

/-- Whether an analysis visits an identifier, or what keeps it out. -/
inductive Standing where
  | visited
  /-- It stands inside an import specifier. -/
  | imported
  /-- It stands inside the value of an enumeration member. -/
  | memberValue
  /-- It stands inside a value of a return beyond those that its function declares. -/
  | surplus
deriving DecidableEq, Repr

/-- An identifier at its place in a program. -/
structure Occurrence where
  identifier : Identifier
  span : Span
  /-- The identifier itself is the property of a member expression. -/
  isProperty : Bool
  /-- The context of the innermost block around it. -/
  scope : ScopeId
  standing : Standing
deriving DecidableEq, Repr

/-- An identifier or a declaration of a program. -/
inductive Mention where
  /-- A declaration, with the scope that it binds in. -/
  | declared (scope : ScopeId) (d : Declaration)
  | used (o : Occurrence)
deriving DecidableEq, Repr

namespace Occurrence

def isVisited (o : Occurrence) : Bool :=
  o.standing = .visited

/-- The use of a name that an occurrence is. -/
def use (o : Occurrence) : Use :=
  ⟨o.identifier.name, o.identifier.isPointer, o.isProperty, o.span⟩

/-- The occurrence with this access. -/
def withAccess (o : Occurrence) (access : Option Access) : Occurrence :=
  { o with identifier := { o.identifier with access } }

/-- The occurrence without its access. -/
def bare (o : Occurrence) : Occurrence :=
  o.withAccess none

end Occurrence

namespace Mention

/-- The occurrence that a mention is. -/
def occurrence? : Mention → Option Occurrence
  | declared _ _ => none
  | used o => some o

/-- Whether an analysis visits what is mentioned as a use. -/
def isVisited : Mention → Bool
  | declared _ _ => false
  | used o => o.isVisited

end Mention

/-! ## Identifiers and declarations -/

namespace Expr

mutual

/-- The identifiers of an expression in a block with this context. -/
def occurrences (scope : ScopeId) (standing : Standing) :
    Expr → (isProperty : Bool) → List Occurrence
  | literal _ _, _ | parameter _ _, _ => []
  | identifier i span, isProperty => [⟨i, span, isProperty, scope, standing⟩]
  | binary left _ right _, _ =>
    left.occurrences scope standing false ++ right.occurrences scope standing false
  | call callee arguments _, _ =>
    callee.occurrences scope standing false ++ occurrencesOf scope standing arguments
  | member object property _, _ =>
    object.occurrences scope standing false ++ property.occurrences scope standing true
  | array elements _, _ => occurrencesOf scope standing elements

/-- The identifiers of some expressions, one after the other. -/
def occurrencesOf (scope : ScopeId) (standing : Standing) : List Expr → List Occurrence
  | [] => []
  | e :: rest => e.occurrences scope standing false ++ occurrencesOf scope standing rest

end

/-- How many values of a return are visited, of those it has: all of them if its function declares
none, else as many as it declares. -/
def visitedCount (tree : ScopeTree) (context : ScopeId) (values : List Expr) : Nat :=
  if (tree.returnCount? context).getD 0 = 0 then values.length
  else (tree.returnCount? context).getD 0

/-- The steps of those values of a return that are visited. -/
def valueSteps (tree : ScopeTree) (context : ScopeId) (values : List Expr) : List Step :=
  if (tree.returnCount? context).getD 0 = 0 then stepsOf values
  else slotSteps 0 (values.take ((tree.returnCount? context).getD 0))

/-- A return breaks a rule or none, and then its values are visited. -/
lemma returnSteps_eq (tree : ScopeTree) (context : ScopeId) (values : List Expr) (span : Span) :
    returnSteps tree context values span =
      ((SemanticError.ofReturn? (tree.returnCount? context) values.length).toList.map
        fun e => .violate ⟨e, span⟩) ++ valueSteps tree context values := by
  dsimp only [returnSteps, valueSteps]
  cases (tree.returnCount? context).getD 0 with
  | zero => rfl
  | succ n => rfl

/-- The identifiers of the values of a return. -/
def returnOccurrences (tree : ScopeTree) (context : ScopeId) (values : List Expr) :
    List Occurrence :=
  let count := visitedCount tree context values
  occurrencesOf context .visited (values.take count) ++
    occurrencesOf context .surplus (values.drop count)

end Expr

/-- The identifiers of the first value of a variable, then its declaration. -/
def Variable.mentions (context : ScopeId) (v : Variable) : List Mention :=
  (v.init?.elim [] (·.occurrences context .visited false)).map .used ++
    [.declared context v.declaration]

/-- The declaration of an enumeration, then the identifiers of the values of its members. -/
def Enumeration.mentions (context : ScopeId) (e : Enumeration) : List Mention :=
  .declared context e.declaration ::
    (e.members.flatMap fun m =>
      m.value?.elim [] (·.occurrences context .memberValue false)).map .used

mutual

/-- The identifiers and declarations of a statement in a block with this context. -/
def Stmt.mentions (tree : ScopeTree) (context : ScopeId) : Stmt → List Mention
  | .expression e _ => (e.occurrences context .visited false).map .used
  | .imports specifiers _ => (Expr.occurrencesOf context .imported specifiers).map .used
  | .variables declared _ => declared.flatMap (Variable.mentions context)
  | .conditional test consequent alternate _ =>
    (test.occurrences context .visited false).map .used ++
      Block.mentionsOf tree consequent ++ alternate.mentions tree context
  | .function name parameters body _ _ =>
    .declared context (.ofFunction name) ::
      (parameters.map fun p => .declared body.context p.declaration) ++ body.mentions tree
  | .returns argument _ => argument.elim [] fun values =>
    (Expr.returnOccurrences tree context values).map .used
  | .enumeration e _ => e.mentions context

/-- The identifiers and declarations of some statements in a block with this context. -/
def Stmt.mentionsOf (tree : ScopeTree) (context : ScopeId) : List Stmt → List Mention
  | [] => []
  | s :: rest => s.mentions tree context ++ Stmt.mentionsOf tree context rest

/-- The identifiers and declarations of a block. -/
def Block.mentions (tree : ScopeTree) : Block → List Mention
  | .mk context body _ => Stmt.mentionsOf tree context body

/-- The identifiers and declarations of a branch that may be missing. -/
def Block.mentionsOf (tree : ScopeTree) : Option Block → List Mention
  | none => []
  | some b => b.mentions tree

/-- The identifiers and declarations of what follows the first branch of a conditional in a block
with this context. -/
def Alternate.mentions (tree : ScopeTree) (context : ScopeId) : Alternate → List Mention
  | .absent => []
  | .otherwise block => block.mentions tree
  | .elseIf test consequent alternate =>
    (test.occurrences context .visited false).map .used ++
      Block.mentionsOf tree consequent ++ alternate.mentions tree context

end

namespace Program

/-- The identifiers and declarations of a program, in document order. -/
def mentions (p : Program) : List Mention :=
  p.block.mentions p.scopes

/-- The identifiers of a program with their places, in document order. -/
def occurrences (p : Program) : List Occurrence :=
  p.mentions.filterMap Mention.occurrence?

end Program

/-! ## Statements at any depth -/

mutual

/-- The statements in the blocks of a statement, each with the context of its block. -/
def Stmt.inner : Stmt → List (ScopeId × Stmt)
  | .expression _ _ | .imports _ _ | .variables _ _ | .returns _ _ | .enumeration _ _ => []
  | .conditional _ consequent alternate _ => Block.statementsOf consequent ++ alternate.statements
  | .function _ _ body _ _ => body.statements

/-- Statements of a block with this context, and those inside them. -/
def Stmt.statementsOf (context : ScopeId) : List Stmt → List (ScopeId × Stmt)
  | [] => []
  | s :: rest => (context, s) :: s.inner ++ Stmt.statementsOf context rest

/-- The statements of a block, and those inside them. -/
def Block.statements : Block → List (ScopeId × Stmt)
  | .mk context body _ => Stmt.statementsOf context body

/-- The statements of a branch that may be missing. -/
def Block.statementsOf : Option Block → List (ScopeId × Stmt)
  | none => []
  | some b => b.statements

/-- The statements of what follows the first branch. -/
def Alternate.statements : Alternate → List (ScopeId × Stmt)
  | .absent => []
  | .otherwise block => block.statements
  | .elseIf _ consequent alternate => Block.statementsOf consequent ++ alternate.statements

end

/-- The statements of a program at any depth, each with the context of the block it stands in. -/
def Program.statements (p : Program) : List (ScopeId × Stmt) :=
  p.block.statements

/-! ## Programs without accesses -/

namespace Expr

mutual

/-- The expression without accesses. -/
def bare : Expr → Expr
  | literal l span => literal l span
  | parameter p span => parameter p span
  | identifier i span => identifier { i with access := none } span
  | binary left operator right span => binary left.bare operator right.bare span
  | call callee arguments span => call callee.bare (bareOf arguments) span
  | member object property span => member object.bare property.bare span
  | array elements span => array (bareOf elements) span

/-- Expressions without accesses. -/
def bareOf : List Expr → List Expr
  | [] => []
  | e :: rest => e.bare :: bareOf rest

end

end Expr

def Variable.bare (v : Variable) : Variable :=
  { v with init? := v.init?.map Expr.bare }

def EnumMember.bare (m : EnumMember) : EnumMember :=
  { m with value? := m.value?.map Expr.bare }

def Enumeration.bare (e : Enumeration) : Enumeration :=
  { e with members := e.members.map EnumMember.bare }

mutual

/-- The statement without accesses. -/
def Stmt.bare : Stmt → Stmt
  | .expression e span => .expression e.bare span
  | .imports specifiers span => .imports (Expr.bareOf specifiers) span
  | .variables declared span => .variables (declared.map Variable.bare) span
  | .conditional test consequent alternate span =>
    .conditional test.bare (Block.bareOf consequent) alternate.bare span
  | .function name parameters body isExported span =>
    .function name parameters body.bare isExported span
  | .returns argument span => .returns (argument.map Expr.bareOf) span
  | .enumeration e span => .enumeration e.bare span

/-- Statements without accesses. -/
def Stmt.bareOf : List Stmt → List Stmt
  | [] => []
  | s :: rest => s.bare :: Stmt.bareOf rest

/-- The block without accesses. -/
def Block.bare : Block → Block
  | .mk context body span => .mk context (Stmt.bareOf body) span

/-- A branch that may be missing, without accesses. -/
def Block.bareOf : Option Block → Option Block
  | none => none
  | some b => some b.bare

/-- What follows the first branch, without accesses. -/
def Alternate.bare : Alternate → Alternate
  | .absent => .absent
  | .otherwise block => .otherwise block.bare
  | .elseIf test consequent alternate =>
    .elseIf test.bare (Block.bareOf consequent) alternate.bare

end

/-- The program without accesses. -/
def Program.bare (p : Program) : Program :=
  { p with block := p.block.bare }

/-! ## No identifier is left out -/

namespace Mention

/-- The identifiers among mentions. -/
def identifiers (ms : List Mention) : List Identifier :=
  (ms.filterMap occurrence?).map Occurrence.identifier

/-- Where nothing is mentioned there is no identifier. -/
@[simp]
lemma identifiers_nil : identifiers [] = [] := rfl

/-- A declaration is no identifier. -/
@[simp]
lemma identifiers_declared (s : ScopeId) (d : Declaration) (ms : List Mention) :
    identifiers (.declared s d :: ms) = identifiers ms := rfl

/-- The identifiers of two parts come one after the other. -/
@[simp]
lemma identifiers_append (ms ns : List Mention) :
    identifiers (ms ++ ns) = identifiers ms ++ identifiers ns := by
  simp [identifiers]

/-- Uses in a row have their identifiers in a row. -/
@[simp]
lemma identifiers_used (os : List Occurrence) :
    identifiers (os.map .used) = os.map Occurrence.identifier := by
  rw [identifiers, List.filterMap_map]
  exact congrArg (List.map _) List.filterMap_some

end Mention

namespace Expr

mutual

/-- The occurrences of an expression are its identifiers. -/
lemma map_identifier_occurrences (scope : ScopeId) (standing : Standing) (isProperty : Bool) :
    ∀ e : Expr, (e.occurrences scope standing isProperty).map Occurrence.identifier = e.identifiers
  | literal _ _ => rfl
  | parameter _ _ => rfl
  | identifier _ _ => rfl
  | binary left _ right _ => by
    simp only [occurrences, identifiers, List.map_append]
    rw [map_identifier_occurrences scope standing false left,
      map_identifier_occurrences scope standing false right]
  | call callee arguments _ => by
    simp only [occurrences, identifiers, List.map_append]
    rw [map_identifier_occurrences scope standing false callee,
      map_identifier_occurrencesOf scope standing arguments]
  | member object property _ => by
    simp only [occurrences, identifiers, List.map_append]
    rw [map_identifier_occurrences scope standing false object,
      map_identifier_occurrences scope standing true property]
  | array elements _ => map_identifier_occurrencesOf scope standing elements

/-- The occurrences in expressions in a row are their identifiers in order. -/
lemma map_identifier_occurrencesOf (scope : ScopeId) (standing : Standing) :
    ∀ es : List Expr, (occurrencesOf scope standing es).map Occurrence.identifier = identifiersOf es
  | [] => rfl
  | e :: rest => by
    simp only [occurrencesOf, identifiersOf, List.map_append]
    rw [map_identifier_occurrences scope standing false e,
      map_identifier_occurrencesOf scope standing rest]

end

/-- Splitting expressions splits their identifiers. -/
lemma identifiersOf_append (es fs : List Expr) :
    identifiersOf (es ++ fs) = identifiersOf es ++ identifiersOf fs := by
  induction es with
  | nil => rfl
  | cons e es ih => simp only [List.cons_append, identifiersOf, ih, List.append_assoc]

/-- The occurrences of a return are the identifiers of its values, visited or not. -/
lemma map_identifier_returnOccurrences (tree : ScopeTree) (context : ScopeId)
    (values : List Expr) :
    (returnOccurrences tree context values).map Occurrence.identifier = identifiersOf values := by
  simp only [returnOccurrences, List.map_append, map_identifier_occurrencesOf]
  rw [← identifiersOf_append, List.take_append_drop]

end Expr

/-- A variable mentions the identifiers of its first value. -/
lemma Variable.identifiers_mentions (context : ScopeId) (v : Variable) :
    Mention.identifiers (v.mentions context) = v.init?.elim [] Expr.identifiers := by
  unfold Variable.mentions
  cases v.init? with
  | none => simp
  | some e => simp [Expr.map_identifier_occurrences]

/-- An enumeration mentions the identifiers of the values of its members. -/
lemma Enumeration.identifiers_mentions (context : ScopeId) (e : Enumeration) :
    Mention.identifiers (e.mentions context) = e.identifiers := by
  rw [mentions, Mention.identifiers_declared, Mention.identifiers_used, List.map_flatMap,
    Enumeration.identifiers]
  congr 1
  funext m
  cases m.value? with
  | none => rfl
  | some e => exact Expr.map_identifier_occurrences context .memberValue false e

/-- Variables mention the identifiers of their first values. -/
lemma Variable.identifiers_mentionsOf (context : ScopeId) (vs : List Variable) :
    Mention.identifiers (vs.flatMap (Variable.mentions context)) = Variable.identifiersOf vs := by
  induction vs with
  | nil => rfl
  | cons v vs ih =>
    rw [List.flatMap_cons, Mention.identifiers_append, v.identifiers_mentions context, ih]
    rfl

/-- Parameters mention no identifiers. -/
lemma Parameter.identifiers_mentions (context : ScopeId) (ps : List Parameter) :
    Mention.identifiers (ps.map fun p => .declared context p.declaration) = [] := by
  induction ps with
  | nil => rfl
  | cons p ps ih => exact ih

mutual

/-- A statement mentions its identifiers. -/
lemma Stmt.identifiers_mentions (tree : ScopeTree) (context : ScopeId) :
    ∀ s : Stmt, Mention.identifiers (s.mentions tree context) = s.identifiers
  | .expression e _ => by
    simp [Stmt.mentions, Stmt.identifiers, Expr.map_identifier_occurrences]
  | .imports specifiers _ => by
    simp [Stmt.mentions, Stmt.identifiers, Expr.map_identifier_occurrencesOf]
  | .variables declared _ => Variable.identifiers_mentionsOf context declared
  | .conditional test consequent alternate _ => by
    simp [Stmt.mentions, Stmt.identifiers, Expr.map_identifier_occurrences,
      Block.identifiers_mentionsOf tree consequent,
      Alternate.identifiers_mentions tree context alternate]
  | .function name parameters body _ _ => by
    simp [Stmt.mentions, Stmt.identifiers, Parameter.identifiers_mentions,
      Block.identifiers_mentions tree body]
  | .returns none _ => rfl
  | .returns (some values) _ => by
    simp [Stmt.mentions, Stmt.identifiers, Expr.map_identifier_returnOccurrences]
  | .enumeration e _ => e.identifiers_mentions context

/-- Statements in a row mention their identifiers in document order. -/
lemma Stmt.identifiers_mentionsOf (tree : ScopeTree) (context : ScopeId) :
    ∀ ss : List Stmt,
      Mention.identifiers (Stmt.mentionsOf tree context ss) = Stmt.identifiersOf ss
  | [] => rfl
  | s :: rest => by
    simp [Stmt.mentionsOf, Stmt.identifiersOf, Stmt.identifiers_mentions tree context s,
      Stmt.identifiers_mentionsOf tree context rest]

/-- A block mentions its identifiers. -/
lemma Block.identifiers_mentions (tree : ScopeTree) :
    ∀ b : Block, Mention.identifiers (b.mentions tree) = b.identifiers
  | .mk context body _ => Stmt.identifiers_mentionsOf tree context body

/-- So does a branch that may be missing. -/
lemma Block.identifiers_mentionsOf (tree : ScopeTree) :
    ∀ b : Option Block, Mention.identifiers (Block.mentionsOf tree b) = Block.identifiersOf b
  | none => rfl
  | some b => Block.identifiers_mentions tree b

/-- So do further branches. -/
lemma Alternate.identifiers_mentions (tree : ScopeTree) (context : ScopeId) :
    ∀ a : Alternate, Mention.identifiers (a.mentions tree context) = a.identifiers
  | .absent => rfl
  | .otherwise block => Block.identifiers_mentions tree block
  | .elseIf test consequent alternate => by
    simp [Alternate.mentions, Alternate.identifiers, Expr.map_identifier_occurrences,
      Block.identifiers_mentionsOf tree consequent,
      Alternate.identifiers_mentions tree context alternate]

end

/-- The occurrences of a program are all its identifiers, in document order. -/
lemma Program.map_identifier_occurrences (p : Program) :
    p.occurrences.map Occurrence.identifier = p.identifiers :=
  Block.identifiers_mentions p.scopes p.block

/-! ## Where identifiers stand -/

namespace Expr

mutual

/-- The occurrences of an expression stand where it does. -/
lemma place_of_mem_occurrences {scope standing} {o : Occurrence} :
    ∀ {isProperty} (e : Expr), o ∈ e.occurrences scope standing isProperty →
      o.scope = scope ∧ o.standing = standing
  | _, literal _ _, h => by cases h
  | _, parameter _ _, h => by cases h
  | _, identifier _ _, h => by
    obtain rfl := List.mem_singleton.mp h
    exact ⟨rfl, rfl⟩
  | _, binary left _ right _, h => by
    rcases List.mem_append.mp h with h | h
    · exact place_of_mem_occurrences left h
    · exact place_of_mem_occurrences right h
  | _, call callee arguments _, h => by
    rcases List.mem_append.mp h with h | h
    · exact place_of_mem_occurrences callee h
    · exact place_of_mem_occurrencesOf arguments h
  | _, member object property _, h => by
    rcases List.mem_append.mp h with h | h
    · exact place_of_mem_occurrences object h
    · exact place_of_mem_occurrences property h
  | _, array elements _, h => place_of_mem_occurrencesOf elements h

/-- The occurrences of some expressions stand where these do. -/
lemma place_of_mem_occurrencesOf {scope standing} {o : Occurrence} :
    ∀ es : List Expr, o ∈ occurrencesOf scope standing es →
      o.scope = scope ∧ o.standing = standing
  | [], h => by cases h
  | e :: rest, h => by
    rcases List.mem_append.mp h with h | h
    · exact place_of_mem_occurrences e h
    · exact place_of_mem_occurrencesOf rest h

end

end Expr

/-- A use is among some uses if its occurrence is among theirs. -/
lemma Mention.used_mem_map {o : Occurrence} {os : List Occurrence} :
    Mention.used o ∈ os.map .used ↔ o ∈ os := by
  simp

/-- An identifier in the first value of a variable stands in the block of the variable. -/
lemma Variable.place_of_mem_mentions {context o} {vs : List Variable}
    (h : .used o ∈ vs.flatMap (Variable.mentions context)) :
    o.scope = context ∧ o.standing = .visited := by
  obtain ⟨v, _, h⟩ := List.mem_flatMap.mp h
  rcases List.mem_append.mp h with h | h
  · replace h := Mention.used_mem_map.mp h
    cases hv : v.init? with
    | none =>
      rw [hv] at h
      cases h
    | some e =>
      rw [hv] at h
      exact e.place_of_mem_occurrences h
  · cases List.mem_singleton.mp h

/-- An identifier in the value of a member stands in the block of the enumeration. -/
lemma Enumeration.place_of_mem_mentions {context o} {e : Enumeration}
    (h : .used o ∈ e.mentions context) : o.scope = context ∧ o.standing = .memberValue := by
  rcases List.mem_cons.mp h with h | h
  · cases h
  · obtain ⟨m, _, h⟩ := List.mem_flatMap.mp (Mention.used_mem_map.mp h)
    cases hv : m.value? with
    | none =>
      rw [hv] at h
      cases h
    | some v =>
      rw [hv] at h
      exact v.place_of_mem_occurrences h

/-- The values of a return stand in the block that the return stands in. -/
lemma Expr.scope_of_mem_returnOccurrences {tree context o} {values : List Expr}
    (h : o ∈ Expr.returnOccurrences tree context values) : o.scope = context := by
  rcases List.mem_append.mp h with h | h
  · exact (Expr.place_of_mem_occurrencesOf _ h).1
  · exact (Expr.place_of_mem_occurrencesOf _ h).1

mutual

/-- An identifier of a statement stands in its block, or in that of a statement inside it. -/
lemma Stmt.scope_of_mem_mentions {tree context o} :
    ∀ s : Stmt, .used o ∈ s.mentions tree context →
      o.scope = context ∨ ∃ t, (o.scope, t) ∈ s.inner
  | .expression e _, h => .inl (e.place_of_mem_occurrences (Mention.used_mem_map.mp h)).1
  | .imports specifiers _, h =>
    .inl (Expr.place_of_mem_occurrencesOf specifiers (Mention.used_mem_map.mp h)).1
  | .variables _ _, h => .inl (Variable.place_of_mem_mentions h).1
  | .conditional test consequent alternate _, h => by
    rw [Stmt.mentions, List.mem_append, List.mem_append] at h
    rcases h with (h | h) | h
    · exact .inl (test.place_of_mem_occurrences (Mention.used_mem_map.mp h)).1
    · obtain ⟨t, ht⟩ := Block.scope_of_mem_mentionsOf consequent h
      exact .inr ⟨t, List.mem_append_left _ ht⟩
    · obtain hc | ⟨t, ht⟩ := Alternate.scope_of_mem_mentions alternate h
      · exact .inl hc
      · exact .inr ⟨t, List.mem_append_right _ ht⟩
  | .function name parameters body _ _, h => by
    rw [Stmt.mentions, List.mem_append, List.mem_cons] at h
    rcases h with (h | h) | h
    · cases h
    · obtain ⟨_, _, h⟩ := List.mem_map.mp h
      cases h
    · exact .inr (Block.scope_of_mem_mentions body h)
  | .returns none _, h => by cases h
  | .returns (some _) _, h =>
    .inl (Expr.scope_of_mem_returnOccurrences (Mention.used_mem_map.mp h))
  | .enumeration _ _, h => .inl (Enumeration.place_of_mem_mentions h).1

/-- An occurrence in statements in a row stands in the block of one of their statements. -/
lemma Stmt.scope_of_mem_mentionsOf {tree context o} :
    ∀ ss : List Stmt, .used o ∈ Stmt.mentionsOf tree context ss →
      ∃ t, (o.scope, t) ∈ Stmt.statementsOf context ss
  | [], h => by cases h
  | s :: rest, h => by
    rcases List.mem_append.mp h with h | h
    · obtain hc | ⟨t, ht⟩ := Stmt.scope_of_mem_mentions s h
      · exact ⟨s, by rw [hc]; exact List.mem_cons_self⟩
      · exact ⟨t, List.mem_append_left _ (List.mem_cons_of_mem _ ht)⟩
    · obtain ⟨t, ht⟩ := Stmt.scope_of_mem_mentionsOf rest h
      exact ⟨t, List.mem_append_right _ ht⟩

/-- An identifier of a block stands in the block of one of its statements. -/
lemma Block.scope_of_mem_mentions {tree o} :
    ∀ b : Block, .used o ∈ b.mentions tree → ∃ t, (o.scope, t) ∈ b.statements
  | .mk _ body _, h => Stmt.scope_of_mem_mentionsOf body h

/-- So does one in a branch that may be missing. -/
lemma Block.scope_of_mem_mentionsOf {tree o} :
    ∀ b : Option Block, .used o ∈ Block.mentionsOf tree b →
      ∃ t, (o.scope, t) ∈ Block.statementsOf b
  | none, h => by cases h
  | some b, h => Block.scope_of_mem_mentions b h

/-- One in further branches may stand in a test, which belongs to the block around. -/
lemma Alternate.scope_of_mem_mentions {tree context o} :
    ∀ a : Alternate, .used o ∈ a.mentions tree context →
      o.scope = context ∨ ∃ t, (o.scope, t) ∈ a.statements
  | .absent, h => by cases h
  | .otherwise block, h => .inr (Block.scope_of_mem_mentions block h)
  | .elseIf test consequent alternate, h => by
    rw [Alternate.mentions, List.mem_append, List.mem_append] at h
    rcases h with (h | h) | h
    · exact .inl (test.place_of_mem_occurrences (Mention.used_mem_map.mp h)).1
    · obtain ⟨t, ht⟩ := Block.scope_of_mem_mentionsOf consequent h
      exact .inr ⟨t, List.mem_append_left _ ht⟩
    · obtain hc | ⟨t, ht⟩ := Alternate.scope_of_mem_mentions alternate h
      · exact .inl hc
      · exact .inr ⟨t, List.mem_append_right _ ht⟩

end

/-! ## Where statements stand -/

mutual

/-- What a statement inside a statement mentions is a part of what that mentions. -/
lemma Stmt.mentions_infix {tree context} {entry : ScopeId × Stmt} :
    ∀ s : Stmt, entry ∈ s.inner → entry.2.mentions tree entry.1 <:+: s.mentions tree context
  | .conditional _ consequent alternate _, h => by
    rw [Stmt.mentions]
    rcases List.mem_append.mp h with h | h
    · exact (Block.mentionsOf_infix consequent h).trans (List.infix_append _ _ _)
    · exact (Alternate.mentions_infix alternate h).trans (List.suffix_append _ _).isInfix
  | .function _ _ body _ _, h => by
    rw [Stmt.mentions]
    exact (Block.mentions_infix body h).trans (List.suffix_append _ _).isInfix

/-- What a statement mentions is mentioned in one piece by the statements around it. -/
lemma Stmt.mentionsOf_infix {tree context} {entry : ScopeId × Stmt} :
    ∀ ss : List Stmt, entry ∈ Stmt.statementsOf context ss →
      entry.2.mentions tree entry.1 <:+: Stmt.mentionsOf tree context ss
  | s :: rest, h => by
    rw [Stmt.mentionsOf]
    rcases List.mem_append.mp h with h | h
    · refine List.IsInfix.trans ?_ (List.prefix_append _ _).isInfix
      rcases List.mem_cons.mp h with rfl | h
      · exact List.infix_rfl
      · exact Stmt.mentions_infix s h
    · exact (Stmt.mentionsOf_infix rest h).trans (List.suffix_append _ _).isInfix

/-- What a statement of a block mentions is a part of what the block mentions. -/
lemma Block.mentions_infix {tree} {entry : ScopeId × Stmt} :
    ∀ b : Block, entry ∈ b.statements → entry.2.mentions tree entry.1 <:+: b.mentions tree
  | .mk _ body _, h => Stmt.mentionsOf_infix body h

/-- So it is by a branch around it. -/
lemma Block.mentionsOf_infix {tree} {entry : ScopeId × Stmt} :
    ∀ b : Option Block, entry ∈ Block.statementsOf b →
      entry.2.mentions tree entry.1 <:+: Block.mentionsOf tree b
  | some b, h => Block.mentions_infix b h

/-- So it is by further branches around it. -/
lemma Alternate.mentions_infix {tree context} {entry : ScopeId × Stmt} :
    ∀ a : Alternate, entry ∈ a.statements →
      entry.2.mentions tree entry.1 <:+: a.mentions tree context
  | .otherwise block, h => Block.mentions_infix block h
  | .elseIf _ consequent alternate, h => by
    rw [Alternate.mentions]
    rcases List.mem_append.mp h with h | h
    · exact (Block.mentionsOf_infix consequent h).trans (List.infix_append _ _ _)
    · exact (Alternate.mentions_infix alternate h).trans (List.suffix_append _ _).isInfix

end

end FrontEnd
