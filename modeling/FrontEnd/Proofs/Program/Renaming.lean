import FrontEnd.Program.Stmt
import Mathlib.Tactic.Common

/-!
# Renamed programs

A program with all its names mapped: those of identifiers, variables, functions, enumerations, their
members and parameters, and those that the scope tree declares. The scopes, places, marks and
literals stay, and so do the slots that functions return. Renaming by an injective function keeps
the answers of the scope tree (`ScopeTree.declared?_rename`).
-/

namespace FrontEnd

variable (f : String → String)

/-! ## Scope trees -/

def Declaration.rename (d : Declaration) : Declaration :=
  { d with name := f d.name }

def Scope.rename (s : Scope) : Scope :=
  { s with symbols := s.symbols.map (Declaration.rename f) }

namespace ScopeTree

def rename (t : ScopeTree) : ScopeTree :=
  ⟨t.scopes.map (Scope.rename f)⟩

/-- The scopes of a renamed tree are the renamed scopes. -/
lemma get?_rename (t : ScopeTree) (s : ScopeId) :
    (t.rename f).get? s = (t.get? s).map (Scope.rename f) :=
  List.getElem?_map

/-- The ways outward have no names in them. -/
lemma chain_rename (t : ScopeTree) (s : ScopeId) : (t.rename f).chain s = t.chain s := by
  unfold chain enclosing
  rw [get?_rename]
  cases t.get? s <;> rfl

/-- Nor have the kinds of scopes. -/
lemma kind?_rename (t : ScopeTree) (s : ScopeId) : (t.rename f).kind? s = t.kind? s := by
  unfold kind?
  rw [get?_rename]
  cases t.get? s <;> rfl

/-- The slots of a function are left as they are. -/
lemma returns_rename (t : ScopeTree) (s : ScopeId) : (t.rename f).returns s = t.returns s := by
  unfold returns
  rw [get?_rename]
  cases t.get? s <;> rfl

/-- The function around a scope is the same. -/
lemma nearest?_rename (t : ScopeTree) (s : ScopeId) (kind : ScopeKind) :
    (t.rename f).nearest? s kind = t.nearest? s kind := by
  unfold nearest?
  simp only [chain_rename, kind?_rename]

variable {f}

/-- A renamed name is declared where the name was. -/
lemma declared?_rename (inj : Function.Injective f) (t : ScopeTree) (s : ScopeId)
    (name : String) :
    (t.rename f).declared? s (f name) = (t.declared? s name).map (Declaration.rename f) := by
  unfold declared?
  rw [get?_rename]
  cases t.get? s with
  | none => rfl
  | some scope =>
    show (scope.symbols.map (Declaration.rename f)).find? _ = (scope.symbols.find? _).map _
    rw [List.find?_map]
    simp only [Function.comp_def, Declaration.rename, inj.eq_iff]

end ScopeTree

/-! ## Expressions -/

def Identifier.rename (i : Identifier) : Identifier :=
  { i with name := f i.name }

def Parameter.rename (p : Parameter) : Parameter :=
  { p with name := f p.name }

namespace Expr

mutual

def rename : Expr → Expr
  | literal l span => literal l span
  | identifier i span => identifier (i.rename f) span
  | parameter p span => parameter (p.rename f) span
  | binary left operator right span => binary left.rename operator right.rename span
  | call callee arguments span => call callee.rename (renameOf arguments) span
  | member object property span => member object.rename property.rename span
  | array elements span => array (renameOf elements) span

def renameOf : List Expr → List Expr
  | [] => []
  | e :: rest => e.rename :: renameOf rest

end

/-- A list of expressions is renamed one by one. -/
lemma renameOf_eq_map (es : List Expr) : renameOf f es = es.map (rename f) := by
  induction es with
  | nil => rfl
  | cons e es ih => rw [renameOf, ih, List.map_cons]

end Expr

/-! ## Statements -/

def Variable.rename (v : Variable) : Variable :=
  { v with name := f v.name, init? := v.init?.map (Expr.rename f) }

def EnumMember.rename (m : EnumMember) : EnumMember :=
  { m with name := f m.name, value? := m.value?.map (Expr.rename f) }

def Enumeration.rename (e : Enumeration) : Enumeration :=
  { e with name := f e.name, members := e.members.map (EnumMember.rename f) }

mutual

def Stmt.rename : Stmt → Stmt
  | .expression e span => .expression (e.rename f) span
  | .imports specifiers span => .imports (Expr.renameOf f specifiers) span
  | .variables declared span => .variables (declared.map (Variable.rename f)) span
  | .conditional test consequent alternate span =>
    .conditional (test.rename f) (Block.renameOf consequent) alternate.rename span
  | .function name parameters body isExported span =>
    .function (f name) (parameters.map (Parameter.rename f)) body.rename isExported span
  | .returns argument span => .returns (argument.map (Expr.renameOf f)) span
  | .enumeration e span => .enumeration (e.rename f) span

def Stmt.renameOf : List Stmt → List Stmt
  | [] => []
  | s :: rest => s.rename :: Stmt.renameOf rest

def Block.rename : Block → Block
  | .mk context body span => .mk context (Stmt.renameOf body) span

def Block.renameOf : Option Block → Option Block
  | none => none
  | some b => some b.rename

def Alternate.rename : Alternate → Alternate
  | .absent => .absent
  | .otherwise block => .otherwise block.rename
  | .elseIf test consequent alternate =>
    .elseIf (test.rename f) (Block.renameOf consequent) alternate.rename

end

namespace Program

/-- The program with all names mapped. -/
def rename (p : Program) : Program :=
  ⟨p.block.rename f, p.scopes.rename f⟩

/-- The outermost block keeps its context. -/
lemma context_rename (p : Program) : (p.rename f).context = p.context := by
  obtain ⟨⟨_, _, _⟩, _⟩ := p
  rfl

end Program

end FrontEnd
