import FrontEnd.Analysis.Event
import FrontEnd.Operator

/-!
# Traversals

How a program is visited. A traversal stands in a scope, remembers the scopes it came through, and
collects the declarations it meets in an overlay over the scope tree, which it only reads. A block
is entered, traversed and left. Under the strict policy the traversal stops at the first broken
rule, wherever that is, but every block on the way out of it is still left.
-/

namespace FrontEnd

/-- Whether broken rules count. -/
inductive Policy where
  /-- Names without a declaration stay as they are, and returns and enumerations are not
  checked. -/
  | permissive
  /-- A broken rule ends the analysis. -/
  | strict
deriving DecidableEq, Repr, Inhabited

/-- Declarations made by an analysis, each with its scope, one for a scope and a name. -/
structure Overlay where
  entries : List (ScopeId × Declaration)
deriving DecidableEq, Repr

namespace Overlay

def empty : Overlay := ⟨[]⟩

/-- Whether an entry declares a name in a scope. -/
def declares (s : ScopeId) (name : String) (entry : ScopeId × Declaration) : Bool :=
  entry.1 = s && entry.2.name = name

/-- The declaration of a name in a scope. -/
def find? (o : Overlay) (s : ScopeId) (name : String) : Option Declaration :=
  (o.entries.find? (declares s name)).map Prod.snd

/-- Declares a name in a scope, in place of an earlier declaration of it there. -/
def insert (o : Overlay) (s : ScopeId) (d : Declaration) : Overlay :=
  ⟨(s, d) :: o.entries.filter fun entry => !declares s d.name entry⟩

/-- Entries go by scope, and within a scope by name. -/
def entryLE (a b : ScopeId × Declaration) : Bool :=
  a.1.index < b.1.index || (a.1.index == b.1.index && !(b.2.name < a.2.name))

/-- All declarations, by scope and then by name. -/
def sorted (o : Overlay) : List (ScopeId × Declaration) :=
  o.entries.mergeSort entryLE

/-- A declaration is found under its scope and name, and nothing else changes. -/
theorem find?_insert (o : Overlay) (s : ScopeId) (d : Declaration) (r : ScopeId)
    (name : String) :
    (o.insert s d).find? r name = if r = s ∧ name = d.name then some d else o.find? r name := by
  unfold insert find?
  by_cases h : r = s ∧ name = d.name
  · obtain ⟨rfl, rfl⟩ := h
    simp [declares]
  · have hhead : declares r name (s, d) = false := by
      simp only [declares, Bool.and_eq_false_iff, decide_eq_false_iff_not]
      by_cases hs : s = r
      · exact .inr fun e => h ⟨hs.symm, e.symm⟩
      · exact .inl hs
    rw [if_neg h, List.find?_cons_of_neg (by simp [hhead]), List.find?_filter]
    congr 2
    funext entry
    by_cases he : declares r name entry
    · have : declares s d.name entry = false := by
        simp only [declares, Bool.and_eq_true, decide_eq_true_eq] at he
        simp only [declares, Bool.and_eq_false_iff, decide_eq_false_iff_not]
        by_cases hs : entry.1 = s
        · exact .inr fun e => h ⟨he.1 ▸ hs, he.2 ▸ e⟩
        · exact .inl hs
      simp [he, this]
    · simp [he]

end Overlay

/-- Where a traversal stands: its scope, the scopes to go back to, and its declarations. -/
structure Position where
  scope : ScopeId
  saved : List ScopeId
  overlay : Overlay
deriving DecidableEq, Repr

namespace Position

/-- The declaration of a name in a scope itself. The scope tree comes before the overlay. -/
def declared? (p : Position) (tree : ScopeTree) (s : ScopeId) (name : String) :
    Option Declaration :=
  (tree.declared? s name).or (p.overlay.find? s name)

/-- The innermost declaration of a name on the way outward. -/
def lookup? (p : Position) (tree : ScopeTree) (name : String) : Option Declaration :=
  (tree.chain p.scope).findSome? (p.declared? tree · name)

/-- Goes into a scope. -/
def enter (p : Position) (s : ScopeId) : Position :=
  { p with scope := s, saved := p.scope :: p.saved }

/-- Declares a name in the current scope, unless the scope tree declares it there. -/
def declare (p : Position) (tree : ScopeTree) (d : Declaration) : Position × List Event :=
  match tree.declared? p.scope d.name with
  | some _ => (p, [.kept d.name p.scope])
  | none =>
    let again :=
      if (p.overlay.find? p.scope d.name).isSome then [.redeclared d.name p.scope] else []
    ({ p with overlay := p.overlay.insert p.scope d }, .bound d p.scope :: again)

/-- Goes out of the current scope, back to the one that it was entered from. -/
def leave (p : Position) : Position × List Event :=
  match p.saved with
  | [] => (p, [])
  | target :: saved => ({ p with scope := target, saved }, [.left p.scope target])

end Position

/-- The access of a use by the declaration it sees. Under the strict policy it must see one. -/
def Policy.resolve (policy : Policy) (u : Use) (d : Option Declaration) :
    Except Violation Access :=
  let access := Access.classify u.asPointer d
  if access = .unresolved ∧ policy = .strict then .error ⟨.undefinedIdentifier u.name, u.span⟩
  else .ok access

/-- What a traversal goes by: the operators, the policy, and the scopes of the program. -/
structure Setting where
  lexicon : Lexicon
  policy : Policy
  tree : ScopeTree

/-- Performs a step, or stops at the rule that it breaks. -/
def Step.perform (env : Setting) (p : Position) : Step → Except Violation (Position × List Event)
  | enter s => .ok (p.enter s, [.entered s p.scope])
  | leave => .ok p.leave
  | declare d => .ok (p.declare env.tree d)
  | use u =>
    match env.policy.resolve u (p.lookup? env.tree u.name) with
    | .error v => .error v
    | .ok access => .ok (p, [.resolved ⟨u.name, access, u.isMember, u.span⟩ p.scope])
  | operate kind span =>
    if (env.lexicon.operatorOf? kind).isSome then .ok (p, [])
    else .ok (p, [.noted (.unknownOperator kind span)])
  | importLiteral value span => .ok (p, [.noted (.importLiteral value span)])
  | violate v =>
    match env.policy with
    | .permissive => .ok (p, [])
    | .strict => .error v
  | remark r => .ok (p, [.remarked r])

/-- How far a traversal came: where it stands, what it did, and the rule that stopped it. -/
structure Run where
  position : Position
  events : List Event
  violation? : Option Violation
deriving DecidableEq, Repr

namespace Run

/-- Goes on from where a traversal stands, unless a broken rule has stopped it. -/
def andThen (r : Run) (next : Position → Run) : Run :=
  match r.violation? with
  | some _ => r
  | none =>
    let later := next r.position
    { later with events := r.events ++ later.events }

/-- Leaves the scope that a traversal stands in, whether a broken rule has stopped it or not. -/
def leave (r : Run) : Run :=
  let (position, events) := r.position.leave
  { r with position, events := r.events ++ events }

end Run

/-- Performs steps until one breaks a rule. -/
def Setting.run (env : Setting) (p : Position) : List Step → Run
  | [] => ⟨p, [], none⟩
  | step :: rest =>
    match step.perform env p with
    | .error v => ⟨p, [], some v⟩
    | .ok (q, events) =>
      let later := env.run q rest
      { later with events := events ++ later.events }

mutual

/-- Traverses a statement from a position. The function that a return belongs to is the one around
the scope that the traversal stands in. -/
def Stmt.traverse (env : Setting) (p : Position) : Stmt → Run
  | .expression e _ => env.run p (e.steps false)
  | .imports specifiers _ => env.run p (specifiers.flatMap Expr.importSteps)
  | .variables declared _ => env.run p (declared.flatMap Variable.steps)
  | .conditional test consequent alternate _ =>
    ((env.run p (test.steps false)).andThen fun q => Block.traverseOption env q consequent).andThen
      fun q => alternate.traverse env q
  | .function name parameters body isExported _ =>
    let exported := if isExported then [.remark (.exportedFunction name)] else []
    (env.run p (exported ++ [.declare (.ofFunction name)])).andThen fun q =>
      body.traverse env q (parameters.map fun p => .declare p.declaration)
  | .returns none _ => ⟨p, [], none⟩
  | .returns (some values) span => env.run p (Expr.returnSteps env.tree p.scope values span)
  | .enumeration e _ => env.run p e.steps

/-- Traverses statements, one after the other. -/
def Stmt.traverseAll (env : Setting) (p : Position) : List Stmt → Run
  | [] => ⟨p, [], none⟩
  | s :: rest => (s.traverse env p).andThen fun q => Stmt.traverseAll env q rest

/-- Traverses a block in its scope, after some steps that come first in it. The scope is left on
every path. -/
def Block.traverse (env : Setting) (p : Position) : Block → (first : List Step) → Run
  | .mk context body _, first =>
    ((env.run p (.enter context :: first)).andThen fun q => Stmt.traverseAll env q body).leave

/-- Traverses a branch that may be missing. -/
def Block.traverseOption (env : Setting) (p : Position) : Option Block → Run
  | none => ⟨p, [], none⟩
  | some b => b.traverse env p []

/-- Traverses what follows the first branch. A further test belongs to the block around. -/
def Alternate.traverse (env : Setting) (p : Position) : Alternate → Run
  | .absent => ⟨p, [], none⟩
  | .otherwise block => block.traverse env p []
  | .elseIf test consequent alternate =>
    ((env.run p (test.steps false)).andThen fun q => Block.traverseOption env q consequent).andThen
      fun q => alternate.traverse env q

end

end FrontEnd
