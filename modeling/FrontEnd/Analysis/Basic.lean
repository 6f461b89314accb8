import FrontEnd.Analysis.Annotate
import FrontEnd.Analysis.Traversal

/-!
# Analysis of a program

A pass traverses the statements of a program in its outermost block, which is neither entered nor
left. It gives back the program with the accesses it found written in, what it did, and either the
analysis or the broken rule that stopped it.
-/

namespace FrontEnd

/-- What a complete pass over a program found. -/
structure Analysis where
  /-- What the pass did, in order. -/
  events : List Event
  /-- The declarations it made. -/
  overlay : Overlay
  /-- The scope it ended in. -/
  finalScope : ScopeId
deriving DecidableEq, Repr

namespace Analysis

/-- The decisions about the uses of names, in the order of the visit. -/
def resolutions (a : Analysis) : List Resolution :=
  a.events.filterMap Event.resolution?

/-- The decisions about the uses of one name. -/
def resolutionsOf (a : Analysis) (name : String) : List Resolution :=
  a.resolutions.filter fun r => r.name = name

/-- The notes, in the order of the visit. -/
def notes (a : Analysis) : List Note :=
  a.events.filterMap Event.note?

/-- How many scopes were entered. -/
def pushes (a : Analysis) : Nat :=
  a.events.countP Event.isEntered

/-- How many scopes were left. -/
def pops (a : Analysis) : Nat :=
  a.events.countP Event.isLeft

/-- The declaration that the pass made of a name in a scope. -/
def declaration? (a : Analysis) (s : ScopeId) (name : String) : Option Declaration :=
  a.overlay.find? s name

/-- The closing line of the log. -/
def summary (a : Analysis) : Log.Entry :=
  ⟨.debug, s!"analyzed {a.resolutions.length} references, {a.notes.length} notes, " ++
    s!"{a.pushes} scopes entered"⟩

end Analysis

/-- A pass over a program. -/
structure Pass where
  /-- The program, with the accesses that the pass found. -/
  program : Program
  /-- What the pass did, in order. -/
  events : List Event
  /-- The analysis, or the broken rule. -/
  result : Except Violation Analysis

/-- The log of a pass. Only a complete pass has a closing line. -/
def Pass.log (pass : Pass) : List Log.Entry :=
  pass.events.map Event.entry ++
    match pass.result with
    | .ok a => [a.summary]
    | .error _ => []

namespace Program

/-- Where a pass begins. -/
def start (p : Program) : Position :=
  ⟨p.context, [], .empty⟩

/-- What the passes over a program go by. -/
def setting (p : Program) (lex : Lexicon) (policy : Policy) : Setting :=
  ⟨lex, policy, p.scopes⟩

/-- Traverses the statements of a program. -/
def traverse (p : Program) (lex : Lexicon) (policy : Policy) : Run :=
  Stmt.traverseAll (p.setting lex policy) p.start p.block.body

/-- A pass over a program under a policy, with the operators of a lexicon. -/
def analyze (p : Program) (lex : Lexicon) (policy : Policy) : Pass :=
  let r := p.traverse lex policy
  let resolved := r.events.filterMap Event.resolution?
  { program := p.annotate (resolved.map Resolution.access)
    events := r.events
    result :=
      match r.violation? with
      | some v => .error v
      | none => .ok ⟨r.events, r.position.overlay, r.position.scope⟩ }

end Program

/-- The spelling of an expression that is a name or a literal, as seen from a scope of a tree. Other
expressions have no single spelling. -/
def Expr.render? (tree : ScopeTree) (policy : Policy) (s : ScopeId) :
    Expr → Except Violation (Option String)
  | .identifier i span =>
    match policy.resolve ⟨i.name, i.isPointer, false, span⟩ (tree.lookup? s i.name) with
    | .error v => .error v
    | .ok access => .ok (some (access.render i.name))
  | .literal l _ => .ok (some l.value)
  | .parameter p _ => .ok (some p.name)
  | _ => .ok none

end FrontEnd
