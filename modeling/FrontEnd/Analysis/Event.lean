import FrontEnd.Analysis.Step
import FrontEnd.Log

/-!
# Events of an analysis

What an analysis did, in order. The events are the whole record of a pass: the resolutions, the
notes and the log are read off from them.
-/

namespace FrontEnd

/-- What an analysis decided about a use of a name. -/
structure Resolution where
  name : String
  access : Access
  isMember : Bool
  span : Span
deriving DecidableEq, Repr

/-- The spelling of the use. -/
def Resolution.rendered (r : Resolution) : String :=
  r.access.render r.name

/-- Something odd that an analysis passes over. -/
inductive Note where
  | unknownOperator (kind : TokenKind) (span : Span)
  | importLiteral (value : String) (span : Span)
deriving DecidableEq, Repr

def Note.text : Note → String
  | unknownOperator kind _ => s!"unknown operand {kind.name}"
  | importLiteral value _ => s!"import of literal {value}"

/-- One thing that an analysis did. -/
inductive Event where
  /-- It went into a scope from another. -/
  | entered (scope origin : ScopeId)
  /-- It went out of a scope, back to another. -/
  | left (scope target : ScopeId)
  /-- It declared a name. -/
  | bound (d : Declaration) (scope : ScopeId)
  /-- The name it declared had a declaration by this analysis, which is replaced. -/
  | redeclared (name : String) (scope : ScopeId)
  /-- It left a name alone that the scope declares itself. -/
  | kept (name : String) (scope : ScopeId)
  /-- It decided about a use of a name. -/
  | resolved (r : Resolution) (scope : ScopeId)
  | noted (n : Note)
  | remarked (r : Remark)
deriving DecidableEq, Repr

namespace Event

/-- The resolution that an event is. -/
def resolution? : Event → Option Resolution
  | resolved r _ => some r
  | _ => none

/-- The note that an event is. -/
def note? : Event → Option Note
  | noted n => some n
  | _ => none

def isEntered : Event → Bool
  | entered _ _ => true
  | _ => false

def isLeft : Event → Bool
  | left _ _ => true
  | _ => false

end Event

/-- The log line about a remark. -/
def Remark.entry : Remark → Log.Entry
  | exportedFunction name => ⟨.debug, s!"exported function '{name}'"⟩
  | exportedEnumeration name => ⟨.debug, s!"exported enum '{name}'"⟩
  | returnSlot index => ⟨.trace, s!"return slot {index}"⟩
  | enumerationSize name members => ⟨.trace, s!"enum '{name}' with {members} members"⟩

/-- The log line about a note. -/
def Note.entry : Note → Log.Entry
  | unknownOperator kind _ => ⟨.error, s!"unknown operand: {kind.name}"⟩
  | importLiteral value _ => ⟨.info, s!"import literal {value}"⟩

/-- The log line about an event. -/
def Event.entry : Event → Log.Entry
  | entered scope origin => ⟨.trace, s!"enter {scope.text} from {origin.text}"⟩
  | left scope target => ⟨.trace, s!"leave {scope.text} to {target.text}"⟩
  | bound d scope => ⟨.trace, s!"bind '{d.name}' ({d.kind.name}) in {scope.text}"⟩
  | redeclared name scope => ⟨.trace, s!"'{name}' redeclared in {scope.text}"⟩
  | kept name scope => ⟨.trace, s!"'{name}' already declared in {scope.text}, keeping it"⟩
  | resolved r scope =>
    ⟨.trace, s!"'{r.name}' -> '{r.rendered}' ({r.access.name}) in {scope.text}"⟩
  | noted n => n.entry
  | remarked r => r.entry

end FrontEnd
