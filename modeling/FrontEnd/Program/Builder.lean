import FrontEnd.Fault
import FrontEnd.Program.Stmt
import FrontEnd.Token.Basic

/-!
# Builders

A builder reads a token list as a program. There are two simple ones here, which both go by the
identifiers alone.
-/

namespace FrontEnd

/-- Why tokens are no program. -/
inductive BuildError where
  | functionExpected
  | parameterExpected (span : Span)
deriving DecidableEq, Repr

namespace BuildError

def message : BuildError → String
  | functionExpected => "expected a function"
  | parameterExpected _ => "expected a parameter"

/-- The place of a build error; an empty source is at fault at its beginning. -/
def span : BuildError → Span
  | functionExpected => .origin
  | parameterExpected span => span

def fault (e : BuildError) : Fault :=
  .syntactic e.message e.span

end BuildError

/-- The use of a name that a token is, as a statement. -/
def Stmt.ofToken (t : Token) : Stmt :=
  .expression (.ofName t.value t.span) t.span

/-- A way to read tokens as a program, or to find them at fault. -/
structure Builder where
  build : List Token → Except Fault Program

namespace Builder

/-- The program whose statements are the given names. -/
def flatProgram (names : List Token) : Program :=
  ⟨.mk .root (names.map Stmt.ofToken) .origin, .empty⟩

/-- The program of one function, with one parameter, that uses the parameter and then other
names. -/
def functionProgram (function parameter : Token) (names : List Token) : Program :=
  let (context, scopes) := ScopeTree.empty.openFunction .root []
  let body := .mk context ((parameter :: names).map Stmt.ofToken) .origin
  let parameters := [⟨parameter.value, true, false, parameter.span⟩]
  ⟨.mk .root [.function function.value parameters body false function.span] .origin, scopes⟩

/-- Every identifier is a statement of the outermost block. -/
def flat : Builder :=
  ⟨fun tokens => .ok (flatProgram (tokens.filter Token.isIdentifier))⟩

/-- The program of one function that some names are, the first of them its name and the second its
parameter. -/
def functionOf : List Token → Except BuildError Program
  | [] => .error .functionExpected
  | [function] => .error (.parameterExpected function.span)
  | function :: parameter :: names => .ok (functionProgram function parameter names)

/-- The first identifier is a function, the second its only parameter, a reference, and its body
uses the second and all later ones. -/
def oneFunction : Builder :=
  ⟨fun tokens => (functionOf (tokens.filter Token.isIdentifier)).mapError BuildError.fault⟩

end Builder

end FrontEnd
