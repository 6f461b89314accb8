import FrontEnd.Lexicon.Basic
import FrontEnd.Numeral.Binary64
import FrontEnd.Program.Expr

/-!
# Operators

The operators that an expression may use, their way back from a token kind, and the value of an
operator between two numbers.
-/

namespace FrontEnd

/-- An operator of a binary expression. -/
inductive Operator where
  | times
  | divide
  | plus
  | minus
  | greater
  | less
  | assign
  | modulo
  | equal
  | member
deriving DecidableEq, Repr

/-- What `%` between two numbers means. -/
inductive ModuloRule where
  /-- Whether the left number is less than the right one. -/
  | comparison
  /-- The remainder of the left number by the right one. -/
  | remainder
deriving DecidableEq, Repr, Inhabited

/-- The value of a binary expression over numbers. -/
inductive Folded where
  | number (value : Float)
  | bool (value : Bool)
deriving Repr

namespace Operator

def symbol : Operator → String
  | times => "*"
  | divide => "/"
  | plus => "+"
  | minus => "-"
  | greater => ">"
  | less => "<"
  | assign => "="
  | modulo => "%"
  | equal => "=="
  | member => "."

/-- All operators, in the order in which a kind is tried against them. -/
def all : List Operator :=
  [times, divide, plus, minus, greater, less, assign, modulo, equal, member]

/-- The operator that is written so. -/
def ofSymbol? (s : String) : Option Operator :=
  all.find? fun o => o.symbol = s

/-- The value of an operator between two numbers. Assignment and member access have none. -/
def fold? (rule : ModuloRule) (x y : Float) : Operator → Option Folded
  | times => some (.number (x * y))
  | divide => some (.number (x / y))
  | plus => some (.number (x + y))
  | minus => some (.number (x - y))
  | greater => some (.bool (x > y))
  | less => some (.bool (x < y))
  | equal => some (.bool (x == y))
  | modulo =>
    match rule with
    | .comparison => some (.bool (x < y))
    | .remainder => some (.number (Binary64.remainder x y))
  | assign | member => none

/-- The value of an operator, given by its symbol, between two numbers. -/
def foldSymbol? (rule : ModuloRule) (x y : Float) (symbol : String) : Option Folded :=
  (ofSymbol? symbol).bind (·.fold? rule x y)

/-- Every operator is listed. -/
theorem mem_all (o : Operator) : o ∈ all := by
  cases o <;> decide

end Operator

namespace Lexicon

/-- The first operator whose symbol has a kind. -/
def operatorOf? (lex : Lexicon) (kind : TokenKind) : Option Operator :=
  Operator.all.find? fun o => lex.kindOf o.symbol = some kind

/-- The value of a binary expression between two number literals. -/
def foldExpr? (lex : Lexicon) (rule : ModuloRule) : Expr → Option Folded
  | .binary (.literal left _) kind (.literal right _) _ => do
    let operator ← lex.operatorOf? kind
    let x ← left.number?
    let y ← right.number?
    operator.fold? rule x y
  | _ => none

/-- A kind is of no operator exactly if no operator's symbol has it. -/
theorem operatorOf?_eq_none_iff (lex : Lexicon) (kind : TokenKind) :
    lex.operatorOf? kind = none ↔ ∀ o : Operator, lex.kindOf o.symbol ≠ some kind := by
  simp only [operatorOf?, List.find?_eq_none, decide_eq_true_eq]
  exact ⟨fun h o => h o o.mem_all, fun h o _ => h o⟩

end Lexicon

end FrontEnd
