import FrontEnd.Access
import FrontEnd.Numeral.Decimal
import FrontEnd.Span
import FrontEnd.Token.Kind

/-!
# Expressions

Expressions with their places in the source. Identifiers carry the access that an analysis found
for them, or none if none has.
-/

namespace FrontEnd

/-- What a literal is written as. -/
inductive LiteralKind where
  | number
  | string
  | boolean
  | null
deriving DecidableEq, Repr

/-- A literal with its source text. -/
structure Literal where
  kind : LiteralKind
  value : String
deriving DecidableEq, Repr

/-- The number that a literal stands for: it is a number literal, reads as a numeral, and its
number is finite. -/
def Literal.number? (l : Literal) : Option Float :=
  if l.kind = .number then (Decimal.ofChars? l.value.toList).bind Decimal.toFloat? else none

/-- Whether a literal stands for a number. -/
def Literal.isNumeric (l : Literal) : Bool :=
  l.number?.isSome

/-- A use of a name. -/
structure Identifier where
  name : String
  /-- The use is marked as a pointer. -/
  isPointer : Bool
  /-- How the use reaches its value, once an analysis has found out. -/
  access : Option Access
deriving DecidableEq, Repr

/-- A parameter of a function. -/
structure Parameter where
  name : String
  isReference : Bool
  isPointer : Bool
  span : Span
deriving DecidableEq, Repr

/-- An expression. -/
inductive Expr where
  | literal (l : Literal) (span : Span)
  | identifier (i : Identifier) (span : Span)
  /-- A parameter that stands where a value is expected. -/
  | parameter (p : Parameter) (span : Span)
  | binary (left : Expr) (operator : TokenKind) (right : Expr) (span : Span)
  | call (callee : Expr) (arguments : List Expr) (span : Span)
  | member (object property : Expr) (span : Span)
  | array (elements : List Expr) (span : Span)
deriving Repr

namespace Expr

/-- The place of an expression. -/
def span : Expr → Span
  | literal _ s | identifier _ s | parameter _ s | binary _ _ _ s | call _ _ s | member _ _ s
  | array _ s => s

/-- A binary expression that covers its operands. -/
def ofBinary (left : Expr) (operator : TokenKind) (right : Expr) : Expr :=
  binary left operator right (left.span.hull right.span)

/-- A member expression that covers its object and its property. -/
def ofMember (object property : Expr) : Expr :=
  member object property (object.span.hull property.span)

/-- A use of a name that no analysis has seen. -/
def ofName (name : String) (span : Span) : Expr :=
  identifier ⟨name, false, none⟩ span

mutual

/-- All identifiers of an expression, from left to right. -/
def identifiers : Expr → List Identifier
  | literal _ _ | parameter _ _ => []
  | identifier i _ => [i]
  | binary left _ right _ => left.identifiers ++ right.identifiers
  | call callee arguments _ => callee.identifiers ++ identifiersOf arguments
  | member object property _ => object.identifiers ++ property.identifiers
  | array elements _ => identifiersOf elements

/-- All identifiers of some expressions, from left to right. -/
def identifiersOf : List Expr → List Identifier
  | [] => []
  | e :: rest => e.identifiers ++ identifiersOf rest

end

end Expr

end FrontEnd
