import FrontEnd.Numeral.Binary64

/-!
# Decimal numerals

A numeral is an optional sign, digits with at most one point among them, and an optional exponent.
There is at least one digit before the exponent, and one in it. A numeral stands for the binary64
number closest to it, if that is finite.
-/

namespace FrontEnd

/-- The number `coefficient * 10 ^ exponent`, or its negative. -/
structure Decimal where
  negative : Bool
  coefficient : Nat
  exponent : Int
deriving DecidableEq, Repr

namespace Decimal

/-- The whole number that decimal digits stand for. -/
def ofDigits (digits : List Char) : Nat :=
  digits.foldl (fun n d => 10 * n + (d.toNat - '0'.toNat)) 0

/-- Whether a text begins with a minus, and the text after its sign. -/
def splitSign : List Char → Bool × List Char
  | '-' :: text => (true, text)
  | '+' :: text => (false, text)
  | text => (false, text)

/-- The digits after a point in front of a text, and the text after them. -/
def splitFraction : List Char → List Char × List Char
  | '.' :: text => (text.takeWhile Char.isDigit, text.dropWhile Char.isDigit)
  | text => ([], text)

/-- The exponent that a whole text is; an empty text is the exponent zero. -/
def exponentOf? : List Char → Option Int
  | [] => some 0
  | mark :: text =>
    if mark = 'e' ∨ mark = 'E' then
      let (negative, digits) := splitSign text
      if digits.isEmpty || !digits.all Char.isDigit then none
      else if negative then some (-(ofDigits digits : Int))
      else some (ofDigits digits)
    else none

/-- Reads a numeral. -/
def ofChars? (text : List Char) : Option Decimal :=
  let (negative, text) := splitSign text
  let whole := text.takeWhile Char.isDigit
  let (fraction, text) := splitFraction (text.dropWhile Char.isDigit)
  if whole.isEmpty && fraction.isEmpty then none
  else (exponentOf? text).map fun exponent =>
    ⟨negative, ofDigits (whole ++ fraction), exponent - fraction.length⟩

/-- A magnitude, unless it is infinite. -/
def finite? (magnitude : Nat) : Option Nat :=
  if magnitude < Binary64.infinite then some magnitude else none

/-- The binary64 magnitude closest to a numeral, unless it is infinite. Numerals that are too large
or too close to zero for any binary64 number are settled before their power of ten is formed. -/
def magnitude? (d : Decimal) : Option Nat :=
  if d.coefficient = 0 then some 0
  else
    let scaled := d.coefficient * Nat.pow 2 Binary64.leastExponent
    match d.exponent with
    | .ofNat e =>
      if 400 < e then none else finite? (Binary64.nearest (scaled * Nat.pow 10 e) 1)
    | .negSucc e =>
      if d.coefficient.log2 + 1076 ≤ 3 * (e + 1) then some 0
      else finite? (Binary64.nearest scaled (Nat.pow 10 (e + 1)))

/-- The binary64 number closest to a numeral, unless it is infinite. -/
def toFloat? (d : Decimal) : Option Float :=
  d.magnitude?.map (Binary64.ofMagnitude d.negative)

end Decimal

end FrontEnd
