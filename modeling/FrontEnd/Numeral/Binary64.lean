/-!
# Binary64 numbers, counted in least steps

Every finite binary64 number is a whole multiple of the least positive one. The sixty-three bits
below the sign, read as a natural number, are the *magnitude*; `steps` says how many least numbers
a magnitude stands for, and `nearest` finds the magnitude closest to a quotient of such counts. In
these terms the remainder of two numbers is the remainder of two natural numbers.
-/

namespace FrontEnd.Binary64

/-- The least positive number is `2 ^ (-leastExponent)`. -/
def leastExponent : Nat := 1074

/-- The number of bits of a magnitude below its exponent. -/
def fractionBits : Nat := 52

/-- The weight of the lowest bit of the exponent in a magnitude. -/
def exponentUnit : Nat := Nat.pow 2 fractionBits

/-- The weight of the sign bit. -/
def signUnit : Nat := Nat.pow 2 63

/-- The magnitude of infinity; greater ones are not numbers. -/
def infinite : Nat := 2047 * exponentUnit

/-- How many least numbers a finite magnitude stands for. Magnitudes with exponent zero have no
hidden leading bit. -/
def steps (magnitude : Nat) : Nat :=
  let exponent := magnitude / exponentUnit
  let fraction := magnitude % exponentUnit
  if exponent = 0 then fraction else (exponentUnit + fraction) * Nat.pow 2 (exponent - 1)

/-- The whole number closest to a quotient, the even one of two that are equally close. -/
def roundDiv (num den : Nat) : Nat :=
  let q := num / den
  let twice := 2 * (num % den)
  if twice < den ∨ (twice = den ∧ q % 2 = 0) then q else q + 1

/-- The magnitude closest to `num / den` least numbers. Its fraction takes fifty-three leading
bits, or fewer close to zero; a fraction that rounds up to the next power of two carries into the
exponent. -/
def nearest (num den : Nat) : Nat :=
  let exponent := (num / den).log2 - fractionBits
  exponent * exponentUnit + roundDiv num (den * Nat.pow 2 exponent)

/-- Whether the number has its sign bit set. -/
def isNegative (x : Float) : Bool :=
  signUnit ≤ x.toBits.toNat

/-- The bits below the sign. -/
def magnitude (x : Float) : Nat :=
  x.toBits.toNat % signUnit

/-- The number with a given sign and magnitude. -/
def ofMagnitude (negative : Bool) (magnitude : Nat) : Float :=
  Float.ofBits (UInt64.ofNat ((if negative then signUnit else 0) + magnitude))

/-- What is left of `x` after taking away a whole multiple of `y`, exactly and with the sign
of `x`. There is no remainder of an infinite number or by zero, and none is taken away for an
infinite `y`. -/
def remainder (x y : Float) : Float :=
  if infinite ≤ magnitude x ∨ infinite < magnitude y ∨ magnitude y = 0 then 0.0 / 0.0
  else if magnitude y = infinite then x
  else ofMagnitude (isNegative x) (nearest (steps (magnitude x) % steps (magnitude y)) 1)

end FrontEnd.Binary64
