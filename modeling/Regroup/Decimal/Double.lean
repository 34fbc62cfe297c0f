/-!
Finite binary floating-point numbers of 64 bits, as a sign and an integer multiple of a power of
two, and the nearest such number to a decimal.
-/

namespace Regroup

/-- The number `mantissa * 2 ^ exponent`, with a sign. The mantissa has 53 bits, or fewer at the
smallest exponent. -/
structure Double where
  negative : Bool
  mantissa : Nat
  exponent : Int
  deriving DecidableEq, Repr, Inhabited

namespace Double

def minExponent : Int := -1074

def maxExponent : Int := 971

def zero (negative : Bool) : Double := ⟨negative, 0, minExponent⟩

def isZero (d : Double) : Bool := d.mantissa == 0

/-- Equality of the numbers: the two zeros are one. -/
def equals (a b : Double) : Bool := a == b || (a.isZero && b.isZero)

/-- The quotient rounded to the nearest integer, a half to the even one. -/
def roundQuotient (num den : Nat) : Nat :=
  let q := num / den
  let twice := 2 * (num % den)
  if twice < den || (twice == den && q % 2 == 0) then q else q + 1

/-- A positive quotient as the fraction that is left after dividing by `2 ^ e`. -/
def scaled (num den : Nat) (e : Int) : Nat × Nat :=
  if e < 0 then (num * Nat.pow 2 (-e).toNat, den) else (num, den * Nat.pow 2 e.toNat)

/-- The exponent at which the integer part of a positive quotient has 53 bits, or the smallest. -/
def exponentOf (num den : Nat) : Int :=
  let e : Int := (Nat.log2 num : Int) - Nat.log2 den - 53
  let (n, d) := scaled num den e
  max minExponent (if n / d < Nat.pow 2 53 then e else e + 1)

/-- The nearest number to a positive quotient, none when it is too large. -/
def ofQuotient? (negative : Bool) (num den : Nat) : Option Double :=
  let e := exponentOf num den
  let (n, d) := scaled num den e
  let m := roundQuotient n d
  let (m, e) := if m == Nat.pow 2 53 then (Nat.pow 2 52, e + 1) else (m, e)
  if maxExponent < e then none else some ⟨negative, m, e⟩

/-- The nearest number to `digits * 10 ^ shift`, none when it is too large. Far outside of the range
the power of ten is not computed. -/
def ofDecimal? (negative : Bool) (digits : Nat) (shift : Int) : Option Double :=
  if digits = 0 then some (zero negative)
  else
    let magnitude : Int := (Nat.toDigits 10 digits).length + shift
    if 320 < magnitude then none
    else if magnitude < -340 then some (zero negative)
    else if shift < 0 then ofQuotient? negative digits (Nat.pow 10 (-shift).toNat)
    else ofQuotient? negative (digits * Nat.pow 10 shift.toNat) 1

end Double

end Regroup
