import Regroup.Decimal.Double

/-!
The shortest decimal that reads back as a given number: of the decimals with the fewest digits in
the interval that rounds to the number, the one nearest to it.
-/

namespace Regroup.Double

/-- A positive interval around a number, in units of a fraction: the number, the ends, and whether
the ends belong to it. All four are numerators over one denominator. -/
structure Interval where
  low : Nat
  value : Nat
  high : Nat
  closed : Bool
  den : Nat
  deriving Repr

/-- What rounds to a number: half way to both neighbours, of which the lower is nearer at a power of
two. The ends round to the number when its mantissa is even. -/
def interval (d : Double) : Interval :=
  let m := d.mantissa
  let narrow := m == Nat.pow 2 52 && minExponent < d.exponent
  let quarter := d.exponent - 2
  let (unit, den) := scaled 1 1 (-quarter)
  { low := (if narrow then 4 * m - 1 else 4 * m - 2) * unit
    value := 4 * m * unit
    high := (4 * m + 2) * unit
    closed := m % 2 == 0
    den }

/-- The interval contains `num / den` of the same denominator. -/
def Interval.contains (i : Interval) (n : Nat) : Bool :=
  if i.closed then i.low ≤ n && n ≤ i.high else i.low < n && n < i.high

/-- The interval with all numbers divided by `10 ^ p`. -/
def Interval.divPow10 (i : Interval) (p : Int) : Interval :=
  if p < 0 then
    let k := Nat.pow 10 (-p).toNat
    { i with low := i.low * k, value := i.value * k, high := i.high * k }
  else { i with den := i.den * Nat.pow 10 p.toNat }

/-- How often a proper fraction must be multiplied by ten to reach one. -/
def leadingZeros (num den : Nat) : Nat → Nat
  | 0 => 0
  | fuel + 1 => if den ≤ num then 0 else leadingZeros (num * 10) den fuel + 1

/-- The exponent of the first decimal digit of a positive quotient. -/
def decimalExponent (num den : Nat) : Int :=
  if den ≤ num then (Nat.toDigits 10 (num / den)).length - 1
  else -(leadingZeros num den 400 : Int)

/-- The nearer of the two neighbours of a number on a decimal grid, if it lies in the interval. -/
def gridPoint? (i : Interval) : Option Nat :=
  let below := i.value / i.den
  let above := below + 1
  let hitBelow := i.contains (below * i.den)
  let hitAbove := i.contains (above * i.den)
  let restBelow := i.value - below * i.den
  let restAbove := above * i.den - i.value
  match hitBelow, hitAbove with
  | true, true =>
    if restBelow < restAbove || (restBelow == restAbove && below % 2 == 0) then some below
    else some above
  | true, false => some below
  | false, true => some above
  | false, false => none

/-- The digits as a number and the power of ten of the last one, trying grids of growing fineness. -/
def shortestFrom (i : Interval) (exponent : Int) : Nat → Nat × Int
  | 0 => (i.value / i.den, 0)
  | fuel + 1 =>
    let p := exponent - (16 - fuel : Nat)
    match gridPoint? (i.divPow10 p) with
    | some n => (n, p)
    | none => shortestFrom i exponent fuel

/-- Moves trailing zeros from the digits to the power of ten. -/
def trimZeros (n : Nat) (p : Int) : Nat → Nat × Int
  | 0 => (n, p)
  | fuel + 1 => if n % 10 == 0 && n != 0 then trimZeros (n / 10) (p + 1) fuel else (n, p)

/-- The digits and the power of ten of the last digit. -/
def shortest (d : Double) : Nat × Int :=
  if d.isZero then (0, 0)
  else
    let i := d.interval
    let (n, p) := shortestFrom i (decimalExponent i.value i.den) 17
    trimZeros n p 20

/-- How a format writes floating-point numbers. -/
structure TextFormat where
  /-- The exponents of the first digit that are written without an exponent: from here … -/
  positionalFrom : Int
  /-- … and below here. -/
  positionalBelow : Int
  deriving DecidableEq, Repr

/-- Numbers in configuration texts: positional from 1e-5 to below 1e16, always with a fraction;
otherwise with a signed exponent. -/
def configFormat : TextFormat := ⟨-5, 16⟩

def zeros (n : Nat) : String := String.ofList (List.replicate n '0')

def unsignedText (f : TextFormat) (n : Nat) (p : Int) : String :=
  let digits := Nat.toDigits 10 n
  let first : Int := p + digits.length - 1
  if n = 0 then "0.0"
  else if f.positionalFrom ≤ first ∧ first < f.positionalBelow then
    if 0 ≤ p then String.ofList digits ++ zeros p.toNat ++ ".0"
    else if 0 ≤ first then
      let whole := first.toNat + 1
      String.ofList (digits.take whole) ++ "." ++ String.ofList (digits.drop whole)
    else "0." ++ zeros ((-first).toNat - 1) ++ String.ofList digits
  else
    let rest := digits.drop 1
    let fraction := if rest.isEmpty then "" else "." ++ String.ofList rest
    let sign := if first < 0 then "-" else "+"
    String.ofList (digits.take 1) ++ fraction ++ "e" ++ sign ++ toString first.natAbs

def text (f : TextFormat) (d : Double) : String :=
  let (n, p) := d.shortest
  (if d.negative then "-" else "") ++ unsignedText f n p

end Regroup.Double
