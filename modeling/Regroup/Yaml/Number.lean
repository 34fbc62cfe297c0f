import Regroup.Decimal.Double
import Regroup.Word

/-!
Plain words that are numbers. Integers are decimal, or hexadecimal, octal or binary after a prefix;
anything else with a digit may be a floating-point number.
-/

namespace Regroup.Yaml

inductive Number where
  | int (n : Int)
  | float (d : Double)
  | infinity (negative : Bool)
  | nan
  deriving DecidableEq, Repr, Inhabited

/-- Equality of the numbers. An integer equals no floating-point number. -/
def Number.equals : Number → Number → Bool
  | .float a, .float b => a.equals b
  | a, b => a == b

namespace Number

/-- The value of a digit, of any base up to sixteen. -/
def digit? (base : Nat) (c : Char) : Option Nat :=
  let n := c.toNat
  let d :=
    if 48 ≤ n && n ≤ 57 then n - 48
    else if 97 ≤ n && n ≤ 102 then n - 87
    else if 65 ≤ n && n ≤ 70 then n - 55
    else base
  if d < base then some d else none

/-- A number from at least one digit. -/
def digits? (base : Nat) (cs : List Char) : Option Nat :=
  if cs.isEmpty then none else cs.foldlM (fun n c => (digit? base c).map (n * base + ·)) 0

/-- Drops a leading part of a list of characters. -/
def dropStart? (start : String) (cs : List Char) : Option (List Char) :=
  if start.toList.isPrefixOf cs then some (cs.drop start.length) else none

/-- A plus sign is dropped. -/
def dropPlus (cs : List Char) : List Char :=
  match cs with
  | '+' :: rest => rest
  | _ => cs

def dropSign (cs : List Char) : List Char :=
  match cs with
  | '+' :: rest => rest
  | '-' :: rest => rest
  | _ => cs

/-- Digits after a zero, with or without a sign, are text. -/
def isPaddedDigits (cs : List Char) : Bool :=
  let ds := dropSign cs
  ds.length > 1 && ds.head? == some '0' && ds.all fun c => (digit? 10 c).isSome

/-- The digits after a sign and the sign of a base. -/
def basedDigits? (sign : String) (cs : List Char) : Option Nat :=
  let withBase (mark : String) (base : Nat) : Option Nat :=
    (dropStart? (sign ++ mark) cs).bind (digits? base)
  withBase "0x" 16 <|> withBase "0o" 8 <|> withBase "0b" 2

/-- An integer that is not negative. -/
def unsigned? (cs : List Char) : Option Nat :=
  let bare := dropPlus cs
  basedDigits? "" bare <|> if isPaddedDigits cs then none else digits? 10 bare

/-- A negative integer, or zero with a minus sign. -/
def negative? (cs : List Char) : Option Nat :=
  basedDigits? "-" cs <|>
    if isPaddedDigits cs then none else (dropStart? "-" cs).bind (digits? 10)

/-- Whether a word is an integer, and one that can be kept. -/
inductive IntegerWord where
  | none
  | tooLarge
  | some (n : Int)
  deriving DecidableEq, Repr

/-- Integers of up to 64 bits are kept. Those of up to 128 bits are none that can be kept, and beyond
that a word is no integer. -/
def integer (cs : List Char) : IntegerWord :=
  match unsigned? cs, negative? cs with
  | .some n, _ =>
    if n ≤ Word.maxUnsigned then .some n else if n < Nat.pow 2 128 then .tooLarge else .none
  | .none, .some n =>
    if n ≤ Nat.pow 2 63 then .some (-(n : Int)) else if n ≤ Nat.pow 2 127 then .tooLarge else .none
  | .none, .none => .none

/-- A number after a sign: digits with or without a point, and perhaps an exponent. None when there is
no digit, something else follows, or the number is too large. -/
def decimal? (negative : Bool) (cs : List Char) : Option Double := do
  let isDigit (c : Char) : Bool := (digit? 10 c).isSome
  let whole := cs.takeWhile isDigit
  let rest := cs.dropWhile isDigit
  let (fraction, rest) := match rest with
    | '.' :: more => (more.takeWhile isDigit, more.dropWhile isDigit)
    | _ => ([], rest)
  let mantissa ← digits? 10 (whole ++ fraction)
  let exponent : Int ← match rest with
    | [] => some 0
    | e :: more =>
      if e == 'e' || e == 'E' then
        match more with
        | '-' :: ds => (digits? 10 ds).map fun n => -(n : Int)
        | '+' :: ds => (digits? 10 ds).map fun n => (n : Int)
        | ds => (digits? 10 ds).map fun n => (n : Int)
      else none
  Double.ofDecimal? negative mantissa (exponent - fraction.length)

/-- A floating-point number, which may be infinite or none. -/
def float? (cs : List Char) : Option Number :=
  let bare := dropPlus cs
  let signedTwice := cs.head? == some '+' && (bare.head? == some '+' || bare.head? == some '-')
  if signedTwice then none
  else if [".inf", ".Inf", ".INF"].contains (String.ofList bare) then some (.infinity false)
  else if ["-.inf", "-.Inf", "-.INF"].contains (String.ofList cs) then some (.infinity true)
  else if [".nan", ".NaN", ".NAN"].contains (String.ofList cs) then some .nan
  else match bare with
    | '-' :: rest => (decimal? true rest).map .float
    | _ => (decimal? false bare).map .float

end Number

end Regroup.Yaml
