import Regroup.Decimal.Shortest
import Regroup.Json.Value

/-!
The compact text of a JSON value: no blanks, fields in the order in which they are kept, and escapes
only where a string cannot do without.
-/

namespace Regroup.Json

/-- The lower-case hexadecimal digits of a number, with leading zeros up to a width. -/
def hex (width n : Nat) : List Char :=
  let digits := Nat.toDigits 16 n
  List.replicate (width - digits.length) '0' ++ digits

def escape (c : Char) : List Char :=
  if c = '"' then ['\\', '"']
  else if c = '\\' then ['\\', '\\']
  else if c = '\n' then ['\\', 'n']
  else if c = '\r' then ['\\', 'r']
  else if c = '\t' then ['\\', 't']
  else if c = '\x08' then ['\\', 'b']
  else if c = '\x0c' then ['\\', 'f']
  else if c.toNat < 32 then '\\' :: 'u' :: hex 4 c.toNat
  else [c]

def quoteChars (s : List Char) : List Char := '"' :: (s.flatMap escape ++ ['"'])

/-- A string between quotes. -/
def quote (s : String) : String := String.ofList (quoteChars s.toList)

mutual

def chars : Json → List Char
  | .null => "null".toList
  | .bool b => if b then "true".toList else "false".toList
  | .int n => (toString n).toList
  | .float d => (d.text Double.configFormat).toList
  | .str s => quoteChars s.toList
  | .arr items => '[' :: (itemChars true items ++ [']'])
  | .obj fields => '\x7b' :: (fieldChars true fields ++ ['\x7d'])

def itemChars (first : Bool) : List Json → List Char
  | [] => []
  | v :: rest => (if first then [] else [',']) ++ chars v ++ itemChars false rest

def fieldChars (first : Bool) : List (String × Json) → List Char
  | [] => []
  | (name, v) :: rest =>
    (if first then [] else [',']) ++ quoteChars name.toList ++ ':' :: chars v ++
      fieldChars false rest

end

/-- The compact text. -/
def text (v : Json) : String := String.ofList v.chars

end Regroup.Json
