/-!
The characters of YAML texts. Line breaks are normalised before a text is read: what other systems
end a line with becomes a line feed, and the two separators of Unicode stay as they are.
-/

namespace Regroup.Yaml

/-- The character may stand in a text. -/
def isReadable (c : Char) : Bool :=
  let n := c.toNat
  n == 0x09 || n == 0x0a || n == 0x0d || (0x20 ≤ n && n ≤ 0x7e) || n == 0x85 ||
    (0xa0 ≤ n && n ≤ 0xfffd) || 0x10000 ≤ n

/-- Carriage returns, alone or before a line feed, and next-line characters become line feeds. -/
def normalizeBreaks : List Char → List Char
  | [] => []
  | '\r' :: '\n' :: rest => '\n' :: normalizeBreaks rest
  | c :: rest => (if c = '\r' ∨ c = '\x85' then '\n' else c) :: normalizeBreaks rest

/-- Stands for the end of a text, in which it is not readable. -/
def endMark : Char := '\x00'

def isBlank (c : Char) : Bool := c == ' ' || c == '\t'

/-- A line feed or a separator of lines or paragraphs. -/
def isBreak (c : Char) : Bool := c == '\n' || c == '\u2028' || c == '\u2029'

def isBreakOrEnd (c : Char) : Bool := isBreak c || c == endMark

/-- Nothing that belongs to a word follows. -/
def isGap (c : Char) : Bool := isBlank c || isBreakOrEnd c

def isDigit (c : Char) : Bool := '0' ≤ c && c ≤ '9'

/-- The characters of the names of anchors, handles and directives. -/
def isNameChar (c : Char) : Bool :=
  isDigit c || ('a' ≤ c && c ≤ 'z') || ('A' ≤ c && c ≤ 'Z') || c == '_' || c == '-'

def hexDigit? (c : Char) : Option Nat :=
  if isDigit c then some (c.toNat - 48)
  else if 'a' ≤ c && c ≤ 'f' then some (c.toNat - 87)
  else if 'A' ≤ c && c ≤ 'F' then some (c.toNat - 55)
  else none

/-- The number that hexadecimal digits write. -/
def hexNumber? (cs : List Char) : Option Nat :=
  cs.foldlM (fun n c => (hexDigit? c).map (n * 16 + ·)) 0

/-- The character of a number that is one. -/
def charOfNat? (n : Nat) : Option Char := if n.isValidChar then some (Char.ofNat n) else none

end Regroup.Yaml
