import Regroup.Yaml.Lexeme.Folding

/-!
Scalars between quotes. Between single quotes a quote is written twice; between double quotes a
backslash begins an escape.
-/

namespace Regroup.Yaml.Lexeme

def simpleEscape? (c : Char) : Option Char :=
  [('0', '\x00'), ('a', '\x07'), ('b', '\x08'), ('t', '\t'), ('\t', '\t'), ('n', '\n'),
    ('v', '\x0b'), ('f', '\x0c'), ('r', '\r'), ('e', '\x1b'), (' ', ' '), ('"', '"'), ('/', '/'),
    ('\\', '\\'), ('N', '\x85'), ('_', '\xa0'), ('L', '\u2028'), ('P', '\u2029')].lookup c

/-- The number of hexadecimal digits after an escape. -/
def escapeWidth? (c : Char) : Option Nat := [('x', 2), ('u', 4), ('U', 8)].lookup c

/-- The character of an escape. -/
def escaped : Scan Char := do
  let c ← Scan.look 1
  Scan.skip 2
  match simpleEscape? c, escapeWidth? c with
  | some d, _ => return d
  | none, some width =>
    let digits := (← get).rest.take width
    Scan.check (digits.length == width)
    let some d := (hexNumber? digits).bind charOfNat? | failure
    Scan.skip width
    return d
  | none, none => failure

/-- A part of a quoted scalar and whether an escaped line break ended it. -/
def quotedWordLoop (quote : Char) : Nat → List Char → Scan (List Char × Bool)
  | 0, acc => return (acc, false)
  | fuel + 1, acc => do
    let c ← Scan.look 0
    let next ← Scan.look 1
    if isGap c then
      return (acc, false)
    else if c == quote then
      if quote == '\'' && next == quote then
        Scan.skip 2
        quotedWordLoop quote fuel (acc ++ [quote])
      else return (acc, false)
    else if quote == '"' && c == '\\' then
      if isBreak next then
        Scan.skip 1
        let _ ← Scan.lineBreak
        return (acc, true)
      else
        quotedWordLoop quote fuel (acc ++ [← escaped])
    else
      Scan.skip 1
      quotedWordLoop quote fuel (acc ++ [c])

def quotedLoop (quote : Char) : Nat → List Char → Scan (List Char)
  | 0, _ => failure
  | fuel + 1, acc => do
    let cursor ← get
    Scan.check !(cursor.atDocumentMark '-' || cursor.atDocumentMark '.')
    Scan.check (cursor.look 0 != endMark)
    let (word, broken) ← quotedWordLoop quote (cursor.rest.length + 1) []
    if (← Scan.look 0) == quote then
      Scan.skip 1
      return acc ++ word
    let g ← gap 0 { broken }
    quotedLoop quote fuel (acc ++ word ++ g.text)

/-- A scalar that begins with a quote. -/
def quoted (quote : Char) : Scan (List Char) := do
  Scan.skip 1
  quotedLoop quote ((← get).rest.length + 1) []

end Regroup.Yaml.Lexeme
