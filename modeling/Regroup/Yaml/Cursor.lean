import Regroup.Yaml.Character

/-!
A place in a text, and steps that read on from there. Columns count characters from the last line
break, tabs as one.
-/

namespace Regroup.Yaml

structure Cursor where
  rest : List Char
  index : Nat := 0
  line : Nat := 0
  column : Nat := 0
  deriving Inhabited

/-- A step that reads a part of a text, or finds that it is not well formed. -/
abbrev Scan := StateT Cursor Option

namespace Cursor

/-- The character at a distance. -/
def look (c : Cursor) (distance : Nat) : Char := (c.rest[distance]?).getD endMark

/-- Past characters that are no breaks. -/
def advance (c : Cursor) (n : Nat) : Cursor :=
  { c with rest := c.rest.drop n, index := c.index + n, column := c.column + n }

/-- Past a break. -/
def nextLine (c : Cursor) : Cursor :=
  { rest := c.rest.drop 1, index := c.index + 1, line := c.line + 1, column := 0 }

/-- A line begins here with three dots or three hyphens that stand alone. -/
def atDocumentMark (c : Cursor) (m : Char) : Bool :=
  c.column == 0 && (c.rest.take 3 == [m, m, m]) && isGap (c.look 3)

end Cursor

namespace Scan

def look (distance : Nat) : Scan Char := do return (← get).look distance

def skip (n : Nat) : Scan Unit := modify (·.advance n)

/-- Reads as far as the characters have a property. They must not be breaks. -/
def span (p : Char → Bool) : Scan (List Char) := do
  let taken := (← get).rest.takeWhile p
  skip taken.length
  return taken

/-- Reads a break, if there is one. -/
def lineBreak : Scan (List Char) := do
  let c ← look 0
  if isBreak c then
    modify Cursor.nextLine
    return [c]
  return []

/-- Fails unless a condition holds. -/
def check (b : Bool) : Scan Unit := if b then pure () else failure

/-- The rest of a line after everything that counts: blanks, a comment, the break. -/
def lineEnd : Scan Unit := do
  let _ ← span isBlank
  if (← look 0) == '#' then
    let _ ← span fun c => !isBreakOrEnd c
  check (isBreakOrEnd (← look 0))
  let _ ← lineBreak

end Scan

end Regroup.Yaml
