import Regroup.Yaml.Cursor

/-!
Folding: what stands between two words of a scalar on several lines, and the text that is kept of it.
-/

namespace Regroup.Yaml.Lexeme

/-- Blanks, or line breaks and the blanks around them, which do not count. -/
structure Gap where
  blanks : List Char := []
  broken : Bool := false
  /-- The first break, unless it was escaped. -/
  first : List Char := []
  more : List Char := []
  deriving DecidableEq, Repr, Inhabited

namespace Gap

/-- A single line feed becomes a space, of several the first is dropped. -/
def text (g : Gap) : List Char :=
  if g.broken then
    if g.first = ['\n'] then if g.more.isEmpty then [' '] else g.more else g.first ++ g.more
  else g.blanks

def addBlank (g : Gap) (c : Char) : Gap :=
  if g.broken then g else { g with blanks := g.blanks ++ [c] }

def addBreak (g : Gap) (c : Char) : Gap :=
  if g.broken then { g with more := g.more ++ [c] }
  else { g with blanks := [], broken := true, first := [c] }

end Gap

/-- Reads on to the next word. At the beginning of a line no tab may stand before a column. -/
def gapLoop (indent : Nat) : Nat → Gap → Scan Gap
  | 0, g => return g
  | fuel + 1, g => do
    let cursor ← get
    let c := cursor.look 0
    if isBlank c then
      Scan.check !(g.broken && c == '\t' && cursor.column < indent)
      Scan.skip 1
      gapLoop indent fuel (g.addBlank c)
    else if isBreak c then
      let _ ← Scan.lineBreak
      gapLoop indent fuel (g.addBreak c)
    else return g

def gap (indent : Nat) (start : Gap) : Scan Gap := do
  gapLoop indent ((← get).rest.length + 1) start

end Regroup.Yaml.Lexeme
