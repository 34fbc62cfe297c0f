import Regroup.Yaml.Cursor

/-!
Block scalars: indented lines, kept as they are or folded.
-/

namespace Regroup.Yaml.Lexeme

/-- What becomes of the line breaks at the end. -/
inductive Chomping where
  | strip
  | clip
  | keep
  deriving DecidableEq, Repr

def chomping? : Scan (Option Chomping) := do
  match ← Scan.look 0 with
  | '+' => Scan.skip 1; return some .keep
  | '-' => Scan.skip 1; return some .strip
  | _ => return none

/-- A digit from one to nine. -/
def indentDigit? : Scan (Option Nat) := do
  let c ← Scan.look 0
  if isDigit c then
    Scan.check (c != '0')
    Scan.skip 1
    return some (c.toNat - 48)
  return none

/-- The two indicators in either order. -/
def blockHeader : Scan (Chomping × Option Nat) := do
  match ← chomping? with
  | some chomping => return (chomping, ← indentDigit?)
  | none =>
    match ← indentDigit? with
    | some n => return ((← chomping?).getD .clip, some n)
    | none => return (.clip, none)

/-- Spaces up to a column, if there is a limit. -/
def indentation (limit : Option Nat) : Scan Unit := do
  let cursor ← get
  let spaces := (cursor.rest.takeWhile (· == ' ')).length
  Scan.skip (match limit with
    | some n => min spaces (n - cursor.column)
    | none => spaces)

/-- Empty lines. Answers with their breaks and the widest indentation among them and the line that
follows; no tab may stand within the indentation. -/
def emptyLinesLoop (limit : Option Nat) : Nat → List Char → Nat → Scan (List Char × Nat)
  | 0, breaks, widest => return (breaks, widest)
  | fuel + 1, breaks, widest => do
    indentation limit
    let cursor ← get
    let widest := max widest cursor.column
    let within := match limit with
      | some n => cursor.column < n
      | none => true
    Scan.check !(within && cursor.look 0 == '\t')
    if isBreak (cursor.look 0) then
      let b ← Scan.lineBreak
      emptyLinesLoop limit fuel (breaks ++ b) widest
    else return (breaks, widest)

def emptyLines (limit : Option Nat) : Scan (List Char × Nat) := do
  emptyLinesLoop limit ((← get).rest.length + 1) [] 0

/-- What was read of a block scalar: its text, the break after the last line and the empty lines that
follow, and whether the last line began with a blank. -/
structure BlockText where
  text : List Char := []
  lastBreak : List Char := []
  emptyBreaks : List Char
  blankStart : Bool := false
  deriving Repr

/-- Joins a line to the text before it. Folding makes one space of a single break between two lines
that do not begin with blanks, and drops the first of several. -/
def BlockText.join (b : BlockText) (folded startsBlank : Bool) : List Char :=
  if folded && b.lastBreak == ['\n'] && !b.blankStart && !startsBlank then
    b.text ++ (if b.emptyBreaks.isEmpty then [' '] else b.emptyBreaks)
  else b.text ++ b.lastBreak ++ b.emptyBreaks

def blockLinesLoop (folded : Bool) (indent : Nat) : Nat → BlockText → Scan BlockText
  | 0, b => return b
  | fuel + 1, b => do
    let cursor ← get
    let c := cursor.look 0
    if cursor.column != indent || c == endMark then
      return b
    let start := b.join folded (isBlank c)
    let line ← Scan.span fun c => !isBreakOrEnd c
    let lastBreak ← Scan.lineBreak
    let (emptyBreaks, _) ← emptyLines (some indent)
    blockLinesLoop folded indent fuel
      { text := start ++ line, lastBreak, emptyBreaks, blankStart := isBlank c }

/-- A block scalar inside of a collection with an indentation. Without an indicator its own
indentation is the widest of the leading lines, and deeper than that of the collection. -/
def block (folded : Bool) (outer : Int) : Scan (List Char) := do
  Scan.skip 1
  let (chomping, indicator) ← blockHeader
  Scan.lineEnd
  let given := indicator.map fun n => outer.toNat + n
  let (emptyBreaks, widest) ← emptyLines given
  let indent := given.getD (max (max widest (outer + 1).toNat) 1)
  let b ← blockLinesLoop folded indent ((← get).rest.length + 1) { emptyBreaks }
  return match chomping with
    | .strip => b.text
    | .clip => b.text ++ b.lastBreak
    | .keep => b.text ++ b.lastBreak ++ b.emptyBreaks

end Regroup.Yaml.Lexeme
