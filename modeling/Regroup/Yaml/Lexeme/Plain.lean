import Regroup.Yaml.Lexeme.Folding

/-!
Plain scalars: words without quotes, which end where a character has another meaning.
-/

namespace Regroup.Yaml.Lexeme

def isFlowBracket (c : Char) : Bool := "[]\x7b\x7d".toList.contains c

/-- The characters up to a gap, to a colon that a gap follows, or in flow collections to punctuation.
In flow collections no punctuation may follow a colon. -/
def plainWord? (inFlow : Bool) : List Char → Option (List Char)
  | [] => some []
  | c :: rest =>
    let next := rest.headD endMark
    if isGap c then some []
    else if inFlow && c == ':' && (isFlowBracket next || next == ',' || next == '?') then none
    else if (c == ':' && isGap next) || (inFlow && (isFlowBracket c || c == ',')) then some []
    else (plainWord? inFlow rest).map (c :: ·)

/-- Reads words and the gaps between them. A comment ends the scalar, a mark of a document does, and
outside of flow collections a line that is not indented. The answer says whether line breaks were read
after the last word. -/
def plainLoop (inFlow : Bool) (indent : Nat) : Nat → List Char → Gap → Scan (List Char × Bool)
  | 0, text, g => return (text, g.broken)
  | fuel + 1, text, g => do
    let cursor ← get
    if cursor.atDocumentMark '-' || cursor.atDocumentMark '.' || cursor.look 0 == '#' then
      return (text, g.broken)
    let some word := plainWord? inFlow cursor.rest | failure
    Scan.skip word.length
    if word.isEmpty then
      return (text, g.broken)
    let text := text ++ g.text ++ word
    let c ← Scan.look 0
    if !(isBlank c || isBreak c) then
      return (text, false)
    let g ← gap indent {}
    if !inFlow && (← get).column < indent then
      return (text, g.broken)
    plainLoop inFlow indent fuel text g

def plain (inFlow : Bool) (indent : Nat) : Scan (List Char × Bool) := do
  plainLoop inFlow indent ((← get).rest.length + 1) [] {}

end Regroup.Yaml.Lexeme
