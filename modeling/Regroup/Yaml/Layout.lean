import Regroup.Yaml.Lexeme.Block
import Regroup.Yaml.Lexeme.Plain
import Regroup.Yaml.Lexeme.Quoted
import Regroup.Yaml.Lexeme.Tag

/-!
The tokens of a text. Block collections open and close with the indentation. That something is a key is
known only at the colon after it, so a place where a key may have begun is remembered until the line
ends, and the token for the key is put there in the end.
-/

namespace Regroup.Yaml

/-- A place where a key may have begun. -/
structure KeyStart where
  /-- The line must be that of a key, for nothing else may begin at its column. -/
  required : Bool
  /-- The number of tokens before it. -/
  position : Nat
  line : Nat
  index : Nat
  column : Nat
  deriving DecidableEq, Repr, Inhabited

structure Layout where
  cursor : Cursor
  /-- The columns of the open block collections, the innermost first. -/
  blocks : List Nat := []
  /-- For the text outside of flow collections and for every open one, the innermost first, where a
  key may have begun. -/
  keyStarts : List (Option KeyStart) := [none]
  keyAllowed : Bool := true
  tokens : Array Token := #[]
  deriving Inhabited

/-- A step that reads tokens. -/
abbrev Lexing := StateT Layout Option

namespace Layout

def inFlow (l : Layout) : Bool := l.keyStarts.length > 1

/-- The column of the innermost block collection, -1 outside of all. -/
def indent (l : Layout) : Int := (l.blocks.head?.map Int.ofNat).getD (-1)

def setKeyStart (k : Option KeyStart) (l : Layout) : Layout :=
  { l with keyStarts := k :: l.keyStarts.drop 1 }

end Layout

namespace KeyStart

/-- Too far back for a key: on an earlier line, or more than 1024 characters away. -/
def isStale (k : KeyStart) (c : Cursor) : Bool := k.line < c.line || k.index + 1024 < c.index

end KeyStart

namespace Lexing

def check (b : Bool) : Lexing Unit := if b then pure () else failure

/-- A step on the text alone. -/
def scan {α : Type} (x : Scan α) : Lexing α :=
  fun l => (x l.cursor).map fun (a, c) => (a, { l with cursor := c })

def emit (t : Token) : Lexing Unit := modify fun l => { l with tokens := l.tokens.push t }

def allowKey (b : Bool) : Lexing Unit := modify fun l => { l with keyAllowed := b }

/-- Forgets the places where no key can have begun any more. -/
def expireKeys : Lexing Unit := do
  let l ← get
  let stale (k : Option KeyStart) : Bool := k.any (·.isStale l.cursor)
  check !(l.keyStarts.any fun k => stale k && k.any (·.required))
  set { l with keyStarts := l.keyStarts.map fun k => if stale k then none else k }

/-- What began at the place is not a key. -/
def dropKey : Lexing Unit := do
  let l ← get
  check !((l.keyStarts.headD none).any (·.required))
  modify (Layout.setKeyStart none)

/-- A key may begin here. -/
def markKey : Lexing Unit := do
  let l ← get
  if l.keyAllowed then
    dropKey
    let c := l.cursor
    let required := !l.inFlow && l.indent == c.column
    modify (Layout.setKeyStart
      (some ⟨required, l.tokens.size, c.line, c.index, c.column⟩))

/-- Opens a block collection at a column that is deeper than all others. -/
def openBlock (column position : Nat) (t : Token) : Lexing Unit :=
  modify fun l =>
    if !l.inFlow && l.indent < (column : Int) then
      { l with blocks := column :: l.blocks, tokens := l.tokens.insertIdxIfInBounds position t }
    else l

/-- Closes the block collections that are deeper than a column. -/
def closeBlocks (column : Int) : Lexing Unit :=
  modify fun l =>
    if l.inFlow then l
    else
      let kept := l.blocks.dropWhile fun (b : Nat) => decide (column < b)
      let closed := l.blocks.length - kept.length
      { l with blocks := kept, tokens := l.tokens ++ Array.replicate closed Token.blockEnd }

/-- Blanks, comments and line breaks. A tab counts as a blank where it cannot be indentation, and a byte
order mark at the beginning of a line, where it takes up a column. -/
def skipGapLoop : Nat → Lexing Unit
  | 0 => return ()
  | fuel + 1 => do
    let l ← get
    if l.cursor.column == 0 && l.cursor.look 0 == '\ufeff' then
      scan (Scan.skip 1)
    let tabs := l.inFlow || !l.keyAllowed
    let _ ← scan (Scan.span fun c => c == ' ' || (tabs && c == '\t'))
    if (← get).cursor.look 0 == '#' then
      let _ ← scan (Scan.span fun c => !isBreakOrEnd c)
    if isBreak ((← get).cursor.look 0) then
      let _ ← scan Scan.lineBreak
      if !l.inFlow then
        allowKey true
      skipGapLoop fuel

def skipGap : Lexing Unit := do skipGapLoop ((← get).cursor.rest.length + 1)

/-- A token of one or more characters that stand for themselves. -/
def sign (width : Nat) (t : Token) : Lexing Unit := do
  scan (Scan.skip width)
  emit t

def documentMark (t : Token) : Lexing Unit := do
  closeBlocks (-1)
  dropKey
  allowKey false
  sign 3 t

def directive : Lexing Unit := do
  closeBlocks (-1)
  dropKey
  allowKey false
  emit (← scan Lexeme.directive)

def openFlow (t : Token) : Lexing Unit := do
  markKey
  modify fun l => { l with keyStarts := none :: l.keyStarts }
  allowKey true
  sign 1 t

def closeFlow (t : Token) : Lexing Unit := do
  dropKey
  modify fun l => if l.inFlow then { l with keyStarts := l.keyStarts.drop 1 } else l
  allowKey false
  sign 1 t

def flowEntry : Lexing Unit := do
  dropKey
  allowKey true
  sign 1 .flowEntry

/-- A sign that may open a block collection. -/
def openingSign (collection t : Token) : Lexing Unit := do
  let l ← get
  if !l.inFlow then
    check l.keyAllowed
    openBlock l.cursor.column l.tokens.size collection
  sign 1 t

def blockEntry : Lexing Unit := do
  openingSign .blockSequence .blockEntry
  dropKey
  allowKey true

def keySign : Lexing Unit := do
  openingSign .blockMapping .key
  dropKey
  allowKey !(← get).inFlow

def valueSign : Lexing Unit := do
  match (← get).keyStarts.headD none with
  | some k =>
    modify fun l => { l with tokens := l.tokens.insertIdxIfInBounds k.position Token.key }
    openBlock k.column k.position .blockMapping
    modify (Layout.setKeyStart none)
    allowKey false
    sign 1 .value
  | none =>
    openingSign .blockMapping .value
    allowKey !(← get).inFlow

/-- Something that may begin a key. -/
def keyPart (x : Scan Token) : Lexing Unit := do
  markKey
  allowKey false
  emit (← scan x)

def blockScalar (folded : Bool) : Lexing Unit := do
  dropKey
  allowKey true
  let text ← scan (Lexeme.block folded (← get).indent)
  emit (.scalar text .quoted)

def plainScalar : Lexing Unit := do
  markKey
  allowKey false
  let l ← get
  let (text, broken) ← scan (Lexeme.plain l.inFlow (l.indent + 1).toNat)
  if broken then
    allowKey true
  emit (.scalar text .plain)

/-- The characters with which no plain scalar begins. -/
def isIndicator (c : Char) : Bool := "-?:,[]\x7b\x7d#&*!|>'\"%@\x60".toList.contains c

def startsPlain (inFlow : Bool) (c next : Char) : Bool :=
  !(isGap c || isIndicator c) || (c == '-' && !isBlank next) ||
    (!inFlow && (c == '?' || c == ':') && !isGap next)

/-- The next token, and those that come with it. -/
def token : Lexing Unit := do
  let l ← get
  let c := l.cursor.look 0
  let next := l.cursor.look 1
  if l.cursor.column == 0 && c == '%' then directive
  else if l.cursor.atDocumentMark '-' then documentMark .documentStart
  else if l.cursor.atDocumentMark '.' then documentMark .documentEnd
  else if c == '[' then openFlow .flowSequence
  else if c == '\x7b' then openFlow .flowMapping
  else if c == ']' then closeFlow .flowSequenceEnd
  else if c == '\x7d' then closeFlow .flowMappingEnd
  else if c == ',' then flowEntry
  else if c == '-' && isGap next then blockEntry
  else if c == '?' && (l.inFlow || isGap next) then keySign
  else if c == ':' && (l.inFlow || isGap next) then valueSign
  else if c == '*' then keyPart do return .alias (← Lexeme.anchorName)
  else if c == '&' then keyPart do return .anchor (← Lexeme.anchorName)
  else if c == '!' then keyPart (Lexeme.tag l.inFlow)
  else if c == '|' && !l.inFlow then blockScalar false
  else if c == '>' && !l.inFlow then blockScalar true
  else if c == '\'' || c == '"' then keyPart do return .scalar (← Lexeme.quoted c) .quoted
  else if startsPlain l.inFlow c next then plainScalar
  else failure

/-- Every token reads a character at least, so the length of the text bounds their number. -/
def tokensLoop : Nat → Lexing Unit
  | 0 => failure
  | fuel + 1 => do
    skipGap
    expireKeys
    closeBlocks (← get).cursor.column
    if (← get).cursor.look 0 == endMark then
      closeBlocks (-1)
      dropKey
    else
      token
      tokensLoop fuel

end Lexing

/-- The tokens of a text. -/
def tokens? (s : String) : Option (List Token) := do
  let text := s.toList
  guard (text.all isReadable)
  let rest := normalizeBreaks text
  let (_, l) ← (Lexing.tokensLoop (rest.length + 1)).run { cursor := { rest } }
  return l.tokens.toList

end Regroup.Yaml
