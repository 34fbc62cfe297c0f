import Regroup.Yaml.Cursor
import Regroup.Yaml.Token

/-!
Anchors, tags and directives as they are written.
-/

namespace Regroup.Yaml.Lexeme

/-- The name of an anchor or alias, after its first sign. -/
def anchorName : Scan (List Char) := do
  Scan.skip 1
  let name ← Scan.span isNameChar
  let c ← Scan.look 0
  Scan.check (!name.isEmpty && (isGap c || "?:,]\x7d%@\x60".toList.contains c))
  return name

/-- A handle: an exclamation mark, and perhaps a name and a second mark. -/
def tagHandle : Scan (List Char) := do
  Scan.check ((← Scan.look 0) == '!')
  Scan.skip 1
  let name ← Scan.span isNameChar
  if (← Scan.look 0) == '!' then
    Scan.skip 1
    return '!' :: name ++ ['!']
  return '!' :: name

def escapedByte : Scan Nat := do
  Scan.check ((← Scan.look 0) == '%')
  let some n := hexNumber? [← Scan.look 1, ← Scan.look 2] | failure
  Scan.skip 3
  return n

/-- The number of bytes in an encoded character and the bits that its first byte holds. -/
def leadingByte? (b : Nat) : Option (Nat × Nat) :=
  if b < 0x80 then some (1, b)
  else if b / 32 == 6 then some (2, b % 32)
  else if b / 16 == 14 then some (3, b % 16)
  else if b / 8 == 30 then some (4, b % 8)
  else none

def trailingBytes : Nat → Nat → Scan Nat
  | 0, n => return n
  | k + 1, n => do
    let b ← escapedByte
    Scan.check (b / 64 == 2)
    trailingBytes k (n * 64 + b % 64)

/-- The least number that needs a number of bytes. -/
def leastOfWidth : Nat → Nat
  | 2 => 0x80
  | 3 => 0x800
  | 4 => 0x10000
  | _ => 0

/-- The escaped bytes of one character. They are counted by the first one, and encode no character
when there are more of them than needed or the number is no character. -/
def escapedChar : Scan (Option Char) := do
  let some (width, bits) := leadingByte? (← escapedByte) | failure
  let n ← trailingBytes (width - 1) bits
  return if leastOfWidth width ≤ n then charOfNat? n else none

/-- The characters of a tag; brackets and commas only where the tag is written out. -/
def isTagChar (written : Bool) (c : Char) : Bool :=
  isNameChar c || ";/?:@&=+$.!~*'()%".toList.contains c || (written && ",[]".toList.contains c)

def tagTextLoop (written : Bool) : Nat → TagText → Scan TagText
  | 0, acc => return acc
  | fuel + 1, acc => do
    let c ← Scan.look 0
    if !isTagChar written c then
      return acc
    else if c == '%' then
      tagTextLoop written fuel (acc ++ [← escapedChar])
    else
      Scan.skip 1
      tagTextLoop written fuel (acc ++ [some c])

/-- The characters of a tag, up to a null character. -/
def tagText (written : Bool) : Scan (Bool × TagText) := do
  let text ← tagTextLoop written ((← get).rest.length + 1) []
  return (text.isEmpty, text.takeWhile (· != some endMark))

/-- A tag that is written out between angle brackets. -/
def writtenTag : Scan Token := do
  Scan.skip 2
  let (empty, suffix) ← tagText true
  Scan.check (!empty)
  Scan.check ((← Scan.look 0) == '>')
  Scan.skip 1
  return .tag [] suffix

/-- A tag with a handle. Without a second mark the handle is the first mark alone, and what was read
belongs to the suffix; a mark with nothing after it is the tag itself. -/
def handledTag : Scan Token := do
  let handle ← tagHandle
  let (empty, suffix) ← tagText false
  if handle.length > 1 && handle.getLast? == some '!' then
    Scan.check (!empty)
    return .tag handle suffix
  let suffix := (handle.drop 1).map some ++ suffix
  return if suffix.isEmpty then .tag [] [some '!'] else .tag ['!'] suffix

/-- A tag, which a blank must follow; in flow collections a comma will do. -/
def tag (inFlow : Bool) : Scan Token := do
  let t ← if (← Scan.look 1) == '<' then writtenTag else handledTag
  let c ← Scan.look 0
  Scan.check (isGap c || (inFlow && c == ','))
  return t

/-- A number of at most nine digits. -/
def versionNumber : Scan Nat := do
  let ds ← Scan.span isDigit
  Scan.check (!ds.isEmpty && ds.length ≤ 9)
  return ds.foldl (fun n c => n * 10 + (c.toNat - 48)) 0

def versionDirective : Scan Token := do
  let _ ← Scan.span isBlank
  let major ← versionNumber
  Scan.check ((← Scan.look 0) == '.')
  Scan.skip 1
  let minor ← versionNumber
  return .version major minor

def tagDirective : Scan Token := do
  let _ ← Scan.span isBlank
  let handle ← tagHandle
  Scan.check (handle.length == 1 || handle.getLast? == some '!')
  Scan.check (isBlank (← Scan.look 0))
  let _ ← Scan.span isBlank
  let (empty, start) ← tagText true
  Scan.check (!empty && isGap (← Scan.look 0))
  return .tagHandle handle start

/-- A directive with the rest of its line. -/
def directive : Scan Token := do
  Scan.skip 1
  let name ← Scan.span isNameChar
  Scan.check (isGap (← Scan.look 0))
  let t ←
    if name == "YAML".toList then versionDirective
    else if name == "TAG".toList then tagDirective
    else failure
  Scan.lineEnd
  return t

end Regroup.Yaml.Lexeme
