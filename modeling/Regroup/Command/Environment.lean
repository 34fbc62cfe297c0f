import Regroup.Dictionary
import Regroup.Text.Blank

/-!
Environment files: lines of `NAME=value`. A value may stand between quotes and go over several lines, a
backslash takes the next character as it is, and a dollar sign calls up another variable. A file sets
only variables that are not set; what stands before its first mistake counts.
-/

namespace Regroup.Command

abbrev Environment := Dictionary String String

namespace EnvironmentFile

/-! Lines. -/

/-- Where a line of a file has got to. -/
inductive Place where
  | outside
  | afterBlank
  | escape
  | weak
  | weakEscape
  | strong
  | strongEscape
  | comment
  deriving DecidableEq, Repr, Inhabited

/-- A character that is in no quotes. -/
def Place.fresh (afterBlank : Bool) (c : Char) : Place :=
  if afterBlank && c == '#' then .comment
  else if c == '\\' then .escape
  else if c == '"' then .weak
  else if c == '\'' then .strong
  else if !afterBlank && Text.isBlankChar c && c != '\n' && c != '\r' then .afterBlank
  else .outside

def Place.next (p : Place) (c : Char) : Place :=
  match p with
  | .outside => Place.fresh false c
  | .afterBlank => Place.fresh true c
  | .escape => .outside
  | .weak => if c == '\\' then .weakEscape else if c == '"' then .outside else .weak
  | .weakEscape => .weak
  | .strong => if c == '\\' then .strongEscape else if c == '\'' then .outside else .strong
  | .strongEscape => .strong
  | .comment => .comment

/-- The place after a line, and the number of characters before a comment. -/
def follow : Place → Nat → List Char → Place × Nat
  | p, n, [] => (p, n)
  | p, n, c :: rest =>
    let q := p.next c
    if q = .comment then (q, n) else follow q (n + 1) rest

/-- The lines of a text with the characters that end them. -/
def physicalLines (cs : List Char) : List (List Char) :=
  let add (c : Char) (lines : List (List Char)) : List (List Char) :=
    if c == '\n' then [c] :: lines
    else match lines with
      | line :: rest => (c :: line) :: rest
      | [] => [[c]]
  let joined := cs.foldr add [[]]
  joined.filter fun line => !line.isEmpty

def dropLineEnd (line : List Char) : List Char :=
  match line.reverse with
  | '\n' :: '\r' :: rest => rest.reverse
  | '\n' :: rest => rest.reverse
  | _ => line

def isComment (line : List Char) : Bool := (Text.trimStartChars line).head? == some '#'

/-- Lines with those that belong together in one, as far as they are complete. A comment at the end of
a line is cut off by its place in that line. -/
def logicalLines : Place → List Char → List (List Char) → List (List Char)
  | _, _, [] => []
  | p, before, line :: rest =>
    let text := before ++ line
    if isComment text then logicalLines .outside [] rest
    else match follow p 0 line with
      | (.outside, _) => dropLineEnd text :: logicalLines .outside [] rest
      | (.comment, n) => text.take n :: logicalLines .outside [] rest
      | (q, _) => logicalLines q text rest

/-! Values. -/

/-- What a dollar sign has begun. -/
inductive Reference where
  | none
  /-- A name that ends where no letter or digit follows. -/
  | bare (name : List Char)
  /-- A name between braces. -/
  | braced (name : List Char)
  deriving DecidableEq, Repr

/-- A value in the midst of being read. -/
structure Reading where
  output : List Char := []
  strong : Bool := false
  weak : Bool := false
  escaped : Bool := false
  /-- Only blanks and a comment may follow. -/
  ended : Bool := false
  commented : Bool := false
  reference : Reference := .none
  deriving Inhabited

namespace Reading

def push (r : Reading) (cs : List Char) : Reading := { r with output := r.output ++ cs }

/-- What stands for an escaped character. -/
def escape? (c : Char) : Option Char :=
  if c == 'n' then some '\n'
  else if "\\'\"$ ".toList.contains c then some c
  else none

/-- Letters and digits, of which those from A to Z count. -/
def isNameChar (c : Char) : Bool := c.isAlphanum

/-- The value of a variable, empty for one that is not there. -/
def lookup (env : String → Option String) (name : List Char) : List Char :=
  ((env (String.ofList name)).getD "").toList

/-- A character inside of a reference. -/
def inReference (env : String → Option String) (r : Reading) (name : List Char) (braced : Bool)
    (c : Char) : Reading :=
  if isNameChar c then
    { r with reference := if braced then .braced (name ++ [c]) else .bare (name ++ [c]) }
  else if braced then
    if c == '\x7d' then { r.push (lookup env name) with reference := .none }
    else { r with reference := .braced (name ++ [c]) }
  else if c == '\x7b' && name.isEmpty then { r with reference := .braced [] }
  else
    let r := r.push (lookup env name)
    if c == '$' then { r with reference := .bare [] }
    else { r.push [c] with reference := .none }

/-- A character of a value. None for one that cannot stand there. -/
def step (env : String → Option String) (r : Reading) (c : Char) : Option Reading :=
  if r.commented then some r
  else if r.ended then
    if c == ' ' || c == '\t' then some r
    else if c == '#' then some { r with commented := true }
    else none
  else if r.escaped then
    (escape? c).map fun d => { r.push [d] with escaped := false }
  else if r.strong then
    some (if c == '\'' then { r with strong := false } else r.push [c])
  else match r.reference with
    | .bare name => some (inReference env r name false c)
    | .braced name => some (inReference env r name true c)
    | .none =>
      if c == '$' then some { r with reference := .bare [] }
      else if c == '\\' then some { r with escaped := true }
      else if r.weak then some (if c == '"' then { r with weak := false } else r.push [c])
      else if c == '\'' then some { r with strong := true }
      else if c == '"' then some { r with weak := true }
      else if c == ' ' || c == '\t' then some { r with ended := true }
      else some (r.push [c])

/-- The value that was read, unless something is left open. -/
def finish (env : String → Option String) (r : Reading) : Option String :=
  match r.reference with
  | .braced _ => none
  | .bare name =>
    if r.strong || r.weak then none else some (String.ofList (r.push (lookup env name)).output)
  | .none => if r.strong || r.weak then none else some (String.ofList r.output)

end Reading

def value? (env : String → Option String) (cs : List Char) : Option String :=
  (cs.foldlM (Reading.step env) {}).bind (Reading.finish env)

/-! Entries. -/

/-- A name and what follows it. -/
def name? (cs : List Char) : Option (String × List Char) :=
  match cs with
  | [] => none
  | c :: _ =>
    if c.isAlpha || c == '_' then
      let name := cs.takeWhile fun c => c.isAlphanum || c == '_' || c == '.'
      some (String.ofList name, Text.trimStartChars (cs.drop name.length))
    else none

/-- What follows an equals sign. -/
def equals? (cs : List Char) : Option (List Char) :=
  match cs with
  | '=' :: rest => some rest
  | _ => none

/-- A line with a variable, a line without one, or a mistake. A line may begin with the word `export`,
which is a name where an equals sign follows. -/
def entry? (env : String → Option String) (line : List Char) : Option (Option (String × String)) :=
  let cs := Text.trimStartChars (Text.trimEndChars line)
  if cs.isEmpty || cs.head? == some '#' then some none
  else do
    let (name, rest) ← name? cs
    let (name, rest) ←
      if name == "export" && (equals? rest).isNone then name? rest else some (name, rest)
    let text := Text.trimStartChars (← equals? rest)
    if text.isEmpty || text.head? == some '#' then
      return some (name, "")
    return some (name, ← value? env text)

/-- Sets what the lines say. A reference finds what was set before, else what the file said last. -/
def setLines (env said : Environment) : List (List Char) → Environment
  | [] => env
  | line :: rest =>
    match entry? (fun name => env.get? name <|> said.get? name) line with
    | none => env
    | some none => setLines env said rest
    | some (some (name, v)) => setLines (env.insertIfNew name v) (said.insert name v) rest

end EnvironmentFile

/-- The environment with a file on top of it. -/
def Environment.load (env : Environment) (file : String) : Environment :=
  let cs := file.toList
  let cs := if cs.head? == some '\ufeff' then cs.drop 1 else cs
  EnvironmentFile.setLines env .empty
    (EnvironmentFile.logicalLines .outside [] (EnvironmentFile.physicalLines cs))

end Regroup.Command
