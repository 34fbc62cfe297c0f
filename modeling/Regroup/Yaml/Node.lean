import Regroup.Dictionary
import Regroup.Yaml.Layout

/-!
The nodes of a document, before their values are known. An anchor gives a node a number and an alias
refers to one. The number is how many different names stood before; when a name is used again the
number can be one that is taken, and then it means the later node.
-/

namespace Regroup.Yaml

structure Properties where
  anchor : Option Nat := none
  tag : Option TagText := none
  deriving DecidableEq, Repr, Inhabited

inductive Node where
  | scalar (p : Properties) (text : List Char) (style : Style)
  | sequence (p : Properties) (items : List Node)
  | mapping (p : Properties) (entries : List (Node × Node))
  | alias (anchor : Nat)
  deriving Inhabited

namespace Node

/-- Where nothing is written. -/
def empty : Node := .scalar {} [] .plain

mutual

/-- The number of scalars and aliases, and of the two ends of collections. -/
def size : Node → Nat
  | .scalar .. => 1
  | .alias _ => 1
  | .sequence _ items => sizeOfItems items + 2
  | .mapping _ entries => sizeOfEntries entries + 2

def sizeOfItems : List Node → Nat
  | [] => 0
  | n :: rest => n.size + sizeOfItems rest

def sizeOfEntries : List (Node × Node) → Nat
  | [] => 0
  | (k, v) :: rest => k.size + v.size + sizeOfEntries rest

end

/-- A node under its number, if it has one. -/
def numbered (p : Properties) (n : Node) : List (Nat × Node) :=
  (p.anchor.map fun a => (a, n)).toList

mutual

/-- The nodes with anchors, in the order in which they begin. -/
def anchored : Node → List (Nat × Node)
  | .scalar p text style => numbered p (.scalar p text style)
  | .alias _ => []
  | .sequence p items => numbered p (.sequence p items) ++ anchoredItems items
  | .mapping p entries => numbered p (.mapping p entries) ++ anchoredEntries entries

def anchoredItems : List Node → List (Nat × Node)
  | [] => []
  | n :: rest => n.anchored ++ anchoredItems rest

def anchoredEntries : List (Node × Node) → List (Nat × Node)
  | [] => []
  | (k, v) :: rest => k.anchored ++ v.anchored ++ anchoredEntries rest

end

end Node

/-- What is left to read of a document. -/
structure Reading where
  tokens : List Token
  handles : List (List Char × TagText) := []
  anchors : Dictionary (List Char) Nat := .empty
  deriving Inhabited

/-- A step that reads nodes from tokens. -/
abbrev Parsing := StateT Reading Option

namespace Parsing

def peek : Parsing (Option Token) := do return (← get).tokens.head?

def skip : Parsing Unit := modify fun r => { r with tokens := r.tokens.drop 1 }

def check (b : Bool) : Parsing Unit := if b then pure () else failure

/-- The next token is one of some. -/
def ahead (ts : List Token) : Parsing Bool := do return (← peek).any ts.contains

/-- Reads a token if it comes next. -/
def accept (t : Token) : Parsing Bool := do
  if ← ahead [t] then
    skip
    return true
  return false

def expect (t : Token) : Parsing Unit := do check (← accept t)

/-- A tag with its handle replaced by what the handle stands for. -/
def resolveTag (handle : List Char) (suffix : TagText) : Parsing TagText := do
  if handle.isEmpty then
    return suffix
  let some start := (← get).handles.lookup handle | failure
  return start ++ suffix

def newAnchor (name : List Char) : Parsing Nat :=
  modifyGet fun r => (r.anchors.size, { r with anchors := r.anchors.insert name r.anchors.size })

def anchor? : Parsing (Option (List Char)) := do
  match ← peek with
  | some (.anchor name) => skip; return some name
  | _ => return none

def tag? : Parsing (Option TagText) := do
  match ← peek with
  | some (.tag handle suffix) => skip; return some (← resolveTag handle suffix)
  | _ => return none

/-- An anchor and a tag, in either order. -/
def properties : Parsing Properties := do
  let before ← anchor?
  let tag ← tag?
  let name ← match before with
    | some name => pure (some name)
    | none => if tag.isSome then anchor? else pure none
  match name with
  | some name => return { anchor := some (← newAnchor name), tag }
  | none => return { tag }

mutual

/-- A node. Block collections are not allowed inside of flow collections; a sequence that is the value
of a key may stand at the column of the key. -/
def node (block atKey : Bool) : Nat → Parsing Node
  | 0 => failure
  | fuel + 1 => do
    if let some (.alias name) ← peek then
      skip
      let some a := (← get).anchors.get? name | failure
      return .alias a
    let p ← properties
    match ← peek with
    | some (.scalar text style) => skip; return .scalar p text style
    | some .flowSequence => skip; return .sequence p (← flowItems true fuel)
    | some .flowMapping => skip; return .mapping p (← flowEntries true fuel)
    | t =>
      if atKey && t == some .blockEntry then
        return .sequence p (← keyItems fuel)
      else if block && t == some .blockSequence then
        skip
        return .sequence p (← blockItems fuel)
      else if block && t == some .blockMapping then
        skip
        return .mapping p (← blockEntries fuel)
      else if p.anchor.isSome || p.tag.isSome then
        return .scalar p [] .plain
      else failure

/-- A node, or nothing where one of some tokens comes next. -/
def nodeUnless (ends : List Token) (block atKey : Bool) : Nat → Parsing Node
  | 0 => failure
  | fuel + 1 => do
    if ← ahead ends then
      return .empty
    node block atKey fuel

def blockItems : Nat → Parsing (List Node)
  | 0 => failure
  | fuel + 1 => do
    if ← accept .blockEntry then
      let item ← nodeUnless [.blockEntry, .blockEnd] true false fuel
      return item :: (← blockItems fuel)
    expect .blockEnd
    return []

/-- The items of a sequence at the column of a key; they end where no item comes. -/
def keyItems : Nat → Parsing (List Node)
  | 0 => failure
  | fuel + 1 => do
    if ← accept .blockEntry then
      let item ← nodeUnless [.blockEntry, .key, .value, .blockEnd] true false fuel
      return item :: (← keyItems fuel)
    return []

def blockEntries : Nat → Parsing (List (Node × Node))
  | 0 => failure
  | fuel + 1 => do
    if ← accept .key then
      let k ← nodeUnless [.key, .value, .blockEnd] true true fuel
      let v ←
        if ← accept .value then nodeUnless [.key, .value, .blockEnd] true true fuel
        else pure .empty
      return (k, v) :: (← blockEntries fuel)
    expect .blockEnd
    return []

def flowItems (first : Bool) : Nat → Parsing (List Node)
  | 0 => failure
  | fuel + 1 => do
    if ← accept .flowSequenceEnd then
      return []
    if !first then
      expect .flowEntry
    if ← accept .key then
      let pair ← flowPair fuel
      return .mapping {} [pair] :: (← flowItems false fuel)
    if ← accept .flowSequenceEnd then
      return []
    let item ← node false false fuel
    return item :: (← flowItems false fuel)

/-- A pair inside of a flow sequence. Where the key is missing, the token in its place is passed over. -/
def flowPair : Nat → Parsing (Node × Node)
  | 0 => failure
  | fuel + 1 => do
    let noKey ← ahead [.value, .flowEntry, .flowSequenceEnd]
    let k ← if noKey then (do skip; return .empty) else node false false fuel
    let v ←
      if ← accept .value then nodeUnless [.flowEntry, .flowSequenceEnd] false false fuel
      else pure .empty
    return (k, v)

def flowEntries (first : Bool) : Nat → Parsing (List (Node × Node))
  | 0 => failure
  | fuel + 1 => do
    if ← accept .flowMappingEnd then
      return []
    if !first then
      expect .flowEntry
    if ← accept .key then
      let k ← nodeUnless [.value, .flowEntry, .flowMappingEnd] false false fuel
      let v ←
        if ← accept .value then nodeUnless [.flowEntry, .flowMappingEnd] false false fuel
        else pure .empty
      return (k, v) :: (← flowEntries false fuel)
    if ← accept .flowMappingEnd then
      return []
    let k ← node false false fuel
    return (k, .empty) :: (← flowEntries false fuel)

end

/-- The directives before a document: at most one version, which is 1.1 or 1.2, and handles that differ
from each other. -/
def directives (versioned : Bool) : Nat → Parsing Unit
  | 0 => return ()
  | fuel + 1 => do
    match ← peek with
    | some (.version major minor) =>
      check (!versioned && major == 1 && (minor == 1 || minor == 2))
      skip
      directives true fuel
    | some (.tagHandle handle start) =>
      check ((← get).handles.lookup handle).isNone
      skip
      modify fun r => { r with handles := r.handles ++ [(handle, start)] }
      directives versioned fuel
    | _ => return ()

/-- The handles that are known without a directive. -/
def defaultHandles : List (List Char × TagText) :=
  [(['!'], [some '!']), (['!', '!'], "tag:yaml.org,2002:".toList.map some)]

/-- The only document of a text. It may be missing altogether; one with directives needs a mark. -/
def document (fuel : Nat) : Parsing Node := do
  let directed := match ← peek with
    | some (.version ..) | some (.tagHandle ..) => true
    | _ => false
  directives false fuel
  modify fun r => { r with handles := r.handles ++ defaultHandles }
  let content ←
    if ← accept .documentStart then
      if (← peek).isNone || (← ahead [.documentStart, .documentEnd]) then pure .empty
      else node true false fuel
    else
      check !directed
      if (← peek).isNone then pure .empty else node true false fuel
  modify fun r => { r with tokens := r.tokens.dropWhile (· == .documentEnd) }
  check (← peek).isNone
  return content

end Parsing

/-- The document of a list of tokens. -/
def Node.ofTokens? (ts : List Token) : Option Node :=
  ((Parsing.document (3 * ts.length + 3)).run { tokens := ts }).map Prod.fst

end Regroup.Yaml
