import Regroup.Json.Text
import Regroup.Yaml.Node
import Regroup.Yaml.Number

/-!
The values of YAML documents. Plain words may stand for null, booleans and numbers; a local tag wraps a
value; aliases have been replaced by what they refer to.
-/

namespace Regroup.Yaml

inductive Value where
  | null
  | bool (b : Bool)
  | number (n : Number)
  | str (s : String)
  | seq (items : List Value)
  | map (entries : List (Value × Value))
  | tagged (tag : String) (v : Value)
  deriving Inhabited

namespace Value

mutual

/-- Equality, for which the order of entries does not matter. No key is entered twice. -/
def equals : Value → Value → Bool
  | .null, .null => true
  | .bool a, .bool b => a == b
  | .number a, .number b => a.equals b
  | .str a, .str b => a == b
  | .seq a, .seq b => equalItems a b
  | .map a, .map b => a.length == b.length && equalEntries a b
  | .tagged s a, .tagged t b => s == t && equals a b
  | _, _ => false

def equalItems : List Value → List Value → Bool
  | [], [] => true
  | a :: as, b :: bs => equals a b && equalItems as bs
  | _, _ => false

/-- Every entry of the first list is in the second. -/
def equalEntries : List (Value × Value) → List (Value × Value) → Bool
  | [], _ => true
  | (k, v) :: rest, es => (es.any fun e => equals k e.1 && equals v e.2) && equalEntries rest es

end

/-- Two of the keys are equal. -/
def hasEqualKeys : List (Value × Value) → Bool
  | [] => false
  | (k, _) :: rest => rest.any (fun e => k.equals e.1) || hasEqualKeys rest

/-- A value that is null, with or without a tag. -/
def isNull : Value → Bool
  | .null => true
  | .tagged _ v => v.isNull
  | _ => false

/-- The name of a field with a key that is not null and no collection. -/
def fieldName? : Value → Option String
  | .str s => some s
  | .bool b => some (toString b)
  | .number (.int n) => some (toString n)
  | .number (.float d) => some (d.text Double.configFormat)
  | _ => none

mutual

/-- The value as JSON. A number that is not finite becomes null, a tagged value an object of one field;
a key must have a name, and of two keys with one name the later counts. -/
def toJson? : Value → Option Json
  | .null => some .null
  | .bool b => some (.bool b)
  | .number (.int n) => some (.int n)
  | .number (.float d) => some (.float d)
  | .number (.infinity _) => some .null
  | .number .nan => some .null
  | .str s => some (.str s)
  | .seq items => (itemsToJson? items).map .arr
  | .map entries => (entriesToJson? entries).map Json.ofFields
  | .tagged tag v => (toJson? v).map fun j => .obj [("!" ++ tag, j)]

def itemsToJson? : List Value → Option (List Json)
  | [] => some []
  | v :: rest => do
    let j ← toJson? v
    let js ← itemsToJson? rest
    return j :: js

def entriesToJson? : List (Value × Value) → Option (List (String × Json))
  | [] => some []
  | (k, v) :: rest => do
    let name ← k.fieldName?
    let j ← toJson? v
    let js ← entriesToJson? rest
    return (name, j) :: js

end

/-- A word without quotes. None for an integer that cannot be kept. -/
def ofPlain? (cs : List Char) : Option Value :=
  let s := String.ofList cs
  if ["", "~", "null", "Null", "NULL"].contains s then some .null
  else if ["true", "True", "TRUE"].contains s then some (.bool true)
  else if ["false", "False", "FALSE"].contains s then some (.bool false)
  else match Number.integer cs with
    | .some n => some (.number (.int n))
    | .tooLarge => none
    | .none =>
      match if Number.isPaddedDigits cs then none else Number.float? cs with
      | some n => some (.number n)
      | none => some (.str s)

end Value

/-- What a tag says of a value. -/
inductive TagMeaning where
  /-- A tag of the document's own. -/
  | locally (name : String)
  | bool
  | int
  | float
  | null
  /-- Any other tag; a scalar with one is text. -/
  | text
  /-- Nothing, like no tag at all: a local tag that is not readable. -/
  | unreadable
  deriving DecidableEq, Repr

/-- Without its first mark, unless nothing is left. -/
def dropMark {α : Type} [DecidableEq α] (mark : α) (t : List α) : List α :=
  if t.head? = some mark && t.length > 1 then t.drop 1 else t

def TagMeaning.ofTag (t : TagText) : TagMeaning :=
  if t.head? = some (some '!') then
    match (dropMark (some '!') t).mapM id with
    | some cs => .locally (String.ofList (dropMark '!' cs))
    | none => .unreadable
  else
    let core (name : String) : TagText := ("tag:yaml.org,2002:" ++ name).toList.map some
    if t = core "bool" then .bool
    else if t = core "int" then .int
    else if t = core "float" then .float
    else if t = core "null" then .null
    else .text

/-- What the tag of a node says. -/
def Properties.meaning (p : Properties) : TagMeaning :=
  (p.tag.map TagMeaning.ofTag).getD .unreadable

/-- The value of a scalar under a tag. The tags of plain words can be forced on any text. -/
def Value.ofScalar? (m : TagMeaning) (text : List Char) (style : Style) : Option Value :=
  let untagged := if style = .plain then Value.ofPlain? text else some (.str (String.ofList text))
  match m with
  | .unreadable => untagged
  | .locally name => untagged.map (.tagged name)
  | .text => some (.str (String.ofList text))
  | .bool =>
    match Value.ofPlain? text with
    | some (.bool b) => some (.bool b)
    | _ => none
  | .null =>
    match Value.ofPlain? text with
    | some .null => if text.isEmpty then none else some .null
    | _ => none
  | .int =>
    match Number.integer text with
    | .some n => some (.number (.int n))
    | _ => none
  | .float => (Number.float? text).map .number

/-- The value of a collection under a tag; only local tags count. -/
def Value.ofCollection (m : TagMeaning) (v : Value) : Value :=
  match m with
  | .locally name => .tagged name v
  | _ => v

namespace Node

/-- How deep collections may be nested. -/
def maxDepth : Nat := 128

/-- Follows an alias, of which only so many are followed. -/
def target (targets : List (Nat × Node)) : Node → StateT Nat Option Node
  | .alias a => do
    match ← get with
    | 0 => failure
    | left + 1 => do
      set left
      match targets.lookup a with
      | some n => return n
      | none => failure
  | n => return n

/-- The value of a node whose aliases refer to the targets, nested at most so deep. -/
def value (targets : List (Nat × Node)) : Nat → Node → StateT Nat Option Value
  | depth, n => do
    match ← target targets n, depth with
    | .scalar p text style, _ => StateT.lift (Value.ofScalar? p.meaning text style)
    | .sequence p items, depth + 1 =>
      let vs ← items.mapM (value targets depth)
      return Value.ofCollection p.meaning (.seq vs)
    | .mapping p entries, depth + 1 =>
      let vs ← entries.mapM fun e => do
        return (← value targets depth e.1, ← value targets depth e.2)
      if Value.hasEqualKeys vs then
        failure
      return Value.ofCollection p.meaning (.map vs)
    | _, _ => failure

end Node

/-- The value of a document. Aliases are followed at most a hundred times as often as the document has
parts. -/
def Value.ofNode? (n : Node) : Option Value :=
  ((Node.value n.anchored.reverse Node.maxDepth n).run (100 * n.size)).map Prod.fst

/-- The value of a text with one document, or with none, which is null. -/
def Value.ofText? (s : String) : Option Value := do
  let ts ← tokens? s
  let n ← Node.ofTokens? ts
  Value.ofNode? n

end Regroup.Yaml
