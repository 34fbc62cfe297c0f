import Regroup.Json.Value

/-!
The scalar leaves of a JSON value and the pointers that name them. A pointer writes each step after
a slash; a tilde or a slash in a name is escaped.
-/

namespace Regroup.Json

/-- One step from a value into a part of it. -/
inductive Step where
  | field (name : String)
  | index (i : Nat)
  deriving DecidableEq, Repr

/-- A scalar and the way to it from the root. -/
structure Leaf where
  path : List Step
  value : Json

mutual

/-- The leaves under a path: items by index, fields in the order in which they are kept. -/
def leavesAt (path : List Step) : Json → List Leaf
  | .null => [⟨path, .null⟩]
  | .bool b => [⟨path, .bool b⟩]
  | .int n => [⟨path, .int n⟩]
  | .float d => [⟨path, .float d⟩]
  | .str s => [⟨path, .str s⟩]
  | .arr items => itemLeaves path 0 items
  | .obj fields => fieldLeaves path fields

def itemLeaves (path : List Step) (i : Nat) : List Json → List Leaf
  | [] => []
  | v :: rest => leavesAt (path ++ [.index i]) v ++ itemLeaves path (i + 1) rest

def fieldLeaves (path : List Step) : List (String × Json) → List Leaf
  | [] => []
  | (name, v) :: rest => leavesAt (path ++ [.field name]) v ++ fieldLeaves path rest

end

def leaves (v : Json) : List Leaf := leavesAt [] v

def escapeName (name : List Char) : List Char :=
  name.flatMap fun c => if c = '~' then ['~', '0'] else if c = '/' then ['~', '1'] else [c]

def Step.chars : Step → List Char
  | .field name => escapeName name.toList
  | .index i => (toString i).toList

/-- The pointer to a part; the root has the pointer of one slash. -/
def pointer (path : List Step) : String :=
  if path.isEmpty then "/" else String.ofList (path.flatMap fun s => '/' :: s.chars)

def Leaf.pointer (l : Leaf) : String := Json.pointer l.path

end Regroup.Json
