import Regroup.Ascending
import Regroup.Row

/-!
Where the owners come from that must have a default group: the owners of edges, the registered
users, or both.
-/

namespace Regroup

inductive SeedStrategy where
  | edges
  | registry
  | union
  deriving DecidableEq, Repr, Inhabited

namespace SeedStrategy

def name : SeedStrategy → String
  | .edges => "edges"
  | .registry => "registry"
  | .union => "union"

def every : List SeedStrategy := [.edges, .registry, .union]

def ofName? (s : String) : Option SeedStrategy := every.find? (·.name == s)

def readsEdges : SeedStrategy → Bool
  | .edges | .union => true
  | .registry => false

def readsRegistry : SeedStrategy → Bool
  | .registry | .union => true
  | .edges => false

/-- The set of owners that the strategy selects; a source it does not read is ignored. -/
def candidates (s : SeedStrategy) (edgeOwners registry : List Uid) : List Uid :=
  ascending ((if s.readsEdges then edgeOwners else []) ++ (if s.readsRegistry then registry else []))

end SeedStrategy

end Regroup
