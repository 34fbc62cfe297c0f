import Regroup.Ascending
import Regroup.EdgeFilter
import Regroup.Snapshot

/-!
The difference between the groups that edges are stored with and the groups that a snapshot resolves
them to.
-/

namespace Regroup

/-- An edge whose stored group is not the one it belongs to. -/
structure EdgeChange where
  edgeId : EdgeId
  owner : Uid
  counterpart : Uid
  current : GroupId
  target : GroupId
  viaMembership : Bool
  deriving DecidableEq, Repr, Inhabited

structure ChangeSet where
  /-- In ascending order of edge ids. -/
  changes : List EdgeChange := []
  /-- Edges that belong to a default group that does not exist yet. -/
  awaitingDefault : List EdgeId := []
  /-- Edges that belong nowhere and stay as they are. -/
  unresolved : List EdgeId := []
  filteredOut : Nat := 0
  scanned : Nat := 0
  deriving DecidableEq, Repr, Inhabited

namespace ChangeSet

def resolution (s : Snapshot) (e : Edge) : Resolution := s.resolve e.owner e.counterpart

/-- The change that moves an edge to its group, if it has to move. -/
def change? (s : Snapshot) (e : Edge) : Option EdgeChange :=
  let moveTo (target : GroupId) (viaMembership : Bool) : Option EdgeChange :=
    if e.currentGroup = target then none
    else some ⟨e.id, e.owner, e.counterpart, e.currentGroup, target, viaMembership⟩
  match resolution s e with
  | .membership id => moveTo id true
  | .defaultGroup id => moveTo id false
  | .pendingDefault => none
  | .unresolved => none

/-- The change set after one more edge was looked at. -/
def look (s : Snapshot) (f : EdgeFilter) (c : ChangeSet) (e : Edge) : ChangeSet :=
  let seen := { c with scanned := c.scanned + 1 }
  if f.accepts e then
    match resolution s e with
    | .pendingDefault => { seen with awaitingDefault := c.awaitingDefault ++ [e.id] }
    | .unresolved => { seen with unresolved := c.unresolved ++ [e.id] }
    | .membership _ | .defaultGroup _ =>
      { seen with changes := c.changes ++ (change? s e).toList }
  else { seen with filteredOut := c.filteredOut + 1 }

def sorted (c : ChangeSet) : ChangeSet :=
  { c with
    changes := sortOn EdgeChange.edgeId c.changes
    awaitingDefault := sortOn id c.awaitingDefault
    unresolved := sortOn id c.unresolved }

/-- One pass over the edges. -/
def compute (edges : List Edge) (s : Snapshot) (f : EdgeFilter) : ChangeSet :=
  (edges.foldl (look s f) {}).sorted

/-- The number of edges that a full pass writes. -/
def toUpdate (c : ChangeSet) : Nat := c.changes.length + c.awaitingDefault.length

def isEmpty (c : ChangeSet) : Bool := c.toUpdate == 0

end ChangeSet

end Regroup
