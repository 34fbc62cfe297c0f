import Regroup.Ascending
import Regroup.ChangeSet
import Regroup.Provision
import Regroup.Version.Block

/-!
Versions for rows. Rows are taken in ascending order of their keys and receive the versions of a
block of exactly their number in order.
-/

namespace Regroup

/-- The rows in key order, each with its version. -/
def assignVersions {α κ : Type} [LE κ] [DecidableLE κ] [DecidableEq κ] (key : α → κ)
    (rows : List α) (block : VersionBlock) : Except BlockError (List (α × Int)) :=
  if rows.length ≠ block.size then .error (.sizeMismatch rows.length block.size)
  else
    let sorted := sortOn key rows
    if hasRepeat (sorted.map key) then .error .duplicateKey else .ok (sorted.zip block.values)

/-- An update of an edge that lands only while the edge is still in the group it was seen in. -/
structure EdgeWrite where
  edgeId : EdgeId
  expected : GroupId
  target : GroupId
  version : Int
  deriving DecidableEq, Repr, Inhabited

/-- A default group for an owner, new or revived. -/
structure GroupInsert where
  owner : Uid
  version : Int
  deriving DecidableEq, Repr, Inhabited

structure GroupRefresh where
  groupId : GroupId
  version : Int
  deriving DecidableEq, Repr, Inhabited

/-- Edges that await a default group have no target to write. -/
def ChangeSet.writes (c : ChangeSet) (block : VersionBlock) : Except BlockError (List EdgeWrite) :=
  if c.awaitingDefault.isEmpty then
    (assignVersions EdgeChange.edgeId c.changes block).map fun rows =>
      rows.map fun r => ⟨r.1.edgeId, r.1.current, r.1.target, r.2⟩
  else .error (.sizeMismatch c.toUpdate block.size)

def ProvisionPlan.inserts (p : ProvisionPlan) (block : VersionBlock) :
    Except BlockError (List GroupInsert) :=
  (assignVersions id p.missingOwners block).map fun rows => rows.map fun r => ⟨r.1, r.2⟩

def ProvisionPlan.refreshes (p : ProvisionPlan) (block : VersionBlock) :
    Except BlockError (List GroupRefresh) :=
  (assignVersions id p.existingGroups block).map fun rows => rows.map fun r => ⟨r.1, r.2⟩

/-- The write is for this edge as it stands. -/
def EdgeWrite.matchesEdge (w : EdgeWrite) (e : Edge) : Bool :=
  e.id == w.edgeId && e.currentGroup == w.expected

def EdgeWrite.applyTo (w : EdgeWrite) (e : Edge) : Edge :=
  { e with groupId := some w.target, version := some w.version }

/-- Every edge that a write is for takes it, one write after the other. -/
def EdgeWrite.applyAll (writes : List EdgeWrite) (edges : List Edge) : List Edge :=
  writes.foldl (fun es w => es.map fun e => if w.matchesEdge e then w.applyTo e else e) edges

end Regroup
