import Regroup.Dictionary
import Regroup.Duration
import Regroup.Memory.Tables
import Regroup.Run.Failure

/-!
A store in memory. A unit of work has a private copy of the tables, which a commit publishes and a
roll-back drops. Failures and a concurrent writer can be rehearsed; a unit of work keeps those that
were set when it began.
-/

namespace Regroup.Memory

structure Store where
  tables : Tables := {}
  commits : Nat := 0
  rollbacks : Nat := 0
  failAt : Option FailPoint := none
  /-- An edge that a concurrent writer moves right before edges are written. -/
  interfereWith : Option EdgeId := none
  /-- The bounds on lock waits of all beginnings, in order. -/
  lockWaits : List (Option Duration) := []
  deriving DecidableEq, Repr, Inhabited

/-- A unit of work. -/
structure Work where
  tables : Tables
  failAt : Option FailPoint
  interfereWith : Option EdgeId
  deriving DecidableEq, Repr, Inhabited

/-- Fails when the point is the one where a failure is rehearsed. -/
def checkPoint {σ : Type} (failAt : Option FailPoint) (point : FailPoint) : Attempt σ Unit :=
  if failAt = some point then Attempt.fail (.rehearsed point) else pure ()

namespace Work

def edgeOwners : Attempt Work (List Uid) := do return (← get).tables.edgeOwners

def registryOwners : Attempt Work (List Uid) := do return (← get).tables.registryOwners

def loadGroups : Attempt Work (List Group) := do return (← get).tables.groups

def loadMemberships : Attempt Work (List Membership) := do return (← get).tables.memberships

def loadEdges : Attempt Work (List Edge) := do
  checkPoint (← get).failAt .loadEdges
  return (← get).tables.edges

/-- Replaces the working copy by the outcome of a write and answers with the rows it touched. -/
def write (f : Tables → Nat × Tables) : Attempt Work Nat :=
  modifyGet fun w => ((f w.tables).1, { w with tables := (f w.tables).2 })

/-- Writes nothing when a new group would get an id that is no signed word. -/
def upsertDefaultGroups (name : String) (rows : List GroupInsert) : Attempt Work Nat := do
  checkPoint (← get).failAt .upsertGroups
  if (Tables.upsertGroups name rows (← get).tables).2.idsFit then
    write (Tables.upsertGroups name rows)
  else Attempt.fail .groupIdsExhausted

def refreshDefaultGroups (rows : List GroupRefresh) : Attempt Work Nat := do
  checkPoint (← get).failAt .refreshGroups
  write (Tables.refreshGroups rows)

def applyEdgeUpdates (rows : List EdgeWrite) : Attempt Work Nat := do
  checkPoint (← get).failAt .applyEdges
  let interfered (w : Work) : Tables → Tables :=
    match w.interfereWith with
    | some id => Tables.stray id
    | none => id
  let w ← get
  write fun t => Tables.applyEdges rows (interfered w t)

end Work

namespace Store

def ofTables (t : Tables) : Store := { tables := t }

/-- The wait is recorded even when the beginning fails. -/
def begin (lockWait : Option Duration) : Attempt Store Work := do
  modify fun s => { s with lockWaits := s.lockWaits ++ [lockWait] }
  let s ← get
  checkPoint s.failAt .begin
  return ⟨s.tables, s.failAt, s.interfereWith⟩

/-- Publishes a working copy. A failed commit changes nothing. -/
def commit (w : Work) : Attempt Store Unit := do
  checkPoint w.failAt .commit
  modify fun s => { s with tables := w.tables, commits := s.commits + 1 }

def rollback : Attempt Store Unit := modify fun s => { s with rollbacks := s.rollbacks + 1 }

end Store

/-- A store and the units of work that are open on it, by name. -/
structure Sessions where
  store : Store
  works : Dictionary String Work := .empty
  deriving Inhabited

namespace Sessions

/-- Takes the place of a unit of work that is open under the name already. -/
def begin (name : String) (lockWait : Option Duration) : Attempt Sessions Unit := do
  let w ← Attempt.zoom Sessions.store (fun s t => { s with store := t }) (Store.begin lockWait)
  modify fun s => { s with works := s.works.insert name w }

def find (name : String) : Attempt Sessions Work := do
  match (← get).works.get? name with
  | some w => return w
  | none => Attempt.fail (.noUnitOfWork name)

/-- Runs a step in an open unit of work. -/
def use {α : Type} (name : String) (x : Attempt Work α) : Attempt Sessions α := do
  let w ← find name
  Attempt.zoom (fun _ => w) (fun s v => { s with works := s.works.insert name v }) x

/-- Ends a unit of work, whether or not that succeeds. -/
def finish (name : String) (x : Work → Attempt Store Unit) : Attempt Sessions Unit := do
  let w ← find name
  modify fun s => { s with works := s.works.erase name }
  Attempt.zoom Sessions.store (fun s t => { s with store := t }) (x w)

def commit (name : String) : Attempt Sessions Unit := finish name Store.commit

def rollback (name : String) : Attempt Sessions Unit := finish name fun _ => Store.rollback

end Sessions

end Regroup.Memory
