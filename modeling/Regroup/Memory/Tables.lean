import Regroup.Ascending
import Regroup.Version.Assign

/-!
The tables of a store as lists of rows, with the writes of a pass on them. A write finds the first
row that it is for.
-/

namespace Regroup

structure Tables where
  users : List Uid := []
  groups : List Group := []
  memberships : List Membership := []
  edges : List Edge := []
  deriving DecidableEq, Repr, Inhabited

namespace Tables

def edgeById? (t : Tables) (id : EdgeId) : Option Edge := t.edges.find? (·.id == id)

def groupById? (t : Tables) (id : GroupId) : Option Group := t.groups.find? (·.id == id)

def groupNamed? (t : Tables) (owner : Uid) (name : String) : Option Group :=
  t.groups.find? (Group.holds owner name)

/-- The set of owners of edges. -/
def edgeOwners (t : Tables) : List Uid := ascending (t.edges.map Edge.owner)

/-- The set of registered users. -/
def registryOwners (t : Tables) : List Uid := ascending t.users

/-- The id that the next new group receives. When the last signed word is taken it lies beyond the
range, and no group is kept under it. -/
def nextGroupId (groups : List Group) : GroupId := (groups.map Group.id).max?.getD 0 + 1

/-- A default group for an owner: the row that holds the name is revived, else a row is added. -/
def upsertGroup (name : String) (groups : List Group) (row : GroupInsert) : List Group :=
  if groups.any (Group.holds row.owner name) then
    modifyFirst (Group.holds row.owner name) (Group.stamp row.version) groups
  else groups ++ [(Group.new (nextGroupId groups) row.owner name true).stamp row.version]

/-- Every row counts as touched. -/
def upsertGroups (name : String) (rows : List GroupInsert) (t : Tables) : Nat × Tables :=
  (rows.length, { t with groups := rows.foldl (upsertGroup name) t.groups })

/-- The ids of all groups are signed words. -/
def idsFit (t : Tables) : Bool := t.groups.all fun g => Word.IsSigned g.id

theorem idsFit_iff {t : Tables} : t.idsFit = true ↔ ∀ g ∈ t.groups, Word.IsSigned g.id := by
  simp [idsFit]

def refreshGroup (state : Nat × List Group) (row : GroupRefresh) : Nat × List Group :=
  if state.2.any (·.id == row.groupId) then
    (state.1 + 1, modifyFirst (·.id == row.groupId) (Group.stamp row.version) state.2)
  else state

/-- A row of an unknown group touches nothing. -/
def refreshGroups (rows : List GroupRefresh) (t : Tables) : Nat × Tables :=
  let (n, groups) := rows.foldl refreshGroup (0, t.groups)
  (n, { t with groups })

def applyEdge (state : Nat × List Edge) (row : EdgeWrite) : Nat × List Edge :=
  if state.2.any row.matchesEdge then
    (state.1 + 1, modifyFirst row.matchesEdge row.applyTo state.2)
  else state

/-- A row whose edge is gone or has moved touches nothing. -/
def applyEdges (rows : List EdgeWrite) (t : Tables) : Nat × Tables :=
  let (n, edges) := rows.foldl applyEdge (0, t.edges)
  (n, { t with edges })

/-- How far a concurrent writer moves an edge. -/
def strayOffset : GroupId := 1000000

/-- A concurrent writer moves one edge to a group that no one expects. At the end of the range the
id comes round. -/
def stray (id : EdgeId) (t : Tables) : Tables :=
  { t with
    edges := modifyFirst (·.id == id)
      (fun e => { e with groupId := some (Word.wrap (e.currentGroup + strayOffset)) }) t.edges }

end Tables

end Regroup
