import Regroup.Database.Server

/-!
A store on a database. A unit of work is a transaction that sees one state of the tables, on a
connection of its own; once the connection is gone, nothing more is sent.
-/

namespace Regroup.Database

/-- A connection to a server. -/
structure Connection where
  server : Server
  lost : Bool := false
  deriving Inhabited

namespace Connection

/-- Sends a statement. -/
def send (op : Operation) (st : Statement) : Attempt Connection Outcome := do
  if (← get).lost then
    Attempt.fail (.statement op .connectivity)
  else
    let (answer, server) := (Server.receive st).run (← get).server
    modify fun c => { c with server }
    match answer with
    | .outcome o => return o
    | .error t => Attempt.fail (.statement op (.classify t))
    | .closed | .silence =>
      modify fun c => { c with lost := true }
      Attempt.fail (.statement op .connectivity)

/-- Reads rows. A row that is not as it should be cannot be used. -/
def select {α : Type} (op : Operation) (st : Statement) (read : List Cell → Option α) :
    Attempt Connection (List α) := do
  let o ← send op st
  match o.rows.mapM read with
  | some rows => return rows
  | none => Attempt.fail (.statement op (.classify .unusable))

def ownerOf? : List Cell → Option Uid
  | uid :: _ => uid.text?
  | [] => none

def groupOf? : List Cell → Option Group
  | id :: owner :: name :: isDefault :: isDeleted :: version :: _ => do
    return {
      id := ← id.int?
      owner := ← owner.text?
      name := ← name.text?
      isDefault := ← isDefault.bool?
      isDeleted := ← Cell.nullable Cell.bool? isDeleted
      version := ← Cell.nullable Cell.int? version }
  | _ => none

def membershipOf? : List Cell → Option Membership
  | groupId :: owner :: counterpart :: isDeleted :: _ => do
    return {
      groupId := ← groupId.int?
      owner := ← owner.text?
      counterpart := ← counterpart.text?
      isDeleted := ← Cell.nullable Cell.bool? isDeleted }
  | _ => none

def edgeOf? : List Cell → Option Edge
  | id :: owner :: counterpart :: groupId :: isDeleted :: version :: _ => do
    return {
      id := ← id.int?
      owner := ← owner.text?
      counterpart := ← counterpart.text?
      groupId := ← Cell.nullable Cell.int? groupId
      isDeleted := ← Cell.nullable Cell.bool? isDeleted
      version := ← Cell.nullable Cell.int? version }
  | _ => none

/-- Opens a transaction. The isolation level must be the first thing in it. -/
def begin (lockWait : Option Duration) : Attempt Connection Unit := do
  let _ ← send .beginTransaction .begin
  let _ ← send .setIsolation .isolation
  if let some wait := lockWait then
    let _ ← send .setLockTimeout (.lockTimeout wait)

def edgeOwners : Attempt Connection (List Uid) := select .selectEdgeOwners .edgeOwners ownerOf?

def registryOwners : Attempt Connection (List Uid) := select .selectUsers .registryOwners ownerOf?

def loadGroups : Attempt Connection (List Group) := select .selectGroups .groups groupOf?

def loadMemberships : Attempt Connection (List Membership) :=
  select .selectMemberships .memberships membershipOf?

def loadEdges : Attempt Connection (List Edge) := select .selectEdges .edges edgeOf?

/-- Writes rows. For no rows nothing is sent. -/
def write {α : Type} (op : Operation) (st : List α → Statement) (rows : List α) :
    Attempt Connection Nat := do
  if rows.isEmpty then
    return 0
  return (← send op (st rows)).affected

def upsertDefaultGroups (name : String) (rows : List GroupInsert) : Attempt Connection Nat :=
  write .upsertGroups (Statement.upsertGroups name) rows

def refreshDefaultGroups (rows : List GroupRefresh) : Attempt Connection Nat :=
  write .refreshGroups Statement.refreshGroups rows

def applyEdgeUpdates (rows : List EdgeWrite) : Attempt Connection Nat :=
  write .updateEdges Statement.updateEdges rows

def commit : Attempt Connection Unit :=
  Attempt.within (.step .endTransaction) do
    let _ ← send .commit .commit

def rollback : Attempt Connection Unit := do
  let _ ← send .rollback .rollback

end Connection

/-- A server and the units of work that are open on it, by name, each with whether its connection is
lost. -/
structure Sessions where
  server : Server
  works : Dictionary String Bool := .empty
  deriving Inhabited

namespace Sessions

/-- A step on the server, outside of all units of work. -/
def onServer {α : Type} (x : Attempt Server α) : Attempt Sessions α :=
  Attempt.zoom Sessions.server (fun s server => { s with server }) x

/-- Takes the place of a unit of work that is open under the name already. -/
def begin (name : String) (lockWait : Option Duration) : Attempt Sessions Unit := do
  Attempt.zoom (fun s => Connection.mk s.server false) (fun s c => { s with server := c.server })
    (Connection.begin lockWait)
  modify fun s => { s with works := s.works.insert name false }

def find (name : String) : Attempt Sessions Bool := do
  match (← get).works.get? name with
  | some lost => return lost
  | none => Attempt.fail (.noUnitOfWork name)

/-- Runs a step in an open unit of work. -/
def use {α : Type} (name : String) (x : Attempt Connection α) : Attempt Sessions α := do
  let lost ← find name
  Attempt.zoom (fun s => Connection.mk s.server lost)
    (fun s c => { s with server := c.server, works := s.works.insert name c.lost }) x

/-- Ends a unit of work, whether or not that succeeds. -/
def finish (name : String) (x : Attempt Connection Unit) : Attempt Sessions Unit := do
  let lost ← find name
  modify fun s => { s with works := s.works.erase name }
  Attempt.zoom (fun s => Connection.mk s.server lost) (fun s c => { s with server := c.server }) x

def commit (name : String) : Attempt Sessions Unit := finish name Connection.commit

def rollback (name : String) : Attempt Sessions Unit := finish name Connection.rollback

end Sessions

end Regroup.Database
