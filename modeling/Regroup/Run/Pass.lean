import Regroup.Run.Report
import Regroup.Run.Request

/-!
One reconciliation pass. A full run provisions default groups, compares edges with the groups they
belong to, writes the difference and commits. A dry run reads the same and rolls back; it reserves
and writes nothing. Whatever fails on the way, the unit of work is rolled back.
-/

namespace Regroup

variable {σ : Type}

/-- Owners from the sources that the strategy reads. -/
def seedOwners (s : Service σ) (strategy : SeedStrategy) : Attempt σ (List Uid) := do
  let edgeOwners ←
    if strategy.readsEdges then (s.perform .edgeOwners).within (.step .seedFromEdges) else pure []
  let registry ←
    if strategy.readsRegistry then (s.perform .registryOwners).within (.step .seedFromRegistry)
    else pure []
  return strategy.candidates edgeOwners registry

/-- New and revived default groups for the owners that have none. -/
def insertGroups (s : Service σ) (o : Options) (plan : ProvisionPlan) (r : Report) :
    Attempt σ Report := do
  match ← (s.reserveBlock o.counters.group plan.missingOwners.length).within (.step .insertVersions)
  with
  | none => return r
  | some block =>
    let rows ← Attempt.ofBlock (plan.inserts block)
    let n ← (s.perform (.upsertDefaultGroups o.defaultGroupName rows)).within (.step .insertGroups)
    Attempt.ofCheck (ApplyMismatch.check .groupInsert rows.length n)
    return { r with groupsInserted := n, groupInsertBlock := some block }

/-- New versions for the default groups that exist. -/
def refreshGroups (s : Service σ) (o : Options) (plan : ProvisionPlan) (r : Report) :
    Attempt σ Report := do
  match ← (s.reserveBlock o.counters.group plan.existingGroups.length).within
    (.step .refreshVersions) with
  | none => return r
  | some block =>
    let rows ← Attempt.ofBlock (plan.refreshes block)
    let n ← (s.perform (.refreshDefaultGroups rows)).within (.step .refreshGroups)
    Attempt.ofCheck (ApplyMismatch.check .groupRefresh rows.length n)
    return { r with groupsRefreshed := n, groupRefreshBlock := some block }

/-- Plans the default groups of the candidates and, in a full run, writes them. -/
def provision (s : Service σ) (o : Options) (strategy : SeedStrategy) (r : Report) :
    Attempt σ (ProvisionPlan × Report) := do
  let candidates ← seedOwners s strategy
  let groups ← (s.perform .loadGroups).within (.step .loadGroups)
  let plan := ProvisionPlan.build candidates groups
  let r :=
    { r with
      candidateOwners := candidates.length
      groupsMissing := plan.missingOwners.length
      groupsExisting := plan.existingGroups.length }
  if o.dryRun then
    return (plan, r)
  let r ← insertGroups s o plan r
  let r ← refreshGroups s o plan r
  return (plan, r)

/-- The snapshot that edges are resolved in. A dry run has persisted nothing, so it reads the groups
as provisioning would leave them. -/
def snapshotOf (o : Options) (plan : ProvisionPlan) (groups : List Group)
    (memberships : List Membership) : Snapshot :=
  if o.dryRun then
    let (preview, brandNew) := plan.preview o.defaultGroupName groups
    (Snapshot.build preview memberships).planMissing brandNew
  else Snapshot.build groups memberships

/-- Reads the tables after provisioning and computes what has to change. -/
def findChanges (s : Service σ) (o : Options) (plan : ProvisionPlan) : Attempt σ ChangeSet := do
  let groups ← (s.perform .loadGroups).within (.phaseStep .snapshotBuild .loadGroups)
  let memberships ← (s.perform .loadMemberships).within (.phaseStep .snapshotBuild .loadMemberships)
  let edges ← (s.perform .loadEdges).within (.phaseStep .snapshotBuild .loadEdges)
  return ChangeSet.compute edges (snapshotOf o plan groups memberships) o.filter

/-- Moves the edges of a change set, under versions of their own. -/
def applyChanges (s : Service σ) (o : Options) (changes : ChangeSet) (r : Report) :
    Attempt σ Report := do
  match ← (s.reserveBlock o.counters.edge changes.changes.length).within
    (.phaseStep .versionAllocate .edgeVersions) with
  | none => return r
  | some block =>
    let rows ← (Attempt.ofBlock (changes.writes block)).within (.phase .versionAllocate)
    let n ← (s.perform (.applyEdgeUpdates rows)).within (.phase .apply)
    (Attempt.ofCheck (ApplyMismatch.check .edgeUpdate rows.length n)).within (.phase .apply)
    return { r with edgeBlock := some block, updated := n }

/-- Everything between the beginning of the unit of work and its end. -/
def drive (s : Service σ) (o : Options) (r : Report) : Attempt σ Report := do
  let (plan, r) ← match o.provisioning with
    | .skip => pure ({}, r)
    | .seed strategy => (provision s o strategy r).within (.phase .provisionGroups)
  let changes ← findChanges s o plan
  let r :=
    { r with
      edgesScanned := changes.scanned
      edgesFilteredOut := changes.filteredOut
      toUpdate := changes.toUpdate
      unresolved := changes.unresolved.length
      awaitingDefault := changes.awaitingDefault.length }
  if o.dryRun then
    return r
  applyChanges s o changes r

/-- Ends the unit of work: a dry run rolls back, a full run commits. -/
def finish (s : Service σ) (o : Options) (r : Report) : Attempt σ Report := do
  if o.dryRun then
    (s.perform .rollback).within (.phase .dryRunExit)
    return r
  else
    (s.perform .commit).within (.phase .commit)
    return { r with committed := true }

/-- One pass. -/
def reconcile (s : Service σ) (o : Options) (stamp : Stamp) : Attempt σ Report := do
  (s.perform (.begin o.lockWait)).within (.phase .begin)
  let r ← (drive s o (Report.start stamp o)).orElseUndo (s.perform .rollback)
  let r ← finish s o r
  return { r with finishedAt := some stamp.finishedAt }

end Regroup
