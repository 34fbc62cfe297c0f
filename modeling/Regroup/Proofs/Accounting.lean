import Regroup.Proofs.Belonging
import Regroup.Proofs.Classification
import Regroup.Proofs.Forecast
import Regroup.Proofs.Repair

/-! The report of a run against what the run did. Every edge is counted once: it is rejected, or has
no place, or has to move, or is in its place. What a full run reports as written is what differs
between the tables, and what it reports as reserved is what the counters advanced by. -/

namespace Regroup

namespace ChangeSet

variable {s : Snapshot} {edges : List Edge} {f : EdgeFilter}

/-- Planned groups have no ids yet, so they are no one's place. -/
theorem groupId?_resolution_planMissing (groups : List Group) (memberships : List Membership)
    (owners : List Uid) (e : Edge) :
    (resolution ((Snapshot.build groups memberships).planMissing owners) e).groupId? =
      (resolution (Snapshot.build groups memberships) e).groupId? := by
  rw [resolution, resolution, Snapshot.resolve_planMissing_build, Snapshot.resolve_build]
  cases (explicitIds groups memberships e.owner e.counterpart).min? with
  | some id => rfl
  | none =>
    cases (defaultIds groups e.owner).min? with
    | some id => rfl
    | none => by_cases h : e.owner ∈ owners <;> simp [h, Resolution.groupId?]

theorem counts_add_up_of_belongsTo (groups : List Group) (memberships : List Membership)
    (owners : List Uid) (f : EdgeFilter) (edges : List Edge) {c : ChangeSet}
    (h : c = compute edges ((Snapshot.build groups memberships).planMissing owners) f) :
    c.filteredOut + c.unresolved.length + c.toUpdate + edges.countP (fun e => f.accepts e &&
      decide (BelongsTo groups memberships e e.currentGroup)) = edges.length := by
  rw [h, ← counts_add_up ((Snapshot.build groups memberships).planMissing owners) f edges]
  simp only [groupId?_resolution_planMissing, groupId?_resolution_iff]

end ChangeSet

theorem countP_zip_of_forall₂ {α β : Type} {R : α → β → Prop} {p : α → Bool} {q : α × β → Bool}
    {xs : List α} {ys : List β} (h : List.Forall₂ R xs ys) (hpq : ∀ x y, R x y → p x = q (x, y)) :
    xs.countP p = (xs.zip ys).countP q := by
  induction h with
  | nil => rfl
  | cons hxy _ ih => rw [List.zip_cons_cons, List.countP_cons, List.countP_cons, ih, hpq _ _ hxy]

/-- The block is there if there are rows, and then it is as long as they are many. -/
def BlockFor (block : Option VersionBlock) (rows : Nat) : Prop :=
  (block.isSome = true ↔ 0 < rows) ∧ ∀ b ∈ block, b.size = rows

namespace Memory

open Attempt

theorem Counters.blockFor (c : Counters) (counter : String) (n : Nat) :
    BlockFor (c.block? counter n) n := by
  unfold block? BlockFor
  by_cases hn : n = 0
  · simp [hn]
  · simp [hn, Nat.pos_of_ne_zero hn]

/-- What the report of any run says of the tables that the run finds and of the groups that it
resolves edges by. -/
structure Tallied (o : Options) (groups : List Group) (t : Tables) (r : Report) : Prop where
  committed : r.committed = !o.dryRun
  scanned : r.edgesScanned = t.edges.length
  rejected : r.edgesFilteredOut = t.edges.countP fun e => !o.filter.accepts e
  total : r.edgesFilteredOut + r.unresolved + r.toUpdate + t.edges.countP (fun e =>
    o.filter.accepts e && decide (BelongsTo groups t.memberships e e.currentGroup)) =
      r.edgesScanned
  missing : r.groupsMissing =
    {owner | o.provisioning.Selects t owner ∧ ownDefaults t.groups owner = ∅}.ncard
  existing : r.groupsExisting = {id | ∃ owner, o.provisioning.Selects t owner ∧
    id ∈ ownDefaults t.groups owner}.ncard

/-- The report of a full run against the tables and the counters before and after it. -/
structure Settles (o : Options) (w w' : World) (r : Report) : Prop where
  updated : r.updated = r.toUpdate
  edges : w'.store.tables.edges.map Edge.id = w.store.tables.edges.map Edge.id
  moved : r.updated = (w.store.tables.edges.zip w'.store.tables.edges).countP fun e =>
    e.1.currentGroup != e.2.currentGroup
  inserted : r.groupsInserted = r.groupsMissing
  refreshed : r.groupsRefreshed = r.groupsExisting
  insertBlock : BlockFor r.groupInsertBlock r.groupsInserted
  refreshBlock : BlockFor r.groupRefreshBlock r.groupsRefreshed
  edgeBlock : BlockFor r.edgeBlock r.updated
  order : ∀ b ∈ r.groupInsertBlock, ∀ b' ∈ r.groupRefreshBlock,
    ∀ v ∈ b.values, ∀ v' ∈ b'.values, v < v'
  edgeCounter : w'.counters.value o.counters.edge = w.counters.value o.counters.edge + r.updated
  groupCounter : w'.counters.value o.counters.group =
    w.counters.value o.counters.group + (r.groupsInserted + r.groupsRefreshed)
  otherCounters : ∀ counter, counter ≠ o.counters.edge → counter ≠ o.counters.group →
    w'.counters.value counter = w.counters.value counter

/-- A dry run reports that nothing was written, and nothing was. -/
structure Abstains (w w' : World) (r : Report) : Prop where
  counts : r.updated = 0 ∧ r.groupsInserted = 0 ∧ r.groupsRefreshed = 0
  blocks : r.groupInsertBlock = none ∧ r.groupRefreshBlock = none ∧ r.edgeBlock = none
  counters : w'.counters = w.counters
  tables : w'.store.tables = w.store.tables

namespace Course

variable {p : Course}

theorem length_missingOwners : p.plan.missingOwners.length =
    {owner | p.options.provisioning.Selects p.tables owner ∧
      ownDefaults p.tables.groups owner = ∅}.ncard := by
  have hset : {owner | p.options.provisioning.Selects p.tables owner ∧
      ownDefaults p.tables.groups owner = ∅} = {owner | owner ∈ p.plan.missingOwners} := by
    ext owner
    exact (mem_missingOwners.trans (and_congr_left' Provisioning.mem_owners)).symm
  have hnodup : p.plan.missingOwners.Nodup := (missingOwners_pairwise _ _).imp Std.ne_of_lt
  rw [hset, ncard_setOf_mem hnodup]

theorem length_existingGroups : p.plan.existingGroups.length =
    {id | ∃ owner, p.options.provisioning.Selects p.tables owner ∧
      id ∈ ownDefaults p.tables.groups owner}.ncard := by
  have hset : {id | ∃ owner, p.options.provisioning.Selects p.tables owner ∧
      id ∈ ownDefaults p.tables.groups owner} = {id | id ∈ p.plan.existingGroups} := by
    ext id
    refine Iff.trans ?_ mem_existingGroups.symm
    constructor
    · rintro ⟨owner, hselected, g, hg, hactive, rfl, hid⟩
      exact ⟨g, hg, ⟨hactive, Provisioning.mem_owners.mpr hselected⟩, hid⟩
    · rintro ⟨g, hg, ⟨hactive, hcand⟩, hid⟩
      exact ⟨g.owner, Provisioning.mem_owners.mp hcand, g, hg, hactive, rfl, hid⟩
  have hnodup : p.plan.existingGroups.Nodup := (existingGroups_pairwise _ _).imp Std.ne_of_lt
  rw [hset, ncard_setOf_mem hnodup]

theorem toUpdate_changes : p.changes.toUpdate = p.changes.changes.length := by
  have hawaiting : p.changes.awaitingDefault.length = 0 :=
    ChangeSet.length_awaitingDefault_build _ _
  rw [ChangeSet.toUpdate, hawaiting, Nat.add_zero]

theorem Fate.moved_iff {e e' : Edge} (h : p.Fate e e') :
    ((ChangeSet.change? p.snapshot e).isSome && p.options.filter.accepts e) =
      (e.currentGroup != e'.currentGroup) := by
  cases h with
  | kept hnone =>
    by_cases haccept : p.options.filter.accepts e = true
    · simp [hnone haccept]
    · simp [haccept]
  | moved v haccept hchange =>
    have hne := (ChangeSet.change?_eq_some hchange).2.2.2
    simp [haccept, hchange, Edge.currentGroup] at hne ⊢
    exact hne

theorem length_changes_published (hids : (p.tables.edges.map Edge.id).Nodup)
    (halone : p.strayEdge = none) : p.changes.changes.length =
      (p.tables.edges.zip p.published.edges).countP fun e =>
        e.1.currentGroup != e.2.currentGroup := by
  rw [changes, ChangeSet.length_changes, List.countP_filter]
  exact countP_zip_of_forall₂ (published_edges hids halone) fun _ _ h => h.moved_iff

theorem tallied (stamp : Stamp) (hfull : p.options.dryRun = false) :
    Tallied p.options p.published.groups p.tables (p.report stamp) where
  committed := by
    rw [hfull]
    rfl
  scanned := ChangeSet.scanned_compute ..
  rejected := ChangeSet.filteredOut_compute ..
  total := by
    rw [published_groups]
    exact (ChangeSet.counts_add_up_of_belongsTo _ _ [] _ _ rfl).trans
      (ChangeSet.scanned_compute ..).symm
  missing := length_missingOwners
  existing := length_existingGroups

theorem tallied_dry (stamp : Stamp) (hdry : p.options.dryRun = true) :
    Tallied p.options p.preview.1 p.tables (p.forecast stamp) where
  committed := by
    rw [hdry]
    rfl
  scanned := ChangeSet.scanned_compute ..
  rejected := ChangeSet.filteredOut_compute ..
  total := (ChangeSet.counts_add_up_of_belongsTo _ _ _ _ _ rfl).trans
    (ChangeSet.scanned_compute ..).symm
  missing := length_missingOwners
  existing := length_existingGroups

/-- Inserted rows draw on the counter before refreshed ones do. -/
theorem inserted_lt_refreshed {v v' : Int}
    (h : v ∈ p.counters.fresh p.options.counters.group p.plan.missingOwners.length)
    (h' : v' ∈ p.afterInserts.fresh p.options.counters.group p.plan.existingGroups.length) :
    v < v' := by
  have hhigh := (Counters.fresh_range _ _ _ v h).2
  have hlow := (Counters.mem_fresh h').1
  rw [afterInserts] at hlow
  omega

section Spent

variable (h : p.options.counters.edge ≠ p.options.counters.group)

include h

theorem value_spent_edge : p.spent.value p.options.counters.edge =
    p.counters.value p.options.counters.edge + p.changes.changes.length := by
  rw [spent, Counters.value_grant, if_pos rfl, value_afterRefreshes_of_ne h]

theorem value_spent_group : p.spent.value p.options.counters.group =
    p.counters.value p.options.counters.group +
      (p.plan.missingOwners.length + p.plan.existingGroups.length) := by
  rw [spent, Counters.value_grant, if_neg h.symm, afterRefreshes, Counters.value_grant, if_pos rfl,
    afterInserts, Counters.value_grant, if_pos rfl, Int.add_assoc]

end Spent

theorem value_spent_of_ne {counter : String} (hedge : counter ≠ p.options.counters.edge)
    (hgroup : counter ≠ p.options.counters.group) :
    p.spent.value counter = p.counters.value counter := by
  rw [spent, Counters.value_grant, if_neg hedge, value_afterRefreshes_of_ne hgroup]

end Course

theorem Counters.mem_values_block? {c : Counters} {counter : String} {n : Nat} {b : VersionBlock}
    (hb : b ∈ c.block? counter n) {v : Int} (hv : v ∈ b.values) : v ∈ c.fresh counter n := by
  have hblock : c.block? counter n = some b := hb
  unfold block? at hblock
  split at hblock
  · cases hblock
  · rw [← Option.some.inj hblock, values_block] at hv
    exact hv

variable {o : Options} {stamp : Stamp} {w w' : World} {r : Report}

theorem full_run_settles (hfull : o.dryRun = false) (hcounters : o.counters.edge ≠ o.counters.group)
    (hids : (w.store.tables.edges.map Edge.id).Nodup) (halone : w.store.interfereWith = none)
    (hrun : (reconcile service o stamp).outcome w = (.ok r, w')) : Settles o w w' r := by
  obtain ⟨rfl, hspent, hstore, -⟩ := reconcile_eq_ok hfull hrun
  have htables : w'.store.tables = (w.course o).published := by rw [hstore]
  have hedges := @Course.published_edges (w.course o) hids halone
  constructor
  case updated => exact Course.toUpdate_changes.symm
  case edges =>
    have hsame := hedges.imp fun _ _ h => h.keeps.1.symm
    rw [htables, eq_comm, ← List.forall₂_eq_eq_eq, List.forall₂_map_left_iff,
      List.forall₂_map_right_iff]
    exact hsame
  case moved =>
    rw [htables]
    exact Course.length_changes_published hids halone
  case inserted => rfl
  case refreshed => rfl
  case insertBlock => exact Counters.blockFor _ _ _
  case refreshBlock => exact Counters.blockFor _ _ _
  case edgeBlock => exact Counters.blockFor _ _ _
  case order =>
    intro b hb b' hb' v hv v' hv'
    exact Course.inserted_lt_refreshed (Counters.mem_values_block? hb hv)
      (Counters.mem_values_block? hb' hv')
  case edgeCounter =>
    rw [hspent]
    exact Course.value_spent_edge hcounters
  case groupCounter =>
    rw [hspent]
    exact Course.value_spent_group hcounters
  case otherCounters =>
    intro counter hedge hgroup
    rw [hspent]
    exact Course.value_spent_of_ne hedge hgroup

/-- The report of a run that no one disturbs tells what the run found and what it did. Edges are in
their place by the groups that a full run commits, and by those that a dry run foresees. -/
theorem report_tells_truth (hcounters : o.counters.edge ≠ o.counters.group)
    (hids : (w.store.tables.edges.map Edge.id).Nodup) (halone : w.store.interfereWith = none)
    (hrun : (reconcile service o stamp).outcome w = (.ok r, w')) :
    Tallied o (if o.dryRun then (w.course o).preview.1 else w'.store.tables.groups)
      w.store.tables r ∧
    (o.dryRun = false → Settles o w w' r) ∧ (o.dryRun = true → Abstains w w' r) := by
  by_cases hdry : o.dryRun = true
  · obtain ⟨rfl, rfl⟩ := reconcile_dry_eq_ok hdry hrun
    rw [if_pos hdry]
    refine ⟨@Course.tallied_dry (w.course o) stamp hdry, fun hfull => ?_, fun _ => ?_⟩
    · simp [hdry] at hfull
    · exact ⟨⟨rfl, rfl, rfl⟩, ⟨rfl, rfl, rfl⟩, rfl, rfl⟩
  · have hfull : o.dryRun = false := by simpa using hdry
    obtain ⟨hr, -, hstore, -⟩ := reconcile_eq_ok hfull hrun
    have htallied := @Course.tallied (w.course o) stamp hfull
    rw [← hr] at htallied
    rw [if_neg hdry, hstore]
    refine ⟨htallied, fun _ => full_run_settles hfull hcounters hids halone hrun, fun h => ?_⟩
    exact absurd h hdry

/-- One edge is in its place, one has to move, one has no place and one is excluded. -/
def assorted : World :=
  { store := .ofTables
      { users := ["ada", "cyd"]
        groups := [.new 1 "ada" "home" true]
        edges := [(Edge.new 1 "ada" "bob").inGroup 1, .new 2 "ada" "eve", .new 3 "dan" "ada",
          .new 4 "ada" "fileHelper"] } }

def registered (dryRun : Bool) : Options :=
  { dryRun, provisioning := .seed .registry, filter := { excluded := ["fileHelper"] } }

theorem report_tells_truth_assorted :
    (∃ r w', (reconcile service (registered true) default).outcome assorted = (.ok r, w') ∧
      Tallied (registered true) (assorted.course (registered true)).preview.1
        assorted.store.tables r ∧ Abstains assorted w' r) ∧
    ∃ r w', (reconcile service (registered false) default).outcome assorted = (.ok r, w') ∧
      r.edgesFilteredOut = 1 ∧ r.unresolved = 1 ∧ r.updated = 1 ∧ r.groupsInserted = 1 ∧
      Tallied (registered false) w'.store.tables.groups assorted.store.tables r ∧
      Settles (registered false) assorted w' r := by
  obtain ⟨dry, hdry⟩ :=
    @exists_eq_ok _ _ (reconcile service (registered true) default) assorted (by cbv)
  obtain ⟨full, hfull⟩ :=
    @exists_eq_ok _ _ (reconcile service (registered false) default) assorted (by cbv)
  obtain ⟨htallied, -, habstains⟩ := report_tells_truth (by decide) (by decide) rfl hdry
  obtain ⟨htallied', hsettles, -⟩ := report_tells_truth (by decide) (by decide) rfl hfull
  have hcounts : full.edgesFilteredOut = 1 ∧ full.unresolved = 1 ∧ full.updated = 1 ∧
      full.groupsInserted = 1 := by
    rw [(reconcile_eq_ok rfl hfull).1]
    exact ⟨by cbv, by cbv, by cbv, by cbv⟩
  obtain ⟨hfiltered, hunresolved, hupdated, hinserted⟩ := hcounts
  exact ⟨⟨dry, _, hdry, htallied, habstains rfl⟩, full, _, hfull, hfiltered, hunresolved, hupdated,
    hinserted, htallied', hsettles rfl⟩

end Memory

end Regroup
