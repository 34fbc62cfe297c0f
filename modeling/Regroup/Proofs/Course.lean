import Regroup.Proofs.ChangeSet
import Regroup.Proofs.MemoryWorld
import Regroup.Proofs.Pass
import Regroup.Proofs.PlanSplit
import Regroup.Proofs.TableWrites

/-! The course of a full run over a store in memory, as plain functions of what it is asked, the
tables that it finds and the counters that it draws from. A run that succeeds took this course. -/

namespace Regroup

/-- The owners that provisioning is for. -/
def Provisioning.owners (m : Provisioning) (t : Tables) : List Uid :=
  match m with
  | .skip => []
  | .seed s => s.candidates t.edgeOwners t.registryOwners

namespace Memory

open Attempt

structure Course where
  options : Options
  tables : Tables
  counters : Counters
  /-- An edge that a concurrent writer moves before edges are written. -/
  strayEdge : Option EdgeId

namespace Course

variable (p : Course)

def candidates : List Uid := p.options.provisioning.owners p.tables

def plan : ProvisionPlan := .build p.candidates p.tables.groups

def inserts : List GroupInsert :=
  List.zipWith GroupInsert.mk p.plan.missingOwners
    (p.counters.fresh p.options.counters.group p.plan.missingOwners.length)

def afterInserts : Counters :=
  p.counters.grant p.options.counters.group p.plan.missingOwners.length

def refreshes : List GroupRefresh :=
  List.zipWith GroupRefresh.mk p.plan.existingGroups
    (p.afterInserts.fresh p.options.counters.group p.plan.existingGroups.length)

def afterRefreshes : Counters :=
  p.afterInserts.grant p.options.counters.group p.plan.existingGroups.length

/-- The tables with their default groups in place. -/
def provisioned : Tables :=
  (Tables.refreshGroups p.refreshes
    (Tables.upsertGroups p.options.defaultGroupName p.inserts p.tables).2).2

def snapshot : Snapshot := .build p.provisioned.groups p.tables.memberships

def changes : ChangeSet := .compute p.tables.edges p.snapshot p.options.filter

def writes : List EdgeWrite :=
  List.zipWith EdgeChange.write p.changes.changes
    (p.afterRefreshes.fresh p.options.counters.edge p.changes.changes.length)

/-- The tables that are committed. -/
def published : Tables :=
  if p.changes.changes = [] then p.provisioned
  else (Tables.applyEdges p.writes (strayed p.strayEdge p.provisioned)).2

def spent : Counters := p.afterRefreshes.grant p.options.counters.edge p.changes.changes.length

/-- What is reported once default groups are in place. -/
def provisionDraft (stamp : Stamp) : Report :=
  { Report.start stamp p.options with
    candidateOwners := p.candidates.length
    groupsMissing := p.plan.missingOwners.length
    groupsExisting := p.plan.existingGroups.length
    groupsInserted := p.plan.missingOwners.length
    groupsRefreshed := p.plan.existingGroups.length
    groupInsertBlock :=
      p.counters.block? p.options.counters.group p.plan.missingOwners.length
    groupRefreshBlock :=
      p.afterInserts.block? p.options.counters.group p.plan.existingGroups.length }

def report (stamp : Stamp) : Report :=
  { (p.provisionDraft stamp).counting p.changes with
    updated := p.changes.changes.length
    edgeBlock := p.afterRefreshes.block? p.options.counters.edge p.changes.changes.length
    committed := true
    finishedAt := some stamp.finishedAt }

/-- Every refresh and every edge write found its row. -/
structure Landed : Prop where
  refreshes : (Tables.refreshGroups p.refreshes
    (Tables.upsertGroups p.options.defaultGroupName p.inserts p.tables).2).1 = p.refreshes.length
  writes : p.changes.changes ≠ [] →
    (Tables.applyEdges p.writes (strayed p.strayEdge p.provisioned)).1 = p.writes.length

variable {p}

theorem map_edgeId_writes :
    p.writes.map EdgeWrite.edgeId = p.changes.changes.map EdgeChange.edgeId :=
  map_numbered_keys (fun _ _ => rfl) (by simp)

theorem edgeId_writes_nodup (hids : (p.tables.edges.map Edge.id).Nodup) :
    (p.writes.map EdgeWrite.edgeId).Nodup := by
  rw [map_edgeId_writes]
  exact ChangeSet.changes_nodup _ _ hids

theorem value_afterRefreshes_of_ne {counter : String} (h : counter ≠ p.options.counters.group) :
    p.afterRefreshes.value counter = p.counters.value counter := by
  rw [afterRefreshes, Counters.value_grant, if_neg h, afterInserts, Counters.value_grant, if_neg h]

theorem grants_afterRefreshes_of_ne {counter : String} (h : counter ≠ p.options.counters.group) :
    p.afterRefreshes.grants.filter (·.1 == counter) =
      p.counters.grants.filter (·.1 == counter) := by
  rw [afterRefreshes, Counters.grants_grant_of_ne h, afterInserts, Counters.grants_grant_of_ne h]

end Course

variable {st : Store} {t : Tables} {c : Counters} {o : Options}

theorem outcome_seedOwners (s : SeedStrategy) :
    (seedOwners service s).outcome (opened st t c) =
      (.ok (s.candidates t.edgeOwners t.registryOwners), opened st t c) := by
  cases s <;> rfl

theorem check_eq_ok {target : WriteTarget} {reserved affected : Nat} {u : Unit}
    (h : ApplyMismatch.check target reserved affected = .ok u) : reserved = affected := by
  unfold ApplyMismatch.check at h
  split at h
  · assumption
  · cases h

/-- The three writes of a run have one shape: versions are reserved for as many rows as there are,
and the rows carry them, are written and counted. Without rows nothing happens. -/
theorem numberedWrite_eq_ok {ρ : Type} {counter : String} {n : Nat} {ctx : Context} {r r' : Report}
    {w : World} {made : VersionBlock → Except BlockError (List ρ)}
    {number : VersionBlock → Attempt World (List ρ)} {write : List ρ → Attempt World Nat}
    {check : List ρ → Nat → Attempt World Unit} {record : VersionBlock → Nat → Report}
    (hnumber : ∀ b rows s u, (number b).outcome s = (.ok rows, u) → made b = .ok rows ∧ s = u)
    (hcheck : ∀ rows k s x u, (check rows k).outcome s = (.ok x, u) → rows.length = k ∧ s = u)
    (h : ((service.reserveBlock counter n).within ctx >>= fun b => match b with
      | none => pure r
      | some block => number block >>= fun rows => write rows >>= fun k =>
          check rows k >>= fun _ => pure (record block k)).outcome (opened st t c) = (.ok r', w)) :
    (n = 0 ∧ r' = r ∧ w = opened st t c) ∨
    ∃ rows, n ≠ 0 ∧ made ⟨c.value counter + 1, n⟩ = .ok rows ∧
      (write rows).outcome (opened st t (c.grant counter n)) = (.ok rows.length, w) ∧
      r' = record ⟨c.value counter + 1, n⟩ rows.length := by
  obtain ⟨b, u, hb, h⟩ := bind_eq_ok.mp h
  rw [within_eq_ok] at hb
  obtain ⟨rfl, rfl⟩ := reserveBlock_eq_ok hb
  by_cases hn : n = 0
  · simp only [Counters.block?, hn, if_true, Counters.grant, outcome_pure, Prod.mk.injEq,
      Except.ok.injEq] at h
    exact .inl ⟨hn, h.1.symm, h.2.symm⟩
  · simp only [Counters.block?, hn, if_false] at h
    obtain ⟨rows, u, hrows, h⟩ := bind_eq_ok.mp h
    obtain ⟨hmade, rfl⟩ := hnumber _ _ _ _ hrows
    obtain ⟨k, v, hwrite, h⟩ := bind_eq_ok.mp h
    obtain ⟨x, y, hc, h⟩ := bind_eq_ok.mp h
    obtain ⟨rfl, rfl⟩ := hcheck _ _ _ _ _ hc
    obtain ⟨hr, rfl⟩ := Prod.mk.inj h
    exact .inr ⟨rows, hn, hmade, hwrite, (Except.ok.inj hr).symm⟩

theorem insertGroups_eq_ok {plan : ProvisionPlan} {r r' : Report} {w : World}
    (hs : plan.missingOwners.Pairwise (· ≤ ·))
    (hr : r.groupsInserted = 0 ∧ r.groupInsertBlock = none)
    (h : (insertGroups service o plan r).outcome (opened st t c) = (.ok r', w)) :
    r' = { r with
      groupsInserted := plan.missingOwners.length
      groupInsertBlock := c.block? o.counters.group plan.missingOwners.length } ∧
    w = opened st
      (Tables.upsertGroups o.defaultGroupName (List.zipWith GroupInsert.mk plan.missingOwners
        (c.fresh o.counters.group plan.missingOwners.length)) t).2
      (c.grant o.counters.group plan.missingOwners.length) := by
  rcases numberedWrite_eq_ok (fun _ _ _ _ => ofBlock_eq_ok.mp)
    (fun _ _ _ _ _ hc => ⟨check_eq_ok (ofCheck_eq_ok.mp hc).1, (ofCheck_eq_ok.mp hc).2⟩) h
    with ⟨hn, rfl, rfl⟩ | ⟨rows, hn, hmade, hwrite, rfl⟩
  · rw [List.length_eq_zero_iff.mp hn]
    exact ⟨by cases r'; simp_all [Counters.block?], rfl⟩
  · have hrows := ProvisionPlan.inserts_eq_ok hs hmade
    rw [Counters.values_block] at hrows
    rw [within_eq_ok, outcome_upsert] at hwrite
    split at hwrite
    · cases hwrite
    split at hwrite
    · obtain ⟨-, rfl⟩ := Prod.mk.inj hwrite
      simp [hrows, Counters.block?, hn]
    · cases hwrite

theorem refreshGroups_eq_ok {plan : ProvisionPlan} {r r' : Report} {w : World}
    (hs : plan.existingGroups.Pairwise (· ≤ ·))
    (hr : r.groupsRefreshed = 0 ∧ r.groupRefreshBlock = none)
    (h : (refreshGroups service o plan r).outcome (opened st t c) = (.ok r', w)) :
    ∃ rows, rows = List.zipWith GroupRefresh.mk plan.existingGroups
        (c.fresh o.counters.group plan.existingGroups.length) ∧
      r' = { r with
        groupsRefreshed := plan.existingGroups.length
        groupRefreshBlock := c.block? o.counters.group plan.existingGroups.length } ∧
      w = opened st (Tables.refreshGroups rows t).2
        (c.grant o.counters.group plan.existingGroups.length) ∧
      (Tables.refreshGroups rows t).1 = rows.length := by
  rcases numberedWrite_eq_ok (fun _ _ _ _ => ofBlock_eq_ok.mp)
    (fun _ _ _ _ _ hc => ⟨check_eq_ok (ofCheck_eq_ok.mp hc).1, (ofCheck_eq_ok.mp hc).2⟩) h
    with ⟨hn, rfl, rfl⟩ | ⟨rows, hn, hmade, hwrite, rfl⟩
  · rw [List.length_eq_zero_iff.mp hn]
    exact ⟨_, rfl, by cases r'; simp_all [Counters.block?], rfl, rfl⟩
  · have hrows := ProvisionPlan.refreshes_eq_ok hs hmade
    rw [Counters.values_block] at hrows
    rw [within_eq_ok, outcome_refresh] at hwrite
    split at hwrite
    · cases hwrite
    · obtain ⟨hcount, rfl⟩ := Prod.mk.inj hwrite
      rw [hrows] at hcount
      exact ⟨_, rfl, by simp [hrows, Counters.block?, hn], by rw [hrows], Except.ok.inj hcount⟩

theorem applyChanges_eq_ok {changes : ChangeSet} {r r' : Report} {w : World}
    (hs : changes.changes.Pairwise fun x y => x.edgeId ≤ y.edgeId)
    (hr : r.updated = 0 ∧ r.edgeBlock = none)
    (h : (applyChanges service o changes r).outcome (opened st t c) = (.ok r', w)) :
    ∃ rows, rows = List.zipWith EdgeChange.write changes.changes
        (c.fresh o.counters.edge changes.changes.length) ∧
      r' = { r with
        updated := changes.changes.length
        edgeBlock := c.block? o.counters.edge changes.changes.length } ∧
      w = opened st
        (if changes.changes = [] then t
          else (Tables.applyEdges rows (strayed st.interfereWith t)).2)
        (c.grant o.counters.edge changes.changes.length) ∧
      (changes.changes ≠ [] →
        (Tables.applyEdges rows (strayed st.interfereWith t)).1 = rows.length) := by
  rcases numberedWrite_eq_ok (fun _ _ _ _ hb => ofBlock_eq_ok.mp (within_eq_ok.mp hb))
    (fun _ _ _ _ _ hc => ⟨check_eq_ok (ofCheck_eq_ok.mp (within_eq_ok.mp hc)).1,
      (ofCheck_eq_ok.mp (within_eq_ok.mp hc)).2⟩) h
    with ⟨hn, rfl, rfl⟩ | ⟨rows, hn, hmade, hwrite, rfl⟩
  · rw [List.length_eq_zero_iff.mp hn]
    exact ⟨_, rfl, by cases r'; simp_all [Counters.block?], rfl, fun hne => absurd rfl hne⟩
  · have hrows := ChangeSet.writes_eq_ok hs hmade
    rw [Counters.values_block] at hrows
    rw [within_eq_ok, outcome_apply] at hwrite
    split at hwrite
    · cases hwrite
    · obtain ⟨hcount, rfl⟩ := Prod.mk.inj hwrite
      have hne : changes.changes ≠ [] := fun he => hn (by rw [he, List.length_nil])
      rw [hrows] at hcount
      exact ⟨_, rfl, by simp [hrows, Counters.block?, hn], by rw [hrows, if_neg hne],
        fun _ => Except.ok.inj hcount⟩

theorem provision_eq_ok {p : Course} {s : SeedStrategy} {stamp : Stamp}
    {out : ProvisionPlan × Report} {w : World} (hs : p.options.provisioning = .seed s)
    (hfull : p.options.dryRun = false)
    (h : (provision service p.options s (Report.start stamp p.options)).outcome
      (opened st p.tables p.counters) = (.ok out, w)) :
    out = (p.plan, p.provisionDraft stamp) ∧ w = opened st p.provisioned p.afterRefreshes ∧
      (Tables.refreshGroups p.refreshes (Tables.upsertGroups p.options.defaultGroupName
        p.inserts p.tables).2).1 = p.refreshes.length := by
  have hcand : s.candidates p.tables.edgeOwners p.tables.registryOwners = p.candidates := by
    simp only [Course.candidates, Provisioning.owners, hs]
  unfold provision at h
  obtain ⟨owners, u, hseed, h⟩ := bind_eq_ok.mp h
  rw [outcome_seedOwners, hcand, Prod.mk.injEq, Except.ok.injEq] at hseed
  obtain ⟨rfl, rfl⟩ := hseed
  obtain ⟨groups, u, hload, h⟩ := bind_eq_ok.mp h
  rw [within_eq_ok, outcome_loadGroups, Prod.mk.injEq, Except.ok.injEq] at hload
  obtain ⟨rfl, rfl⟩ := hload
  simp only [hfull, Bool.false_eq_true, if_false] at h
  obtain ⟨r, u, hins, h⟩ := bind_eq_ok.mp h
  obtain ⟨rfl, rfl⟩ := insertGroups_eq_ok
    ((missingOwners_pairwise _ _).imp Std.le_of_lt) ⟨rfl, rfl⟩ hins
  obtain ⟨r, u, href, h⟩ := bind_eq_ok.mp h
  obtain ⟨rows, rfl, rfl, rfl, hcount⟩ := refreshGroups_eq_ok
    ((existingGroups_pairwise _ _).imp Std.le_of_lt) ⟨rfl, rfl⟩ href
  obtain ⟨hout, hw⟩ := Prod.mk.inj h
  exact ⟨(Except.ok.inj hout).symm, hw.symm, hcount⟩

theorem outcome_findChanges (plan : ProvisionPlan) :
    (findChanges service o plan).outcome (opened st t c) =
      if st.failAt = some .loadEdges
      then (.error ((Failure.ofCause (.rehearsed .loadEdges)).within
        (.phaseStep .snapshotBuild .loadEdges)), opened st t c)
      else (.ok (.compute t.edges (snapshotOf o plan t.groups t.memberships) o.filter),
        opened st t c) := by
  unfold findChanges
  rw [outcome_bind_of_ok (within_eq_ok.mpr outcome_loadGroups),
    outcome_bind_of_ok (within_eq_ok.mpr outcome_loadMemberships), outcome_bind, outcome_within,
    outcome_loadEdges]
  by_cases hpoint : st.failAt = some .loadEdges
  · rw [if_pos hpoint, if_pos hpoint]
    rfl
  · rw [if_neg hpoint, if_neg hpoint]
    rfl

theorem findChanges_eq_ok {plan : ProvisionPlan} {cs : ChangeSet} {w : World}
    (h : (findChanges service o plan).outcome (opened st t c) = (.ok cs, w)) :
    cs = .compute t.edges (snapshotOf o plan t.groups t.memberships) o.filter ∧
      w = opened st t c ∧ st.failAt ≠ some .loadEdges := by
  rw [outcome_findChanges] at h
  split at h
  · cases h
  · rename_i hpoint
    obtain ⟨hcs, hw⟩ := Prod.mk.inj h
    exact ⟨(Except.ok.inj hcs).symm, hw.symm, hpoint⟩

/-- Nothing is planned and nothing is spent where provisioning is skipped. -/
theorem Course.skip_eq {p : Course} (hs : p.options.provisioning = .skip) (stamp : Stamp) :
    p.plan = {} ∧ p.provisionDraft stamp = Report.start stamp p.options ∧
      p.provisioned = p.tables ∧ p.afterRefreshes = p.counters := by
  have hcand : p.candidates = [] := by simp only [Course.candidates, Provisioning.owners, hs]
  have hplan : p.plan = {} := by
    simp [Course.plan, hcand, ProvisionPlan.build, ascending, sortOn, dropRepeats]
  have hdraft : p.provisionDraft stamp = Report.start stamp p.options := by
    simp [Course.provisionDraft, hcand, hplan, Counters.block?, Report.start]
  refine ⟨hplan, hdraft, ?_, ?_⟩
  · simp [Course.provisioned, Course.inserts, Course.refreshes, hplan, Tables.upsertGroups,
      Tables.refreshGroups]
  · simp [Course.afterRefreshes, Course.afterInserts, hplan, Counters.grant]

theorem planned_eq_ok {p : Course} {stamp : Stamp} {out : ProvisionPlan × Report} {w : World}
    (hfull : p.options.dryRun = false)
    (h : (planned service p.options (Report.start stamp p.options)).outcome
      (opened st p.tables p.counters) = (.ok out, w)) :
    out = (p.plan, p.provisionDraft stamp) ∧ w = opened st p.provisioned p.afterRefreshes ∧
      (Tables.refreshGroups p.refreshes (Tables.upsertGroups p.options.defaultGroupName
        p.inserts p.tables).2).1 = p.refreshes.length := by
  unfold planned at h
  rcases hs : p.options.provisioning with _ | s
  · obtain ⟨hplan, hdraft, htables, hcounters⟩ := Course.skip_eq hs stamp
    simp only [hs, outcome_pure, Prod.mk.injEq, Except.ok.injEq] at h
    obtain ⟨rfl, rfl⟩ := h
    have hnone : p.refreshes = [] := by rw [Course.refreshes, hplan]; rfl
    exact ⟨by rw [hplan, hdraft], by rw [htables, hcounters], by rw [hnone]; rfl⟩
  · simp only [hs, within_eq_ok] at h
    exact provision_eq_ok hs hfull h

theorem drive_eq_ok (st : Store) (p : Course) {stamp : Stamp} {r : Report} {w : World}
    (hstray : st.interfereWith = p.strayEdge) (hfull : p.options.dryRun = false)
    (h : (drive service p.options (Report.start stamp p.options)).outcome
      (opened st p.tables p.counters) = (.ok r, w)) :
    { r with committed := true, finishedAt := some stamp.finishedAt } = p.report stamp ∧
      w = opened st p.published p.spent ∧ st.failAt ≠ some .loadEdges ∧ p.Landed := by
  rw [drive_eq] at h
  obtain ⟨⟨plan, draft⟩, u, hprov, h⟩ := bind_eq_ok.mp h
  obtain ⟨hout, rfl, hrefreshed⟩ := planned_eq_ok hfull hprov
  obtain ⟨rfl, rfl⟩ := Prod.mk.inj hout
  obtain ⟨changes, u, hfind, h⟩ := bind_eq_ok.mp h
  obtain ⟨hchanges, rfl, hpoint⟩ := findChanges_eq_ok hfind
  obtain rfl : changes = p.changes := by
    simp only [hchanges, snapshotOf, hfull, Bool.false_eq_true, if_false]
    rfl
  simp only [hfull, Bool.false_eq_true, if_false] at h
  obtain ⟨rows, rfl, rfl, rfl, hwritten⟩ :=
    applyChanges_eq_ok (ChangeSet.changes_pairwise _ _ _) ⟨rfl, rfl⟩ h
  rw [hstray] at hwritten ⊢
  exact ⟨rfl, rfl, hpoint, hrefreshed, hwritten⟩

def World.course (w : World) (o : Options) : Course :=
  ⟨o, w.store.tables, w.counters, w.store.interfereWith⟩

/-- A full run that succeeds commits what its course says, and says so. -/
theorem reconcile_eq_ok {stamp : Stamp} {w w' : World} {r : Report} (hfull : o.dryRun = false)
    (h : (reconcile service o stamp).outcome w = (.ok r, w')) :
    r = (w.course o).report stamp ∧ w'.counters = (w.course o).spent ∧
      w'.store = { asked w.store o.lockWait with
        tables := (w.course o).published, commits := w.store.commits + 1 } ∧
      w.store.failAt ≠ some .begin ∧ w.store.failAt ≠ some .loadEdges ∧ (w.course o).Landed := by
  unfold reconcile at h
  obtain ⟨x, u, hbegin, h⟩ := bind_eq_ok.mp h
  rw [within_eq_ok, outcome_begin] at hbegin
  split at hbegin
  · cases hbegin
  · rename_i hpoint
    obtain ⟨-, rfl⟩ := Prod.mk.inj hbegin
    obtain ⟨draft, u, hdrive, h⟩ := bind_eq_ok.mp h
    rw [orElseUndo_eq_ok] at hdrive
    obtain ⟨hreport, rfl, hload, hlanded⟩ :=
      drive_eq_ok (asked w.store o.lockWait) (w.course o) rfl hfull hdrive
    obtain ⟨last, u, hfinish, h⟩ := bind_eq_ok.mp h
    simp only [finish, hfull, Bool.false_eq_true, if_false] at hfinish
    obtain ⟨y, v, hcommit, hfinish⟩ := bind_eq_ok.mp hfinish
    rw [within_eq_ok, outcome_commit] at hcommit
    split at hcommit
    · cases hcommit
    · obtain ⟨-, rfl⟩ := Prod.mk.inj hcommit
      obtain ⟨hlast, rfl⟩ := Prod.mk.inj hfinish
      obtain ⟨hr, rfl⟩ := Prod.mk.inj h
      rw [← Except.ok.inj hr, ← Except.ok.inj hlast]
      exact ⟨hreport, rfl, rfl, hpoint, hload, hlanded⟩

end Memory

end Regroup
