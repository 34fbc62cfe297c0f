import Regroup.Proofs.Course

/-! The course of a dry run: it reads what a full run would read before it writes, foresees the rest
and rolls back. It draws on no counter and it does not fail after it has read the edges. -/

namespace Regroup.Memory

open Attempt

namespace Course

variable (p : Course)

/-- The groups as provisioning would leave them, and the owners whose default group would be new. -/
def preview : List Group × List Uid := p.plan.preview p.options.defaultGroupName p.tables.groups

def foreseen : ChangeSet :=
  .compute p.tables.edges
    ((Snapshot.build p.preview.1 p.tables.memberships).planMissing p.preview.2) p.options.filter

/-- What is reported of a plan that is not carried out. -/
def planDraft (stamp : Stamp) : Report :=
  { Report.start stamp p.options with
    candidateOwners := p.candidates.length
    groupsMissing := p.plan.missingOwners.length
    groupsExisting := p.plan.existingGroups.length }

def forecast (stamp : Stamp) : Report :=
  { (p.planDraft stamp).counting p.foreseen with finishedAt := some stamp.finishedAt }

end Course

variable {st : Store} {p : Course} {stamp : Stamp}

theorem outcome_planned_dry (hdry : p.options.dryRun = true) :
    (planned service p.options (Report.start stamp p.options)).outcome
      (opened st p.tables p.counters) =
      (.ok (p.plan, p.planDraft stamp), opened st p.tables p.counters) := by
  unfold planned
  rcases hs : p.options.provisioning with _ | s
  · have hplan : p.plan = {} := (Course.skip_eq hs stamp).1
    have hcand : p.candidates = [] := by simp only [Course.candidates, Provisioning.owners, hs]
    simp only [outcome_pure, Course.planDraft, hplan, hcand]
    rfl
  · have hcand : s.candidates p.tables.edgeOwners p.tables.registryOwners = p.candidates := by
      simp only [Course.candidates, Provisioning.owners, hs]
    refine within_eq_ok.mpr (bind_eq_ok.mpr ⟨p.candidates, _, hcand ▸ outcome_seedOwners s, ?_⟩)
    refine bind_eq_ok.mpr ⟨p.tables.groups, _, within_eq_ok.mpr outcome_loadGroups, ?_⟩
    simp only [hdry, if_true]
    rfl

theorem outcome_findChanges_dry (hdry : p.options.dryRun = true)
    (hload : st.failAt ≠ some .loadEdges) :
    (findChanges service p.options p.plan).outcome (opened st p.tables p.counters) =
      (.ok p.foreseen, opened st p.tables p.counters) := by
  rw [outcome_findChanges, if_neg hload]
  simp only [snapshotOf, hdry, if_true]
  rfl

/-- Whatever the counters are, a dry run of a store that can be read succeeds. -/
theorem reconcile_dry {o : Options} {w : World} (hdry : o.dryRun = true)
    (hbegin : w.store.failAt ≠ some .begin) (hload : w.store.failAt ≠ some .loadEdges)
    (stamp : Stamp) :
    (reconcile service o stamp).outcome w = (.ok ((w.course o).forecast stamp),
      ⟨{ asked w.store o.lockWait with rollbacks := w.store.rollbacks + 1 }, none,
        w.counters⟩) := by
  have hbegun := outcome_begin w o.lockWait
  rw [if_neg hbegin] at hbegun
  have hplanned := @outcome_planned_dry (asked w.store o.lockWait) (w.course o) stamp hdry
  have hfind := @outcome_findChanges_dry (asked w.store o.lockWait) (w.course o) hdry hload
  refine bind_eq_ok.mpr ⟨(), _, within_eq_ok.mpr hbegun, ?_⟩
  refine bind_eq_ok.mpr ⟨((w.course o).planDraft stamp).counting (w.course o).foreseen,
    opened (asked w.store o.lockWait) w.store.tables w.counters, orElseUndo_eq_ok.mpr ?_, ?_⟩
  · rw [drive_eq]
    refine bind_eq_ok.mpr ⟨_, _, hplanned, bind_eq_ok.mpr ⟨_, _, hfind, ?_⟩⟩
    simp only [hdry, if_true]
    rfl
  · refine bind_eq_ok.mpr ⟨((w.course o).planDraft stamp).counting (w.course o).foreseen,
      ⟨{ asked w.store o.lockWait with rollbacks := w.store.rollbacks + 1 }, none, w.counters⟩,
      ?_, rfl⟩
    simp only [finish, hdry, if_true]
    exact bind_eq_ok.mpr ⟨(), _, within_eq_ok.mpr outcome_rollback, rfl⟩

/-- A dry run that succeeds reports its forecast. -/
theorem reconcile_dry_eq_ok {o : Options} {w w' : World} {r : Report} (hdry : o.dryRun = true)
    (h : (reconcile service o stamp).outcome w = (.ok r, w')) :
    r = (w.course o).forecast stamp ∧
      w' = ⟨{ asked w.store o.lockWait with rollbacks := w.store.rollbacks + 1 }, none,
        w.counters⟩ := by
  obtain ⟨hbegin, hload⟩ :
      w.store.failAt ≠ some .begin ∧ w.store.failAt ≠ some .loadEdges := by
    unfold reconcile at h
    obtain ⟨x, u, hbegun, h⟩ := bind_eq_ok.mp h
    rw [within_eq_ok, outcome_begin] at hbegun
    split at hbegun
    · cases hbegun
    · rename_i hpoint
      obtain ⟨-, rfl⟩ := Prod.mk.inj hbegun
      obtain ⟨draft, u, hdrive, -⟩ := bind_eq_ok.mp h
      rw [orElseUndo_eq_ok, drive_eq] at hdrive
      obtain ⟨⟨plan, draft⟩, u, hplanned, hdrive⟩ := bind_eq_ok.mp hdrive
      have hreads := @outcome_planned_dry (asked w.store o.lockWait) (w.course o) stamp hdry
      obtain ⟨-, rfl⟩ := Prod.mk.inj (hreads.symm.trans hplanned)
      obtain ⟨changes, u, hfind, -⟩ := bind_eq_ok.mp hdrive
      exact ⟨hpoint, (findChanges_eq_ok hfind).2.2⟩
  rw [reconcile_dry hdry hbegin hload stamp] at h
  obtain ⟨hr, hw⟩ := Prod.mk.inj h
  exact ⟨(Except.ok.inj hr).symm, hw.symm⟩

end Regroup.Memory
