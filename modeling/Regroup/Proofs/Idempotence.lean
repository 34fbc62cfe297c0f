import Mathlib
import Regroup.Proofs.Provisioning
import Regroup.Proofs.Repair

/-! One full run reaches a fixed point of provisioning and of the comparison of edges together.
Further runs refresh the default groups of their candidates and do nothing else. -/

namespace Regroup.Memory

open Attempt

/-- Tables in which each owner that provisioning is for has a default group and each edge that is
accepted is where it belongs. So many edges belong nowhere. -/
structure Settled (o : Options) (unresolved : Nat) (t : Tables) : Prop where
  ids : (t.groups.map Group.id).Nodup
  served : ∀ owner ∈ o.provisioning.owners t, (ownDefaults t.groups owner).Nonempty
  placed : ∀ e ∈ t.edges, o.filter.accepts e = true →
    ChangeSet.change? (.build t.groups t.memberships) e = none
  counted : (ChangeSet.compute t.edges (.build t.groups t.memberships) o.filter).unresolved.length =
    unresolved

theorem exists_of_mem_forall₂ {α β : Type} {R : α → β → Prop} {xs : List α} {ys : List β}
    (h : List.Forall₂ R xs ys) {y : β} (hy : y ∈ ys) : ∃ x ∈ xs, R x y := by
  induction h with
  | nil => simp at hy
  | cons hr _ ih =>
    rcases List.mem_cons.mp hy with rfl | hy
    · exact ⟨_, by simp, hr⟩
    · obtain ⟨x, hx, hxy⟩ := ih hy
      exact ⟨x, List.mem_cons_of_mem _ hx, hxy⟩

namespace Course

variable {p : Course}

theorem Fate.bearing_eq {e e' : Edge} (h : p.Fate e e') : e.bearing = e'.bearing := by
  cases h <;> rfl

theorem Fate.change?_eq_none {e e' : Edge} (h : p.Fate e e')
    (haccept : p.options.filter.accepts e' = true) :
    ChangeSet.change? p.snapshot e' = none := by
  cases h with
  | kept hnone => exact hnone haccept
  | moved v _ hchange => exact ChangeSet.change?_applyTo hchange v

theorem map_bearing_published (hids : (p.tables.edges.map Edge.id).Nodup)
    (halone : p.strayEdge = none) :
    p.published.edges.map Edge.bearing = p.tables.edges.map Edge.bearing := by
  have h := (published_edges hids halone).imp fun _ _ h => h.bearing_eq
  rw [eq_comm, ← List.forall₂_eq_eq_eq, List.forall₂_map_left_iff, List.forall₂_map_right_iff]
  exact h

/-- Bearings tell the owners of edges, and so who is provided for. -/
theorem owners_congr {m : Provisioning} {t t' : Tables} (husers : t.users = t'.users)
    (hedges : t.edges.map Edge.bearing = t'.edges.map Edge.bearing) : m.owners t = m.owners t' := by
  have howners : t.edges.map Edge.owner = t'.edges.map Edge.owner := by
    have hmap := congrArg (List.map Edge.owner) hedges
    rw [List.map_map, List.map_map] at hmap
    exact hmap
  simp only [Provisioning.owners, Tables.edgeOwners, Tables.registryOwners, howners, husers]

/-- A run that no one disturbs settles the tables. -/
theorem settled_published (hids : (p.tables.groups.map Group.id).Nodup)
    (hedges : (p.tables.edges.map Edge.id).Nodup) (halone : p.strayEdge = none) :
    Settled p.options p.changes.unresolved.length p.published := by
  have hbearing := map_bearing_published hedges halone
  refine ⟨?_, fun owner howner => ?_, fun e' he' haccept => ?_, ?_⟩
  · rw [published_groups]
    exact provisioned_nodup hids
  · rw [owners_congr published_users hbearing] at howner
    rw [published_groups]
    exact provisioned_served howner
  · rw [← snapshot_eq]
    obtain ⟨e, -, hfate⟩ := exists_of_mem_forall₂ (published_edges hedges halone) he'
    exact hfate.change?_eq_none haccept
  · rw [← snapshot_eq]
    exact ChangeSet.length_unresolved_congr hbearing fun _ _ => rfl

section Settled

variable {n : Nat}

theorem refreshed_of_settled (h : Settled p.options n p.tables) :
    List.Forall₂ (Refreshed p.candidates) p.tables.groups p.provisioned.groups :=
  refreshed_of_served h.served h.ids

theorem resolve_of_settled (h : Settled p.options n p.tables) (owner counterpart : Uid) :
    p.snapshot.resolve owner counterpart =
      (Snapshot.build p.tables.groups p.tables.memberships).resolve owner counterpart :=
  (Snapshot.resolve_build_congr (Refreshed.map_standing_eq (refreshed_of_settled h)) _ _ _).symm

theorem changes_of_settled (h : Settled p.options n p.tables) : p.changes.changes = [] := by
  refine List.eq_nil_iff_forall_not_mem.mpr fun c hc => ?_
  obtain ⟨e, he, haccept, hchange⟩ := ChangeSet.mem_changes.mp hc
  rw [ChangeSet.change?_congr (resolve_of_settled h _ _), h.placed e he haccept] at hchange
  cases hchange

theorem published_of_settled (h : Settled p.options n p.tables) : p.published = p.provisioned := by
  rw [published, if_pos (changes_of_settled h)]

theorem unresolved_of_settled (h : Settled p.options n p.tables) :
    p.changes.unresolved.length = n := by
  rw [← h.counted]
  exact ChangeSet.length_unresolved_congr rfl (resolve_of_settled h)

theorem settled_of_settled (h : Settled p.options n p.tables) :
    Settled p.options n p.published := by
  have hstanding := Refreshed.map_standing_eq (refreshed_of_settled h)
  rw [published_of_settled h]
  refine ⟨?_, fun owner howner => ?_, fun e he haccept => ?_, ?_⟩
  · rw [← map_id_congr hstanding]
    exact h.ids
  · rw [← ownDefaults_congr hstanding]
    exact h.served owner howner
  · have hplaced := h.placed e he haccept
    rw [← ChangeSet.change?_congr (resolve_of_settled h _ _)] at hplaced
    exact hplaced
  · exact unresolved_of_settled h

end Settled

end Course

/-- A full run that succeeded. -/
structure FullRun (o : Options) where
  stamp : Stamp
  before : World
  report : Report
  after : World
  full : o.dryRun = false
  succeeds : (reconcile service o stamp).outcome before = (.ok report, after)

namespace FullRun

variable {o : Options}

/-- The tables are not changed between the two runs. -/
def Follows (run next : FullRun o) : Prop := next.before.store.tables = run.after.store.tables

/-- The run has found so many edges that belong nowhere and has refreshed the default groups of its
candidates. Nothing else has come of it. -/
structure Idle (unresolved : Nat) (run : FullRun o) : Prop where
  toUpdate : run.report.toUpdate = 0
  updated : run.report.updated = 0
  groupsMissing : run.report.groupsMissing = 0
  edgeBlock : run.report.edgeBlock = none
  unresolved : run.report.unresolved = unresolved
  edgeCounter : o.counters.edge ≠ o.counters.group →
    run.after.counters.value o.counters.edge = run.before.counters.value o.counters.edge ∧
      run.after.counters.grants.filter (·.1 == o.counters.edge) =
        run.before.counters.grants.filter (·.1 == o.counters.edge)
  edges : run.after.store.tables.edges = run.before.store.tables.edges
  groups : List.Forall₂ (Refreshed (o.provisioning.owners run.before.store.tables))
    run.before.store.tables.groups run.after.store.tables.groups

theorem tables_after (run : FullRun o) :
    run.after.store.tables = (run.before.course o).published := by
  rw [(reconcile_eq_ok run.full run.succeeds).2.2.1]

theorem settled (run : FullRun o) (hids : (run.before.store.tables.groups.map Group.id).Nodup)
    (hedges : (run.before.store.tables.edges.map Edge.id).Nodup)
    (halone : run.before.store.interfereWith = none) :
    Settled o run.report.unresolved run.after.store.tables := by
  obtain ⟨hreport, -⟩ := reconcile_eq_ok run.full run.succeeds
  rw [hreport, run.tables_after]
  exact @Course.settled_published (run.before.course o) hids hedges halone

theorem idle {n : Nat} (run : FullRun o) (h : Settled o n run.before.store.tables) :
    run.Idle n ∧ Settled o n run.after.store.tables := by
  obtain ⟨hreport, hcounters, -⟩ := reconcile_eq_ok run.full run.succeeds
  have hsettled : Settled (run.before.course o).options n (run.before.course o).tables := h
  have hchanges := Course.changes_of_settled hsettled
  have hmissing := Course.missingOwners_of_served hsettled.served
  have hunresolved := Course.unresolved_of_settled hsettled
  have hpublished := Course.published_of_settled hsettled
  have htables : run.after.store.tables = (run.before.course o).provisioned := by
    rw [run.tables_after, hpublished]
  have hspent : run.after.counters = (run.before.course o).afterRefreshes := by
    rw [hcounters, Course.spent, hchanges]
    rfl
  refine ⟨⟨?_, ?_, ?_, ?_, ?_, fun hne => ⟨?_, ?_⟩, ?_, ?_⟩, ?_⟩
  · have hawaiting : (run.before.course o).changes.awaitingDefault.length = 0 :=
      ChangeSet.length_awaitingDefault_build _ _
    rw [hreport]
    show (run.before.course o).changes.toUpdate = 0
    rw [ChangeSet.toUpdate, hchanges, hawaiting, List.length_nil]
  · rw [hreport]
    show (run.before.course o).changes.changes.length = 0
    rw [hchanges, List.length_nil]
  · rw [hreport]
    show (run.before.course o).plan.missingOwners.length = 0
    rw [hmissing, List.length_nil]
  · rw [hreport]
    show (run.before.course o).afterRefreshes.block? o.counters.edge
      (run.before.course o).changes.changes.length = none
    rw [hchanges]
    rfl
  · rw [hreport]
    exact hunresolved
  · rw [hspent]
    exact Course.value_afterRefreshes_of_ne hne
  · rw [hspent]
    exact Course.grants_afterRefreshes_of_ne hne
  · rw [htables]
    rfl
  · rw [htables]
    exact Course.refreshed_of_settled hsettled
  · rw [run.tables_after]
    exact Course.settled_of_settled hsettled

theorem idle_of_chain {n : Nat} {run : FullRun o} {later : List (FullRun o)}
    (h : Settled o n run.after.store.tables) (hchain : List.IsChain Follows (run :: later)) :
    ∀ next ∈ later, next.Idle n := by
  induction later generalizing run with
  | nil => simp
  | cons next later ih =>
    obtain ⟨hfollows, hrest⟩ := List.isChain_cons_cons.mp hchain
    rw [← hfollows] at h
    obtain ⟨hidle, hsettled⟩ := next.idle h
    intro x hx
    rcases List.mem_cons.mp hx with rfl | hx
    · exact hidle
    · exact ih hsettled hrest x hx

end FullRun

/-- Once a full run has succeeded that no one disturbed, further ones are idle, however many there
are. -/
theorem later_runs_idle {o : Options} {first : FullRun o} {later : List (FullRun o)}
    (hids : (first.before.store.tables.groups.map Group.id).Nodup)
    (hedges : (first.before.store.tables.edges.map Edge.id).Nodup)
    (halone : first.before.store.interfereWith = none)
    (hchain : List.IsChain FullRun.Follows (first :: later)) :
    ∀ run ∈ later, run.Idle first.report.unresolved :=
  FullRun.idle_of_chain (first.settled hids hedges halone) hchain

theorem later_runs_idle_strewn : ∃ first second : FullRun {},
    first.before = strewn ∧ second.before = first.after ∧ second.Idle first.report.unresolved := by
  obtain ⟨r, hr⟩ := @exists_eq_ok _ _ (reconcile service {} default) strewn (by cbv)
  obtain ⟨r', hr'⟩ := @exists_eq_ok _ _ (reconcile service {} default)
    ((reconcile service {} default).outcome strewn).2 (by cbv)
  have hids : (strewn.store.tables.groups.map Group.id).Nodup := by decide
  have hedges : (strewn.store.tables.edges.map Edge.id).Nodup := by decide
  let first : FullRun {} := ⟨default, _, r, _, rfl, hr⟩
  let second : FullRun {} := ⟨default, _, r', _, rfl, hr'⟩
  have hchain : List.IsChain FullRun.Follows [first, second] :=
    List.isChain_cons_cons.mpr ⟨rfl, .singleton _⟩
  exact ⟨first, second, rfl, rfl, later_runs_idle hids hedges rfl hchain second (by simp)⟩

end Regroup.Memory
