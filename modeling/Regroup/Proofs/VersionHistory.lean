import Mathlib
import Regroup.Proofs.Abandonment
import Regroup.Proofs.Provisioning
import Regroup.Proofs.Purity
import Regroup.Proofs.Repair
import Regroup.Proofs.Stamping

/-! Versions over a history of runs and edits. Counters are never set back, so what a run is granted
lies above all versions of its table, and a run that fails spends versions but writes none. -/

namespace Regroup.Memory

open Attempt

/-- The published tables stay; counters may advance. -/
def Burns (w w' : World) : Prop :=
  w'.store.tables = w.store.tables ∧ ∀ counter, w.counters.value counter ≤ w'.counters.value counter

/-- A run commits, or it publishes nothing. -/
theorem reconcile_commits_or_burns (o : Options) (stamp : Stamp) (w : World) :
    (o.dryRun = false ∧ ∃ r w', (reconcile service o stamp).outcome w = (.ok r, w')) ∨
      Burns w ((reconcile service o stamp).outcome w).2 := by
  by_cases hdry : o.dryRun = true
  · have hkept := reconcile_dry_moves perform_kept hdry stamp w
    exact .inr ⟨hkept.tables, fun counter => by rw [hkept.counters]⟩
  · have hfull : o.dryRun = false := by simpa using hdry
    rcases hrun : (reconcile service o stamp).outcome w with ⟨e | r, w'⟩
    · obtain ⟨hstore, hcounters⟩ := reconcile_eq_error hrun
      exact .inr ⟨by rw [hstore]; rfl, hcounters.value_le⟩
    · exact .inl ⟨hfull, r, w', rfl⟩

/-- Versions of edges and of groups are distinct, and none exceeds its counter. -/
structure Numbered (names : CounterNames) (w : World) : Prop where
  edges : Versioned (w.store.tables.edges.filterMap Edge.version) (w.counters.value names.edge)
  groups : Versioned (w.store.tables.groups.filterMap Group.version) (w.counters.value names.group)

/-- The row carries a version above all that these rows carry. -/
def Above {α : Type} (version : α → Option Int) (rows : List α) (y : α) : Prop :=
  ∃ v, version y = some v ∧ ∀ u ∈ rows.filterMap version, u < v

/-- What stands at a place after a run stood there before, or a concurrent writer put it there, or
it carries a version above all that the table held. -/
structure WritesAbove (w w' : World) : Prop where
  edges : ∀ (i : Nat) (e : Edge), w'.store.tables.edges[i]? = some e →
    w.store.tables.edges[i]? = some e ∨
    (strayed w.store.interfereWith w.store.tables).edges[i]? = some e ∨
    Above Edge.version w.store.tables.edges e
  groups : ∀ (i : Nat) (g : Group), w'.store.tables.groups[i]? = some g →
    w.store.tables.groups[i]? = some g ∨ Above Group.version w.store.tables.groups g

/-- So many rows were written, and each carries a version of the block of its own. All versions of
the block lie above those that the table held. -/
structure Stamped (n : Nat) (block : Option VersionBlock) (before after : List Int) : Prop where
  size : block.elim 0 VersionBlock.size = n
  carried : ∀ b ∈ block, ∀ v ∈ b.values, v ∈ after
  above : ∀ b ∈ block, ∀ v ∈ b.values, ∀ u ∈ before, u < v

/-- The rows that a run reports as written are stamped. -/
structure WritesStamped (r : Report) (w w' : World) : Prop where
  inserted : Stamped r.groupsInserted r.groupInsertBlock
    (w.store.tables.groups.filterMap Group.version) (w'.store.tables.groups.filterMap Group.version)
  refreshed : Stamped r.groupsRefreshed r.groupRefreshBlock
    (w.store.tables.groups.filterMap Group.version) (w'.store.tables.groups.filterMap Group.version)
  updated : Stamped r.updated r.edgeBlock
    (w.store.tables.edges.filterMap Edge.version) (w'.store.tables.edges.filterMap Edge.version)

theorem stamped_block? {c : Counters} {counter : String} {n : Nat} {before after : List Int}
    {top : Int} (hbefore : Versioned before top) (htop : top ≤ c.value counter)
    (hafter : ∀ v ∈ c.fresh counter n, v ∈ after) :
    Stamped n (c.block? counter n) before after := by
  by_cases hn : n = 0
  · refine ⟨?_, ?_, ?_⟩ <;> simp [Counters.block?, hn]
  · simp only [Counters.block?, hn, if_false]
    refine ⟨rfl, ?_, ?_⟩
    · rintro b ⟨⟩ v hv
      rw [Counters.values_block] at hv
      exact hafter v hv
    · rintro b ⟨⟩ v hv u hu
      rw [Counters.values_block] at hv
      have hle := hbefore.le u hu
      have hlt := (Counters.mem_fresh hv).1
      omega

theorem above_of_mem_fresh {α : Type} {version : α → Option Int} {rows : List α} {c : Counters}
    {counter : String} {n : Nat} {y : α} {v top : Int}
    (hrows : Versioned (rows.filterMap version) top) (htop : top ≤ c.value counter)
    (hv : v ∈ c.fresh counter n) (hy : version y = some v) : Above version rows y := by
  refine ⟨v, hy, fun u hu => ?_⟩
  have hle := hrows.le u hu
  have hlt := (Counters.mem_fresh hv).1
  omega

theorem Burns.numbered {names : CounterNames} {w w' : World} (h : Burns w w')
    (hw : Numbered names w) : Numbered names w' := by
  obtain ⟨htables, hvalues⟩ := h
  constructor
  · rw [htables]
    exact hw.edges.mono (hvalues _)
  · rw [htables]
    exact hw.groups.mono (hvalues _)

theorem Burns.writesAbove {w w' : World} (h : Burns w w') : WritesAbove w w' := by
  obtain ⟨htables, -⟩ := h
  exact ⟨fun i e he => .inl (htables ▸ he), fun i g hg => .inl (htables ▸ hg)⟩

namespace Course

variable {p : Course}

theorem map_version_inserts : p.inserts.map GroupInsert.version =
    p.counters.fresh p.options.counters.group p.plan.missingOwners.length :=
  map_numbered_versions (fun _ _ => rfl) (by simp)

theorem map_version_refreshes : p.refreshes.map GroupRefresh.version =
    p.afterInserts.fresh p.options.counters.group p.plan.existingGroups.length :=
  map_numbered_versions (fun _ _ => rfl) (by simp)

theorem map_version_writes : p.writes.map EdgeWrite.version =
    p.afterRefreshes.fresh p.options.counters.edge p.changes.changes.length :=
  map_numbered_versions (fun _ _ => rfl) (by simp)

theorem published_groups_versioned (hne : p.options.counters.edge ≠ p.options.counters.group)
    (h : Versioned (p.tables.groups.filterMap Group.version)
      (p.counters.value p.options.counters.group)) :
    Versioned (p.published.groups.filterMap Group.version)
      (p.spent.value p.options.counters.group) := by
  have hspent : p.spent.value p.options.counters.group =
      p.afterRefreshes.value p.options.counters.group := by
    rw [spent, Counters.value_grant, if_neg hne.symm]
  have hupserted : Versioned (p.upserted.filterMap Group.version)
      (p.afterInserts.value p.options.counters.group) := by
    refine foldl_stamps_versioned (stamps_upsertGroup _) ?_ ?_ (Counters.value_le_grant _ _ _) h
    · rw [map_version_inserts]
      exact Counters.fresh_pairwise _ _ _
    · rw [map_version_inserts]
      exact Counters.fresh_range _ _ _
  rw [published_groups, provisioned_groups_eq, hspent]
  refine foldl_stamps_versioned stamps_refreshGroup ?_ ?_ (Counters.value_le_grant _ _ _) hupserted
  · rw [map_version_refreshes]
    exact Counters.fresh_pairwise _ _ _
  · rw [map_version_refreshes]
    exact Counters.fresh_range _ _ _

theorem published_groups_above
    (h : Versioned (p.tables.groups.filterMap Group.version)
      (p.counters.value p.options.counters.group)) {i : Nat} {g : Group}
    (hg : p.published.groups[i]? = some g) :
    p.tables.groups[i]? = some g ∨ Above Group.version p.tables.groups g := by
  rw [published_groups, provisioned_groups_eq] at hg
  rcases getElem?_foldl_stamps stamps_refreshGroup hg with hg | ⟨v, hv, hgv⟩
  · rcases getElem?_foldl_stamps (stamps_upsertGroup _) hg with hg | ⟨v, hv, hgv⟩
    · exact .inl hg
    · rw [map_version_inserts] at hv
      exact .inr (above_of_mem_fresh h (Int.le_refl _) hv hgv)
  · rw [map_version_refreshes] at hv
    exact .inr (above_of_mem_fresh h (Counters.value_le_grant _ _ _) hv hgv)

theorem versions_contested :
    p.contested.filterMap Edge.version = p.tables.edges.filterMap Edge.version := by
  unfold contested
  split
  · rfl
  · cases p.strayEdge with
    | none => rfl
    | some id => exact filterMap_modifyFirst_of_eq fun _ _ _ => rfl

theorem published_edges_versioned (hne : p.options.counters.edge ≠ p.options.counters.group)
    (h : Versioned (p.tables.edges.filterMap Edge.version)
      (p.counters.value p.options.counters.edge)) :
    Versioned (p.published.edges.filterMap Edge.version)
      (p.spent.value p.options.counters.edge) := by
  rw [← versions_contested, ← value_afterRefreshes_of_ne hne] at h
  rw [published_edges_eq]
  refine foldl_stamps_versioned stamps_applyEdge ?_ ?_ (Counters.value_le_grant _ _ _) h
  · rw [map_version_writes]
    exact Counters.fresh_pairwise _ _ _
  · rw [map_version_writes]
    exact Counters.fresh_range _ _ _

theorem published_edges_above (hne : p.options.counters.edge ≠ p.options.counters.group)
    (h : Versioned (p.tables.edges.filterMap Edge.version)
      (p.counters.value p.options.counters.edge)) {i : Nat} {e : Edge}
    (he : p.published.edges[i]? = some e) :
    p.tables.edges[i]? = some e ∨ (strayed p.strayEdge p.tables).edges[i]? = some e ∨
      Above Edge.version p.tables.edges e := by
  rw [published_edges_eq] at he
  rw [← value_afterRefreshes_of_ne hne] at h
  rcases getElem?_foldl_stamps stamps_applyEdge he with he | ⟨v, hv, hev⟩
  · unfold contested at he
    split at he
    · exact .inl he
    · exact .inr (.inl he)
  · rw [map_version_writes] at hv
    exact .inr (.inr (above_of_mem_fresh h (Int.le_refl _) hv hev))

theorem exists_refreshed (hlanded : p.Landed) :
    ∀ r ∈ p.refreshes, ∃ g ∈ p.provisioned.groups, g.version = some r.version :=
  Tables.exists_refreshed groupId_refreshes_nodup hlanded.refreshes

theorem exists_written (hlanded : p.Landed) (hids : (p.tables.edges.map Edge.id).Nodup) :
    ∀ r ∈ p.writes, ∃ e ∈ p.published.edges, e.version = some r.version := by
  intro r hr
  have hne : p.changes.changes ≠ [] := by
    intro hnone
    simp [writes, hnone] at hr
  rw [published, if_neg hne]
  exact Tables.exists_applied (edgeId_writes_nodup hids) (hlanded.writes hne) r hr

theorem fresh_carried {ρ α : Type} {rows : List ρ} {after : List α} {rowVersion : ρ → Int}
    {version : α → Option Int} {vs : List Int} (hmap : rows.map rowVersion = vs)
    (h : ∀ r ∈ rows, ∃ y ∈ after, version y = some (rowVersion r)) :
    ∀ v ∈ vs, v ∈ after.filterMap version := by
  intro v hv
  rw [← hmap] at hv
  obtain ⟨r, hr, rfl⟩ := List.mem_map.mp hv
  exact List.mem_filterMap.mpr (h r hr)

end Course

section Run

variable {names : CounterNames} {o : Options} {w : World}

theorem numbered_reconcile (hne : names.edge ≠ names.group) (hnames : o.counters = names)
    (hw : Numbered names w) (stamp : Stamp) :
    Numbered names ((reconcile service o stamp).outcome w).2 ∧
      WritesAbove w ((reconcile service o stamp).outcome w).2 := by
  subst hnames
  rcases reconcile_commits_or_burns o stamp w with ⟨hfull, r, w', hrun⟩ | hburns
  · obtain ⟨-, hcounters, hstore, -⟩ := reconcile_eq_ok hfull hrun
    have htables : w'.store.tables = (w.course o).published := by rw [hstore]
    rw [hrun]
    refine ⟨⟨?_, ?_⟩, ⟨?_, ?_⟩⟩
    · rw [htables, hcounters]
      exact @Course.published_edges_versioned (w.course o) hne hw.edges
    · rw [htables, hcounters]
      exact @Course.published_groups_versioned (w.course o) hne hw.groups
    · rw [htables]
      exact fun i e he => @Course.published_edges_above (w.course o) hne hw.edges i e he
    · rw [htables]
      exact fun i g hg => @Course.published_groups_above (w.course o) hw.groups i g hg
  · exact ⟨hburns.numbered hw, hburns.writesAbove⟩

theorem stamped_reconcile (hne : o.counters.edge ≠ o.counters.group)
    (hw : Numbered o.counters w) (hgroups : (w.store.tables.groups.map Group.id).Nodup)
    (hedges : (w.store.tables.edges.map Edge.id).Nodup) (hfull : o.dryRun = false)
    {stamp : Stamp} {r : Report} {w' : World}
    (hrun : (reconcile service o stamp).outcome w = (.ok r, w')) : WritesStamped r w w' := by
  obtain ⟨rfl, -, hstore, -, -, hlanded⟩ := reconcile_eq_ok hfull hrun
  have htables : w'.store.tables = (w.course o).published := by rw [hstore]
  have hvalue := @Course.value_afterRefreshes_of_ne (w.course o) _ hne
  refine ⟨stamped_block? hw.groups (Int.le_refl _) ?_,
    stamped_block? hw.groups (Counters.value_le_grant _ _ _) ?_,
    stamped_block? hw.edges (Int.le_of_eq hvalue.symm) ?_⟩
  · rw [htables, Course.published_groups]
    exact Course.fresh_carried Course.map_version_inserts (Course.exists_inserted hgroups)
  · rw [htables, Course.published_groups]
    exact Course.fresh_carried Course.map_version_refreshes (Course.exists_refreshed hlanded)
  · rw [htables]
    exact Course.fresh_carried Course.map_version_writes (Course.exists_written hlanded hedges)

end Run

/-- Rows are added without a version, and of the others all may change but ids and versions. -/
def Edited {α : Type} (stamp : α → Int × Option Int) (rows rows' : List α) : Prop :=
  ∃ added : List Int, (rows'.map stamp).Perm (rows.map stamp ++ added.map fun id => (id, none))

/-- What happens to a store and counters that runs draw on under two names. -/
inductive HistoryStep (names : CounterNames) : World → World → Prop
  | run {w : World} (o : Options) (stamp : Stamp) (h : o.counters = names) :
      HistoryStep names w ((reconcile service o stamp).outcome w).2
  | edit {w w' : World}
      (hedges : Edited (fun e : Edge => (e.id, e.version)) w.store.tables.edges
        w'.store.tables.edges)
      (hgroups : Edited (fun g : Group => (g.id, g.version)) w.store.tables.groups
        w'.store.tables.groups)
      (hvalues : ∀ counter, w'.counters.value counter = w.counters.value counter) :
      HistoryStep names w w'

abbrev History (names : CounterNames) := Relation.ReflTransGen (HistoryStep names)

theorem Edited.versioned {α : Type} {key : α → Int} {version : α → Option Int}
    {rows rows' : List α} {top : Int} (h : Edited (fun x => (key x, version x)) rows rows')
    (hrows : Versioned (rows.filterMap version) top) : Versioned (rows'.filterMap version) top := by
  obtain ⟨added, hperm⟩ := h
  have hversions := hperm.filterMap Prod.snd
  have hadded : (added.map fun id => (id, (none : Option Int))).filterMap Prod.snd = [] := by
    simp [List.filterMap_map]
  rw [List.filterMap_append, hadded, List.append_nil, List.filterMap_map, List.filterMap_map]
    at hversions
  exact ⟨hversions.nodup_iff.mpr hrows.nodup, fun v hv => hrows.le v (hversions.mem_iff.mp hv)⟩

theorem HistoryStep.numbered {names : CounterNames} {w w' : World} (hne : names.edge ≠ names.group)
    (h : HistoryStep names w w') (hw : Numbered names w) : Numbered names w' := by
  cases h with
  | run o stamp hnames => exact (numbered_reconcile hne hnames hw stamp).1
  | edit hedges hgroups hvalues =>
    constructor
    · rw [hvalues]
      exact hedges.versioned hw.edges
    · rw [hvalues]
      exact hgroups.versioned hw.groups

theorem History.numbered {names : CounterNames} {w w' : World} (hne : names.edge ≠ names.group)
    (h : History names w w') (hw : Numbered names w) : Numbered names w' := by
  induction h with
  | refl => exact hw
  | tail _ hstep ih => exact hstep.numbered hne ih

/-- Over any history versions stay distinct and bounded by their counters. What a run writes has a
version above all that its table held before, and so does every row that it reports as written. -/
theorem versions_increase {names : CounterNames} {start w : World} (hne : names.edge ≠ names.group)
    (hstart : Numbered names start) (hhistory : History names start w) (o : Options)
    (hnames : o.counters = names) (stamp : Stamp) :
    Numbered names w ∧ Numbered names ((reconcile service o stamp).outcome w).2 ∧
      WritesAbove w ((reconcile service o stamp).outcome w).2 ∧
      ((w.store.tables.groups.map Group.id).Nodup → (w.store.tables.edges.map Edge.id).Nodup →
        o.dryRun = false → ∀ r, ((reconcile service o stamp).outcome w).1 = .ok r →
          WritesStamped r w ((reconcile service o stamp).outcome w).2) := by
  have hw := hhistory.numbered hne hstart
  obtain ⟨hnumbered, habove⟩ := numbered_reconcile hne hnames hw stamp
  refine ⟨hw, hnumbered, habove, fun hgroups hedges hfull r hr => ?_⟩
  subst hnames
  exact stamped_reconcile hne hw hgroups hedges hfull (Prod.ext hr rfl)

theorem versions_increase_strewn : ∃ w r, History {} strewn w ∧
    ((reconcile service {} default).outcome w).1 = .ok r ∧ r.updated = 2 ∧
    Numbered {} ((reconcile service {} default).outcome w).2 ∧
    WritesAbove w ((reconcile service {} default).outcome w).2 ∧
    WritesStamped r w ((reconcile service {} default).outcome w).2 := by
  have hstart : Numbered {} strewn :=
    ⟨⟨by decide, by decide⟩, ⟨by decide, by decide⟩⟩
  let w := ((reconcile service { dryRun := true } default).outcome strewn).2
  have hhistory : History {} strewn w := .single (.run { dryRun := true } default rfl)
  obtain ⟨r, hrun⟩ := @exists_eq_ok _ _ (reconcile service {} default) w (by cbv)
  have hr : ((reconcile service {} default).outcome w).1 = .ok r := by rw [hrun]
  have hupdated : r.updated = 2 := by
    have h : (((reconcile service {} default).outcome w).1.map Report.updated) = .ok 2 := by cbv
    rw [hr] at h
    exact Except.ok.inj h
  obtain ⟨-, hnumbered, habove, hstamped⟩ :=
    versions_increase (by decide) hstart hhistory {} rfl default
  have htables : w.store.tables = strewn.store.tables := by cbv
  have hgroups : (w.store.tables.groups.map Group.id).Nodup := by rw [htables]; decide
  have hedges : (w.store.tables.edges.map Edge.id).Nodup := by rw [htables]; decide
  exact ⟨w, r, hhistory, hr, hupdated, hnumbered, habove, hstamped hgroups hedges rfl r hr⟩

end Regroup.Memory
