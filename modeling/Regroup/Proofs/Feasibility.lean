import Regroup.Proofs.DryRun
import Regroup.Proofs.GuardedUpdate
import Regroup.Proofs.Repair
import Regroup.Proofs.Upserts

/-! Runs that cannot fail. Where edges are told apart, no one interferes and counters have room,
each block has just the size of its rows, no two rows have one key, and each row that is to be
refreshed or moved is still there when its turn comes. -/

namespace Regroup

open Attempt

theorem VersionBlock.endingAt_of_signed {before : Int} {n : Nat} (hn : n ≠ 0)
    (hbefore : Word.IsSigned before) (hrows : (n : Int) ≤ Word.maxSigned) :
    endingAt (before + n) n = .ok ⟨before + 1, n⟩ := by
  have hstart : Word.signed? (before + n - n) = some before :=
    Word.signed?_eq_some_iff.mpr ⟨by simpa using hbefore, by omega⟩
  rw [endingAt, if_neg hn, if_pos hrows, hstart]

/-- In a full run no edge awaits a default group when edges come to be written. -/
theorem awaitingDefault_findChanges {σ : Type} {s : Service σ} {o : Options} {plan : ProvisionPlan}
    {c : ChangeSet} {x y : σ} (hfull : o.dryRun = false)
    (h : (findChanges s o plan).outcome x = (.ok c, y)) : c.awaitingDefault = [] := by
  unfold findChanges at h
  obtain ⟨groups, u, -, h⟩ := bind_eq_ok.mp h
  obtain ⟨memberships, v, -, h⟩ := bind_eq_ok.mp h
  obtain ⟨edges, z, -, h⟩ := bind_eq_ok.mp h
  obtain ⟨hc, -⟩ := Prod.mk.inj h
  have hsnapshot : snapshotOf o plan groups memberships = .build groups memberships := by
    simp [snapshotOf, hfull]
  rw [hsnapshot] at hc
  rw [← Except.ok.inj hc]
  exact List.length_eq_zero_iff.mp (ChangeSet.length_awaitingDefault_build _ _)

namespace Tables

theorem fst_refreshGroups {rows : List GroupRefresh} (hrows : (rows.map GroupRefresh.groupId).Nodup)
    (t : Tables) :
    (refreshGroups rows t).1 = rows.countP fun r => t.groups.any (·.id == r.groupId) := by
  have hcount := fst_foldl_countedModify GroupRefresh.id_stamp GroupRefresh.groupId_eq hrows
    (0, t.groups)
  rw [Nat.zero_add] at hcount
  exact hcount

end Tables

namespace Memory

namespace Counters

/-- The counter, so many rows, and the counter once they are drawn are words. -/
structure HasRoom (c : Counters) (counter : String) (n : Nat) : Prop where
  value : Word.IsSigned (c.value counter)
  rows : (n : Int) ≤ Word.maxSigned
  total : Word.IsSigned (c.value counter + n)

variable {c c' : Counters} {counter : String} {n m : Nat}

theorem HasRoom.left (h : c.HasRoom counter (n + m)) : c.HasRoom counter n := by
  obtain ⟨hvalue, hrows, -, htotal⟩ := h
  refine ⟨hvalue, by omega, ?_, by omega⟩
  have hmin := hvalue.1
  omega

theorem HasRoom.grant (h : c.HasRoom counter (n + m)) : (c.grant counter n).HasRoom counter m := by
  have hleft := h.left.total
  obtain ⟨-, hrows, htotal⟩ := h
  rw [Nat.cast_add, ← Int.add_assoc] at htotal
  refine ⟨?_, by omega, ?_⟩
  · rw [value_grant, if_pos rfl]
    exact hleft
  · rw [value_grant, if_pos rfl]
    exact htotal

theorem HasRoom.of_value_eq (h : c.HasRoom counter n)
    (hvalue : c'.value counter = c.value counter) : c'.HasRoom counter n := by
  refine ⟨?_, h.rows, ?_⟩
  · rw [hvalue]
    exact h.value
  · rw [hvalue]
    exact h.total

@[simp] theorem reachable_grant (c : Counters) (counter : String) (n : Nat) :
    (c.grant counter n).reachable = c.reachable := by
  unfold grant
  split <;> rfl

theorem reserve_of_hasRoom (hup : c.reachable = true) (hroom : c.HasRoom counter n) :
    ((reserve counter n).outcome c).1 = .ok (c.value counter + n) := by
  have hlast : Word.signed? (c.value counter + n) = some (c.value counter + n) :=
    Word.signed?_eq_some_iff.mpr ⟨hroom.total, rfl⟩
  have hcount : ¬ Word.maxSigned < (n : Int) := Int.not_lt.mpr hroom.rows
  rw [reserve, outcome_get_bind]
  simp only [hup, Bool.not_true, Bool.false_eq_true, if_false, hcount, hlast]
  rfl

end Counters

namespace Course

variable {p : Course}

/-- The number of rows that a full run draws versions for from a counter. -/
def drawn (p : Course) (counter : String) : Nat :=
  (if counter = p.options.counters.group
    then p.plan.missingOwners.length + p.plan.existingGroups.length else 0) +
  (if counter = p.options.counters.edge then p.changes.changes.length else 0)

theorem hasRoom_group {c : Counters}
    (h : c.HasRoom p.options.counters.group (p.drawn p.options.counters.group)) :
    c.HasRoom p.options.counters.group
      (p.plan.missingOwners.length + p.plan.existingGroups.length) := by
  rw [drawn, if_pos rfl] at h
  exact h.left

theorem hasRoom_edge
    (h : p.counters.HasRoom p.options.counters.edge (p.drawn p.options.counters.edge)) :
    p.afterRefreshes.HasRoom p.options.counters.edge p.changes.changes.length := by
  by_cases hname : p.options.counters.edge = p.options.counters.group
  -- one counter for edges and groups has been drawn on twice by then
  · simp only [drawn, hname, if_true, Nat.add_assoc] at h
    rw [hname]
    exact h.grant.grant
  · simp only [drawn, hname, if_false, if_true, Nat.zero_add] at h
    exact h.of_value_eq (value_afterRefreshes_of_ne hname)

theorem id_upserted {id : GroupId} : id ∈ p.upserted.map Group.id ↔
    id ∈ p.tables.groups.map Group.id ∨
      id ∈ (Tables.newGroups p.options.defaultGroupName (largestId p.tables.groups + 1)
        (Tables.unheld p.options.defaultGroupName p.tables.groups p.inserts)).map Group.id := by
  rw [upserted, Tables.map_id_foldl_upsertGroup owner_inserts_nodup, List.mem_append]

theorem idsFit_upserted (hwords : ∀ g ∈ p.tables.groups, Word.IsSigned g.id)
    (hroom : largestId p.tables.groups + p.plan.missingOwners.length ≤ Word.maxSigned) :
    (Tables.upsertGroups p.options.defaultGroupName p.inserts p.tables).2.idsFit = true := by
  have hcount : (Tables.unheld p.options.defaultGroupName p.tables.groups p.inserts).length ≤
      p.plan.missingOwners.length := by
    rw [← map_owner_inserts, List.length_map]
    exact List.length_filter_le _ _
  rw [Tables.idsFit_upsertGroups_iff hwords owner_inserts_nodup]
  exact Int.le_trans (Int.add_le_add_left (Int.ofNat_le.mpr hcount) _) hroom

theorem existing_upserted {id : GroupId} (h : id ∈ p.plan.existingGroups) :
    p.upserted.any (·.id == id) = true := by
  obtain ⟨g, hg, -, rfl⟩ := mem_existingGroups.mp h
  obtain ⟨x, hx, hid⟩ := List.mem_map.mp (id_upserted.mpr (.inl (List.mem_map_of_mem hg)))
  exact List.any_eq_true.mpr ⟨x, hx, by simp [hid]⟩

/-- Where edges are told apart and no one interferes, all refreshes and writes find their rows. -/
theorem landed (hids : (p.tables.edges.map Edge.id).Nodup) (halone : p.strayEdge = none) :
    p.Landed := by
  constructor
  · rw [Tables.fst_refreshGroups groupId_refreshes_nodup, List.countP_eq_length]
    exact fun r hr => existing_upserted (groupId_mem_existing hr)
  · intro _
    rw [Tables.fst_applyEdges (edgeId_writes_nodup hids), List.countP_eq_length, halone]
    intro r hr
    obtain ⟨e, he, hmatch, -⟩ := ChangeSet.exists_matchesEdge hr
    exact List.any_eq_true.mpr ⟨e, he, hmatch⟩

end Course

variable {st : Store} {t : Tables} {c : Counters} {o : Options}

theorem reserveBlock_succeeds {counter : String} {n : Nat} (hup : c.reachable = true)
    (hroom : c.HasRoom counter n) :
    Succeeds (service.reserveBlock counter n) (opened st t c) := by
  unfold Service.reserveBlock reserveBlock
  by_cases hn : n = 0
  · simp only [hn, if_true]
    exact .pure none
  · simp only [hn, if_false]
    have hreserve : (service.perform (.reserve counter n)).outcome (opened st t c) =
        (.ok (c.value counter + n), opened st t ((Counters.reserve counter n).outcome c).2) := by
      rw [outcome_reserve, Counters.reserve_of_hasRoom hup hroom]
    refine Succeeds.bind (Succeeds.within ⟨_, _, hreserve⟩ _) fun last u hlast => ?_
    rw [within_eq_ok, hreserve] at hlast
    obtain rfl : c.value counter + n = last := Except.ok.inj (Prod.mk.inj hlast).1
    exact (Succeeds.ofBlock (VersionBlock.endingAt_of_signed hn hroom.value hroom.rows)).bind
      fun _ _ _ => .pure _

theorem check_succeeds {target : WriteTarget} {n : Nat} {w : World} :
    Succeeds (ofCheck (ApplyMismatch.check target n n)) w :=
  .ofCheck (if_pos rfl)

/-- With room for its rows a write succeeds once the rows are numbered and all of them land. -/
theorem numberedWrite_succeeds {ρ : Type} {counter : String} {n : Nat} {ctx : Context} {r : Report}
    {number : VersionBlock → Attempt World (List ρ)} {write : List ρ → Attempt World Nat}
    {check : List ρ → Nat → Attempt World Unit} (record : VersionBlock → Nat → Report)
    (hup : c.reachable = true) (hroom : c.HasRoom counter n)
    (hrest : n ≠ 0 → ∃ rows w,
      (number ⟨c.value counter + 1, n⟩).outcome (opened st t (c.grant counter n)) =
        (.ok rows, opened st t (c.grant counter n)) ∧
      (write rows).outcome (opened st t (c.grant counter n)) = (.ok rows.length, w) ∧
      Succeeds (check rows rows.length) w) :
    Succeeds ((service.reserveBlock counter n).within ctx >>= fun b => match b with
      | none => pure r
      | some block => number block >>= fun rows => write rows >>= fun k =>
          check rows k >>= fun _ => pure (record block k)) (opened st t c) := by
  refine ((reserveBlock_succeeds hup hroom).within ctx).bind fun b w hb => ?_
  obtain ⟨rfl, rfl⟩ := reserveBlock_eq_ok (within_eq_ok.mp hb)
  by_cases hn : n = 0
  · simp only [Counters.block?, hn, if_true]
    exact .pure r
  · simp only [Counters.block?, hn, if_false]
    obtain ⟨rows, w, hnumber, hwrite, hcheck⟩ := hrest hn
    refine Succeeds.bind ⟨rows, _, hnumber⟩ fun rows' u h => ?_
    obtain ⟨hrows, rfl⟩ := Prod.mk.inj (hnumber.symm.trans h)
    obtain rfl := Except.ok.inj hrows
    refine Succeeds.bind ⟨rows.length, w, hwrite⟩ fun k v h => ?_
    obtain ⟨hk, rfl⟩ := Prod.mk.inj (hwrite.symm.trans h)
    obtain rfl := Except.ok.inj hk
    exact hcheck.bind fun _ _ _ => .pure _

theorem insertGroups_succeeds {plan : ProvisionPlan} {r : Report} {rows : List GroupInsert}
    (hpoint : st.failAt = none) (hup : c.reachable = true)
    (hroom : c.HasRoom o.counters.group plan.missingOwners.length)
    (howners : plan.missingOwners.Pairwise (· < ·))
    (hrows : rows = List.zipWith GroupInsert.mk plan.missingOwners
      (c.fresh o.counters.group plan.missingOwners.length))
    (hfit : (Tables.upsertGroups o.defaultGroupName rows t).2.idsFit = true) :
    Succeeds (insertGroups service o plan r) (opened st t c) := by
  refine numberedWrite_succeeds
    (fun block n => { r with groupsInserted := n, groupInsertBlock := some block }) hup hroom
    fun _ => ?_
  have hkeys : (plan.missingOwners.map id).Nodup := by
    rw [List.map_id]
    exact howners.imp Std.ne_of_lt
  obtain ⟨made, hok⟩ : ∃ made,
      plan.inserts ⟨c.value o.counters.group + 1, plan.missingOwners.length⟩ = .ok made := by
    rw [ProvisionPlan.inserts, assignVersions_of_nodup hkeys rfl]
    exact ⟨_, rfl⟩
  have heq := ProvisionPlan.inserts_eq_ok (howners.imp Std.le_of_lt) hok
  rw [Counters.values_block, ← hrows] at heq
  subst heq
  have hwrite := @outcome_upsert st t (c.grant o.counters.group plan.missingOwners.length)
    o.defaultGroupName made
  rw [if_neg (by simp [hpoint]), if_pos hfit] at hwrite
  exact ⟨made, _, ofBlock_eq_ok.mpr ⟨hok, rfl⟩, within_eq_ok.mpr hwrite, check_succeeds⟩

theorem refreshGroups_succeeds {plan : ProvisionPlan} {r : Report} {rows : List GroupRefresh}
    (hpoint : st.failAt = none) (hup : c.reachable = true)
    (hroom : c.HasRoom o.counters.group plan.existingGroups.length)
    (hids : plan.existingGroups.Pairwise (· < ·))
    (hrows : rows = List.zipWith GroupRefresh.mk plan.existingGroups
      (c.fresh o.counters.group plan.existingGroups.length))
    (hlanded : (Tables.refreshGroups rows t).1 = rows.length) :
    Succeeds (refreshGroups service o plan r) (opened st t c) := by
  refine numberedWrite_succeeds
    (fun block n => { r with groupsRefreshed := n, groupRefreshBlock := some block }) hup hroom
    fun _ => ?_
  have hkeys : (plan.existingGroups.map id).Nodup := by
    rw [List.map_id]
    exact hids.imp Std.ne_of_lt
  obtain ⟨made, hok⟩ : ∃ made,
      plan.refreshes ⟨c.value o.counters.group + 1, plan.existingGroups.length⟩ = .ok made := by
    rw [ProvisionPlan.refreshes, assignVersions_of_nodup hkeys rfl]
    exact ⟨_, rfl⟩
  have heq := ProvisionPlan.refreshes_eq_ok (hids.imp Std.le_of_lt) hok
  rw [Counters.values_block, ← hrows] at heq
  subst heq
  have hwrite := @outcome_refresh st t (c.grant o.counters.group plan.existingGroups.length) made
  rw [if_neg (by simp [hpoint]), hlanded] at hwrite
  exact ⟨made, _, ofBlock_eq_ok.mpr ⟨hok, rfl⟩, within_eq_ok.mpr hwrite, check_succeeds⟩

theorem applyChanges_succeeds {changes : ChangeSet} {r : Report} {rows : List EdgeWrite}
    (hpoint : st.failAt = none) (hup : c.reachable = true)
    (hroom : c.HasRoom o.counters.edge changes.changes.length)
    (hids : (changes.changes.map EdgeChange.edgeId).Nodup)
    (hsorted : changes.changes.Pairwise fun x y => x.edgeId ≤ y.edgeId)
    (hawaiting : changes.awaitingDefault = [])
    (hrows : rows = List.zipWith EdgeChange.write changes.changes
      (c.fresh o.counters.edge changes.changes.length))
    (hlanded : changes.changes ≠ [] →
      (Tables.applyEdges rows (strayed st.interfereWith t)).1 = rows.length) :
    Succeeds (applyChanges service o changes r) (opened st t c) := by
  refine numberedWrite_succeeds
    (fun block n => { r with edgeBlock := some block, updated := n }) hup hroom fun hn => ?_
  have hok : changes.writes ⟨c.value o.counters.edge + 1, changes.changes.length⟩ = .ok rows := by
    rw [ChangeSet.writes_of_nodup hawaiting hids hsorted rfl, Counters.values_block, hrows]
  have hne : changes.changes ≠ [] := fun he => hn (by rw [he, List.length_nil])
  have hwrite := @outcome_apply st t (c.grant o.counters.edge changes.changes.length) rows
  rw [if_neg (by simp [hpoint]), hlanded hne] at hwrite
  exact ⟨rows, _, within_eq_ok.mpr (ofBlock_eq_ok.mpr ⟨hok, rfl⟩), within_eq_ok.mpr hwrite,
    check_succeeds.within _⟩

theorem planned_succeeds {p : Course} {stamp : Stamp} (hpoint : st.failAt = none)
    (hfull : p.options.dryRun = false) (hup : p.counters.reachable = true)
    (hroom : p.counters.HasRoom p.options.counters.group
      (p.plan.missingOwners.length + p.plan.existingGroups.length))
    (hfit : (Tables.upsertGroups p.options.defaultGroupName p.inserts p.tables).2.idsFit = true)
    (hlanded : p.Landed) :
    Succeeds (planned service p.options (Report.start stamp p.options))
      (opened st p.tables p.counters) := by
  unfold planned
  rcases hs : p.options.provisioning with _ | s
  · exact .pure _
  refine Succeeds.within ?_ _
  have hcand : s.candidates p.tables.edgeOwners p.tables.registryOwners = p.candidates := by
    simp only [Course.candidates, Provisioning.owners, hs]
  unfold provision
  refine Succeeds.bind ⟨_, _, outcome_seedOwners s⟩ fun owners u hseed => ?_
  rw [outcome_seedOwners, hcand, Prod.mk.injEq, Except.ok.injEq] at hseed
  obtain ⟨rfl, rfl⟩ := hseed
  refine Succeeds.bind (Succeeds.within ⟨_, _, outcome_loadGroups⟩ _) fun groups u hload => ?_
  rw [within_eq_ok, outcome_loadGroups, Prod.mk.injEq, Except.ok.injEq] at hload
  obtain ⟨rfl, rfl⟩ := hload
  simp only [hfull, Bool.false_eq_true, if_false]
  have howners := missingOwners_pairwise p.candidates p.tables.groups
  refine (insertGroups_succeeds hpoint hup hroom.left howners rfl hfit).bind fun r u hins => ?_
  obtain ⟨-, rfl⟩ := insertGroups_eq_ok (howners.imp Std.le_of_lt) ⟨rfl, rfl⟩ hins
  exact (refreshGroups_succeeds hpoint (by simpa using hup) hroom.grant
    (existingGroups_pairwise _ _) rfl hlanded.refreshes).bind fun _ _ _ => .pure _

theorem findChanges_succeeds {plan : ProvisionPlan} (hpoint : st.failAt = none) :
    Succeeds (findChanges service o plan) (opened st t c) := by
  refine ⟨_, _, (outcome_findChanges plan).trans (if_neg ?_)⟩
  simp [hpoint]

theorem drive_succeeds {p : Course} {stamp : Stamp} (hpoint : st.failAt = none)
    (hstray : st.interfereWith = p.strayEdge) (hfull : p.options.dryRun = false)
    (hup : p.counters.reachable = true)
    (hroom : ∀ counter ∈ [p.options.counters.edge, p.options.counters.group],
      p.counters.HasRoom counter (p.drawn counter))
    (hfit : (Tables.upsertGroups p.options.defaultGroupName p.inserts p.tables).2.idsFit = true)
    (hids : (p.tables.edges.map Edge.id).Nodup) (hlanded : p.Landed) :
    Succeeds (drive service p.options (Report.start stamp p.options))
      (opened st p.tables p.counters) := by
  rw [drive_eq]
  refine (planned_succeeds hpoint hfull hup (Course.hasRoom_group (hroom _ (by simp))) hfit
    hlanded).bind fun x u hprov => ?_
  obtain ⟨rfl, rfl, -⟩ := planned_eq_ok hfull hprov
  refine (findChanges_succeeds hpoint).bind fun changes u hfind => ?_
  have hawaiting := awaitingDefault_findChanges hfull hfind
  obtain ⟨hchanges, rfl, -⟩ := findChanges_eq_ok hfind
  obtain rfl : changes = p.changes := by
    simp only [hchanges, snapshotOf, hfull, Bool.false_eq_true, if_false]
    rfl
  simp only [hfull, Bool.false_eq_true, if_false]
  refine applyChanges_succeeds hpoint ?_ (Course.hasRoom_edge (hroom _ (by simp)))
    (ChangeSet.changes_nodup _ _ hids) (ChangeSet.changes_pairwise _ _ _) hawaiting rfl ?_
  · simpa [Course.afterRefreshes, Course.afterInserts] using hup
  · rw [hstray]
    exact hlanded.writes

/-- Nothing stands in the way of a run. -/
structure Healthy (o : Options) (w : World) : Prop where
  edges : (w.store.tables.edges.map Edge.id).Nodup
  point : w.store.failAt = none
  alone : w.store.interfereWith = none
  reachable : w.counters.reachable = true
  /-- A full run draws versions for its rows. -/
  room : o.dryRun = false → ∀ counter ∈ [o.counters.edge, o.counters.group],
    w.counters.HasRoom counter ((w.course o).drawn counter)
  ids : ∀ g ∈ w.store.tables.groups, Word.IsSigned g.id
  idRoom : o.dryRun = false → Word.IsSigned
    (largestId w.store.tables.groups + (w.course o).plan.missingOwners.length)

namespace Healthy

variable {w : World}

theorem idsFit_upserted (h : Healthy o w) (hfull : o.dryRun = false) :
    (Tables.upsertGroups o.defaultGroupName (w.course o).inserts w.store.tables).2.idsFit = true :=
  Course.idsFit_upserted h.ids (h.idRoom hfull).2

theorem full_succeeds (h : Healthy o w) (hfull : o.dryRun = false) (stamp : Stamp) :
    Succeeds (reconcile service o stamp) w := by
  have hlanded : (w.course o).Landed := Course.landed h.edges h.alone
  have hbegin := outcome_begin w o.lockWait
  rw [if_neg (by simp [h.point])] at hbegin
  refine Succeeds.bind (Succeeds.within ⟨_, _, hbegin⟩ _) fun x u hx => ?_
  rw [within_eq_ok, hbegin] at hx
  obtain ⟨-, rfl⟩ := Prod.mk.inj hx
  have hdrive : Succeeds (drive service o (Report.start stamp o))
      (opened (asked w.store o.lockWait) w.store.tables w.counters) :=
    drive_succeeds (p := w.course o) h.point rfl hfull h.reachable (h.room hfull)
      (h.idsFit_upserted hfull) h.edges hlanded
  refine (hdrive.orElseUndo _).bind fun r u hr => ?_
  obtain ⟨-, rfl, -⟩ := drive_eq_ok (asked w.store o.lockWait) (w.course o) rfl hfull
    (orElseUndo_eq_ok.mp hr)
  have hcommit := @outcome_commit (asked w.store o.lockWait) (w.course o).published
    (w.course o).spent
  rw [if_neg (by simp [asked, h.point])] at hcommit
  have hfinish : Succeeds (finish service o r)
      (opened (asked w.store o.lockWait) (w.course o).published (w.course o).spent) := by
    simp only [finish, hfull, Bool.false_eq_true, if_false]
    exact (Succeeds.within ⟨_, _, hcommit⟩ _).bind fun _ _ _ => .pure _
  exact hfinish.bind fun _ _ _ => .pure _

theorem signed_published (h : Healthy o w) (hfull : o.dryRun = false) :
    ∀ g ∈ (w.course o).published.groups, Word.IsSigned g.id := by
  intro g hg
  have hid := List.mem_map_of_mem (f := Group.id) hg
  rw [Course.published_groups, Course.map_id_provisioned] at hid
  obtain ⟨x, hx, hxid⟩ := List.mem_map.mp hid
  rw [← hxid]
  exact Tables.idsFit_iff.mp (h.idsFit_upserted hfull) x hx

end Healthy

/-- A run that nothing stands in the way of succeeds, and no group id leaves the signed range. No
edge awaits a default group when a full run comes to write edges, whatever store it is over. -/
theorem healthy_run_succeeds {w : World} (h : Healthy o w) (stamp : Stamp) :
    ∃ r w', (reconcile service o stamp).outcome w = (.ok r, w') ∧
      (∀ g ∈ w'.store.tables.groups, Word.IsSigned g.id) ∧
      (o.dryRun = false → ∀ (σ : Type) (s : Service σ) plan changes x y,
        (findChanges s o plan).outcome x = (.ok changes, y) → changes.awaitingDefault = []) := by
  by_cases hdry : o.dryRun = true
  · refine ⟨_, _, reconcile_dry hdry (by simp [h.point]) (by simp [h.point]) stamp, h.ids, ?_⟩
    intro hfull
    rw [hdry] at hfull
    cases hfull
  · have hfull : o.dryRun = false := by simpa using hdry
    obtain ⟨r, w', hrun⟩ := h.full_succeeds hfull stamp
    refine ⟨r, w', hrun, ?_, fun _ _ _ _ _ _ _ hfind => awaitingDefault_findChanges hfull hfind⟩
    obtain ⟨-, -, hstore, -⟩ := reconcile_eq_ok hfull hrun
    rw [hstore]
    exact h.signed_published hfull

/-- The rows of a run use up the counters. -/
def brimming : World :=
  { strewn with
    counters.values := (Dictionary.empty.insert "seq:friend" (Word.maxSigned - 2)).insert
      "seq:friendGroup" (Word.maxSigned - 1) }

theorem healthy_brimming : Healthy {} brimming where
  edges := by decide
  point := rfl
  alone := rfl
  reachable := rfl
  room := by
    have hedge : (brimming.course {}).drawn "seq:friend" = 2 := by cbv
    have hgroup : (brimming.course {}).drawn "seq:friendGroup" = 1 := by cbv
    rintro - counter hcounter
    rcases List.mem_pair.mp hcounter with rfl | rfl
    · rw [hedge]
      exact ⟨by decide, by decide, by decide⟩
    · rw [hgroup]
      exact ⟨by decide, by decide, by decide⟩
  ids := by decide
  idRoom := by
    have hmissing : (brimming.course {}).plan.missingOwners = ["ada"] := by cbv
    rw [hmissing]
    decide

theorem healthy_run_succeeds_brimming : Healthy {} brimming ∧ ∃ r w',
    (reconcile service {} default).outcome brimming = (.ok r, w') ∧
    w'.counters.value "seq:friend" = Word.maxSigned ∧
    w'.counters.value "seq:friendGroup" = Word.maxSigned := by
  obtain ⟨r, w', hrun, -, -⟩ := healthy_run_succeeds healthy_brimming default
  obtain ⟨-, hcounters, -⟩ := reconcile_eq_ok rfl hrun
  exact ⟨healthy_brimming, r, w', hrun, by rw [hcounters]; cbv, by rw [hcounters]; cbv⟩

end Memory

end Regroup
