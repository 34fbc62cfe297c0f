import Regroup.Proofs.Abandonment
import Regroup.Proofs.Course
import Regroup.Proofs.GuardedUpdate

/-! A concurrent writer who moves an edge right before edges are written. Until then a run goes as
it would without one; then it finds fewer edges as it saw them than it has changes, and fails. -/

namespace Regroup

open Attempt

variable {σ : Type} {s : Service σ} {o : Options}

/-- What a full run does before it moves edges: a draft of its report, and the writes with the block
that they are drawn from, if any edges have to move. -/
def prepared (s : Service σ) (o : Options) (r : Report) :
    Attempt σ (Report × Option (VersionBlock × List EdgeWrite)) :=
  planned s o r >>= fun x => findChanges s o x.1 >>= fun c =>
    (s.reserveBlock o.counters.edge c.changes.length).within
      (.phaseStep .versionAllocate .edgeVersions) >>= fun
    | none => pure (x.2.counting c, none)
    | some block =>
      (Attempt.ofBlock (c.writes block)).within (.phase .versionAllocate) >>= fun rows =>
        pure (x.2.counting c, some (block, rows))

def moved (s : Service σ) : Report × Option (VersionBlock × List EdgeWrite) → Attempt σ Report
  | (r, none) => pure r
  | (r, some (block, rows)) =>
    (s.perform (.applyEdgeUpdates rows)).within (.phase .apply) >>= fun n =>
      (Attempt.ofCheck (ApplyMismatch.check .edgeUpdate rows.length n)).within (.phase .apply) >>=
        fun _ => pure { r with edgeBlock := some block, updated := n }

theorem drive_eq_prepared (hfull : o.dryRun = false) (r : Report) :
    drive s o r = prepared s o r >>= moved s := by
  rw [drive_eq]
  unfold prepared
  simp only [hfull, Bool.false_eq_true, if_false, bind_assoc]
  congr 1
  funext x
  congr 1
  funext c
  unfold applyChanges
  congr 1
  funext b
  cases b with
  | none => simp only [pure_bind]; rfl
  | some block => simp only [bind_assoc, pure_bind]; rfl

theorem prepared_alike {τ : Type} {s' : Service τ} {R : σ → τ → Prop}
    (hname : s.backend = s'.backend) (hfull : o.dryRun = false)
    (h : ∀ q : Request, o.mayPrepare q = true → Alike R (s.perform q) (s'.perform q)) (r : Report) :
    Alike R (prepared s o r) (prepared s' o r) := by
  have hagree := Service.Agree.of_perform hname h
  refine (hagree.planned_alike r).bind fun x => (hagree.find x.1).bind fun c => ?_
  have hreserve : Alike R (s.perform (.reserve o.counters.edge c.changes.length))
      (s'.perform (.reserve o.counters.edge c.changes.length)) :=
    hagree.write_full hfull rfl rfl rfl
  refine ((reserveBlock_alike hname hreserve).within _).bind fun b => ?_
  cases b with
  | none => exact Alike.pure _
  | some block => exact ((Alike.ofBlock _).within _).bind fun rows => Alike.pure _

/-- The edge of the change is still in the group that it was seen in. -/
def EdgeChange.stands (edges : List Edge) (c : EdgeChange) : Bool :=
  edges.any fun e => e.id == c.edgeId && e.currentGroup == c.current

namespace Memory

def Work.undisturbed (k : Work) : Work := { k with interfereWith := none }

def World.undisturbed (w : World) : World :=
  { w with
    store := { w.store with interfereWith := none }
    work := w.work.map Work.undisturbed }

theorem onWork_undisturbed {α : Type} {x : Attempt Work α}
    (hx : ∀ k, x.outcome k.undisturbed = ((x.outcome k).1, (x.outcome k).2.undisturbed)) :
    Alike (fun w v => v = w.undisturbed) (World.onWork x) (World.onWork x) := by
  rintro ⟨st, _ | k, c⟩ _ rfl
  · exact ⟨rfl, rfl⟩
  · have hk := hx k
    constructor
    · exact (congrArg Prod.fst hk).symm
    · show World.mk _ (some (x.outcome k.undisturbed).2) c = _
      rw [hk]
      rfl

theorem Work.Runs.undisturbed {α : Type} {x : Attempt Work α} {point : FailPoint}
    {f : Tables → Except Cause (α × Tables)} (hx : Runs x point fun _ => f) (k : Work) :
    x.outcome k.undisturbed = ((x.outcome k).1, (x.outcome k).2.undisturbed) := by
  have hpoint : k.undisturbed.failAt = k.failAt := rfl
  have htables : k.undisturbed.tables = k.tables := rfl
  rw [hx, hx, hpoint, htables]
  split
  · rfl
  · beta_reduce
    cases f k.tables <;> rfl

/-- Up to the writing of edges a concurrent writer makes no difference. -/
theorem perform_undisturbed (q : Request) (hq : q.movesEdges = false) :
    Alike (fun w v => v = w.undisturbed) (service.perform q) (service.perform q) := by
  cases q with
  | begin lockWait =>
    rintro w _ rfl
    have hpoint : w.undisturbed.store.failAt = w.store.failAt := rfl
    rw [outcome_begin, outcome_begin, hpoint]
    split <;> exact ⟨rfl, rfl⟩
  | edgeOwners => exact onWork_undisturbed fun k => rfl
  | registryOwners => exact onWork_undisturbed fun k => rfl
  | loadGroups => exact onWork_undisturbed fun k => rfl
  | loadMemberships => exact onWork_undisturbed fun k => rfl
  | loadEdges => exact onWork_undisturbed Work.loadEdges_runs.undisturbed
  | upsertDefaultGroups name rows =>
    exact onWork_undisturbed (Work.upsertDefaultGroups_runs name rows).undisturbed
  | refreshDefaultGroups rows =>
    exact onWork_undisturbed (Work.refreshDefaultGroups_runs rows).undisturbed
  | applyEdgeUpdates rows => cases hq
  | commit =>
    rintro ⟨st, _ | k, c⟩ _ rfl
    · exact ⟨rfl, rfl⟩
    · have hopen : World.undisturbed ⟨st, some k, c⟩ =
          ⟨{ st with interfereWith := none }, some k.undisturbed, c⟩ := rfl
      have hpoint : k.undisturbed.failAt = k.failAt := rfl
      rw [hopen, outcome_commit_work, outcome_commit_work, hpoint]
      split <;> exact ⟨rfl, rfl⟩
  | rollback => rintro ⟨st, _ | k, c⟩ _ rfl <;> exact ⟨rfl, rfl⟩
  | reserve counter n =>
    rintro w _ rfl
    exact ⟨rfl, rfl⟩

variable {st : Store} {p : Course} {stamp : Stamp}

theorem prepared_eq_ok {out : Report × Option (VersionBlock × List EdgeWrite)} {w : World}
    (hfull : p.options.dryRun = false)
    (h : (prepared service p.options (Report.start stamp p.options)).outcome
      (opened st p.tables p.counters) = (.ok out, w)) :
    w = opened st p.provisioned p.spent ∧
      out = ((p.provisionDraft stamp).counting p.changes,
        (p.afterRefreshes.block? p.options.counters.edge p.changes.changes.length).map
          fun block => (block, p.writes)) := by
  obtain ⟨⟨plan, draft⟩, u, hplanned, h⟩ := bind_eq_ok.mp h
  obtain ⟨hplan, rfl, -⟩ := planned_eq_ok hfull hplanned
  obtain ⟨rfl, rfl⟩ := Prod.mk.inj hplan
  obtain ⟨changes, u, hfind, h⟩ := bind_eq_ok.mp h
  obtain ⟨hchanges, rfl, -⟩ := findChanges_eq_ok hfind
  obtain rfl : changes = p.changes := by
    simp only [hchanges, snapshotOf, hfull, Bool.false_eq_true, if_false]
    rfl
  obtain ⟨b, u, hreserve, h⟩ := bind_eq_ok.mp h
  obtain ⟨rfl, rfl⟩ := reserveBlock_eq_ok (within_eq_ok.mp hreserve)
  by_cases hn : p.changes.changes.length = 0
  · simp only [Counters.block?, hn, if_true] at h ⊢
    obtain ⟨hout, rfl⟩ := Prod.mk.inj h
    exact ⟨by rw [Course.spent, hn], (Except.ok.inj hout).symm⟩
  · simp only [Counters.block?, hn, if_false] at h ⊢
    obtain ⟨rows, u, hrows, h⟩ := bind_eq_ok.mp h
    obtain ⟨hwrites, rfl⟩ := ofBlock_eq_ok.mp (within_eq_ok.mp hrows)
    obtain ⟨hout, rfl⟩ := Prod.mk.inj h
    have hrows := ChangeSet.writes_eq_ok (ChangeSet.changes_pairwise _ _ _) hwrites
    rw [Counters.values_block] at hrows
    refine ⟨rfl, ?_⟩
    rw [← Except.ok.inj hout, hrows]
    rfl

theorem Course.fst_applyEdges_writes (hids : (p.tables.edges.map Edge.id).Nodup) (t : Tables) :
    (Tables.applyEdges p.writes t).1 = p.changes.changes.countP (EdgeChange.stands t.edges) := by
  have hkeys : p.writes.map (fun r => (r.edgeId, r.expected)) =
      p.changes.changes.map fun c => (c.edgeId, c.current) :=
    map_numbered_keys (fun _ _ => rfl) (by simp)
  let found (key : EdgeId × GroupId) : Bool :=
    t.edges.any fun e => e.id == key.1 && e.currentGroup == key.2
  have hcount := congrArg (List.countP found) hkeys
  rw [List.countP_map, List.countP_map] at hcount
  rw [Tables.fst_applyEdges (edgeId_writes_nodup hids)]
  exact hcount

theorem strayed_provisioned (i : Option EdgeId) :
    (strayed i p.provisioned).edges = (strayed i p.tables).edges := by
  cases i <;> rfl

/-- The failure of a run that finds `found` of `n` edges where it saw them. -/
def lostUpdate (n found : Nat) : Failure := ⟨[.phase .apply], .mismatch ⟨.edgeUpdate, n, found⟩⟩

theorem outcome_moved (st : Store) (t : Tables) (c : Counters) (r : Report) (block : VersionBlock)
    (rows : List EdgeWrite) :
    ((moved service (r, some (block, rows))).outcome (opened st t c)).1 =
      if st.failAt = some .applyEdges then .error ⟨[.phase .apply], .rehearsed .applyEdges⟩
      else if rows.length = (Tables.applyEdges rows (strayed st.interfereWith t)).1
        then .ok { r with edgeBlock := some block, updated := rows.length }
        else .error (lostUpdate rows.length
          (Tables.applyEdges rows (strayed st.interfereWith t)).1) := by
  rw [moved, outcome_bind, outcome_within, outcome_apply]
  by_cases hpoint : st.failAt = some .applyEdges
  · simp only [hpoint, if_true]
    rfl
  · simp only [hpoint, if_false]
    by_cases hall : rows.length = (Tables.applyEdges rows (strayed st.interfereWith t)).1
    · simp only [hall, if_true, ApplyMismatch.check, Except.mapError]
      rfl
    · simp only [hall, if_false, ApplyMismatch.check, Except.mapError]
      rfl

/-- Where a change no longer stands the work fails: it finds too few edges, or it does not come to
write them and would fail in any case. -/
theorem drive_disturbed (hstray : st.interfereWith = p.strayEdge) (hfull : p.options.dryRun = false)
    (hids : (p.tables.edges.map Edge.id).Nodup)
    (hlost : ¬ ∀ c ∈ p.changes.changes, c.stands (strayed p.strayEdge p.tables).edges = true) :
    ∃ f, ((drive service p.options (Report.start stamp p.options)).outcome
        (opened st p.tables p.counters)).1 = .error f ∧
      (f = lostUpdate p.changes.changes.length
          (p.changes.changes.countP (EdgeChange.stands (strayed p.strayEdge p.tables).edges)) ∨
        ((drive service p.options (Report.start stamp p.options)).outcome
          (opened st p.tables p.counters).undisturbed).1 = .error f) := by
  have halike := prepared_alike rfl hfull
    (fun q hq => perform_undisturbed q (by simp_all [Options.mayPrepare]))
    (Report.start stamp p.options) (opened st p.tables p.counters) _ rfl
  rw [drive_eq_prepared hfull, outcome_bind, outcome_bind]
  rcases hu : (prepared service p.options (Report.start stamp p.options)).outcome
    (opened st p.tables p.counters) with ⟨f | out, u⟩
  all_goals
    rcases hv : (prepared service p.options (Report.start stamp p.options)).outcome
      (opened st p.tables p.counters).undisturbed with ⟨r, v⟩
    rw [hu, hv] at halike
    obtain ⟨rfl, rfl⟩ := halike
  · exact ⟨f, rfl, .inr rfl⟩
  · obtain ⟨rfl, rfl⟩ := prepared_eq_ok hfull hu
    have hne : p.changes.changes.length ≠ 0 := by
      intro hn
      rw [List.length_eq_zero_iff.mp hn] at hlost
      exact hlost (by simp)
    have hbare : (opened st p.provisioned p.spent).undisturbed =
      opened { st with interfereWith := none } p.provisioned p.spent := rfl
    simp only [Counters.block?, hne, if_false, Option.map_some]
    rw [hbare, outcome_moved, outcome_moved, hstray, Course.fst_applyEdges_writes hids,
      strayed_provisioned]
    by_cases hpoint : st.failAt = some .applyEdges
    · simp only [hpoint, if_true]
      exact ⟨_, rfl, .inr rfl⟩
    · have hlen : p.writes.length = p.changes.changes.length := by simp [Course.writes]
      have hfew : p.changes.changes.length ≠ p.changes.changes.countP
          (EdgeChange.stands (strayed p.strayEdge p.tables).edges) :=
        fun hall => hlost (List.countP_eq_length.mp hall.symm)
      rw [if_neg hpoint, hlen, if_neg hfew]
      exact ⟨_, rfl, .inl rfl⟩

theorem reconcile_eq_begin_error {o : Options} {w : World} (h : w.store.failAt = some .begin) :
    ((reconcile service o stamp).outcome w).1 =
      .error ⟨[.phase .begin], .rehearsed .begin⟩ := by
  unfold reconcile
  rw [outcome_bind, outcome_within, outcome_begin, if_pos h]
  rfl

theorem reconcile_eq_drive_error {o : Options} {w : World} {f : Failure}
    (hbegin : w.store.failAt ≠ some .begin)
    (h : ((drive service o (Report.start stamp o)).outcome
      (opened (asked w.store o.lockWait) w.store.tables w.counters)).1 = .error f) :
    ((reconcile service o stamp).outcome w).1 = .error f := by
  unfold reconcile
  rw [outcome_bind, outcome_within, outcome_begin, if_neg hbegin]
  simp only [Except.mapError]
  rw [outcome_bind, outcome_orElseUndo]
  rcases hd : (drive service o (Report.start stamp o)).outcome
    (opened (asked w.store o.lockWait) w.store.tables w.counters) with ⟨f' | r, u⟩
  · rw [hd] at h
    exact h
  · rw [hd] at h
    cases h

theorem reconcile_disturbed {o : Options} {w : World} (hfull : o.dryRun = false)
    (hids : (w.store.tables.edges.map Edge.id).Nodup)
    (hlost : ¬ ∀ c ∈ (w.course o).changes.changes,
      c.stands (strayed w.store.interfereWith w.store.tables).edges = true) :
    ∃ f, ((reconcile service o stamp).outcome w).1 = .error f ∧
      (f = lostUpdate (w.course o).changes.changes.length ((w.course o).changes.changes.countP
          (EdgeChange.stands (strayed w.store.interfereWith w.store.tables).edges)) ∨
        f.phase? ≠ some .commit ∧
          ((reconcile service o stamp).outcome w.undisturbed).1 = .error f) := by
  have hpoint : w.undisturbed.store.failAt = w.store.failAt := rfl
  by_cases hbegin : w.store.failAt = some .begin
  · exact ⟨_, reconcile_eq_begin_error hbegin, .inr ⟨by decide,
      reconcile_eq_begin_error (hpoint.trans hbegin)⟩⟩
  · obtain ⟨f, hdrive, hf⟩ := @drive_disturbed (asked w.store o.lockWait) (w.course o) stamp rfl
      hfull hids hlost
    refine ⟨f, reconcile_eq_drive_error hbegin hdrive, hf.imp_right fun hquiet => ⟨?_, ?_⟩⟩
    · exact (drive_failsAs _ _ _ _ (Prod.ext hdrive rfl)).2
    · exact reconcile_eq_drive_error (hpoint ▸ hbegin) hquiet

def Work.met (k : Work) : Tables := strayed k.interfereWith k.tables

theorem map_id_strayed (i : Option EdgeId) (t : Tables) :
    (strayed i t).edges.map Edge.id = t.edges.map Edge.id := by
  cases i with
  | none => rfl
  | some id => exact map_modifyFirst_of_eq fun _ _ _ => rfl

theorem outcome_applyEdgeUpdates {k : Work} {rows rows' : List EdgeWrite}
    (hpoint : k.failAt ≠ some .applyEdges) (hids : (k.tables.edges.map Edge.id).Nodup)
    (hrows : (rows.map EdgeWrite.edgeId).Nodup) (hperm : rows'.Perm rows) :
    (Work.applyEdgeUpdates rows').outcome k =
      (.ok (k.met.edges.countP fun e => rows.any (·.matchesEdge e)),
        { k with tables := { k.met with edges := k.met.edges.map (EdgeWrite.guarded rows) } }) := by
  have hrows' : (rows'.map EdgeWrite.edgeId).Nodup := (hperm.map _).nodup_iff.mpr hrows
  have hmet : (k.met.edges.map Edge.id).Nodup := (map_id_strayed _ _).symm ▸ hids
  have hany : (fun e : Edge => rows'.any (·.matchesEdge e)) =
      fun e => rows.any (·.matchesEdge e) := funext fun e => hperm.any_eq
  have hguarded : EdgeWrite.guarded rows' = EdgeWrite.guarded rows :=
    funext (EdgeWrite.guarded_perm hrows hperm)
  rw [Work.applyEdgeUpdates_runs, if_neg hpoint]
  show (Except.ok (Tables.applyEdges rows' k.met).1,
    { k with tables := (Tables.applyEdges rows' k.met).2 }) = _
  rw [Tables.applyEdges_eq hrows' hmet, hany, hguarded]

/-- Whatever a concurrent writer has done, a batch of edge writes is one guarded update: it writes
the edges that are still where they were seen, and counts them. So no run commits over an edge that
has moved. It fails, for want of that edge if it comes so far as to write edges, and publishes
nothing. -/
theorem moved_edge_not_overwritten :
    (∀ (k : Work) (rows rows' : List EdgeWrite), k.failAt ≠ some .applyEdges →
      (k.tables.edges.map Edge.id).Nodup → (rows.map EdgeWrite.edgeId).Nodup → rows'.Perm rows →
      (Work.applyEdgeUpdates rows').outcome k =
        (.ok (k.met.edges.countP fun e => rows.any (·.matchesEdge e)),
          { k with tables := { k.met with
            edges := k.met.edges.map (EdgeWrite.guarded rows) } })) ∧
    ∀ (o : Options) (stamp : Stamp) (w : World), o.dryRun = false →
      (w.store.tables.edges.map Edge.id).Nodup →
      let changes := (w.course o).changes.changes
      let stands := EdgeChange.stands (strayed w.store.interfereWith w.store.tables).edges
      let run := (reconcile service o stamp).outcome w
      (run.1.isOk = true → ∀ c ∈ changes, stands c = true) ∧
      ((¬ ∀ c ∈ changes, stands c = true) → run.2.store.tables = w.store.tables ∧
        ∃ f, run.1 = .error f ∧ (f = lostUpdate changes.length (changes.countP stands) ∨
          f.phase? ≠ some .commit ∧
            ((reconcile service o stamp).outcome w.undisturbed).1 = .error f)) := by
  refine ⟨fun k rows rows' => outcome_applyEdgeUpdates, ?_⟩
  intro o stamp w hfull hids changes stands run
  have hfails (hlost : ¬ ∀ c ∈ changes, stands c = true) :=
    @reconcile_disturbed stamp o w hfull hids hlost
  constructor
  · intro hok
    by_contra hlost
    obtain ⟨f, hf, -⟩ := hfails hlost
    rw [hf] at hok
    cases hok
  · intro hlost
    obtain ⟨f, hf, hcause⟩ := hfails hlost
    have hstore := (reconcile_eq_error (Prod.ext hf rfl)).store
    exact ⟨by rw [hstore]; rfl, f, hf, hcause⟩

/-- Two edges would move into a new group, and a concurrent writer moves one of them before. -/
def overtaken : World :=
  { store :=
      { tables := { edges := [.new 1 "ada" "bob", .new 2 "ada" "eve"] }
        interfereWith := some 1 } }

theorem moved_edge_not_overwritten_overtaken :
    (Work.applyEdgeUpdates [⟨2, 0, 7, 12⟩, ⟨1, 0, 7, 11⟩]).outcome
        ⟨overtaken.store.tables, none, some 1⟩ =
      (.ok 1, ⟨{ edges := [{ Edge.new 1 "ada" "bob" with groupId := some 1000000 },
        { Edge.new 2 "ada" "eve" with groupId := some 7, version := some 12 }] }, none, some 1⟩) ∧
    ((reconcile service {} default).outcome overtaken).1 = .error (lostUpdate 2 1) ∧
    ((reconcile service {} default).outcome overtaken).2.store.tables = overtaken.store.tables := by
  obtain ⟨hupdate, hruns⟩ := moved_edge_not_overwritten
  have hall : ¬ ∀ c ∈ (overtaken.course {}).changes.changes,
      c.stands (strayed overtaken.store.interfereWith overtaken.store.tables).edges = true := by
    have hfew : (overtaken.course {}).changes.changes.all (EdgeChange.stands
        (strayed overtaken.store.interfereWith overtaken.store.tables).edges) = false := by cbv
    rw [← List.all_eq_true, hfew]
    decide
  obtain ⟨-, hfails⟩ := hruns {} default overtaken rfl (by decide)
  refine ⟨?_, by cbv, (hfails hall).1⟩
  exact hupdate ⟨overtaken.store.tables, none, some 1⟩ [⟨1, 0, 7, 11⟩, ⟨2, 0, 7, 12⟩] _ (by decide)
    (by decide) (by decide) (.swap _ _ _)

end Memory

end Regroup
