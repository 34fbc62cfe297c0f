import Regroup.Memory.Service
import Regroup.Proofs.Numbering

/-! What each request does to a world in memory whose unit of work is open. Only the working copy
and the counters move until the unit of work ends. -/

namespace Regroup.Memory

open Attempt

/-- A unit of work is open that began on this store; these are its tables by now. -/
def opened (st : Store) (t : Tables) (c : Counters) : World :=
  ⟨st, some ⟨t, st.failAt, st.interfereWith⟩, c⟩

variable {st : Store} {t : Tables} {c : Counters}

theorem outcome_checkPoint_bind {σ α : Type} (failAt : Option FailPoint) (point : FailPoint)
    (f : Unit → Attempt σ α) (s : σ) :
    (checkPoint failAt point >>= f).outcome s =
      if failAt = some point
      then (.error (.ofCause (.rehearsed point)), s)
      else (f ()).outcome s := by
  by_cases h : failAt = some point <;> simp only [checkPoint, h, if_true, if_false] <;> rfl

/-- The reply to a step on the tables with what it leaves of them; a refusal leaves them alone. -/
def afterStep {α σ : Type} (t : Tables) (left : Tables → σ) :
    Except Cause (α × Tables) → Except Failure α × σ
  | .ok (a, t') => (.ok a, left t')
  | .error cause => (.error (.ofCause cause), left t)

/-- The step stops where its failure is rehearsed, and else works on the tables, unless it refuses
them; it may see which edge a concurrent writer is about to move. -/
def Work.Runs {α : Type} (x : Attempt Work α) (point : FailPoint)
    (f : Option EdgeId → Tables → Except Cause (α × Tables)) : Prop :=
  ∀ k : Work, x.outcome k = if k.failAt = some point
    then (.error (.ofCause (.rehearsed point)), k)
    else afterStep k.tables (fun t => { k with tables := t }) (f k.interfereWith k.tables)

theorem Work.loadEdges_runs : Runs loadEdges .loadEdges fun _ t => .ok (t.edges, t) := by
  intro k
  rw [loadEdges, outcome_get_bind, outcome_checkPoint_bind]
  rfl

/-- An upsert for which there are ids. -/
def upserting (name : String) (rows : List GroupInsert) (t : Tables) :
    Except Cause (Nat × Tables) :=
  if (Tables.upsertGroups name rows t).2.idsFit then .ok (Tables.upsertGroups name rows t)
  else .error .groupIdsExhausted

theorem upserting_eq_ok_iff {name : String} {rows : List GroupInsert} {r : Nat × Tables} :
    upserting name rows t = .ok r ↔
      (Tables.upsertGroups name rows t).2.idsFit = true ∧ Tables.upsertGroups name rows t = r := by
  unfold upserting
  split <;> simp_all

theorem Work.upsertDefaultGroups_runs (name : String) (rows : List GroupInsert) :
    Runs (upsertDefaultGroups name rows) .upsertGroups fun _ => upserting name rows := by
  intro k
  rw [upsertDefaultGroups, outcome_get_bind, outcome_checkPoint_bind, outcome_get_bind]
  by_cases hfit : (Tables.upsertGroups name rows k.tables).2.idsFit = true
  · simp only [upserting, hfit, if_true]
    rfl
  · simp only [upserting, hfit]
    rfl

theorem Work.refreshDefaultGroups_runs (rows : List GroupRefresh) :
    Runs (refreshDefaultGroups rows) .refreshGroups fun _ t => .ok (Tables.refreshGroups rows t) := by
  intro k
  rw [refreshDefaultGroups, outcome_get_bind, outcome_checkPoint_bind]
  rfl

/-- The tables as a concurrent writer leaves them right before edges are written. -/
def strayed : Option EdgeId → Tables → Tables
  | some id => Tables.stray id
  | none => id

theorem Work.applyEdgeUpdates_runs (rows : List EdgeWrite) :
    Runs (applyEdgeUpdates rows) .applyEdges
      fun i t => .ok (Tables.applyEdges rows (strayed i t)) := by
  intro k
  rw [applyEdgeUpdates, outcome_get_bind, outcome_checkPoint_bind, outcome_get_bind]
  rcases k with ⟨t, failAt, _ | id⟩ <;> rfl

theorem outcome_onWork {α : Type} {x : Attempt Work α} {point : FailPoint}
    {f : Option EdgeId → Tables → Except Cause (α × Tables)} (hx : Work.Runs x point f) :
    (World.onWork x).outcome (opened st t c) = if st.failAt = some point
      then (.error (.ofCause (.rehearsed point)), opened st t c)
      else afterStep t (fun t' => opened st t' c) (f st.interfereWith t) := by
  show ((x.outcome ⟨t, st.failAt, st.interfereWith⟩).1,
    World.mk st (some (x.outcome ⟨t, st.failAt, st.interfereWith⟩).2) c) = _
  rw [hx]
  by_cases h : st.failAt = some point
  · simp [opened, h]
  · simp only [h, if_false]
    cases f st.interfereWith t <;> rfl

/-- The store once it was asked for a unit of work. -/
def asked (st : Store) (lockWait : Option Duration) : Store :=
  { st with lockWaits := st.lockWaits ++ [lockWait] }

theorem outcome_begin (w : World) (lockWait : Option Duration) :
    (service.perform (.begin lockWait)).outcome w =
      if w.store.failAt = some .begin
      then (.error (.ofCause (.rehearsed .begin)), { w with store := asked w.store lockWait })
      else (.ok (), opened (asked w.store lockWait) w.store.tables w.counters) := by
  show (World.onStore (Store.begin lockWait) >>= _).outcome w = _
  rw [outcome_bind, World.onStore, outcome_zoom]
  by_cases h : w.store.failAt = some .begin
  · have hb : (Store.begin lockWait).outcome w.store =
        (.error (.ofCause (.rehearsed .begin)), asked w.store lockWait) := by
      rw [Store.begin, outcome_modify_bind, outcome_get_bind, outcome_checkPoint_bind]
      simp [h, asked]
    simp [hb, h]
  · have hb : (Store.begin lockWait).outcome w.store =
        (.ok ⟨w.store.tables, w.store.failAt, w.store.interfereWith⟩, asked w.store lockWait) := by
      rw [Store.begin, outcome_modify_bind, outcome_get_bind, outcome_checkPoint_bind]
      simp [h, asked]
    simp only [hb, h, if_false]
    rfl

theorem outcome_loadGroups :
    (service.perform .loadGroups).outcome (opened st t c) = (.ok t.groups, opened st t c) := rfl

theorem outcome_loadMemberships : (service.perform .loadMemberships).outcome (opened st t c) =
    (.ok t.memberships, opened st t c) := rfl

theorem outcome_loadEdges : (service.perform .loadEdges).outcome (opened st t c) =
    if st.failAt = some .loadEdges
    then (.error (.ofCause (.rehearsed .loadEdges)), opened st t c)
    else (.ok t.edges, opened st t c) :=
  outcome_onWork Work.loadEdges_runs

theorem outcome_upsert (name : String) (rows : List GroupInsert) :
    (service.perform (.upsertDefaultGroups name rows)).outcome (opened st t c) =
      if st.failAt = some .upsertGroups
      then (.error (.ofCause (.rehearsed .upsertGroups)), opened st t c)
      else if (Tables.upsertGroups name rows t).2.idsFit
      then (.ok rows.length, opened st (Tables.upsertGroups name rows t).2 c)
      else (.error (.ofCause .groupIdsExhausted), opened st t c) := by
  have hrun := @outcome_onWork st t c _ _ _ _ (Work.upsertDefaultGroups_runs name rows)
  refine hrun.trans (congrArg (ite _ _) ?_)
  rw [upserting]
  split <;> rfl

theorem outcome_refresh (rows : List GroupRefresh) :
    (service.perform (.refreshDefaultGroups rows)).outcome (opened st t c) =
      if st.failAt = some .refreshGroups
      then (.error (.ofCause (.rehearsed .refreshGroups)), opened st t c)
      else (.ok (Tables.refreshGroups rows t).1, opened st (Tables.refreshGroups rows t).2 c) :=
  outcome_onWork (Work.refreshDefaultGroups_runs rows)

theorem outcome_apply (rows : List EdgeWrite) :
    (service.perform (.applyEdgeUpdates rows)).outcome (opened st t c) =
      if st.failAt = some .applyEdges
      then (.error (.ofCause (.rehearsed .applyEdges)), opened st t c)
      else (.ok (Tables.applyEdges rows (strayed st.interfereWith t)).1,
        opened st (Tables.applyEdges rows (strayed st.interfereWith t)).2 c) :=
  outcome_onWork (Work.applyEdgeUpdates_runs rows)

theorem outcome_commit_work (st : Store) (work : Work) (c : Counters) :
    (service.perform .commit).outcome ⟨st, some work, c⟩ =
      if work.failAt = some .commit
      then (.error (.ofCause (.rehearsed .commit)), ⟨st, none, c⟩)
      else (.ok (), ⟨{ st with tables := work.tables, commits := st.commits + 1 }, none, c⟩) := by
  show (World.onStore (Store.commit work)).outcome ⟨st, none, c⟩ = _
  rw [World.onStore, outcome_zoom, Store.commit, outcome_checkPoint_bind]
  by_cases h : work.failAt = some .commit
  · simp only [h, if_true]
  · simp only [h, if_false]
    rfl

theorem outcome_commit : (service.perform .commit).outcome (opened st t c) =
    if st.failAt = some .commit
    then (.error (.ofCause (.rehearsed .commit)), ⟨st, none, c⟩)
    else (.ok (), ⟨{ st with tables := t, commits := st.commits + 1 }, none, c⟩) :=
  outcome_commit_work st ⟨t, st.failAt, st.interfereWith⟩ c

theorem outcome_rollback : (service.perform .rollback).outcome (opened st t c) =
    (.ok (), ⟨{ st with rollbacks := st.rollbacks + 1 }, none, c⟩) := rfl

theorem outcome_reserve (counter : String) (n : Nat) :
    (service.perform (.reserve counter n)).outcome (opened st t c) =
      (((Counters.reserve counter n).outcome c).1,
        opened st t ((Counters.reserve counter n).outcome c).2) := rfl

theorem reserveBlock_eq_ok {counter : String} {n : Nat} {b : Option VersionBlock} {w : World}
    (h : (service.reserveBlock counter n).outcome (opened st t c) = (.ok b, w)) :
    b = c.block? counter n ∧ w = opened st t (c.grant counter n) := by
  unfold Service.reserveBlock Regroup.reserveBlock at h
  by_cases hn : n = 0
  · simp only [hn, if_true, outcome_pure, Prod.mk.injEq, Except.ok.injEq] at h
    simp [Counters.block?, Counters.grant, hn, ← h.1, ← h.2]
  · simp only [hn, if_false] at h
    obtain ⟨last, u, hr, h⟩ := bind_eq_ok.mp h
    rw [within_eq_ok, outcome_reserve, Prod.mk.injEq] at hr
    obtain ⟨block, v, hb, h⟩ := bind_eq_ok.mp h
    obtain ⟨hend, rfl⟩ := ofBlock_eq_ok.mp hb
    obtain ⟨-, rfl⟩ := VersionBlock.endingAt_eq_ok hend
    obtain ⟨hlast, hspent⟩ : last = c.value counter + n ∧
        ((Counters.reserve counter n).outcome c).2 = c.grant counter n :=
      Counters.reserve_eq_ok hn (Prod.ext hr.1 rfl)
    simp only [outcome_pure, Prod.mk.injEq, Except.ok.injEq] at h
    rw [← h.1, ← h.2, ← hr.2, hspent, hlast, Counters.block?, if_neg hn]
    simp only [and_true, Option.some.injEq, VersionBlock.mk.injEq]
    omega

end Regroup.Memory
