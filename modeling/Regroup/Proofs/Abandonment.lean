import Mathlib
import Regroup.Proofs.MemoryWorld
import Regroup.Proofs.Pass

/-! Runs in memory that fail. Wherever the failure strikes, the working copy is dropped; counters
stand beside the unit of work and keep what was reserved. -/

namespace Regroup

open Attempt

/-- The phase in which a pass failed, the outermost of what was being done. -/
def Failure.phase? (f : Failure) : Option Phase :=
  match f.contexts with
  | .phase p :: _ | .phaseStep p _ :: _ => some p
  | _ => none

/-- The failure is of the work between the beginning and the end. -/
def Failure.IsInner (f : Failure) : Prop := f.phase? ≠ some .begin ∧ f.phase? ≠ some .commit

section Phase

variable {σ : Type} {s : Service σ} {o : Options}

theorem isInner_within {p : Phase} {c : Context} (hp : p ≠ .begin ∧ p ≠ .commit)
    (hc : ∀ e : Failure, (e.within c).phase? = some p) (e : Failure) : (e.within c).IsInner := by
  rw [Failure.IsInner, hc]
  simpa using hp

theorem planned_failsAs (r : Report) : FailsAs Failure.IsInner (planned s o r) := by
  unfold planned
  cases o.provisioning with
  | skip => exact FailsAs.pure _
  | seed strategy => exact FailsAs.within (isInner_within (by decide) fun _ => rfl)

theorem findChanges_failsAs (plan : ProvisionPlan) :
    FailsAs Failure.IsInner (findChanges s o plan) := by
  have hread : ∀ step e, (Failure.within (.phaseStep .snapshotBuild step) e).IsInner :=
    fun _ => isInner_within (by decide) fun _ => rfl
  refine (FailsAs.within (hread _)).bind fun groups => ?_
  refine (FailsAs.within (hread _)).bind fun memberships => ?_
  exact (FailsAs.within (hread _)).bind fun edges => FailsAs.pure _

theorem applyChanges_failsAs (changes : ChangeSet) (r : Report) :
    FailsAs Failure.IsInner (applyChanges s o changes r) := by
  have happly : ∀ e, (Failure.within (.phase .apply) e).IsInner :=
    isInner_within (by decide) fun _ => rfl
  refine (FailsAs.within (isInner_within (by decide) fun _ => rfl)).bind fun b => ?_
  cases b with
  | none => exact FailsAs.pure _
  | some block =>
    refine (FailsAs.within (isInner_within (by decide) fun _ => rfl)).bind fun rows => ?_
    refine (FailsAs.within happly).bind fun n => ?_
    exact (FailsAs.within happly).bind fun _ => FailsAs.pure _

/-- What fails inside a unit of work names another phase than its beginning and its end. -/
theorem drive_failsAs (r : Report) : FailsAs Failure.IsInner (drive s o r) := by
  rw [drive_eq]
  refine (planned_failsAs r).bind fun x => (findChanges_failsAs x.1).bind fun c => ?_
  split
  · exact FailsAs.pure _
  · exact applyChanges_failsAs c _

end Phase

namespace Memory

/-- What a log of reservations grants from one counter. -/
def granted (log : List (String × Nat)) (counter : String) : Nat :=
  ((log.filter (·.1 == counter)).map Prod.snd).sum

theorem granted_append (log log' : List (String × Nat)) (counter : String) :
    granted (log ++ log') counter = granted log counter + granted log' counter := by
  simp [granted]

/-- Every counter has advanced by just what was logged for it since. -/
def Counters.Advances (c c' : Counters) : Prop :=
  ∃ log, c'.grants = c.grants ++ log ∧
    ∀ counter, c'.value counter = c.value counter + granted log counter

instance : IsPreorder Counters Counters.Advances where
  refl c := ⟨[], by simp, fun _ => by simp [granted]⟩
  trans c c' c'' := by
    rintro ⟨log, hlog, hvalue⟩ ⟨log', hlog', hvalue'⟩
    refine ⟨log ++ log', by rw [hlog', hlog, List.append_assoc], fun counter => ?_⟩
    rw [hvalue', hvalue, granted_append]
    omega

theorem reserve_advances (counter : String) (n : Nat) :
    Moves Counters.Advances (Counters.reserve counter n) := by
  intro c
  rw [Counters.reserve, outcome_get_bind]
  split
  · exact refl c
  · split
    · exact refl c
    · split
      · exact refl c
      · rename_i last hlast
        obtain ⟨-, rfl⟩ := Word.signed?_eq_some_iff.mp hlast
        rw [outcome_set_bind, outcome_pure]
        refine ⟨[(counter, n)], rfl, fun other => ?_⟩
        by_cases ho : other = counter
        · simp [Counters.value, Dictionary.get?_insert, granted, ho]
        · have hne : counter ≠ other := fun h => ho h.symm
          simp [Counters.value, Dictionary.get?_insert, granted, ho, hne]

/-- An open unit of work stays open, and nothing is seen of it but what it reserves. -/
structure Works (w w' : World) : Prop where
  store : w'.store = w.store
  isOpen : w.work.isSome = true → w'.work.isSome = true
  counters : w.counters.Advances w'.counters

instance : IsPreorder World Works where
  refl w := ⟨rfl, id, refl w.counters⟩
  trans _ _ _ h h' := ⟨h'.store.trans h.store, fun ho => h'.isOpen (h.isOpen ho),
    IsTrans.trans _ _ _ h.counters h'.counters⟩

theorem onWork_works {α : Type} (x : Attempt Work α) : Moves Works (World.onWork x) := by
  rintro ⟨st, _ | work, c⟩
  · exact ⟨rfl, id, refl c⟩
  · exact ⟨rfl, fun _ => rfl, refl c⟩

theorem perform_works (q : Request) (hq : q.isInner = true) : Moves Works (service.perform q) := by
  cases q with
  | begin lockWait => cases hq
  | edgeOwners => exact onWork_works _
  | registryOwners => exact onWork_works _
  | loadGroups => exact onWork_works _
  | loadMemberships => exact onWork_works _
  | loadEdges => exact onWork_works _
  | upsertDefaultGroups name rows => exact onWork_works _
  | refreshDefaultGroups rows => exact onWork_works _
  | applyEdgeUpdates rows => exact onWork_works _
  | commit => cases hq
  | rollback => cases hq
  | reserve counter n => exact fun w => ⟨rfl, id, reserve_advances counter n w.counters⟩

theorem drive_works (o : Options) (r : Report) : Moves Works (drive service o r) :=
  drive_moves (fun q hq => perform_works q (by simp_all [Options.mayAsk])) r

/-- What a failed run leaves behind. -/
structure Abandoned (o : Options) (e : Failure) (w w' : World) : Prop where
  store : w'.store = { asked w.store o.lockWait with
    rollbacks := w.store.rollbacks +
      if e.phase? = some .begin ∨ e.phase? = some .commit then 0 else 1 }
  counters : w.counters.Advances w'.counters

/-- A unit of work that is rolled back leaves its store as it was before. -/
theorem rollback_of_works {w w' : World} (hopen : w.work.isSome = true) (h : Works w w') :
    (service.perform .rollback).outcome w' =
      (.ok (), ⟨{ w.store with rollbacks := w.store.rollbacks + 1 }, none, w'.counters⟩) := by
  obtain ⟨st, _ | work, c⟩ := w'
  · exact absurd (h.isOpen hopen) (by simp)
  · obtain rfl := h.store
    rfl

/-- A run that fails at its end fails to commit, and closes the unit of work all the same. -/
theorem finish_eq_error {o : Options} {r : Report} {w v w' : World} {e : Failure}
    (hopen : w.work.isSome = true) (hworks : Works w v)
    (h : (finish service o r).outcome v = (.error e, w')) :
    e.phase? = some .commit ∧ w' = ⟨w.store, none, v.counters⟩ := by
  unfold finish at h
  split at h
  -- the roll-back that ends a dry run does not fail
  · rcases bind_eq_error.mp h with h | ⟨x, u, -, h⟩
    · obtain ⟨e', hrollback, -⟩ := within_eq_error.mp h
      rw [rollback_of_works hopen hworks] at hrollback
      cases hrollback
    · cases h
  · rcases bind_eq_error.mp h with h | ⟨x, u, -, h⟩
    · obtain ⟨e', hcommit, rfl⟩ := within_eq_error.mp h
      obtain ⟨st, _ | work, c⟩ := v
      · exact absurd (hworks.isOpen hopen) (by simp)
      · obtain rfl := hworks.store
        rw [outcome_commit_work] at hcommit
        split at hcommit
        · exact ⟨rfl, (Prod.mk.inj hcommit).2.symm⟩
        · cases hcommit
    · cases h

theorem reconcile_eq_error {o : Options} {stamp : Stamp} {w w' : World} {e : Failure}
    (h : (reconcile service o stamp).outcome w = (.error e, w')) : Abandoned o e w w' := by
  rcases bind_eq_error.mp h with h | ⟨x, u, hbegin, h⟩
  · obtain ⟨e', hbegin, rfl⟩ := within_eq_error.mp h
    rw [outcome_begin] at hbegin
    split at hbegin
    · obtain ⟨-, rfl⟩ := Prod.mk.inj hbegin
      exact ⟨by simp [asked, Failure.phase?, Failure.within], refl w.counters⟩
    · cases hbegin
  · rw [within_eq_ok, outcome_begin] at hbegin
    split at hbegin
    · cases hbegin
    obtain ⟨-, rfl⟩ := Prod.mk.inj hbegin
    rcases bind_eq_error.mp h with h | ⟨r, v, hdrive, h⟩
    · obtain ⟨v, hdrive, rfl⟩ := orElseUndo_eq_error.mp h
      have hworks := (drive_works o (Report.start stamp o)).of_outcome hdrive
      have hinner := drive_failsAs _ _ _ _ hdrive
      rw [rollback_of_works rfl hworks]
      exact ⟨by rw [if_neg (not_or.mpr hinner)]; rfl, hworks.counters⟩
    · rw [orElseUndo_eq_ok] at hdrive
      have hworks := (drive_works o (Report.start stamp o)).of_outcome hdrive
      rcases bind_eq_error.mp h with h | ⟨r, x, -, h⟩
      · obtain ⟨hphase, rfl⟩ := finish_eq_error rfl hworks h
        exact ⟨by rw [if_pos (.inr hphase)]; rfl, hworks.counters⟩
      · cases h

theorem Counters.Advances.value_le {c c' : Counters} (h : c.Advances c') (counter : String) :
    c.value counter ≤ c'.value counter := by
  obtain ⟨log, -, hvalue⟩ := h
  rw [hvalue]
  omega

theorem reserveBlock_start {counter : String} {n : Nat} {c c' : Counters} {b : VersionBlock}
    (h : (reserveBlock Counters.backend Counters.reserve counter n).outcome c =
      (.ok (some b), c')) : b.start = c.value counter + 1 := by
  unfold reserveBlock at h
  by_cases hn : n = 0
  · simp [hn] at h
  · simp only [hn, if_false] at h
    obtain ⟨last, u, hreserve, h⟩ := bind_eq_ok.mp h
    obtain ⟨block, v, hblock, h⟩ := bind_eq_ok.mp h
    obtain ⟨hlast, -⟩ := Counters.reserve_eq_ok hn (within_eq_ok.mp hreserve)
    obtain ⟨-, rfl⟩ := VersionBlock.endingAt_eq_ok (ofBlock_eq_ok.mp hblock).1
    obtain rfl : VersionBlock.mk (last - n + 1) n = b :=
      Option.some.inj (Except.ok.inj (Prod.mk.inj h).1)
    show last - n + 1 = c.value counter + 1
    omega

/-- A run that fails publishes nothing. It is rolled back once, unless it failed to begin or to
commit. All that remains of it is what its counters logged, and whoever reserves later is granted
versions above that. -/
theorem failed_run_spends_only {o : Options} {stamp : Stamp} {w w' : World} {e : Failure}
    (hrun : (reconcile service o stamp).outcome w = (.error e, w')) :
    w'.store.tables = w.store.tables ∧ w'.store.commits = w.store.commits ∧
      w'.store.rollbacks = w.store.rollbacks +
        (if e.phase? = some .begin ∨ e.phase? = some .commit then 0 else 1) ∧
      ∃ log, w'.counters.grants = w.counters.grants ++ log ∧
        (∀ counter, w'.counters.value counter = w.counters.value counter + granted log counter) ∧
        ∀ c, w'.counters.Advances c → ∀ counter n b c',
          (reserveBlock Counters.backend Counters.reserve counter n).outcome c =
            (.ok (some b), c') →
          w.counters.value counter + granted log counter < b.start := by
  obtain ⟨hstore, log, hlog, hvalue⟩ := reconcile_eq_error hrun
  rw [hstore]
  refine ⟨rfl, rfl, rfl, log, hlog, hvalue, ?_⟩
  intro c hlater counter n b c' hblock
  have hle := hlater.value_le counter
  have hstart := reserveBlock_start hblock
  rw [hvalue] at hle
  omega

/-- One group is new and one edge would move into it, but edges cannot be written. -/
def halted : World :=
  { store :=
      { tables := { edges := [.new 1 "ada" "bob"] }
        commits := 3
        rollbacks := 2
        failAt := some .applyEdges }
    counters := { values := Dictionary.empty.insert "seq:friend" 7 } }

theorem failed_run_spends_only_halted : ∃ e w' log,
    (reconcile service {} default).outcome halted = (.error e, w') ∧
    e = ⟨[.phase .apply], .rehearsed .applyEdges⟩ ∧
    w'.store.tables = halted.store.tables ∧ w'.store.commits = 3 ∧ w'.store.rollbacks = 3 ∧
    log = [("seq:friendGroup", 1), ("seq:friend", 1)] ∧
    w'.counters.value "seq:friend" = 7 + granted log "seq:friend" := by
  have hend : ((reconcile service {} default).outcome halted).1 =
      .error ⟨[.phase .apply], .rehearsed .applyEdges⟩ := by cbv
  have hgrants : ((reconcile service {} default).outcome halted).2.counters.grants =
      [("seq:friendGroup", 1), ("seq:friend", 1)] := by cbv
  have hrun : (reconcile service {} default).outcome halted = (.error _, _) := Prod.ext hend rfl
  obtain ⟨htables, hcommits, hrollbacks, log, hlog, hvalue, -⟩ := failed_run_spends_only hrun
  exact ⟨_, _, log, hrun, rfl, htables, hcommits, hrollbacks, hlog.symm.trans hgrants,
    hvalue "seq:friend"⟩

end Memory

end Regroup
