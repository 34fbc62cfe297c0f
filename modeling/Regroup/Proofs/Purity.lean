import Regroup.Proofs.MemoryWorld
import Regroup.Proofs.Statements
import Regroup.Proofs.Transcript

/-! A dry run leaves nothing behind. Whatever its store and its counters answer, it asks for what
the tables hold and rolls back. -/

namespace Regroup

open Attempt

variable {σ : Type} {o : Options}

/-- What is asked for may outlast the unit of work: a write, its publication, or a reservation. -/
def Request.persists : Request → Bool
  | .upsertDefaultGroups .. | .refreshDefaultGroups _ | .applyEdgeUpdates _ | .commit
  | .reserve .. => true
  | _ => false

theorem Request.persists_of_isRead {q : Request} (h : q.isRead = true) : q.persists = false := by
  cases q <;> simp_all [isRead, persists]

theorem isRead_of_mayAsk {q : Request} (hdry : o.dryRun = true) (h : o.mayAsk q = true) :
    q.isRead = true := by
  simp_all [Options.mayAsk]

theorem drive_reads (s : Service σ) (hdry : o.dryRun = true) (r : Report) :
    Tells (fun calls _ => ∀ c ∈ calls, c.request.isRead = true) (drive s.transcribed o r) := by
  have hmoves : Moves (Along Transcript.calls (Grows fun c => c.request.isRead = true))
      (drive s.transcribed o r) :=
    drive_moves (fun q hq => transcribed_grows fun _ => isRead_of_mayAsk hdry hq) r
  exact hmoves

/-- Between its beginning and its roll-back a dry run only reads. -/
theorem transcript_dry (s : Service σ) (hdry : o.dryRun = true) (stamp : Stamp) (x : σ) :
    (∀ c ∈ transcript s o stamp x, c.request.persists = false) ∧
      (transcript s o stamp x).countP (fun c => c.request == .rollback) =
        if ((s.perform (.begin o.lockWait)).outcome x).1.isOk then 1 else 0 := by
  have hframed := reconcile_framed (drive_reads s hdry (Report.start stamp o)) x
  -- all but the frame are reads
  have hinner : ∀ inner : List Call, (∀ c ∈ inner, c.request.isRead = true) →
      ∀ a : Except Failure Unit,
      (∀ c ∈ Call.mk (.begin o.lockWait) (.ok ()) :: (inner ++ [⟨.rollback, a⟩]),
        c.request.persists = false) ∧
      (Call.mk (.begin o.lockWait) (.ok ()) :: (inner ++ [⟨.rollback, a⟩])).countP
        (fun c => c.request == .rollback) = 1 := by
    intro inner hreads a
    constructor
    · intro c hc
      simp only [List.mem_cons, List.mem_append, List.not_mem_nil, or_false] at hc
      rcases hc with rfl | hc | rfl
      · rfl
      · exact Request.persists_of_isRead (hreads c hc)
      · rfl
    · have hnone : inner.countP (fun c => c.request == .rollback) = 0 := by
        refine List.countP_eq_zero.mpr fun c hc hrollback => ?_
        have hread := hreads c hc
        rw [beq_iff_eq.mp hrollback] at hread
        cases hread
      simp [hnone]
  generalize transcript s o stamp x = calls at hframed ⊢
  generalize ((s.perform (.begin o.lockWait)).outcome x).1 = begun at hframed ⊢
  generalize ((reconcile s o stamp).outcome x).1 = result at hframed
  cases hframed with
  | unbegun e => exact ⟨by simp [Request.persists], by simp [Except.isOk, Except.toBool]⟩
  | undone hwork a => exact hinner _ hwork a
  | rolledBack _ hwork _ => exact hinner _ hwork _
  | stuck _ hwork e => exact hinner _ hwork _
  | committed hfull _ _ => simp [hdry] at hfull
  | uncommitted hfull _ _ => simp [hdry] at hfull

namespace Memory

/-- All that is published stays, and so do the counters with their log. -/
structure Kept (w w' : World) : Prop where
  tables : w'.store.tables = w.store.tables
  commits : w'.store.commits = w.store.commits
  counters : w'.counters = w.counters

instance : IsPreorder World Kept where
  refl _ := ⟨rfl, rfl, rfl⟩
  trans _ _ _ h h' := ⟨h'.tables.trans h.tables, h'.commits.trans h.commits,
    h'.counters.trans h.counters⟩

theorem onWork_kept {α : Type} (x : Attempt Work α) : Moves Kept (World.onWork x) := by
  rintro ⟨st, _ | work, c⟩ <;> exact ⟨rfl, rfl, rfl⟩

theorem perform_kept (q : Request) (hq : q.persists = false) : Moves Kept (service.perform q) := by
  cases q with
  | begin lockWait =>
    intro w
    rw [outcome_begin]
    split <;> exact ⟨rfl, rfl, rfl⟩
  | edgeOwners => exact onWork_kept _
  | registryOwners => exact onWork_kept _
  | loadGroups => exact onWork_kept _
  | loadMemberships => exact onWork_kept _
  | loadEdges => exact onWork_kept _
  | upsertDefaultGroups name rows => cases hq
  | refreshDefaultGroups rows => cases hq
  | applyEdgeUpdates rows => cases hq
  | commit => cases hq
  | rollback => rintro ⟨st, _ | work, c⟩ <;> exact ⟨rfl, rfl, rfl⟩
  | reserve counter n => cases hq

end Memory

namespace Database

theorem perform_receives {P : Statement → Prop} (h : ∀ st : Statement, st.persists = false → P st)
    (limit : Duration) (q : Request) (hq : q.persists = false) :
    Moves (Sessions.Receives P) ((service limit).perform q) := by
  cases q with
  | begin lockWait =>
    exact open_receives (begin_receives (h _ rfl) (h _ rfl) (fun _ => h _ rfl) lockWait)
  | edgeOwners => exact use_receives (select_receives (h _ rfl) _ _)
  | registryOwners => exact use_receives (select_receives (h _ rfl) _ _)
  | loadGroups => exact use_receives (select_receives (h _ rfl) _ _)
  | loadMemberships => exact use_receives (select_receives (h _ rfl) _ _)
  | loadEdges => exact use_receives (select_receives (h _ rfl) _ _)
  | upsertDefaultGroups name rows => cases hq
  | refreshDefaultGroups rows => cases hq
  | applyEdgeUpdates rows => cases hq
  | commit => cases hq
  | rollback => exact finish_receives (rollback_receives (h _ rfl))
  | reserve counter n => cases hq

end Database

/-- What requests that leave nothing behind keep, a dry run keeps. -/
theorem reconcile_dry_moves {R : σ → σ → Prop} [IsPreorder σ R] {s : Service σ}
    (h : ∀ q : Request, q.persists = false → Moves R (s.perform q)) (hdry : o.dryRun = true)
    (stamp : Stamp) : Moves R (reconcile s o stamp) :=
  reconcile_moves (fun q hq => h q (Request.persists_of_isRead (isRead_of_mayAsk hdry hq))) stamp
    (h _ rfl) (h _ rfl) fun hfull => by simp [hdry] at hfull

/-- A dry run makes no reservation and no write and does not commit, and rolls back once if it has
begun. So nothing that is published in memory changes, nor a counter or its log, and a database
receives no statement that creates, changes or publishes anything. -/
theorem dry_run_leaves_nothing (hdry : o.dryRun = true) (stamp : Stamp) :
    (∀ (σ : Type) (s : Service σ) (x : σ),
      (∀ c ∈ transcript s o stamp x, c.request.persists = false) ∧
      (transcript s o stamp x).countP (fun c => c.request == .rollback) =
        if ((s.perform (.begin o.lockWait)).outcome x).1.isOk then 1 else 0) ∧
    (∀ w : Memory.World,
      Memory.Kept w ((reconcile Memory.service o stamp).outcome w).2) ∧
    ∀ (limit : Duration) (x : Database.Sessions), ∃ sent : List Database.Statement,
      ((reconcile (Database.service limit) o stamp).outcome x).2.server.received =
        x.server.received ++ sent ∧ ∀ st ∈ sent, st.persists = false := by
  refine ⟨fun _ s x => transcript_dry s hdry stamp x, ?_, fun limit => ?_⟩
  · exact reconcile_dry_moves Memory.perform_kept hdry stamp
  · have hreceives : ∀ q : Request, q.persists = false →
        Moves (Database.Sessions.Receives fun st => st.persists = false)
          ((Database.service limit).perform q) :=
      Database.perform_receives (fun _ h => h) limit
    exact reconcile_dry_moves hreceives hdry stamp

/-- An edge whose owner has no group yet. -/
def Memory.unsettled : World := { store := .ofTables { edges := [.new 1 "ada" "bob"] } }

theorem dry_run_leaves_nothing_unsettled :
    ((reconcile Memory.service { dryRun := true } default).outcome Memory.unsettled).1.map
      Report.toUpdate = .ok 1 ∧
    Memory.Kept Memory.unsettled
      ((reconcile Memory.service { dryRun := true } default).outcome Memory.unsettled).2 ∧
    (transcript Memory.service { dryRun := true } default Memory.unsettled).countP
      (fun c => c.request == .rollback) = 1 := by
  obtain ⟨hcalls, hkept, -⟩ := dry_run_leaves_nothing (o := { dryRun := true }) rfl default
  obtain ⟨-, hrollbacks⟩ := hcalls _ Memory.service Memory.unsettled
  exact ⟨by cbv, hkept _, hrollbacks.trans (by cbv)⟩

end Regroup
