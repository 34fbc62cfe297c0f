import Regroup.Command.Program
import Regroup.Proofs.Purity

/-! The statements of a dry run that is started as a command. The pass itself leaves nothing behind, but
indexes are created before it begins: if they are asked for, a dry run creates them too. -/

namespace Regroup.Database

open Attempt

theorem received_perform (t : Task) (st : Statement) (s : Server) :
    ((Server.perform t st).outcome s).2.received = s.received ++ [st] := by
  have hsent := received_receive st s
  have hlift : Attempt.outcome (liftM (Server.receive st) : Attempt Server Answer) s =
      (.ok (Server.receive st s).1, (Server.receive st s).2) := rfl
  unfold Server.perform
  rw [outcome_bind, hlift, ← hsent]
  cases (Server.receive st s).1 <;> rfl

def createIndexes (indexes : List LookupIndex) : Attempt Server (List String) :=
  indexes.mapM fun i => do
    let _ ← Server.perform (.createIndex i.name) (.createIndex i)
    return i.name

theorem received_createIndexes (indexes : List LookupIndex) (s : Server) :
    ∃ made, ((createIndexes indexes).outcome s).2.received =
        s.received ++ made.map .createIndex ∧
      made <+: indexes ∧ (((createIndexes indexes).outcome s).1.isOk → made = indexes) := by
  induction indexes generalizing s with
  | nil => exact ⟨[], by simp [createIndexes], List.nil_prefix, fun _ => rfl⟩
  | cons i rest ih =>
    have hstep : createIndexes (i :: rest) =
        Server.perform (.createIndex i.name) (.createIndex i) >>= fun _ =>
          createIndexes rest >>= fun names => pure (i.name :: names) := by
      simp [createIndexes]
    have hsent := received_perform (.createIndex i.name) (.createIndex i) s
    rw [hstep, outcome_bind]
    rcases hone : (Server.perform (.createIndex i.name) (.createIndex i)).outcome s with ⟨_ | o, t⟩
    · rw [hone] at hsent
      exact ⟨[i], hsent, by simp, fun hok => by cases hok⟩
    · rw [hone] at hsent
      have ht : t.received = s.received ++ [.createIndex i] := hsent
      obtain ⟨made, hmade, hprefix, hall⟩ := ih t
      have hboth : s.received ++ [.createIndex i] ++ made.map .createIndex =
          s.received ++ (i :: made).map .createIndex := by simp
      rw [ht, hboth] at hmade
      simp only [outcome_bind]
      rcases hrest : (createIndexes rest).outcome t with ⟨_ | names, u⟩
      · rw [hrest] at hmade
        exact ⟨i :: made, hmade, List.cons_prefix_cons.mpr ⟨rfl, hprefix⟩, fun hok => by cases hok⟩
      · rw [hrest] at hmade hall
        exact ⟨i :: made, hmade, List.cons_prefix_cons.mpr ⟨rfl, hprefix⟩,
          fun _ => congrArg _ (hall rfl)⟩

theorem received_ensureIndexes (s : Server) :
    ∃ made, (Server.ensureIndexes.outcome s).2.received = s.received ++ made.map .createIndex ∧
      made <+: lookupIndexes ∧ ((Server.ensureIndexes.outcome s).1.isOk → made = lookupIndexes) :=
  received_createIndexes lookupIndexes s

end Regroup.Database

namespace Regroup.Command

open Attempt Database

theorem Work.bind_apply {α β : Type} (x : Work α) (f : α → Work β) (s : Server) :
    (x >>= f) s = match x s with
      | (.ok a, t) => f a t
      | (.error e, t) => (.error e, t) := by
  simp only [bind, ExceptT.bind, ExceptT.mk, StateT.bind, ExceptT.bindCont]
  cases x s with
  | mk r t => cases r <;> rfl

theorem Work.onServer_apply {α : Type} (x : Attempt Server α) (s : Server) :
    Work.onServer x s = (mapError .failure (x.outcome s).1, (x.outcome s).2) := rfl

theorem Work.onSessions_apply {α : Type} (x : Attempt Sessions α) (s : Server) :
    Work.onSessions x s =
      (mapError .failure (x.outcome { server := s }).1, (x.outcome { server := s }).2.server) := rfl

theorem exists_service {settings : Config.Settings} {service : Service Sessions}
    (h : serviceOf settings = .ok service) : ∃ limit, service = Database.service limit := by
  unfold serviceOf at h
  split at h
  · split at h
    · cases h
    · exact ⟨_, (Except.ok.inj h).symm⟩
  · cases h

def passOn (site : Site) (settings : Config.Settings) (dryRun : Bool) (hash : Option String) :
    Work Report := do
  let service ← Work.ofExcept (serviceOf settings)
  let r ← Work.onSessions (reconcile service (optionsOf settings dryRun) site.stamp)
  return { r with configHash := hash }

theorem runPass_eq (site : Site) (settings : Config.Settings) (dryRun : Bool)
    (hash : Option String) :
    runPass site settings dryRun hash = Work.ofExcept (connect site settings) >>= fun _ =>
      if settings.reconcile.ensureIndexes then
        Work.onServer Server.ensureIndexes >>= fun _ => passOn site settings dryRun hash
      else passOn site settings dryRun hash := rfl

theorem passOn_dry_received (site : Site) (settings : Config.Settings) (hash : Option String)
    (server : Server) :
    ∃ passed, (passOn site settings true hash server).2.received = server.received ++ passed ∧
      ∀ st ∈ passed, st.persists = false := by
  rw [passOn, Work.bind_apply]
  rcases hservice : serviceOf settings with e | service
  · exact ⟨[], by simp [Work.ofExcept], by simp⟩
  · obtain ⟨limit, rfl⟩ := exists_service hservice
    have hgrows : Sessions.Receives (fun st => st.persists = false) { server }
        ((reconcile (Database.service limit) (optionsOf settings true) site.stamp).outcome
          { server }).2 :=
      reconcile_dry_moves (perform_receives (fun _ h => h) limit) rfl site.stamp _
    obtain ⟨passed, hsent, hreads⟩ := hgrows
    refine ⟨passed, ?_, hreads⟩
    simp only [Work.ofExcept, Work.bind_apply, Work.onSessions_apply]
    rw [← hsent]
    rcases (reconcile (Database.service limit) (optionsOf settings true) site.stamp).outcome
      { server } with ⟨_ | r, x⟩ <;> rfl

/-- What a dry run sends: the creation of indexes, one after the other, if the settings ask for it, and
after all of them nothing that lasts. -/
theorem runPass_dry_received (site : Site) (settings : Config.Settings) (hash : Option String)
    (server : Server) :
    ∃ made passed,
      (runPass site settings true hash server).2.received =
        server.received ++ (made.map .createIndex ++ passed) ∧
      made <+: lookupIndexes ∧ (settings.reconcile.ensureIndexes = false → made = []) ∧
      (settings.reconcile.ensureIndexes → passed ≠ [] → made = lookupIndexes) ∧
      ∀ st ∈ passed, st.persists = false := by
  rw [runPass_eq, Work.bind_apply]
  rcases hconnect : connect site settings with e | endpoints
  · exact ⟨[], [], by simp [Work.ofExcept], List.nil_prefix, fun _ => rfl, by simp, by simp⟩
  · simp only [Work.ofExcept]
    cases hensure : settings.reconcile.ensureIndexes with
    | false =>
      obtain ⟨passed, hsent, hreads⟩ := passOn_dry_received site settings hash server
      exact ⟨[], passed, hsent, List.nil_prefix, fun _ => rfl, by simp, hreads⟩
    | true =>
      obtain ⟨made, hmade, hprefix, hall⟩ := received_ensureIndexes server
      rw [if_pos rfl, Work.bind_apply, Work.onServer_apply]
      rcases hindexes : Server.ensureIndexes.outcome server with ⟨e | names, s⟩
      · rw [hindexes] at hmade
        have hs : s.received = server.received ++ (made.map .createIndex ++ []) := by
          simpa using hmade
        exact ⟨made, [], hs, hprefix, by simp, by simp, by simp⟩
      · rw [hindexes] at hmade hall
        obtain ⟨passed, hsent, hreads⟩ := passOn_dry_received site settings hash s
        refine ⟨made, passed, ?_, hprefix, by simp, fun _ _ => hall rfl, hreads⟩
        have hs : s.received = server.received ++ made.map .createIndex := hmade
        rw [← List.append_assoc, ← hs]
        exact hsent

/-- A place whose database answers. -/
def reachable : Site where
  file _ := none
  environment := Dictionary.empty.insert "FGR_DATABASE_URL" "socket"
  answers _ := true
  stamp := default

/-- With indexes asked for, a dry run begins with statements that last. -/
theorem runPass_dry_creates :
    let settings : Config.Settings := { reconcile := { ensureIndexes := true } }
    let received := (runPass reachable settings true none {}).2.received
    received = lookupIndexes.map .createIndex ++ [.begin, .isolation, .edgeOwners, .groups,
        .groups, .memberships, .edges, .rollback] ∧
      ¬ ∀ st ∈ received, st.persists = false := by
  decide +kernel

end Regroup.Command
