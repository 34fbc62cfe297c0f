import Regroup.Dictionary
import Regroup.Run.Request

/-!
Services under rehearsal: one that logs what it is asked, one whose calls fail or miscount by plan,
and one whose counters answer what they are told.
-/

namespace Regroup

variable {σ : Type}

/-- A state together with the requests that were made, in order. -/
structure Logged (σ : Type) where
  state : σ
  requests : List Request := []

namespace Logged

def onState {α : Type} (x : Attempt σ α) : Attempt (Logged σ) α :=
  Attempt.zoom Logged.state (fun l s => { l with state := s }) x

def record (r : Request) : Attempt (Logged σ) Unit :=
  modify fun l => { l with requests := l.requests ++ [r] }

end Logged

/-- The same service, with every request logged before it is made. -/
def Service.logged (s : Service σ) : Service (Logged σ) where
  backend := s.backend
  perform r := do
    Logged.record r
    Logged.onState (s.perform r)

/-- Which calls of a pass fail, and by how much row counts are off, by the name of the request. -/
structure Mishaps where
  /-- The call, counted from one, that fails without reaching the store. -/
  faults : Dictionary String Nat := .empty
  /-- Added to the number of touched rows, which does not fall below zero. -/
  miscounts : Dictionary String Int := .empty
  deriving Inhabited

namespace Mishaps

def miscount (m : Mishaps) (r : Request) (n : Nat) : Nat :=
  (n + (m.miscounts.get? r.name).getD 0 : Int).toNat

/-- The answer to a request with its row count changed. -/
def distort (m : Mishaps) : (r : Request) → r.Reply → r.Reply
  | r@(.upsertDefaultGroups ..), n => m.miscount r n
  | r@(.refreshDefaultGroups _), n => m.miscount r n
  | r@(.applyEdgeUpdates _), n => m.miscount r n
  | .begin _, a | .edgeOwners, a | .registryOwners, a | .loadGroups, a | .loadMemberships, a
  | .loadEdges, a | .commit, a | .rollback, a | .reserve .., a => a

end Mishaps

/-- The same service under mishaps. Reservations go through as they are. -/
def Service.rehearsed (s : Service σ) (m : Mishaps) : Service (Logged σ) where
  backend := s.backend
  perform r := do
    Logged.record r
    let calls := (← get).requests.countP (·.name == r.name)
    if !r.isReservation && m.faults.get? r.name == some calls then
      Attempt.fail (.scripted r.name)
    else
      let reply ← Logged.onState (s.perform r)
      return m.distort r reply

/-- A state together with answers that the next reservations receive. -/
structure Queued (σ : Type) where
  state : σ
  answers : List Int := []

/-- The next queued answer in place of a reservation, else the reservation. -/
def Queued.reserve (reserve : String → Nat → Attempt σ Int) (counter : String) (count : Nat) :
    Attempt (Queued σ) Int := do
  match (← get).answers with
  | last :: rest =>
    modify fun q => { q with answers := rest }
    return last
  | [] => Attempt.zoom Queued.state (fun q s => { q with state := s }) (reserve counter count)

/-- The same service with queued answers to reservations. -/
def Service.queued (s : Service σ) : Service (Queued σ) where
  backend := s.backend
  perform
    | .reserve counter count => Queued.reserve (fun c n => s.perform (.reserve c n)) counter count
    | r => Attempt.zoom Queued.state (fun q s => { q with state := s }) (s.perform r)

end Regroup
