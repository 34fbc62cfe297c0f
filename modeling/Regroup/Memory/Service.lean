import Regroup.Memory.Counters
import Regroup.Memory.Store
import Regroup.Run.Request

/-!
A service in memory: a store with at most one open unit of work, and counters beside it that no
roll-back reaches.
-/

namespace Regroup.Memory

structure World where
  store : Store := {}
  work : Option Work := none
  counters : Counters := {}
  deriving Inhabited

namespace World

def onStore {α : Type} (x : Attempt Store α) : Attempt World α :=
  Attempt.zoom World.store (fun w s => { w with store := s }) x

def onCounters {α : Type} (x : Attempt Counters α) : Attempt World α :=
  Attempt.zoom World.counters (fun w c => { w with counters := c }) x

/-- The open unit of work. -/
def current : Attempt World Work := do
  match (← get).work with
  | some w => return w
  | none => Attempt.fail (.noUnitOfWork "")

def onWork {α : Type} (x : Attempt Work α) : Attempt World α := do
  let w ← current
  Attempt.zoom (fun _ => w) (fun s v => { s with work := some v }) x

/-- Closes the open unit of work. -/
def close : Attempt World Work := do
  let w ← current
  modify fun s => { s with work := none }
  return w

def perform : (r : Request) → Attempt World r.Reply
  | .begin lockWait => do
    let w ← onStore (Store.begin lockWait)
    modify fun s => { s with work := some w }
  | .edgeOwners => onWork Work.edgeOwners
  | .registryOwners => onWork Work.registryOwners
  | .loadGroups => onWork Work.loadGroups
  | .loadMemberships => onWork Work.loadMemberships
  | .loadEdges => onWork Work.loadEdges
  | .upsertDefaultGroups name rows => onWork (Work.upsertDefaultGroups name rows)
  | .refreshDefaultGroups rows => onWork (Work.refreshDefaultGroups rows)
  | .applyEdgeUpdates rows => onWork (Work.applyEdgeUpdates rows)
  | .commit => do
    let w ← close
    onStore (Store.commit w)
  | .rollback => do
    let _ ← close
    onStore Store.rollback
  | .reserve counter count => onCounters (Counters.reserve counter count)

end World

def service : Service World := ⟨Counters.backend, World.perform⟩

end Regroup.Memory
