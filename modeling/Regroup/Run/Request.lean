import Regroup.Duration
import Regroup.Run.Failure
import Regroup.Version.Assign

/-!
What a pass asks of the store and of the counters. One unit of work is open at a time: its reads see
one state of the tables, and nothing it writes is seen outside before the commit.
-/

namespace Regroup

inductive Request where
  | begin (lockWait : Option Duration)
  | edgeOwners
  | registryOwners
  | loadGroups
  | loadMemberships
  | loadEdges
  | upsertDefaultGroups (name : String) (rows : List GroupInsert)
  | refreshDefaultGroups (rows : List GroupRefresh)
  | applyEdgeUpdates (rows : List EdgeWrite)
  | commit
  | rollback
  /-- Advances a counter; the answer is its value afterwards. -/
  | reserve (counter : String) (count : Nat)
  deriving DecidableEq, Repr

namespace Request

/-- What the request is answered with. The writes answer with the number of rows they touched. -/
abbrev Reply : Request → Type
  | .begin _ | .commit | .rollback => Unit
  | .edgeOwners | .registryOwners => List Uid
  | .loadGroups => List Group
  | .loadMemberships => List Membership
  | .loadEdges => List Edge
  | .upsertDefaultGroups .. | .refreshDefaultGroups _ | .applyEdgeUpdates _ => Nat
  | .reserve .. => Int

def name : Request → String
  | .begin _ => "begin"
  | .edgeOwners => "edge_owners"
  | .registryOwners => "registry_owners"
  | .loadGroups => "load_groups"
  | .loadMemberships => "load_memberships"
  | .loadEdges => "load_edges"
  | .upsertDefaultGroups .. => "upsert_default_groups"
  | .refreshDefaultGroups _ => "refresh_default_groups"
  | .applyEdgeUpdates _ => "apply_edge_updates"
  | .commit => "commit"
  | .rollback => "rollback"
  | .reserve .. => "reserve"

/-- The request goes to the counters and not to the store. -/
def isReservation : Request → Bool
  | .reserve .. => true
  | _ => false

end Request

/-- A store and counters over one state. -/
structure Service (σ : Type) where
  /-- Where the counters are kept. -/
  backend : String
  perform : (r : Request) → Attempt σ r.Reply

/-- A block of `count` versions from a counter, none for no versions at all. The counter is not asked
for nothing. -/
def reserveBlock {σ : Type} (backend : String) (reserve : String → Nat → Attempt σ Int)
    (counter : String) (count : Nat) : Attempt σ (Option VersionBlock) := do
  if count = 0 then
    return none
  let last ← (reserve counter count).within (.reserving count backend counter)
  let block ← Attempt.ofBlock (VersionBlock.endingAt last count)
  return some block

def Service.reserveBlock {σ : Type} (s : Service σ) :
    String → Nat → Attempt σ (Option VersionBlock) :=
  Regroup.reserveBlock s.backend fun counter count => s.perform (.reserve counter count)

end Regroup
