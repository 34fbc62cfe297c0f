import Regroup.Ascending
import Regroup.Row

/-!
Default groups for the owners that need one: who lacks a default, whose defaults are refreshed, and
how the groups read once that is done.
-/

namespace Regroup

structure ProvisionPlan where
  /-- Candidates without an active default group, a set. -/
  missingOwners : List Uid := []
  /-- The active default groups of candidates, a set of ids. -/
  existingGroups : List GroupId := []
  deriving DecidableEq, Repr, Inhabited

namespace ProvisionPlan

def isEmpty (p : ProvisionPlan) : Bool := p.missingOwners.isEmpty && p.existingGroups.isEmpty

/-- Every candidate lacks a default group or has some, never both. -/
def build (candidates : List Uid) (groups : List Group) : ProvisionPlan :=
  let owned := groups.filter fun g => g.isActiveDefault && candidates.contains g.owner
  { missingOwners := (ascending candidates).filter fun u => !(owned.any fun g => g.owner == u)
    existingGroups := ascending (owned.map Group.id) }

/-- The lowest id among the rows that hold a name for an owner. -/
def lowestHolder? (groups : List Group) (owner : Uid) (name : String) : Option GroupId :=
  ((groups.filter (Group.holds owner name)).map Group.id).min?

/-- One missing owner: a row that holds the name already is revived and keeps its id, else the owner
needs a new row. -/
def previewOwner (name : String) (state : List Group × List Uid) (owner : Uid) :
    List Group × List Uid :=
  match lowestHolder? state.1 owner name with
  | some id => (modifyFirst (fun g => g.holds owner name && g.id == id) Group.revive state.1, state.2)
  | none => (state.1, state.2 ++ [owner])

/-- The groups as they read once the plan is persisted, and the owners that still need a new row. -/
def preview (p : ProvisionPlan) (name : String) (groups : List Group) : List Group × List Uid :=
  p.missingOwners.foldl (previewOwner name) (groups, [])

end ProvisionPlan

end Regroup
