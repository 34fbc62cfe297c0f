import Regroup.Dictionary
import Regroup.Row

/-!
What one read of the groups and memberships says about where edges belong. An explicit membership
decides first, the owner's default group second.
-/

namespace Regroup

/-- The default group of an owner. -/
inductive DefaultSlot where
  | existing (id : GroupId)
  /-- A default group that provisioning would create. -/
  | planned
  deriving DecidableEq, Repr

/-- The slot after one more active default was seen; of several defaults the lowest id stays. -/
def DefaultSlot.add (id : GroupId) : Option DefaultSlot → DefaultSlot
  | none => .existing id
  | some (.existing cur) => .existing (if id < cur then id else cur)
  | some .planned => .planned

structure DefaultIndex where
  slots : Dictionary Uid DefaultSlot := .empty
  deriving Inhabited

namespace DefaultIndex

def build (groups : List Group) : DefaultIndex :=
  ⟨(groups.filter Group.isActiveDefault).foldl
    (fun d g => d.alter g.owner (DefaultSlot.add g.id)) .empty⟩

/-- Owners whose default group is about to be provisioned. An owner that has one keeps it. -/
def planMissing (d : DefaultIndex) (owners : List Uid) : DefaultIndex :=
  ⟨owners.foldl (fun s o => s.insertIfNew o .planned) d.slots⟩

def slot (d : DefaultIndex) (owner : Uid) : Option DefaultSlot := d.slots.get? owner

/-- The id of a persisted default group. -/
def get? (d : DefaultIndex) (owner : Uid) : Option GroupId :=
  match d.slot owner with
  | some (.existing id) => some id
  | _ => none

def hasDefault (d : DefaultIndex) (owner : Uid) : Bool := d.slots.contains owner

def size (d : DefaultIndex) : Nat := d.slots.size

def isEmpty (d : DefaultIndex) : Bool := d.slots.isEmpty

end DefaultIndex

/-- The explicit groups of counterparts, by the owner and then by the counterpart. -/
structure MembershipIndex where
  targets : Dictionary Uid (Dictionary Uid GroupId) := .empty
  deriving Inhabited

namespace MembershipIndex

/-- A membership counts when it is active and an active group has its id. -/
def isEligible (groups : List Group) (m : Membership) : Bool :=
  m.isActive && groups.any fun g => g.isActive && g.id == m.groupId

def lower (id : GroupId) : Option GroupId → GroupId
  | none => id
  | some cur => min cur id

/-- The targets after one more membership was seen; of several memberships of one pair the lowest
group id stays. -/
def add (d : Dictionary Uid (Dictionary Uid GroupId)) (m : Membership) :
    Dictionary Uid (Dictionary Uid GroupId) :=
  d.alter m.owner fun own => (own.getD .empty).alter m.counterpart (lower m.groupId)

def build (groups : List Group) (memberships : List Membership) : MembershipIndex :=
  ⟨(memberships.filter (isEligible groups)).foldl add .empty⟩

def get? (m : MembershipIndex) (owner counterpart : Uid) : Option GroupId :=
  (m.targets.get? owner).bind (·.get? counterpart)

/-- The number of pairs that have a group. -/
def size (m : MembershipIndex) : Nat := (m.targets.values.map Dictionary.size).foldl (· + ·) 0

def isEmpty (m : MembershipIndex) : Bool := m.targets.isEmpty

end MembershipIndex

structure Snapshot where
  defaults : DefaultIndex := {}
  members : MembershipIndex := {}
  deriving Inhabited

/-- Where an edge belongs. -/
inductive Resolution where
  | membership (id : GroupId)
  | defaultGroup (id : GroupId)
  /-- The owner's default group does not exist yet. -/
  | pendingDefault
  | unresolved
  deriving DecidableEq, Repr

namespace Snapshot

def build (groups : List Group) (memberships : List Membership) : Snapshot :=
  ⟨DefaultIndex.build groups, MembershipIndex.build groups memberships⟩

def planMissing (s : Snapshot) (owners : List Uid) : Snapshot :=
  { s with defaults := s.defaults.planMissing owners }

def resolve (s : Snapshot) (owner counterpart : Uid) : Resolution :=
  match s.members.get? owner counterpart with
  | some id => .membership id
  | none =>
    match s.defaults.slot owner with
    | some (.existing id) => .defaultGroup id
    | some .planned => .pendingDefault
    | none => .unresolved

end Snapshot

/-- The group that a resolution names. -/
def Resolution.groupId? : Resolution → Option GroupId
  | .membership id | .defaultGroup id => some id
  | .pendingDefault | .unresolved => none

end Regroup
