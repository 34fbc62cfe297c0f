/-!
The rows of the friend graph: groups, memberships of a counterpart in a group of its owner, and
directed edges from an owner to a counterpart. Rows are deleted by a flag; a missing flag counts as
not deleted.
-/

namespace Regroup

abbrev Uid := String

abbrev GroupId := Int

abbrev EdgeId := Int

/-- A row with this deletion flag is in use. -/
def inUse (isDeleted : Option Bool) : Bool := !isDeleted.getD false

structure Group where
  id : GroupId
  owner : Uid
  name : String
  isDefault : Bool
  isDeleted : Option Bool
  version : Option Int
  deriving DecidableEq, Repr, Inhabited

structure Membership where
  groupId : GroupId
  owner : Uid
  counterpart : Uid
  isDeleted : Option Bool
  deriving DecidableEq, Repr, Inhabited

structure Edge where
  id : EdgeId
  owner : Uid
  counterpart : Uid
  groupId : Option GroupId
  isDeleted : Option Bool
  version : Option Int
  deriving DecidableEq, Repr, Inhabited

namespace Group

def new (id : GroupId) (owner : Uid) (name : String) (isDefault : Bool) : Group :=
  ⟨id, owner, name, isDefault, some false, none⟩

def deleted (g : Group) : Group := { g with isDeleted := some true }

def isActive (g : Group) : Bool := inUse g.isDeleted

def isActiveDefault (g : Group) : Bool := g.isDefault && g.isActive

/-- The row holds a name for an owner. -/
def holds (owner : Uid) (name : String) (g : Group) : Bool := g.owner == owner && g.name == name

/-- The row becomes an active default of its owner in place. -/
def revive (g : Group) : Group := { g with isDefault := true, isDeleted := some false }

/-- An active default that carries a version. -/
def stamp (version : Int) (g : Group) : Group := { g.revive with version := some version }

end Group

namespace Membership

def new (groupId : GroupId) (owner counterpart : Uid) : Membership :=
  ⟨groupId, owner, counterpart, some false⟩

def deleted (m : Membership) : Membership := { m with isDeleted := some true }

def isActive (m : Membership) : Bool := inUse m.isDeleted

end Membership

namespace Edge

def new (id : EdgeId) (owner counterpart : Uid) : Edge :=
  ⟨id, owner, counterpart, none, some false, none⟩

def inGroup (e : Edge) (g : GroupId) : Edge := { e with groupId := some g }

def deleted (e : Edge) : Edge := { e with isDeleted := some true }

def isActive (e : Edge) : Bool := inUse e.isDeleted

/-- The stored group; an edge without one is in group zero. -/
def currentGroup (e : Edge) : GroupId := e.groupId.getD 0

end Edge

end Regroup
