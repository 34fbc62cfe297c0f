import Regroup.Ascending
import Regroup.Row

/-!
Which edges a pass looks at: a scope on the deletion flag, and counterparts that are never regrouped.
-/

namespace Regroup

inductive EdgeScope where
  | all
  | activeOnly
  | deletedOnly
  deriving DecidableEq, Repr, Inhabited

namespace EdgeScope

def name : EdgeScope → String
  | .all => "all"
  | .activeOnly => "active_only"
  | .deletedOnly => "deleted_only"

def every : List EdgeScope := [.all, .activeOnly, .deletedOnly]

def ofName? (s : String) : Option EdgeScope := every.find? (·.name == s)

def accepts : EdgeScope → Edge → Bool
  | .all, _ => true
  | .activeOnly, e => e.isActive
  | .deletedOnly, e => !e.isActive

end EdgeScope

structure EdgeFilter where
  scope : EdgeScope := .all
  /-- A set of counterparts. -/
  excluded : List Uid := []
  deriving DecidableEq, Repr, Inhabited

namespace EdgeFilter

def excluding (f : EdgeFilter) (counterparts : List Uid) : EdgeFilter :=
  { f with excluded := ascending (f.excluded ++ counterparts) }

def accepts (f : EdgeFilter) (e : Edge) : Bool :=
  f.scope.accepts e && !f.excluded.contains e.counterpart

end EdgeFilter

end Regroup
