import Regroup.Duration
import Regroup.EdgeFilter
import Regroup.Seed

/-!
What a reconciliation pass is asked to do.
-/

namespace Regroup

/-- The name that a default group carries unless another is chosen. -/
def defaultGroupName : String := "我的好友"

/-- Accounts of the system itself, whose edges are not regrouped unless that is asked for. -/
def systemCounterparts : List Uid := ["u_10000", "fileHelper"]

inductive Provisioning where
  /-- Only the default groups that exist are used. -/
  | skip
  | seed (strategy : SeedStrategy)
  deriving DecidableEq, Repr, Inhabited

def Provisioning.name : Provisioning → String
  | .skip => "skip"
  | .seed s => s.name

/-- The counters that versions are drawn from. -/
structure CounterNames where
  edge : String := "seq:friend"
  group : String := "seq:friendGroup"
  deriving DecidableEq, Repr, Inhabited

structure Options where
  dryRun : Bool := false
  defaultGroupName : String := Regroup.defaultGroupName
  lockWait : Option Duration := none
  provisioning : Provisioning := .seed .edges
  filter : EdgeFilter := {}
  counters : CounterNames := {}
  deriving DecidableEq, Repr

end Regroup
