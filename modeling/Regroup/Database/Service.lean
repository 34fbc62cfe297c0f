import Regroup.Database.Counters
import Regroup.Database.Store
import Regroup.Run.Request

/-!
A service on a database: at most one unit of work, and counters on connections beside it.
-/

namespace Regroup.Database

/-- The name of the only unit of work. -/
def onlyWork : String := "pass"

/-- Requests as statements. -/
def perform (limit : Duration) : (r : Request) → Attempt Sessions r.Reply
  | .begin lockWait => Sessions.begin onlyWork lockWait
  | .edgeOwners => Sessions.use onlyWork Connection.edgeOwners
  | .registryOwners => Sessions.use onlyWork Connection.registryOwners
  | .loadGroups => Sessions.use onlyWork Connection.loadGroups
  | .loadMemberships => Sessions.use onlyWork Connection.loadMemberships
  | .loadEdges => Sessions.use onlyWork Connection.loadEdges
  | .upsertDefaultGroups name rows => Sessions.use onlyWork (Connection.upsertDefaultGroups name rows)
  | .refreshDefaultGroups rows => Sessions.use onlyWork (Connection.refreshDefaultGroups rows)
  | .applyEdgeUpdates rows => Sessions.use onlyWork (Connection.applyEdgeUpdates rows)
  | .commit => Sessions.commit onlyWork
  | .rollback => Sessions.rollback onlyWork
  | .reserve counter count => Sessions.onServer (Counters.reserve limit counter count)

/-- The service, with a limit of time for every reservation. -/
def service (limit : Duration) : Service Sessions := ⟨Counters.backend, perform limit⟩

end Regroup.Database
