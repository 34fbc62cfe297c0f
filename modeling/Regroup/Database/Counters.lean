import Regroup.Database.Server
import Regroup.Word

/-!
Counters in a table of a database. A reservation lasts from the moment in which it is answered, whatever
becomes of the pass.
-/

namespace Regroup.Database.Counters

def backend : String := "postgres"

/-- Advances a counter and answers its new value. After the limit of time nobody knows what became of
the reservation, which then has failed. -/
def reserve (limit : Duration) (counter : String) (count : Nat) : Attempt Server Int := do
  if Word.maxSigned < count then
    Attempt.fail .reservationTooLarge
  else
    match ← (Server.receive (.reserve counter count) : StateM Server Answer) with
    | .outcome { rows := (.int n :: _) :: _, .. } => return n
    | .outcome _ | .error _ | .closed => Attempt.fail (.task .increment)
    | .silence => Attempt.fail (.reservationTimedOut limit.inMillis)

end Regroup.Database.Counters
