import Regroup.Dictionary
import Regroup.Run.Failure
import Regroup.Word

/-!
Counters in memory. Every reservation is logged. What was reserved is never given back.
-/

namespace Regroup.Memory

structure Counters where
  values : Dictionary String Int := .empty
  /-- The reservations, in order. -/
  grants : List (String × Nat) := []
  reachable : Bool := true
  deriving Inhabited

namespace Counters

/-- A counter that was never used stands at zero. -/
def value (c : Counters) (counter : String) : Int := (c.values.get? counter).getD 0

def backend : String := "memory"

/-- Advances a counter and answers its new value. A reservation that fails advances nothing. -/
def reserve (counter : String) (count : Nat) : Attempt Counters Int := do
  let c ← get
  if !c.reachable then
    Attempt.fail .countersUnreachable
  else if Word.maxSigned < count then
    Attempt.fail (.countTooLarge count)
  else match Word.signed? (c.value counter + count) with
    | none => Attempt.fail (.counterOverflow counter)
    | some last =>
      set { c with values := c.values.insert counter last, grants := c.grants ++ [(counter, count)] }
      return last

end Counters

end Regroup.Memory
