/-!
Lengths of time, counted in nanoseconds.
-/

namespace Regroup

structure Duration where
  nanos : Nat
  deriving DecidableEq, Repr, Inhabited

namespace Duration

def ofSeconds (n : Nat) : Duration := ⟨n * 1000000000⟩

def ofMillis (n : Nat) : Duration := ⟨n * 1000000⟩

def ofMicros (n : Nat) : Duration := ⟨n * 1000⟩

/-- Whole milliseconds, rounded down. -/
def inMillis (d : Duration) : Nat := d.nanos / 1000000

@[simp] theorem inMillis_ofMillis (n : Nat) : (ofMillis n).inMillis = n := by
  simp [ofMillis, inMillis]

end Duration

end Regroup
