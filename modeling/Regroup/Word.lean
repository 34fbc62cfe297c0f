/-!
The two ranges of 64-bit integers, from `-2 ^ 63` to `2 ^ 63 - 1` and from 0 to `2 ^ 64 - 1`.
Identifiers and versions are signed words, counts are unsigned words; both are kept as unbounded
integers, and an operation that could leave its range asks here first or comes round.
-/

namespace Regroup.Word

def minSigned : Int := -9223372036854775808

def maxSigned : Int := 9223372036854775807

def maxUnsigned : Nat := 18446744073709551615

def maxUnsigned32 : Nat := 4294967295

/-- The number lies in the signed range. -/
def IsSigned (n : Int) : Prop := minSigned ≤ n ∧ n ≤ maxSigned

instance (n : Int) : Decidable (IsSigned n) := inferInstanceAs (Decidable (_ ∧ _))

/-- The number itself, when it lies in the signed range. -/
def signed? (n : Int) : Option Int := if IsSigned n then some n else none

theorem signed?_eq_some_iff {n m : Int} : signed? n = some m ↔ IsSigned n ∧ n = m := by
  unfold signed?
  split <;> simp_all

/-- What a sum of words comes to when nothing checks it. -/
def wrap (n : Int) : Int := n.bmod (maxUnsigned + 1)

end Regroup.Word
