import Regroup.Word

/-!
Contiguous blocks of versions. A counter answers a reservation with its value afterwards, which is
the last version of the block.
-/

namespace Regroup

/-- The versions `start`, `start + 1`, … of which there are `size`. -/
structure VersionBlock where
  start : Int
  size : Nat
  deriving DecidableEq, Repr, Inhabited

/-- Why versions cannot be assigned. -/
inductive BlockError where
  | empty
  /-- The block would begin outside the signed range. -/
  | overflow (last : Int) (count : Nat)
  | sizeMismatch (rows reserved : Nat)
  /-- Two rows have one key, so their order is not determined. -/
  | duplicateKey
  deriving DecidableEq, Repr

namespace BlockError

def kind : BlockError → String
  | .empty => "Empty"
  | .overflow .. => "Overflow"
  | .sizeMismatch .. => "SizeMismatch"
  | .duplicateKey => "DuplicateKey"

def message : BlockError → String
  | .empty => "version block must hold at least one value"
  | .overflow last count => s!"version block overflow: end={last} count={count}"
  | .sizeMismatch rows reserved => s!"version block size mismatch: rows={rows} reserved={reserved}"
  | .duplicateKey => "duplicate ordering key: version assignment would not be total"

end BlockError

namespace VersionBlock

/-- The block of `count` versions that ends at `last`. The value before the block must be a signed
word too. -/
def endingAt (last : Int) (count : Nat) : Except BlockError VersionBlock :=
  if count = 0 then .error .empty
  else if (count : Int) ≤ Word.maxSigned then
    match Word.signed? (last - count) with
    | some before => .ok ⟨before + 1, count⟩
    | none => .error (.overflow last count)
  else .error (.overflow last count)

def isEmpty (b : VersionBlock) : Bool := b.size == 0

def last (b : VersionBlock) : Int := b.start + b.size - 1

def contains (b : VersionBlock) (v : Int) : Bool := b.start ≤ v && v ≤ b.last

/-- At most the first `n` versions. -/
def firstValues (b : VersionBlock) (n : Nat) : List Int :=
  (List.range (min n b.size)).map fun (i : Nat) => b.start + i

def values (b : VersionBlock) : List Int := b.firstValues b.size

/-- First and last version. -/
def text (b : VersionBlock) : String := s!"[{b.start}, {b.last}]"

def jsonText (b : VersionBlock) : String :=
  "\x7b\"start\":" ++ toString b.start ++ ",\"len\":" ++ toString b.size ++ "\x7d"

end VersionBlock

end Regroup
