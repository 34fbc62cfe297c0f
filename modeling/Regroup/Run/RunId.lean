/-!
Identifiers of passes: 128 bits, written as 32 hexadecimal digits in five groups.
-/

namespace Regroup

structure RunId where
  value : Nat
  deriving DecidableEq, Repr, Inhabited

namespace RunId

def digits (id : RunId) : List Char :=
  let ds := Nat.toDigits 16 id.value
  List.replicate (32 - ds.length) '0' ++ ds

/-- Lower-case digits in groups of 8, 4, 4, 4 and 12. -/
def text (id : RunId) : String :=
  let ds := id.digits
  let group (start size : Nat) : String := String.ofList ((ds.drop start).take size)
  "-".intercalate [group 0 8, group 8 4, group 12 4, group 16 4, group 20 12]

def hexValue? (c : Char) : Option Nat :=
  if '0' ≤ c ∧ c ≤ '9' then some (c.toNat - 48)
  else if 'a' ≤ c ∧ c ≤ 'f' then some (c.toNat - 87)
  else if 'A' ≤ c ∧ c ≤ 'F' then some (c.toNat - 55)
  else none

def ofDigits? (ds : List Char) : Option RunId :=
  if ds.length = 32 then
    (ds.foldlM (fun n c => (hexValue? c).map (n * 16 + ·)) 0).map RunId.mk
  else none

/-- Digits in groups. -/
def ofGroups? (cs : List Char) : Option RunId :=
  let hyphens := [8, 13, 18, 23]
  if cs.length = 36 ∧ hyphens.all fun i => cs[i]? == some '-' then
    ofDigits? (cs.filter (· != '-'))
  else none

/-- Reads digits of either case, in groups or not, and groups in braces or as a resource name. -/
def ofText? (s : String) : Option RunId :=
  let cs := s.toList
  let name := "urn:uuid:".toList
  if cs.length = 32 then ofDigits? cs
  else if cs.head? = some '\x7b' ∧ cs.getLast? = some '\x7d' then ofGroups? (cs.drop 1).dropLast
  else if name.isPrefixOf cs then ofGroups? (cs.drop name.length)
  else ofGroups? cs

end RunId

end Regroup
