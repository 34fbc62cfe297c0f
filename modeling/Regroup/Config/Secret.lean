import Regroup.Json.Leaf
import Regroup.Text.Blank

/-!
Credentials do not belong into a configuration. A text that begins like one gives itself away.
-/

namespace Regroup.Config

/-- What credentials begin with. -/
def secretStarts : List String :=
  ["postgres://", "postgresql://", "redis://", "rediss://", "-----BEGIN", "AKIA", "ghp_", "glpat-"]

/-- A text of fewer bytes is no credential. -/
def shortestSecret : Nat := 4

/-- After blanks the text begins like a credential. -/
def isSecret (s : String) : Bool :=
  let core := Text.trim s
  if core.utf8ByteSize < shortestSecret then false
  else secretStarts.any fun start => start.toList.isPrefixOf core.toList

def leafIsSecret (l : Json.Leaf) : Bool :=
  match l.value with
  | .str s => isSecret s
  | _ => false

/-- The pointer of the first leaf that is a secret. -/
def firstSecret? (v : Json) : Option String :=
  (v.leaves.find? leafIsSecret).map Json.Leaf.pointer

end Regroup.Config
