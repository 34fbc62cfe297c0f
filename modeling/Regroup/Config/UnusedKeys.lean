import Regroup.Ascending
import Regroup.Config.Settings
import Regroup.Json.Leaf
import Regroup.Text.Quoted

/-!
Leaves of a configuration that nothing reads. A leaf is read when its pointer is that of a setting or
goes on from there after a slash.
-/

namespace Regroup.Config

/-- The settings by section and name. -/
def consumed : List (String × List String) :=
  [ ("reconcile",
      ["default_group_name", "lock_wait_timeout_secs", "seed_defaults_from", "skip_provisioning",
        "edge_scope", "excluded_counterparts", "ensure_indexes"]),
    ("store", ["database_url_env", "max_connections"]),
    ("sequence", ["backend", "edge_counter", "group_counter", "redis_url_env", "timeout_secs"]),
    ("logging", ["level", "format"]) ]

def consumedPointers : List String :=
  consumed.flatMap fun s => s.2.map fun name => Json.pointer [.field s.1, .field name]

/-- The first pointer is the second, or the second goes on from it. -/
def covers (consumed leaf : String) : Bool :=
  consumed.toList.isPrefixOf leaf.toList &&
    match leaf.toList.drop consumed.toList.length with
    | [] => true
    | c :: _ => c == '/'

def isConsumed (pointer : String) : Bool := consumedPointers.any (covers · pointer)

/-- The set of pointers of leaves that nothing reads. -/
def unusedKeys (v : Json) : List String :=
  ascending ((v.leaves.map Json.Leaf.pointer).filter fun p => !isConsumed p)

/-- What unused keys lead to. -/
inductive UnusedKeyPolicy where
  | warn
  | fail
  deriving DecidableEq, Repr

/-- There are unused keys, and they are not allowed. -/
structure UnusedKeys where
  pointers : List String
  deriving DecidableEq, Repr

namespace UnusedKeys

/-- How many keys a message lists. -/
def listed : Nat := 12

def message (u : UnusedKeys) : String :=
  s!"CONFIG_UNUSED_KEYS: {u.pointers.length} unused config leaf key(s) detected. First few: " ++
    Text.quotedList (u.pointers.take listed)

end UnusedKeys

/-- The unused keys, or a failure because of them. -/
def checkUnusedKeys (policy : UnusedKeyPolicy) (v : Json) : Except UnusedKeys (List String) :=
  let keys := unusedKeys v
  if policy = .fail ∧ ¬ keys.isEmpty then .error ⟨keys⟩ else .ok keys

end Regroup.Config
