import Regroup.Json.Value
import Regroup.Run.Options

/-!
The settings of the program, with a default for each, and the JSON object that writes them all out.
-/

namespace Regroup.Config

/-- Where the counters are kept. -/
inductive Backend where
  | postgres
  | redis
  deriving DecidableEq, Repr, Inhabited

namespace Backend

def name : Backend → String
  | .postgres => "postgres"
  | .redis => "redis"

def every : List Backend := [.postgres, .redis]

end Backend

inductive LogFormat where
  | text
  | json
  deriving DecidableEq, Repr, Inhabited

namespace LogFormat

def name : LogFormat → String
  | .text => "text"
  | .json => "json"

def every : List LogFormat := [.text, .json]

end LogFormat

structure ReconcileSection where
  defaultGroupName : String := Regroup.defaultGroupName
  /-- The bound on lock waits; without one the server's own holds. -/
  lockWaitSeconds : Option Nat := none
  seedStrategy : SeedStrategy := .edges
  skipProvisioning : Bool := false
  edgeScope : EdgeScope := .all
  excluded : List Uid := systemCounterparts
  ensureIndexes : Bool := false
  deriving DecidableEq, Repr, Inhabited

structure StoreSection where
  /-- The environment variable that holds the address of the database. -/
  databaseVariable : String := "FGR_DATABASE_URL"
  maxConnections : Nat := 4
  deriving DecidableEq, Repr, Inhabited

structure SequenceSection where
  backend : Backend := .postgres
  counters : CounterNames := {}
  /-- The environment variable that holds the address of the counters, if they are kept apart. -/
  redisVariable : String := "FGR_REDIS_URL"
  timeoutSeconds : Nat := 5
  deriving DecidableEq, Repr, Inhabited

structure LoggingSection where
  level : String := "info"
  format : LogFormat := .text
  deriving DecidableEq, Repr, Inhabited

structure Settings where
  reconcile : ReconcileSection := {}
  store : StoreSection := {}
  sequence : SequenceSection := {}
  logging : LoggingSection := {}
  deriving DecidableEq, Repr, Inhabited

def ReconcileSection.toJson (s : ReconcileSection) : Json :=
  .ofFields
    [ ("default_group_name", .str s.defaultGroupName),
      ("lock_wait_timeout_secs", (s.lockWaitSeconds.map fun n => Json.int n).getD .null),
      ("seed_defaults_from", .str s.seedStrategy.name),
      ("skip_provisioning", .bool s.skipProvisioning),
      ("edge_scope", .str s.edgeScope.name),
      ("excluded_counterparts", .arr (s.excluded.map .str)),
      ("ensure_indexes", .bool s.ensureIndexes) ]

def StoreSection.toJson (s : StoreSection) : Json :=
  .ofFields [("database_url_env", .str s.databaseVariable), ("max_connections", .int s.maxConnections)]

def SequenceSection.toJson (s : SequenceSection) : Json :=
  .ofFields
    [ ("backend", .str s.backend.name),
      ("edge_counter", .str s.counters.edge),
      ("group_counter", .str s.counters.group),
      ("redis_url_env", .str s.redisVariable),
      ("timeout_secs", .int s.timeoutSeconds) ]

def LoggingSection.toJson (s : LoggingSection) : Json :=
  .ofFields [("level", .str s.level), ("format", .str s.format.name)]

/-- The object of all settings. -/
def Settings.toJson (s : Settings) : Json :=
  .ofFields
    [ ("reconcile", s.reconcile.toJson),
      ("store", s.store.toJson),
      ("sequence", s.sequence.toJson),
      ("logging", s.logging.toJson) ]

end Regroup.Config
