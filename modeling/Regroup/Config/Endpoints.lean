import Regroup.Config.Settings
import Regroup.Run.Failure
import Regroup.Text.Blank

/-!
Addresses come from the environment. The settings hold only the names of the variables, and an address
is never shown.
-/

namespace Regroup.Config

structure Endpoints where
  database : String
  /-- Where the counters are, if they are kept apart. -/
  redis : Option String
  deriving DecidableEq

namespace Endpoints

/-- The address in a variable. One of blanks alone is none. -/
def address (lookup : String → Option String) (name purpose : String) : Except Failure String :=
  match (lookup name).filter fun v => !Text.isBlank v with
  | some v => .ok v
  | none => .error (.ofCause (.missingAddress name purpose))

/-- The addresses that the settings name. -/
def resolve (s : Settings) (lookup : String → Option String) : Except Failure Endpoints := do
  let database ← address lookup s.store.databaseVariable "database url"
  match s.sequence.backend with
  | .postgres => return ⟨database, none⟩
  | .redis =>
    let redis ← address lookup s.sequence.redisVariable "redis url, sequence.backend=redis"
    return ⟨database, some redis⟩

/-- What may be shown of the addresses. -/
def text (e : Endpoints) : String :=
  let hidden := "\"<REDACTED>\""
  let redis := if e.redis.isSome then "Some(" ++ hidden ++ ")" else "None"
  "ResolvedEndpoints \x7b database_url: " ++ hidden ++ ", redis_url: " ++ redis ++ " \x7d"

end Endpoints

end Regroup.Config
