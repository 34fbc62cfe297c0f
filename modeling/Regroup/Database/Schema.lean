import Regroup.Database.Server
import Regroup.Digest.Sha384
import Regroup.Text.Blank

/-!
The tables and indexes of a database: whether they are there, and how they are made.
-/

namespace Regroup.Database

/-- Whether the database answers, and which tables it lacks. -/
structure Status where
  ok : Bool
  missingTables : List String
  deriving DecidableEq, Repr

/-- A pass can run. -/
def Status.schemaReady (s : Status) : Bool := s.ok && s.missingTables.isEmpty

namespace Server

/-- The first column of the rows. -/
def firstTexts? (o : Outcome) : Option (List String) :=
  o.rows.mapM fun row => row.head?.bind Cell.text?

def status : Attempt Server Status := do
  let o ← perform .checkConnection .selectOne
  let some n := (o.rows.head?.bind List.head?).bind Cell.int?
    | Attempt.fail (.task .checkConnection)
  let o ← perform .checkTables .tables
  let some present := firstTexts? o | Attempt.fail (.task .checkTables)
  return ⟨n == 1, tableNames.filter fun t => !present.contains t⟩

/-- Creates the indexes that are not there, and answers the names of all. -/
def ensureIndexes : Attempt Server (List String) :=
  lookupIndexes.mapM fun i => do
    let _ ← perform (.createIndex i.name) (.createIndex i)
    return i.name

/-- The version of the only migration there is. -/
def migrationVersion : Int := 1

/-- The digest by which a migration is known again. -/
def migrationDigest : String := Digest.sha384 schemaFile.toUTF8.toList

/-- The versions and digests of the migrations that the database has seen; to ask for them is no
statement of this program. -/
def appliedMigrations? : StateM Server (Option (List (Int × String))) := do
  let read (row : List Cell) : Option (Int × String) :=
    match row with
    | .int version :: .text digest :: _ => some (version, Text.lowerLatin digest)
    | _ => none
  match ← nextReply "applied" with
  | .usual => return some []
  | .rows rs => return rs.mapM read
  | .affected _ => return some []
  | .error .. | .close | .hang => return none

/-- Creates the tables, unless that was done before. A database that has seen other migrations is left
alone. -/
def migrate : Attempt Server Unit := do
  let some applied ← (appliedMigrations? : StateM Server (Option (List (Int × String))))
    | Attempt.fail (.task .migrate)
  if applied.any fun m => m.1 != migrationVersion then
    Attempt.fail (.task .migrate)
  else match applied.reverse.lookup migrationVersion with
    | some digest =>
      if digest == migrationDigest then pure () else Attempt.fail (.task .migrate)
    | none =>
      let _ ← perform .migrate .migration

end Server

end Regroup.Database
