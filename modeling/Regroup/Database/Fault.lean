/-!
What went wrong in a statement, as far as an operator can act on it.
-/

namespace Regroup.Database

inductive Fault where
  /-- A row lock was not granted in time. -/
  | lockTimeout
  /-- A serialization failure or a deadlock. -/
  | serialization
  | uniqueViolation (constraint : Option String)
  /-- The connection is gone. -/
  | connectivity
  | other
  deriving DecidableEq, Repr

/-- How a statement ends without a result: an error that the server reports with its state code, or
a failure of the connection or of the client. -/
inductive Trouble where
  | database (code : Option String) (constraint : Option String)
  | io
  | tls
  | poolTimedOut
  | poolClosed
  | workerCrashed
  /-- A reply that the client cannot use, such as a missing row or an unreadable column. -/
  | unusable
  deriving DecidableEq, Repr

namespace Fault

def classify : Trouble → Fault
  | .database (some "55P03") _ => .lockTimeout
  | .database (some "40001") _ | .database (some "40P01") _ => .serialization
  | .database (some "23505") constraint => .uniqueViolation constraint
  | .database _ _ => .other
  | .io | .tls | .poolTimedOut | .poolClosed | .workerCrashed => .connectivity
  | .unusable => .other

def name : Fault → String
  | .lockTimeout => "lock_timeout"
  | .serialization => "serialization"
  | .uniqueViolation _ => "unique_violation"
  | .connectivity => "connectivity"
  | .other => "other"

/-- The name, with the violated constraint where one is known. -/
def text : Fault → String
  | .uniqueViolation (some c) => "unique_violation constraint=" ++ c
  | f => f.name

end Fault

/-- The statements of a unit of work. -/
inductive Operation where
  | beginTransaction
  | setIsolation
  | setLockTimeout
  | selectEdgeOwners
  | selectUsers
  | selectGroups
  | selectMemberships
  | selectEdges
  | upsertGroups
  | refreshGroups
  | updateEdges
  | commit
  | rollback
  deriving DecidableEq, Repr

def Operation.text : Operation → String
  | .beginTransaction => "begin transaction"
  | .setIsolation => "set isolation level"
  | .setLockTimeout => "set lock_timeout"
  | .selectEdgeOwners => "select edge owners"
  | .selectUsers => "select registered users"
  | .selectGroups => "select friend_group"
  | .selectMemberships => "select friend_group_member"
  | .selectEdges => "select friend for update"
  | .upsertGroups => "upsert default friend_group"
  | .refreshGroups => "refresh default friend_group"
  | .updateEdges => "update friend"
  | .commit => "commit"
  | .rollback => "rollback"

/-- The failure of a named operation. -/
def Fault.annotate (operation : String) (f : Fault) : String :=
  operation ++ " failed fault=" ++ f.text

/-- What is done outside of a unit of work. -/
inductive Task where
  | connect
  | connectCounters
  | increment
  | checkConnection
  | checkTables
  | createIndex (name : String)
  | migrate
  deriving DecidableEq, Repr

/-- The failure of a task. -/
def Task.failure : Task → String
  | .connect => "failed to connect to Postgres"
  | .connectCounters => "allocator failed to connect to Postgres"
  | .increment => "sequence_counter increment failed"
  | .checkConnection => "status connectivity query failed"
  | .checkTables => "status table-exists query failed"
  | .createIndex name => "create index " ++ name ++ " failed"
  | .migrate => "db migrate failed"

end Regroup.Database
