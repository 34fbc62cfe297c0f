import Regroup.Duration
import Regroup.Version.Assign

/-!
The statements that are sent to a database: their texts, in which white space does not matter and is a
single blank, and their parameters.
-/

namespace Regroup.Database

/-- The tables that a pass reads or writes. -/
def tableNames : List String :=
  ["users", "friend_group", "friend_group_member", "friend", "sequence_counter"]

/-- An index that helps a pass to find rows. -/
structure LookupIndex where
  name : String
  table : String
  columns : List String
  deriving DecidableEq, Repr

def lookupIndexes : List LookupIndex :=
  [ ⟨"idx_friend_group_uid_default", "friend_group", ["uid", "is_default"]⟩,
    ⟨"idx_friend_group_id_deleted", "friend_group", ["id", "is_deleted"]⟩,
    ⟨"idx_fgm_uid_friend", "friend_group_member", ["uid", "friend_uid"]⟩,
    ⟨"idx_fgm_group_deleted", "friend_group_member", ["group_id", "is_deleted"]⟩,
    ⟨"idx_friend_uid_to_uid", "friend", ["uid", "to_uid"]⟩,
    ⟨"idx_friend_is_deleted", "friend", ["is_deleted"]⟩,
    ⟨"idx_friend_group_id", "friend", ["friend_group_id"]⟩ ]

/-- The lines of the statements that create the tables. -/
def schemaLines : List String :=
  [
    "-- Tables read and written by reconciliation. Production databases already",
    "-- carry these; this file bootstraps fresh and test databases.",
    "",
    "create table if not exists users (",
    "  uid varchar(40) primary key",
    ");",
    "",
    "create table if not exists friend_group (",
    "  id          bigserial primary key,",
    "  uid         varchar(40) not null,",
    "  name        varchar(100) not null,",
    "  is_default  boolean not null default false,",
    "  is_deleted  boolean null,",
    "  version     bigint null,",
    "  created_at  timestamptz not null default now(),",
    "  constraint uq_friend_group_uid_name unique (uid, name)",
    ");",
    "",
    "create table if not exists friend_group_member (",
    "  id          bigserial primary key,",
    "  group_id    bigint not null,",
    "  uid         varchar(40) not null,",
    "  friend_uid  varchar(40) not null,",
    "  is_deleted  boolean null,",
    "  created_at  timestamptz not null default now()",
    ");",
    "",
    "create table if not exists friend (",
    "  id               bigserial primary key,",
    "  uid              varchar(40) not null,",
    "  to_uid           varchar(40) not null,",
    "  friend_group_id  bigint null,",
    "  is_deleted       boolean null,",
    "  version          bigint null,",
    "  created_at       timestamptz not null default now()",
    ");",
    "",
    "-- Postgres-backed sequence allocator.",
    "create table if not exists sequence_counter (",
    "  name   varchar(100) primary key,",
    "  value  bigint not null default 0",
    ");"
  ]

/-- The file of the statements that create the tables. -/
def schemaFile : String := String.join (schemaLines.map (· ++ "\n"))

/-- A text with a single blank for every run of white space between words. -/
def singleSpaced (s : String) : String :=
  let isSpace (c : Char) : Bool := c == ' ' || c == '\n' || c == '\t' || c == '\r'
  let words (acc : List (List Char)) (c : Char) : List (List Char) :=
    if isSpace c then [] :: acc
    else match acc with
      | word :: rest => (c :: word) :: rest
      | [] => [[c]]
  let found := ((s.toList.foldl words [[]]).filter fun w => !w.isEmpty).reverse
  " ".intercalate (found.map fun w => String.ofList w.reverse)

/-- A value that is sent with a statement. -/
inductive Parameter where
  | text (s : String)
  | int (n : Int)
  | texts (xs : List String)
  | ints (xs : List Int)
  deriving DecidableEq, Repr

inductive Statement where
  | begin
  | isolation
  | lockTimeout (wait : Duration)
  | edgeOwners
  | registryOwners
  | groups
  | memberships
  | edges
  | upsertGroups (name : String) (rows : List GroupInsert)
  | refreshGroups (rows : List GroupRefresh)
  | updateEdges (rows : List EdgeWrite)
  | commit
  | rollback
  | reserve (counter : String) (count : Nat)
  | selectOne
  | tables
  | createIndex (index : LookupIndex)
  | migration
  deriving DecidableEq, Repr

/-- Whole milliseconds, at least one, for none at all would mean no limit. -/
def lockTimeoutText (wait : Duration) : String := s!"{max wait.inMillis 1}ms"

namespace Statement

/-- What the statement is for. -/
def kind : Statement → String
  | .begin => "begin"
  | .isolation => "isolation"
  | .lockTimeout _ => "lock_timeout"
  | .edgeOwners => "edge_owners"
  | .registryOwners => "registry_owners"
  | .groups => "groups"
  | .memberships => "memberships"
  | .edges => "edges"
  | .upsertGroups .. => "upsert"
  | .refreshGroups _ => "refresh"
  | .updateEdges _ => "apply"
  | .commit => "commit"
  | .rollback => "rollback"
  | .reserve .. => "reserve"
  | .selectOne => "select_one"
  | .tables => "tables"
  | .createIndex _ => "index"
  | .migration => "migration"

/-- A default group that was deleted is revived in its place. -/
def upsertText : String :=
  "insert into friend_group (uid, name, is_default, is_deleted, version) " ++
    "select t.uid, $1, true, false, t.version " ++
    "from unnest($2::varchar[], $3::bigint[]) as t(uid, version) " ++
    "on conflict (uid, name) do update " ++
    "set is_default = true, is_deleted = false, version = excluded.version"

def refreshText : String :=
  "update friend_group g set is_default = true, is_deleted = false, version = t.version " ++
    "from unnest($1::bigint[], $2::bigint[]) as t(id, version) where g.id = t.id"

/-- An edge that has moved in the meantime is left alone. -/
def updateText : String :=
  "update friend f set friend_group_id = t.target, version = t.version " ++
    "from unnest($1::bigint[], $2::bigint[], $3::bigint[], $4::bigint[]) " ++
    "as t(id, expected, target, version) " ++
    "where f.id = t.id and coalesce(f.friend_group_id, 0) = t.expected"

/-- One statement, so that reservations of one counter wait for each other. -/
def reserveText : String :=
  "insert into sequence_counter (name, value) values ($1, $2) on conflict (name) do update " ++
    "set value = sequence_counter.value + excluded.value returning value"

def createIndexText (i : LookupIndex) : String :=
  "create index if not exists " ++ i.name ++ " on " ++ i.table ++ " (" ++
    ", ".intercalate i.columns ++ ")"

def text : Statement → String
  | .begin => "BEGIN"
  | .isolation => "set transaction isolation level repeatable read"
  | .lockTimeout _ => "select set_config('lock_timeout', $1, true)"
  | .edgeOwners => "select distinct uid from friend order by uid"
  | .registryOwners => "select uid from users order by uid"
  | .groups =>
    "select id, uid, name, is_default, is_deleted, version from friend_group order by id"
  | .memberships =>
    "select group_id, uid, friend_uid, is_deleted from friend_group_member order by id"
  | .edges =>
    "select id, uid, to_uid, friend_group_id, is_deleted, version from friend order by id for update"
  | .upsertGroups .. => upsertText
  | .refreshGroups _ => refreshText
  | .updateEdges _ => updateText
  | .commit => "COMMIT"
  | .rollback => "ROLLBACK"
  | .reserve .. => reserveText
  | .selectOne => "select 1"
  | .tables =>
    "select table_name::text from information_schema.tables " ++
      "where table_schema = current_schema() and table_name = any($1)"
  | .createIndex i => createIndexText i
  | .migration => singleSpaced schemaFile

def parameters : Statement → List Parameter
  | .lockTimeout wait => [.text (lockTimeoutText wait)]
  | .upsertGroups name rows =>
    [.text name, .texts (rows.map GroupInsert.owner), .ints (rows.map GroupInsert.version)]
  | .refreshGroups rows =>
    [.ints (rows.map GroupRefresh.groupId), .ints (rows.map GroupRefresh.version)]
  | .updateEdges rows =>
    [.ints (rows.map EdgeWrite.edgeId), .ints (rows.map EdgeWrite.expected),
      .ints (rows.map EdgeWrite.target), .ints (rows.map EdgeWrite.version)]
  | .reserve counter count => [.text counter, .int count]
  | .tables => [.texts tableNames]
  | _ => []

/-- The statement creates something, changes rows, or makes such changes last. -/
def persists : Statement → Bool
  | .upsertGroups .. | .refreshGroups _ | .updateEdges _ | .commit | .reserve .. | .createIndex _
  | .migration => true
  | _ => false

end Statement

end Regroup.Database
