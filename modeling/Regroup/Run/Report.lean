import Regroup.Instant
import Regroup.Json.Text
import Regroup.Run.Options
import Regroup.Run.RunId
import Regroup.Version.Block

/-!
The outcome of a pass. In a dry run the counts say what a full run would do. A report is written as
lines of `key=value`, or as an indented JSON object with its fields in the same order.
-/

namespace Regroup

/-- What tells one pass from another: its identifier and when it began and ended. -/
structure Stamp where
  runId : RunId
  startedAt : Instant
  finishedAt : Instant
  deriving DecidableEq, Repr, Inhabited

structure Report where
  runId : RunId
  startedAt : Instant
  finishedAt : Option Instant := none
  dryRun : Bool
  committed : Bool := false
  configHash : Option String := none
  provisioningSkipped : Bool
  seedStrategy : Option String
  candidateOwners : Nat := 0
  groupsMissing : Nat := 0
  groupsExisting : Nat := 0
  groupsInserted : Nat := 0
  groupsRefreshed : Nat := 0
  groupInsertBlock : Option VersionBlock := none
  groupRefreshBlock : Option VersionBlock := none
  edgesScanned : Nat := 0
  edgesFilteredOut : Nat := 0
  toUpdate : Nat := 0
  updated : Nat := 0
  unresolved : Nat := 0
  /-- Edges that belong to a default group that does not exist yet; in dry runs only. -/
  awaitingDefault : Nat := 0
  edgeBlock : Option VersionBlock := none
  deriving DecidableEq, Repr

namespace Report

/-- The report of a pass that has just begun. -/
def start (stamp : Stamp) (o : Options) : Report :=
  { runId := stamp.runId
    startedAt := stamp.startedAt
    dryRun := o.dryRun
    provisioningSkipped := o.provisioning == .skip
    seedStrategy := match o.provisioning with
      | .skip => none
      | .seed s => some s.name }

/-- A value in a report. -/
inductive Entry where
  | flag (b : Bool)
  | text (s : Option String)
  | count (n : Nat)
  | block (b : Option VersionBlock)
  deriving DecidableEq, Repr

/-- Everything but what tells one pass from another, by name and in order. -/
def entries (r : Report) : List (String × Entry) :=
  [ ("dry_run", .flag r.dryRun),
    ("committed", .flag r.committed),
    ("config_hash", .text r.configHash),
    ("provisioning_skipped", .flag r.provisioningSkipped),
    ("seed_strategy", .text r.seedStrategy),
    ("candidate_owners", .count r.candidateOwners),
    ("groups_missing", .count r.groupsMissing),
    ("groups_existing", .count r.groupsExisting),
    ("groups_inserted", .count r.groupsInserted),
    ("groups_refreshed", .count r.groupsRefreshed),
    ("group_insert_block", .block r.groupInsertBlock),
    ("group_refresh_block", .block r.groupRefreshBlock),
    ("edges_scanned", .count r.edgesScanned),
    ("edges_filtered_out", .count r.edgesFilteredOut),
    ("to_update", .count r.toUpdate),
    ("updated", .count r.updated),
    ("unresolved", .count r.unresolved),
    ("awaiting_default", .count r.awaitingDefault),
    ("edge_block", .block r.edgeBlock) ]

/-- An absent value is written as a dash. -/
def orDash (v : Option String) : String := v.getD "-"

def blockText (b : Option VersionBlock) : String := orDash (b.map VersionBlock.text)

/-- The value in a line. -/
def Entry.lineText : Entry → String
  | .flag b => toString b
  | .text s => orDash s
  | .count n => toString n
  | .block b => blockText b

/-- The lines of `key=value`. -/
def lines (r : Report) : List String :=
  [ "run_id=" ++ r.runId.text,
    "started_at_utc=" ++ r.startedAt.textWithOffset,
    "finished_at_utc=" ++ orDash (r.finishedAt.map Instant.textWithOffset) ] ++
  r.entries.map fun e => e.1 ++ "=" ++ e.2.lineText

/-- The fields of an object, one to a line, at a depth of indentation. -/
def objectText (depth : Nat) (fields : List (String × String)) : String :=
  let indent (n : Nat) : String := String.ofList (List.replicate (2 * n) ' ')
  let line (f : String × String) : String := indent (depth + 1) ++ Json.quote f.1 ++ ": " ++ f.2
  "\x7b\n" ++ ",\n".intercalate (fields.map line) ++ "\n" ++ indent depth ++ "\x7d"

/-- A string, or null where it is absent. -/
def quotedOrNull (v : Option String) : String := (v.map Json.quote).getD "null"

/-- The value in an object. -/
def Entry.jsonText : Entry → String
  | .flag b => toString b
  | .text s => quotedOrNull s
  | .count n => toString n
  | .block none => "null"
  | .block (some b) => objectText 1 [("start", toString b.start), ("len", toString b.size)]

/-- The indented JSON text. -/
def jsonText (r : Report) : String :=
  objectText 0
    ([ ("run_id", Json.quote r.runId.text),
       ("started_at", Json.quote r.startedAt.textWithLetter),
       ("finished_at", quotedOrNull (r.finishedAt.map Instant.textWithLetter)) ] ++
     r.entries.map fun e => (e.1, e.2.jsonText))

end Report

end Regroup
