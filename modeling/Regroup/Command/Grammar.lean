import Regroup.Word

/-!
The words of a command line: commands within commands, options with and without a value, and operands.
-/

namespace Regroup.Command

/-- What the value of an option must be. -/
inductive ValueKind where
  | text
  /-- A number of 64 bits, in decimal digits after a plus sign or none. -/
  | unsigned
  deriving DecidableEq, Repr

structure OptionSpec where
  name : String
  /-- The name of the value and its kind. Without one the option is a switch. -/
  value : Option (String × ValueKind) := none
  /-- The option may be given more than once. -/
  repeatable : Bool := false
  about : String := ""
  deriving DecidableEq, Repr

structure CommandSpec where
  name : String
  about : String
  /-- In the order in which they are listed. -/
  options : List OptionSpec := []
  /-- The operands, of which there must be one at least. -/
  operands : Option (String × String) := none
  /-- Switches that exclude each other. -/
  exclusive : List (String × String) := []
  /-- The commands of which one must follow. -/
  commands : List CommandSpec := []
  deriving Repr

/-- Reads an unsigned number of 64 bits. -/
def unsigned? (s : String) : Option Nat :=
  let digits := match s.toList with
    | '+' :: rest => rest
    | cs => cs
  let isDigit (c : Char) : Bool := '0' ≤ c && c ≤ '9'
  if digits.isEmpty || !digits.all isDigit then none
  else
    let n := digits.foldl (fun n c => n * 10 + (c.toNat - 48)) 0
    if n ≤ Word.maxUnsigned then some n else none

/-- The option with which every command explains itself. -/
def helpOption : OptionSpec := { name := "help", about := "Print help" }

/-- Options of every command. -/
def configOption : OptionSpec :=
  { name := "config"
    value := some ("CONFIG_PATHS", .text)
    repeatable := true
    about := "Layered config paths in merge order (later files override earlier ones)" }

def strictOption : OptionSpec :=
  { name := "strict-config"
    about := "Fail instead of warn when the config holds keys nothing reads" }

/-- The options of a pass. -/
def passOptions : List OptionSpec :=
  [ { name := "dry-run"
      about := "Compute and report, then roll back. No writes, no version reservations" },
    { name := "default-name", value := some ("DEFAULT_NAME", .text)
      about := "Name of the default group to provision" },
    { name := "lock-wait-timeout", value := some ("LOCK_WAIT_TIMEOUT", .unsigned)
      about := "Lock wait bound for the transaction, in seconds" },
    { name := "seed-defaults-from", value := some ("SEED_DEFAULTS_FROM", .text)
      about := "Candidate owners for default groups: edges | registry | union" },
    { name := "skip-provisioning", about := "Use existing default groups only" },
    { name := "only-deleted-edges", about := "Only reconcile soft-deleted edges" },
    { name := "active-edges-only", about := "Only reconcile active edges" },
    { name := "exclude-counterpart", value := some ("EXCLUDE_COUNTERPARTS", .text), repeatable := true
      about := "Counterpart never regrouped (repeatable). Replaces the configured list" },
    { name := "allocator", value := some ("ALLOCATOR", .text)
      about := "Sequence allocator backend: postgres | redis" },
    { name := "edge-counter", value := some ("EDGE_COUNTER", .text) },
    { name := "group-counter", value := some ("GROUP_COUNTER", .text) },
    { name := "ensure-indexes", about := "Create missing lookup indexes before the run" },
    { name := "json", about := "Print the report as JSON instead of key=value lines" } ]

def passExclusive : List (String × String) := [("only-deleted-edges", "active-edges-only")]

/-- The options of a pass alone, as a command. -/
def passArguments : CommandSpec :=
  { name := "reconcile", about := "", options := passOptions, exclusive := passExclusive }

def globalOptions : List OptionSpec := [configOption, strictOption]

/-- The first option of every command is listed first, then the second ones, and so on. -/
def passListing : List OptionSpec :=
  [configOption] ++ passOptions.take 2 ++ [strictOption] ++ passOptions.drop 2

def reconcileCommand : CommandSpec :=
  { passArguments with
    about := "Reconcile friend.friend_group_id with group membership"
    options := passListing }

def statusCommand : CommandSpec :=
  { name := "status", about := "Connectivity and table presence", options := globalOptions }

def migrateCommand : CommandSpec :=
  { name := "migrate", about := "Apply the bundled schema (fresh and test databases)"
    options := globalOptions }

def ensureIndexesCommand : CommandSpec :=
  { name := "ensure-indexes", about := "Create missing lookup indexes", options := globalOptions }

def databaseCommand : CommandSpec :=
  { name := "db", about := "Database commands", options := globalOptions
    commands := [migrateCommand, ensureIndexesCommand] }

def hashCommand : CommandSpec :=
  { name := "config-hash", about := "Compute layered config hash + print canonical JSON"
    options := globalOptions
    operands := some ("PATHS", "Paths in merge order") }

def programCommand : CommandSpec :=
  { name := "fgr", about := "Friend group reconciliation", options := globalOptions
    commands := [reconcileCommand, statusCommand, databaseCommand, hashCommand] }

end Regroup.Command
