import Regroup.Command.Words
import Regroup.Config.Settings
import Regroup.Text.Blank

/-!
The options of a pass as they are given on the command line. They win over the settings; the outcome is
checked wherever a value comes from.
-/

namespace Regroup.Command

structure PassFlags where
  dryRun : Bool := false
  defaultName : Option String := none
  lockWaitSeconds : Option Nat := none
  seedStrategy : Option String := none
  skipProvisioning : Bool := false
  onlyDeleted : Bool := false
  activeOnly : Bool := false
  /-- Takes the place of the whole list in the settings, unless it is empty. -/
  excluded : List String := []
  backend : Option String := none
  edgeCounter : Option String := none
  groupCounter : Option String := none
  ensureIndexes : Bool := false
  json : Bool := false
  deriving DecidableEq, Repr, Inhabited

namespace PassFlags

def ofGiven (g : Given) : PassFlags :=
  { dryRun := g.has "dry-run"
    defaultName := g.value? "default-name"
    lockWaitSeconds := (g.value? "lock-wait-timeout").bind unsigned?
    seedStrategy := g.value? "seed-defaults-from"
    skipProvisioning := g.has "skip-provisioning"
    onlyDeleted := g.has "only-deleted-edges"
    activeOnly := g.has "active-edges-only"
    excluded := g.values "exclude-counterpart"
    backend := g.value? "allocator"
    edgeCounter := g.value? "edge-counter"
    groupCounter := g.value? "group-counter"
    ensureIndexes := g.has "ensure-indexes"
    json := g.has "json" }

/-- Reads the words after the name of the command. -/
def ofWords (ws : List String) : Except UsageError PassFlags := do
  let levels ← passArguments.read passArguments.name {} ws
  return ofGiven ((levels.map Prod.snd).headD {})

end PassFlags

/-- A value that cannot be taken, by flag or by setting. -/
inductive OverrideError where
  | blankDefaultName
  | lockWaitTooShort
  | unknownStrategy (name : String)
  | unknownBackend (name : String)
  | sharedCounter (name : String)
  deriving DecidableEq, Repr

def OverrideError.message : OverrideError → String
  | .blankDefaultName => "--default-name must not be empty"
  | .lockWaitTooShort => "lock wait timeout must be at least 1 second"
  | .unknownStrategy name =>
    "invalid --seed-defaults-from '" ++ name ++ "'. expected one of: edges | registry | union"
  | .unknownBackend name => "invalid --allocator '" ++ name ++ "'. expected one of: postgres | redis"
  | .sharedCounter name => "edge and group counters must differ (both '" ++ name ++ "')"

/-- A name without the blanks around it, in small letters. -/
def plainName (s : String) : String := Text.lowerLatin (Text.trim s)

/-- A strategy by one of its names. -/
def readStrategy (s : String) : Except OverrideError SeedStrategy :=
  let name := plainName s
  if name == "edges" || name == "friend" then .ok .edges
  else if name == "registry" || name == "user" then .ok .registry
  else if name == "union" || name == "both" then .ok .union
  else .error (.unknownStrategy name)

/-- A backend by one of its names. -/
def readBackend (s : String) : Except OverrideError Config.Backend :=
  let name := plainName s
  if name == "postgres" || name == "pg" then .ok .postgres
  else if name == "redis" then .ok .redis
  else .error (.unknownBackend name)

/-- The scope that two switches choose, if one of them is set. -/
def scopeOfSwitches (onlyDeleted activeOnly : Bool) : Option EdgeScope :=
  if onlyDeleted then some .deletedOnly else if activeOnly then some .activeOnly else none

namespace PassFlags

open Config (Settings ReconcileSection SequenceSection)

def overrideReconcile (f : PassFlags) (r : ReconcileSection) :
    Except OverrideError ReconcileSection := do
  if f.defaultName.any Text.isBlank then
    throw .blankDefaultName
  let lockWaitSeconds := f.lockWaitSeconds <|> r.lockWaitSeconds
  if lockWaitSeconds = some 0 then
    throw .lockWaitTooShort
  let seedStrategy ← match f.seedStrategy with
    | some s => readStrategy s
    | none => pure r.seedStrategy
  return {
    defaultGroupName := f.defaultName.getD r.defaultGroupName
    lockWaitSeconds
    seedStrategy
    skipProvisioning := f.skipProvisioning || r.skipProvisioning
    edgeScope := (scopeOfSwitches f.onlyDeleted f.activeOnly).getD r.edgeScope
    excluded := if f.excluded.isEmpty then r.excluded else f.excluded
    ensureIndexes := f.ensureIndexes || r.ensureIndexes }

def overrideSequence (f : PassFlags) (s : SequenceSection) : Except OverrideError SequenceSection := do
  let backend ← match f.backend with
    | some b => readBackend b
    | none => pure s.backend
  let counters : CounterNames :=
    { edge := f.edgeCounter.getD s.counters.edge, group := f.groupCounter.getD s.counters.group }
  if counters.edge = counters.group then
    throw (.sharedCounter counters.edge)
  return { s with backend, counters }

/-- The settings with the flags on top of them. -/
def override (f : PassFlags) (s : Settings) : Except OverrideError Settings := do
  let reconcile ← f.overrideReconcile s.reconcile
  let sequence ← f.overrideSequence s.sequence
  return { s with reconcile, sequence }

end PassFlags

/-- The options of a pass under settings. -/
def optionsOf (s : Config.Settings) (dryRun : Bool) : Options :=
  { dryRun
    defaultGroupName := s.reconcile.defaultGroupName
    lockWait := s.reconcile.lockWaitSeconds.map Duration.ofSeconds
    provisioning :=
      if s.reconcile.skipProvisioning then .skip else .seed s.reconcile.seedStrategy
    filter := (EdgeFilter.mk s.reconcile.edgeScope []).excluding s.reconcile.excluded
    counters := s.sequence.counters }

end Regroup.Command
