import Regroup.Command.Environment
import Regroup.Command.Overrides
import Regroup.Config.Endpoints
import Regroup.Config.Layers
import Regroup.Config.Schema
import Regroup.Config.UnusedKeys
import Regroup.Database.Schema
import Regroup.Database.Service
import Regroup.Run.Pass

/-!
The program: a command line is read, settings are loaded and overridden, and a command is carried out on
a database. What is printed is gathered in lines.
-/

namespace Regroup.Command

open Config (Settings)

/-- Why a command fails. -/
inductive Problem where
  | usage (e : UsageError)
  | load (e : Config.LoadError)
  | unusedKeys (u : Config.UnusedKeys)
  | schema (e : Config.SchemaError)
  | flags (e : OverrideError)
  | failure (f : Failure)
  deriving DecidableEq, Repr

namespace Problem

/-- The outermost text. -/
def headline : Problem → String
  | .usage e => e.kind
  | .load e => e.message
  | .unusedKeys u => u.message
  | .schema _ => Config.SchemaError.headline
  | .flags e => e.message
  | .failure f => f.headline

/-- All texts, the outermost first. -/
def message : Problem → String
  | .schema e => e.message
  | .failure f => f.message
  | p => p.headline

end Problem

/-- What a program finds around it. -/
structure Site where
  /-- The text of a file that can be read. -/
  file : String → Option String
  environment : Environment
  /-- A database answers at an address. -/
  answers : String → Bool
  stamp : Stamp

namespace Site

/-- The file that sets environment variables. -/
def environmentFile : String := ".env.local"

/-- The environment with the variables of the file. -/
def fullEnvironment (s : Site) : Environment :=
  match s.file environmentFile with
  | some text => s.environment.load text
  | none => s.environment

/-- The addresses that the settings name. -/
def endpoints (s : Site) (settings : Settings) : Except Failure Config.Endpoints :=
  Config.Endpoints.resolve settings s.fullEnvironment.get?

end Site

structure LoadedSettings where
  settings : Settings := {}
  hash : Option String := none
  unusedKeys : List String := []
  deriving DecidableEq, Repr

def mapError {ε δ α : Type} (f : ε → δ) : Except ε α → Except δ α
  | .ok a => .ok a
  | .error e => .error (f e)

namespace LoadedSettings

def ofConfig (c : Config.Loaded) (policy : Config.UnusedKeyPolicy) :
    Except Problem LoadedSettings := do
  let unusedKeys ← mapError .unusedKeys (Config.checkUnusedKeys policy c.json)
  let settings ← mapError .schema (Settings.ofJson c.json)
  return ⟨settings, some c.hash, unusedKeys⟩

def ofTexts (texts : List String) (policy : Config.UnusedKeyPolicy) : Except Problem LoadedSettings := do
  ofConfig (← mapError .load (Config.ofTexts texts)) policy

end LoadedSettings

/-- The texts of files, all of which must be readable. -/
def Site.texts (s : Site) (paths : List String) : Except Problem (List String) :=
  paths.mapM fun path =>
    match s.file path with
    | some text => .ok text
    | none => .error (.load (.unreadable path))

/-- The settings of files. Without any file the defaults hold, and there is no hash. -/
def Site.loadSettings (s : Site) (paths : List String) (strict : Bool) :
    Except Problem LoadedSettings := do
  if paths.isEmpty then
    return {}
  LoadedSettings.ofTexts (← s.texts paths) (if strict then .fail else .warn)

open Database (Server Sessions)

/-- A step of a command on a database. -/
abbrev Work (α : Type) := ExceptT Problem (StateM Server) α

namespace Work

def ofExcept {α : Type} (x : Except Problem α) : Work α := fun s => (x, s)

/-- A task on the database. -/
def onServer {α : Type} (x : Attempt Server α) : Work α :=
  fun s => match x s with
    | (r, t) => (mapError .failure r, t)

/-- A step over units of work. -/
def onSessions {α : Type} (x : Attempt Sessions α) : Work α :=
  onServer (Attempt.zoom (fun server => { server }) (fun _ s => s.server) x)

end Work

/-- Connects to the database that the settings name. At least one connection must be allowed. -/
def connect (s : Site) (settings : Settings) : Except Problem Config.Endpoints := do
  let e ← mapError .failure (s.endpoints settings)
  if s.answers e.database && settings.store.maxConnections != 0 then
    return e
  throw (.failure ⟨[.step .connectStore], .task .connect⟩)

/-- The service of the settings, whose counters need time to connect. -/
def serviceOf (settings : Settings) : Except Problem (Service Sessions) :=
  match settings.sequence.backend with
  | .postgres =>
    if settings.sequence.timeoutSeconds = 0 then
      .error (.failure (.ofCause (.task .connectCounters)))
    else .ok (Database.service (.ofSeconds settings.sequence.timeoutSeconds))
  | .redis => .error (.failure (.ofCause .backendNotBuiltIn))

/-- A pass under settings. The indexes are made first, if that is asked for. -/
def runPass (s : Site) (settings : Settings) (dryRun : Bool) (hash : Option String) : Work Report := do
  let _ ← Work.ofExcept (connect s settings)
  if settings.reconcile.ensureIndexes then
    let _ ← Work.onServer Server.ensureIndexes
  let service ← Work.ofExcept (serviceOf settings)
  let r ← Work.onSessions (reconcile service (optionsOf settings dryRun) s.stamp)
  return { r with configHash := hash }

/-! The commands. -/

def reconcileLines (s : Site) (loaded : LoadedSettings) (flags : PassFlags) : Work (List String) := do
  let settings ← Work.ofExcept (mapError .flags (flags.override loaded.settings))
  let r ← runPass s settings flags.dryRun loaded.hash
  return if flags.json then [r.jsonText] else r.lines

def statusLines (s : Site) (settings : Settings) : Work (List String) := do
  let _ ← Work.ofExcept (connect s settings)
  let status ← Work.onServer Server.status
  let missing :=
    if status.missingTables.isEmpty then "-" else ",".intercalate status.missingTables
  return [s!"db_ok={status.ok} schema_ready={status.schemaReady} missing_tables={missing}"]

def migrateLines (s : Site) (settings : Settings) : Work (List String) := do
  let _ ← Work.ofExcept (connect s settings)
  Work.onServer Server.migrate
  return ["migrations_applied=true"]

def ensureIndexesLines (s : Site) (settings : Settings) : Work (List String) := do
  let _ ← Work.ofExcept (connect s settings)
  let names ← Work.onServer Server.ensureIndexes
  return names.map ("index=" ++ ·) ++ [s!"indexes_ensured={names.length}"]

def hashLines (s : Site) (paths : List String) : Work (List String) := do
  let texts ← Work.ofExcept (s.texts paths)
  let c ← Work.ofExcept (mapError .load (Config.ofTexts texts))
  return ["config_hash=" ++ c.hash, c.canonicalText]

/-- The paths of configuration files. Those that were given to the innermost command count. -/
def configPaths (levels : List (String × Given)) : List String :=
  ((levels.reverse.map fun l => l.2.values configOption.name).find? fun ps => !ps.isEmpty).getD []

/-- Carries out the command that was read. -/
def commandLines (s : Site) (levels : List (String × Given)) : Work (List String) := do
  let strict := levels.any fun l => l.2.has strictOption.name
  let given := ((levels.map Prod.snd).getLast?).getD {}
  let names := (levels.drop 1).map Prod.fst
  if names = [hashCommand.name] then
    return ← hashLines s given.operands
  let loaded ← Work.ofExcept (s.loadSettings (configPaths levels) strict)
  if names = [reconcileCommand.name] then
    reconcileLines s loaded (.ofGiven given)
  else if names = [statusCommand.name] then
    statusLines s loaded.settings
  else if names = [databaseCommand.name, migrateCommand.name] then
    migrateLines s loaded.settings
  else
    ensureIndexesLines s loaded.settings

/-- How the program ends. -/
structure Ending where
  code : Nat
  output : List String := []
  /-- The text of a failure that is not one of usage. -/
  error : Option String := none
  deriving DecidableEq, Repr

def Ending.ofProblem : Problem → Ending
  | .usage (.help page) => { code := 0, output := [page] }
  | .usage _ => { code := 2 }
  | p => { code := 1, error := some p.headline }

/-- The program with its words. -/
def run (s : Site) (ws : List String) : StateM Server Ending := do
  let x : Work (List String) := do
    let levels ← Work.ofExcept (mapError .usage (programCommand.read programCommand.name {} ws))
    commandLines s levels
  match ← x.run with
  | .ok output => return { code := 0, output }
  | .error p => return .ofProblem p

end Regroup.Command
