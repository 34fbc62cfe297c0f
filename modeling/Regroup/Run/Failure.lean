import Regroup.Database.Fault
import Regroup.Version.Block

/-!
How a pass fails: a cause, and around it what was being done when it arose. A failure reads from the
outside in.
-/

namespace Regroup

inductive Phase where
  | begin
  | provisionGroups
  | snapshotBuild
  | diffCompute
  | dryRunExit
  | versionAllocate
  | apply
  | commit
  | rollback
  deriving DecidableEq, Repr

namespace Phase

def name : Phase → String
  | .begin => "begin"
  | .provisionGroups => "provision_groups"
  | .snapshotBuild => "snapshot_build"
  | .diffCompute => "diff_compute"
  | .dryRunExit => "dry_run_exit"
  | .versionAllocate => "version_allocate"
  | .apply => "apply"
  | .commit => "commit"
  | .rollback => "rollback"

/-- In the order of a pass. -/
def every : List Phase :=
  [.begin, .provisionGroups, .snapshotBuild, .diffCompute, .dryRunExit, .versionAllocate, .apply,
    .commit, .rollback]

end Phase

/-- The writes whose row counts are checked. -/
inductive WriteTarget where
  | groupInsert
  | groupRefresh
  | edgeUpdate
  deriving DecidableEq, Repr

def WriteTarget.name : WriteTarget → String
  | .groupInsert => "group_insert"
  | .groupRefresh => "group_refresh"
  | .edgeUpdate => "edge_update"

/-- A write touched another number of rows than versions were reserved for it. -/
structure ApplyMismatch where
  target : WriteTarget
  reserved : Nat
  affected : Nat
  deriving DecidableEq, Repr

namespace ApplyMismatch

def check (target : WriteTarget) (reserved affected : Nat) : Except ApplyMismatch Unit :=
  if reserved = affected then .ok () else .error ⟨target, reserved, affected⟩

def message (m : ApplyMismatch) : String :=
  s!"APPLY_MISMATCH target={m.target.name} reserved={m.reserved} affected={m.affected}"

end ApplyMismatch

/-- Where a rehearsed failure strikes. -/
inductive FailPoint where
  | begin
  | loadEdges
  | upsertGroups
  | refreshGroups
  | applyEdges
  | commit
  deriving DecidableEq, Repr

def FailPoint.name : FailPoint → String
  | .begin => "Begin"
  | .loadEdges => "LoadEdges"
  | .upsertGroups => "UpsertGroups"
  | .refreshGroups => "RefreshGroups"
  | .applyEdges => "ApplyEdges"
  | .commit => "Commit"

/-- The parts of a pass that a failure names. -/
inductive Step where
  | connectStore
  | seedFromEdges
  | seedFromRegistry
  | loadGroups
  | loadMemberships
  | loadEdges
  | insertVersions
  | insertGroups
  | refreshVersions
  | refreshGroups
  | edgeVersions
  | endTransaction
  deriving DecidableEq, Repr

def Step.text : Step → String
  | .connectStore => "store connect failed"
  | .seedFromEdges => "seed owners from edges"
  | .seedFromRegistry => "seed owners from registry"
  | .loadGroups => "load groups"
  | .loadMemberships => "load memberships"
  | .loadEdges => "load edges"
  | .insertVersions => "reserve versions for new default groups"
  | .insertGroups => "insert default groups"
  | .refreshVersions => "reserve versions for existing default groups"
  | .refreshGroups => "refresh default groups"
  | .edgeVersions => "edge versions"
  | .endTransaction => "reconciliation transaction not committed"

/-- What was being done. -/
inductive Context where
  | phase (p : Phase)
  /-- A part of a phase. -/
  | phaseStep (p : Phase) (s : Step)
  | step (s : Step)
  | reserving (count : Nat) (backend counter : String)
  deriving DecidableEq, Repr

def Context.message : Context → String
  | .phase p => "phase=" ++ p.name
  | .phaseStep p s => "phase=" ++ p.name ++ ": " ++ s.text
  | .step s => s.text
  | .reserving count backend counter =>
    s!"reserve {count} from {backend} counter '{counter}' failed"

/-- Why something failed. -/
inductive Cause where
  | mismatch (m : ApplyMismatch)
  | block (e : BlockError)
  | rehearsed (point : FailPoint)
  | scripted (method : String)
  | noUnitOfWork (name : String)
  | countersUnreachable
  | countTooLarge (count : Nat)
  | counterOverflow (counter : String)
  /-- The reservation exceeds the signed range. -/
  | reservationTooLarge
  | reservationTimedOut (millis : Nat)
  /-- A new group would get an id beyond the signed range. -/
  | groupIdsExhausted
  | statement (operation : Database.Operation) (fault : Database.Fault)
  | task (t : Database.Task)
  /-- An environment variable that must hold an address. -/
  | missingAddress (name purpose : String)
  | missingVariable (name : String)
  | backendNotBuiltIn
  deriving DecidableEq, Repr

/-- The texts of a cause, the outermost first. -/
def Cause.messages : Cause → List String
  | .mismatch m => [m.message]
  | .block e => [e.message]
  | .rehearsed point => ["injected failure at " ++ point.name]
  | .scripted method => ["scripted failure at " ++ method]
  | .noUnitOfWork name => [name]
  | .countersUnreachable => ["memory allocator unreachable"]
  | .countTooLarge count => [s!"count too large: {count}"]
  | .counterOverflow counter => [s!"counter '{counter}' overflow"]
  | .reservationTooLarge =>
    ["reservation size does not fit in bigint", "number too large to fit in target type"]
  | .reservationTimedOut millis => [s!"sequence_counter increment timed out after {millis}ms"]
  | .groupIdsExhausted => ["attempt to add with overflow"]
  | .statement operation fault => [fault.annotate operation.text]
  | .task t => [t.failure]
  | .missingAddress name purpose => ["missing env var " ++ name ++ " (" ++ purpose ++ ")"]
  | .missingVariable name => ["missing env var " ++ name, "environment variable not found"]
  | .backendNotBuiltIn =>
    ["redis allocator not built in; rebuild fgr-cli with --features redis"]

structure Failure where
  /-- The outermost first. -/
  contexts : List Context := []
  cause : Cause
  deriving DecidableEq, Repr

namespace Failure

def ofCause (c : Cause) : Failure := ⟨[], c⟩

def within (c : Context) (f : Failure) : Failure := { f with contexts := c :: f.contexts }

def messages (f : Failure) : List String := f.contexts.map Context.message ++ f.cause.messages

def message (f : Failure) : String := ": ".intercalate f.messages

/-- The outermost text alone. -/
def headline (f : Failure) : String := f.messages.headD ""

/-- The two causes that are told apart by kind, and all others. -/
def kind (f : Failure) : String :=
  match f.cause with
  | .mismatch _ => "ApplyMismatch"
  | .block _ => "BlockError"
  | .noUnitOfWork _ => "no_work"
  | _ => "Error"

end Failure

/-- A step over a state that may fail. What it did before it failed stays in the state. -/
abbrev Attempt (σ α : Type) := ExceptT Failure (StateM σ) α

namespace Attempt

variable {σ α : Type}

def fail (c : Cause) : Attempt σ α := throw (Failure.ofCause c)

/-- Names what was being done, for the case that it fails. -/
def within (c : Context) (x : Attempt σ α) : Attempt σ α :=
  fun s => match x s with
    | (.error f, s') => (.error (f.within c), s')
    | (.ok a, s') => (.ok a, s')

def ofBlock (x : Except BlockError α) : Attempt σ α :=
  match x with
  | .ok a => pure a
  | .error e => fail (.block e)

def ofCheck (x : Except ApplyMismatch α) : Attempt σ α :=
  match x with
  | .ok a => pure a
  | .error m => fail (.mismatch m)

/-- When the first step fails the second is run, its own outcome does not count, and the first
failure stands. -/
def orElseUndo (x : Attempt σ α) (undo : Attempt σ Unit) : Attempt σ α :=
  fun s => match x s with
    | (.error f, s') => (.error f, (undo s').2)
    | (.ok a, s') => (.ok a, s')

/-- Runs a step on a part of the state. -/
def zoom {τ : Type} (get : σ → τ) (set : σ → τ → σ) (x : Attempt τ α) : Attempt σ α :=
  fun s => match x (get s) with
    | (r, t) => (r, set s t)

end Attempt

end Regroup
