import Regroup.Database.Fault
import Regroup.Database.Statement
import Regroup.Dictionary
import Regroup.Run.Failure

/-!
A scripted database. It carries nothing out: it notes every statement and answers with the next reply
that was prepared for statements of the kind, or else as a database would that has empty tables.
-/

namespace Regroup.Database

inductive Cell where
  | null
  | bool (b : Bool)
  | int (n : Int)
  | text (s : String)
  deriving DecidableEq, Repr, Inhabited

namespace Cell

def bool? : Cell → Option Bool
  | .bool b => some b
  | _ => none

def int? : Cell → Option Int
  | .int n => some n
  | _ => none

def text? : Cell → Option String
  | .text s => some s
  | _ => none

/-- A column that may be null. -/
def nullable {α : Type} (read : Cell → Option α) : Cell → Option (Option α)
  | .null => some none
  | c => (read c).map some

end Cell

/-- What a statement is answered with. -/
structure Outcome where
  rows : List (List Cell) := []
  /-- The number of rows that were written. -/
  affected : Nat := 0
  deriving DecidableEq, Repr, Inhabited

/-- A prepared reply. -/
inductive Reply where
  /-- As without a prepared reply. -/
  | usual
  | rows (rs : List (List Cell))
  | affected (n : Nat)
  | error (code constraint : Option String)
  /-- The connection is closed. -/
  | close
  /-- No answer ever comes. -/
  | hang
  deriving DecidableEq, Repr, Inhabited

/-- What becomes of a statement. -/
inductive Answer where
  | outcome (o : Outcome)
  | error (t : Trouble)
  | closed
  | silence
  deriving DecidableEq, Repr

structure Server where
  /-- The replies that are left, by the kind of statement. -/
  replies : Dictionary String (List Reply) := .empty
  counters : Dictionary String Int := .empty
  /-- The statements that were received, in order. -/
  received : List Statement := []
  deriving Inhabited

namespace Server

/-- The next prepared reply. -/
def nextReply (kind : String) : StateM Server Reply := do
  let s ← get
  match (s.replies.get? kind).getD [] with
  | [] => return .usual
  | r :: rest =>
    set { s with replies := s.replies.insert kind rest }
    return r

/-- Advances a counter. -/
def advance (counter : String) (count : Nat) : StateM Server Int :=
  modifyGet fun s =>
    let last : Int := (s.counters.get? counter).getD 0 + count
    (last, { s with counters := s.counters.insert counter last })

/-- The outcome without a prepared reply. -/
def usualOutcome : Statement → StateM Server Outcome
  | .upsertGroups _ rows => return { affected := rows.length }
  | .refreshGroups rows => return { affected := rows.length }
  | .updateEdges rows => return { affected := rows.length }
  | .reserve counter count => do return { rows := [[.int (← advance counter count)]] }
  | .selectOne => return { rows := [[.int 1]] }
  | _ => return {}

/-- Receives a statement. -/
def receive (st : Statement) : StateM Server Answer := do
  modify fun s => { s with received := s.received ++ [st] }
  match ← nextReply st.kind with
  | .usual => return .outcome (← usualOutcome st)
  | .rows rs => return .outcome { rows := rs }
  | .affected n => return .outcome { affected := n }
  | .error code constraint => return .error (.database code constraint)
  | .close => return .closed
  | .hang => return .silence

/-- A statement that belongs to a task. Whatever goes wrong, the task has failed. -/
def perform (t : Task) (st : Statement) : Attempt Server Outcome := do
  match ← (receive st : StateM Server Answer) with
  | .outcome o => return o
  | _ => Attempt.fail (.task t)

end Server

end Regroup.Database
