import Mathlib
import Regroup.Database.Service
import Regroup.Proofs.Attempt
import Regroup.Run.Request

/-! What a database receives. Each step of a unit of work sends the statements that it is for, or
none once its connection is lost. -/

namespace Regroup.Database

open Attempt

section Received

variable {P : Statement → Prop}

theorem received_nextReply (kind : String) (s : Server) :
    (Server.nextReply kind s).2.received = s.received := by
  unfold Server.nextReply
  simp only [bind, StateT.bind, get, getThe, MonadStateOf.get, StateT.get, pure]
  cases (s.replies.get? kind).getD [] <;> rfl

theorem received_usualOutcome (st : Statement) (s : Server) :
    (Server.usualOutcome st s).2.received = s.received := by
  cases st <;> rfl

theorem received_receive (st : Statement) (s : Server) :
    (Server.receive st s).2.received = s.received ++ [st] := by
  have hreply := received_nextReply st.kind { s with received := s.received ++ [st] }
  unfold Server.receive
  simp only [bind, StateT.bind, modify, modifyGet, MonadStateOf.modifyGet, StateT.modifyGet, pure]
  rcases hnext : Server.nextReply st.kind { s with received := s.received ++ [st] } with ⟨r, t⟩
  rw [hnext] at hreply
  cases r with
  | usual => exact (received_usualOutcome st t).trans hreply
  | rows rs => exact hreply
  | affected n => exact hreply
  | error code constraint => exact hreply
  | close => exact hreply
  | hang => exact hreply

/-- More was received since, all of it as `P` says. -/
abbrev Server.Receives (P : Statement → Prop) : Server → Server → Prop :=
  Along Server.received (Grows P)

abbrev Connection.Receives (P : Statement → Prop) : Connection → Connection → Prop :=
  Along (fun c => c.server.received) (Grows P)

abbrev Sessions.Receives (P : Statement → Prop) : Sessions → Sessions → Prop :=
  Along (fun s => s.server.received) (Grows P)

theorem receive_receives {st : Statement} (hst : P st) (s : Server) :
    s.Receives P (Server.receive st s).2 := by
  rw [Server.Receives, Along, received_receive]
  exact Grows.single hst s.received

theorem send_receives {st : Statement} (hst : P st) (op : Operation) :
    Moves (Connection.Receives P) (Connection.send op st) := by
  intro c
  rw [Connection.send, outcome_get_bind]
  split
  · exact refl c
  · rw [outcome_get_bind]
    have hreceives := receive_receives hst c.server
    rcases hreceive : Server.receive st c.server with ⟨answer, server⟩
    rw [hreceive] at hreceives
    simp only [StateT.run, hreceive, outcome_modify_bind]
    cases answer with
    | outcome o => exact hreceives
    | error t => exact hreceives
    | closed => exact hreceives
    | silence => exact hreceives

theorem select_receives {α : Type} {st : Statement} (hst : P st) (op : Operation)
    (read : List Cell → Option α) :
    Moves (Connection.Receives P) (Connection.select op st read) := by
  refine (send_receives hst op).bind fun o => ?_
  cases o.rows.mapM read with
  | some rows => exact Moves.pure rows
  | none => exact Moves.fail _

theorem begin_receives (hbegin : P .begin) (hisolation : P .isolation)
    (hwait : ∀ wait, P (.lockTimeout wait)) (lockWait : Option Duration) :
    Moves (Connection.Receives P) (Connection.begin lockWait) := by
  refine (send_receives hbegin _).bind fun _ => (send_receives hisolation _).bind fun _ => ?_
  cases lockWait with
  | none => exact Moves.pure _
  | some wait => exact (send_receives (hwait wait) _).bind fun _ => Moves.pure _

theorem rollback_receives (hrollback : P .rollback) :
    Moves (Connection.Receives P) Connection.rollback :=
  (send_receives hrollback _).bind fun _ => Moves.pure _

theorem use_receives {α : Type} {name : String} {x : Attempt Connection α}
    (hx : Moves (Connection.Receives P) x) : Moves (Sessions.Receives P) (Sessions.use name x) := by
  refine Moves.bind ?_ fun lost s => hx ⟨s.server, lost⟩
  intro s
  rw [Sessions.find, outcome_get_bind]
  split <;> exact refl s

theorem open_receives {name : String} {lockWait : Option Duration}
    (hx : Moves (Connection.Receives P) (Connection.begin lockWait)) :
    Moves (Sessions.Receives P) (Sessions.begin name lockWait) :=
  Moves.bind (fun s => hx ⟨s.server, false⟩) fun _ s => refl (r := Grows P) s.server.received

theorem finish_receives {name : String} {x : Attempt Connection Unit}
    (hx : Moves (Connection.Receives P) x) :
    Moves (Sessions.Receives P) (Sessions.finish name x) := by
  refine Moves.bind ?_ fun lost s => hx ⟨s.server, lost⟩
  intro s
  rw [Sessions.find, outcome_get_bind]
  split <;> exact refl s

end Received

end Regroup.Database
