import Mathlib
import Regroup.Proofs.Pass

/-! The calls of a pass with their answers, over any service. To write them down changes nothing,
and they stand in a frame: one call begins the unit of work, one ends it, and if the work between
them fails it is rolled back instead. -/

namespace Regroup

open Attempt

variable {σ α β : Type}

/-- A request with what it was answered. -/
structure Call where
  request : Request
  answer : Except Failure request.Reply

def Call.succeeded (c : Call) : Bool := c.answer.isOk

structure Transcript (σ : Type) where
  state : σ
  /-- What was called so far, in order. -/
  calls : List Call := []

/-- The same service, with every call written down. -/
def Service.transcribed (s : Service σ) : Service (Transcript σ) where
  backend := s.backend
  perform q t :=
    let (answer, state) := s.perform q t.state
    (answer, ⟨state, t.calls ++ [⟨q, answer⟩]⟩)

/-- The calls of a pass. -/
def transcript (s : Service σ) (o : Options) (stamp : Stamp) (x : σ) : List Call :=
  ((reconcile s.transcribed o stamp).outcome ⟨x, []⟩).2.calls

theorem outcome_transcribed (s : Service σ) (q : Request) (t : Transcript σ) :
    (s.transcribed.perform q).outcome t =
      (((s.perform q).outcome t.state).1, ⟨((s.perform q).outcome t.state).2,
        t.calls ++ [⟨q, ((s.perform q).outcome t.state).1⟩]⟩) := rfl

theorem transcribed_grows {P : Call → Prop} {s : Service σ} {q : Request} (h : ∀ a, P ⟨q, a⟩) :
    Moves (Along Transcript.calls (Grows P)) (s.transcribed.perform q) :=
  fun t => Grows.single (h _) t.calls

theorem transcribed_alike (s : Service σ) (q : Request) :
    Alike (fun t x => t.state = x) (s.transcribed.perform q) (s.perform q) := by
  rintro t _ rfl
  exact ⟨rfl, rfl⟩

/-- A pass that is written down ends as it would without, and leaves the same state. -/
theorem outcome_reconcile_transcribed (s : Service σ) (o : Options) (stamp : Stamp) (x : σ) :
    (reconcile s.transcribed o stamp).outcome ⟨x, []⟩ =
      (((reconcile s o stamp).outcome x).1,
        ⟨((reconcile s o stamp).outcome x).2, transcript s o stamp x⟩) := by
  have hname : s.transcribed.backend = s.backend := rfl
  have halike : Alike (fun (t : Transcript σ) y => t.state = y) (reconcile s.transcribed o stamp)
      (reconcile s o stamp) :=
    reconcile_alike hname (fun q _ => transcribed_alike s q) stamp (transcribed_alike s _)
      (transcribed_alike s _) fun _ => transcribed_alike s _
  obtain ⟨hend, hstate⟩ := halike ⟨x, []⟩ x rfl
  rw [← hend, ← hstate]
  rfl

/-- What an attempt calls and how it ends fit together. -/
def Tells (P : List Call → Except Failure α → Prop) (x : Attempt (Transcript σ) α) : Prop :=
  ∀ t, ∃ calls, (x.outcome t).2.calls = t.calls ++ calls ∧ P calls (x.outcome t).1

/-- A unit of work has begun. -/
abbrev Options.begun (o : Options) : Call := ⟨.begin o.lockWait, .ok ()⟩

/-- The calls of a pass and how it ends, if its beginning is answered like this and the work after
that goes as `Work` says. -/
inductive Framed (o : Options) (Work : List Call → Except Failure Report → Prop) :
    Except Failure Unit → List Call → Except Failure Report → Prop
  | unbegun (e : Failure) :
    Framed o Work (.error e) [⟨.begin o.lockWait, .error e⟩] (.error (e.within (.phase .begin)))
  /-- The work fails; what comes of the roll-back does not count. -/
  | undone {inner : List Call} {f : Failure} (hwork : Work inner (.error f))
      (a : Except Failure Unit) :
    Framed o Work (.ok ()) (o.begun :: (inner ++ [⟨.rollback, a⟩])) (.error f)
  | rolledBack {inner : List Call} {r : Report} (hdry : o.dryRun = true)
      (hwork : Work inner (.ok r)) (finishedAt : Option Instant) :
    Framed o Work (.ok ()) (o.begun :: (inner ++ [⟨.rollback, .ok ()⟩]))
      (.ok { r with finishedAt })
  | stuck {inner : List Call} {r : Report} (hdry : o.dryRun = true) (hwork : Work inner (.ok r))
      (e : Failure) :
    Framed o Work (.ok ()) (o.begun :: (inner ++ [⟨.rollback, .error e⟩]))
      (.error (e.within (.phase .dryRunExit)))
  | committed {inner : List Call} {r : Report} (hfull : o.dryRun = false)
      (hwork : Work inner (.ok r)) (finishedAt : Option Instant) :
    Framed o Work (.ok ()) (o.begun :: (inner ++ [⟨.commit, .ok ()⟩]))
      (.ok { r with committed := true, finishedAt })
  | uncommitted {inner : List Call} {r : Report} (hfull : o.dryRun = false)
      (hwork : Work inner (.ok r)) (e : Failure) :
    Framed o Work (.ok ()) (o.begun :: (inner ++ [⟨.commit, .error e⟩]))
      (.error (e.within (.phase .commit)))

theorem Tells.of_outcome {P : List Call → Except Failure α → Prop} {x : Attempt (Transcript σ) α}
    (h : Tells P x) {t t' : Transcript σ} {r : Except Failure α} (hx : x.outcome t = (r, t')) :
    ∃ calls, t'.calls = t.calls ++ calls ∧ P calls r := by
  have ht := h t
  rw [hx] at ht
  exact ht

theorem calls_of_perform {s : Service σ} {q : Request} {t t' : Transcript σ}
    {r : Except Failure q.Reply} (h : (s.transcribed.perform q).outcome t = (r, t')) :
    t'.calls = t.calls ++ [⟨q, r⟩] := by
  rw [outcome_transcribed] at h
  obtain ⟨rfl, rfl⟩ := Prod.mk.inj h
  rfl

theorem finish_framed {s : Service σ} {o : Options} {r : Report}
    {Work : List Call → Except Failure Report → Prop} {inner : List Call}
    (hwork : Work inner (.ok r))
    {t t' : Transcript σ} (ht : t.calls = o.begun :: inner) (stamp : Stamp)
    {d : Except Failure Report}
    (h : (finish s.transcribed o r >>= fun r =>
      pure { r with finishedAt := some stamp.finishedAt }).outcome t = (d, t')) :
    Framed o Work (.ok ()) t'.calls d := by
  unfold finish at h
  by_cases hdry : o.dryRun = true
  · simp only [hdry, if_true] at h
    rcases hend : (s.transcribed.perform .rollback).outcome t with ⟨e | ⟨⟩, u⟩
    · rw [outcome_bind, outcome_bind, outcome_within, hend] at h
      obtain ⟨rfl, rfl⟩ := Prod.mk.inj h
      rw [calls_of_perform hend, ht]
      exact .stuck hdry hwork e
    · rw [outcome_bind, outcome_bind, outcome_within, hend] at h
      obtain ⟨rfl, rfl⟩ := Prod.mk.inj h
      rw [calls_of_perform hend, ht]
      exact .rolledBack hdry hwork _
  · have hfull : o.dryRun = false := by simpa using hdry
    simp only [hfull, Bool.false_eq_true, if_false] at h
    rcases hend : (s.transcribed.perform .commit).outcome t with ⟨e | ⟨⟩, u⟩
    · rw [outcome_bind, outcome_bind, outcome_within, hend] at h
      obtain ⟨rfl, rfl⟩ := Prod.mk.inj h
      rw [calls_of_perform hend, ht]
      exact .uncommitted hfull hwork e
    · rw [outcome_bind, outcome_bind, outcome_within, hend] at h
      obtain ⟨rfl, rfl⟩ := Prod.mk.inj h
      rw [calls_of_perform hend, ht]
      exact .committed hfull hwork _

/-- Where the work goes as `Work` says, the pass frames it. -/
theorem reconcile_framed {s : Service σ} {o : Options} {stamp : Stamp}
    {Work : List Call → Except Failure Report → Prop}
    (hwork : Tells Work (drive s.transcribed o (Report.start stamp o))) (x : σ) :
    Framed o Work ((s.perform (.begin o.lockWait)).outcome x).1 (transcript s o stamp x)
      ((reconcile s o stamp).outcome x).1 := by
  have hrun := outcome_reconcile_transcribed s o stamp x
  generalize transcript s o stamp x = calls at hrun ⊢
  generalize (reconcile s o stamp).outcome x = out at hrun ⊢
  unfold reconcile at hrun
  rw [outcome_bind, outcome_within] at hrun
  have hasked : ((s.perform (.begin o.lockWait)).outcome x).1 =
    ((s.transcribed.perform (.begin o.lockWait)).outcome ⟨x, []⟩).1 := rfl
  rw [hasked]
  rcases hbegin : (s.transcribed.perform (.begin o.lockWait)).outcome ⟨x, []⟩ with ⟨e | ⟨⟩, t⟩
  · rw [hbegin] at hrun
    obtain ⟨hend, rfl⟩ := Prod.mk.inj hrun
    obtain rfl : calls = _ := calls_of_perform hbegin
    rw [← hend]
    exact .unbegun e
  · have hbegun := calls_of_perform hbegin
    rw [hbegin] at hrun
    simp only [Except.mapError] at hrun
    rw [outcome_bind, outcome_orElseUndo] at hrun
    rcases hdrive : (drive s.transcribed o (Report.start stamp o)).outcome t with ⟨f | r, u⟩
    · rw [hdrive] at hrun
      obtain ⟨hend, hu⟩ := Prod.mk.inj hrun
      obtain ⟨inner, hinner, hw⟩ := hwork.of_outcome hdrive
      have hcalls := congrArg Transcript.calls hu
      rw [outcome_transcribed, hinner, hbegun] at hcalls
      obtain rfl : _ = calls := hcalls
      rw [← hend]
      exact .undone hw _
    · rw [hdrive] at hrun
      obtain ⟨inner, hinner, hw⟩ := hwork.of_outcome hdrive
      rw [hbegun] at hinner
      exact finish_framed hw hinner stamp hrun

end Regroup
