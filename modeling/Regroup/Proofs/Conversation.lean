import Regroup.Proofs.Transcript

/-! What a pass says to its service, as a conversation: what it asks next, given all the answers so
far, and where it refuses to go on by itself. A pass follows the conversation whatever it is
answered, and the first answer that is a failure breaks it off. -/

namespace Regroup

open Attempt

variable {σ α β : Type}

inductive Talk where
  | done
  /-- An answer cannot be used. -/
  | refuse (c : Cause)
  | ask (q : Request) (next : q.Reply → Talk)

/-- The writes of a pass. Every row has a version of its own. -/
inductive RowWrite where
  | inserts (name : String) (rows : List GroupInsert)
  | refreshes (rows : List GroupRefresh)
  | moves (rows : List EdgeWrite)

namespace RowWrite

def target : RowWrite → WriteTarget
  | inserts .. => .groupInsert
  | refreshes _ => .groupRefresh
  | moves _ => .edgeUpdate

def size : RowWrite → Nat
  | inserts _ rows => rows.length
  | refreshes rows => rows.length
  | moves rows => rows.length

def versions : RowWrite → List Int
  | inserts _ rows => rows.map GroupInsert.version
  | refreshes rows => rows.map GroupRefresh.version
  | moves rows => rows.map EdgeWrite.version

theorem length_versions (w : RowWrite) : w.versions.length = w.size := by
  cases w <;> exact List.length_map _

end RowWrite

namespace Talk

def accepting (y : Except BlockError α) (k : α → Talk) : Talk :=
  match y with
  | .ok a => k a
  | .error e => refuse (.block e)

def reserving (counter : String) (n : Nat) (k : Option VersionBlock → Talk) : Talk :=
  if n = 0 then k none
  else ask (.reserve counter n) fun last => accepting (VersionBlock.endingAt last n) (k ∘ some)

def checking (w : RowWrite) (k : Talk) (touched : Nat) : Talk :=
  match ApplyMismatch.check w.target w.size touched with
  | .ok () => k
  | .error m => refuse (.mismatch m)

def writing (w : RowWrite) (k : Talk) : Talk :=
  match w with
  | .inserts name rows => ask (.upsertDefaultGroups name rows) (checking w k)
  | .refreshes rows => ask (.refreshDefaultGroups rows) (checking w k)
  | .moves rows => ask (.applyEdgeUpdates rows) (checking w k)

/-- Draws a version for each of `n` rows and writes the rows, unless there are none. -/
def numbering (counter : String) (n : Nat) (rows : VersionBlock → Except BlockError RowWrite)
    (k : Talk) : Talk :=
  reserving counter n fun
    | none => k
    | some block => accepting (rows block) fun w => writing w k

def seeding (strategy : SeedStrategy) (k : List Uid → Talk) : Talk :=
  match strategy with
  | .edges => ask .edgeOwners fun owners => k (strategy.candidates owners [])
  | .registry => ask .registryOwners fun users => k (strategy.candidates [] users)
  | .union => ask .edgeOwners fun owners => ask .registryOwners fun users =>
      k (strategy.candidates owners users)

def provisioning (o : Options) (candidates : List Uid) (k : ProvisionPlan → Talk) : Talk :=
  ask .loadGroups fun groups =>
    let plan := ProvisionPlan.build candidates groups
    if o.dryRun then k plan
    else
      numbering o.counters.group plan.missingOwners.length
        (fun block => (plan.inserts block).map (.inserts o.defaultGroupName)) <|
      numbering o.counters.group plan.existingGroups.length
        (fun block => (plan.refreshes block).map .refreshes) <|
      k plan

def reading (o : Options) (plan : ProvisionPlan) (k : ChangeSet → Talk) : Talk :=
  ask .loadGroups fun groups => ask .loadMemberships fun memberships => ask .loadEdges fun edges =>
    k (ChangeSet.compute edges (snapshotOf o plan groups memberships) o.filter)

def moving (o : Options) (c : ChangeSet) : Talk :=
  if o.dryRun then done
  else numbering o.counters.edge c.changes.length (fun block => (c.writes block).map .moves) done

/-- All that is said between the beginning of a unit of work and its end. -/
def work (o : Options) : Talk :=
  match o.provisioning with
  | .skip => reading o {} (moving o)
  | .seed strategy => seeding strategy fun candidates => provisioning o candidates fun plan =>
      reading o plan (moving o)

inductive Reaches : Talk → List Call → Talk → Prop
  | here (t : Talk) : Reaches t [] t
  | step {q : Request} {next : q.Reply → Talk} (a : q.Reply) {calls : List Call} {t : Talk}
      (h : Reaches (next a) calls t) : Reaches (ask q next) (⟨q, .ok a⟩ :: calls) t

end Talk

def Failure.Wraps (f e : Failure) : Prop := f.cause = e.cause ∧ e.contexts <:+ f.contexts

theorem Failure.Wraps.within {f e : Failure} (h : f.Wraps e) (c : Context) :
    (f.within c).Wraps e :=
  ⟨h.1, h.2.trans (List.suffix_cons c _)⟩

namespace Talk

/-- The talk breaks off, at an answer that cannot be used or at one that is a failure. -/
inductive Breaks (t : Talk) : List Call → Failure → Prop
  | refused {calls : List Call} {c : Cause} {f : Failure} (h : Reaches t calls (refuse c))
      (hf : f.cause = c) : Breaks t calls f
  | failed {calls : List Call} {q : Request} {next : q.Reply → Talk} {e f : Failure}
      (h : Reaches t calls (ask q next)) (hf : f.Wraps e) : Breaks t (calls ++ [⟨q, .error e⟩]) f

theorem Reaches.trans {t u v : Talk} {calls later : List Call} (h : Reaches t calls u)
    (h' : Reaches u later v) : Reaches t (calls ++ later) v := by
  induction h with
  | here => exact h'
  | step a _ ih => exact .step a (ih h')

theorem Reaches.breaks {t u : Talk} {calls later : List Call} {f : Failure} (h : Reaches t calls u)
    (h' : Breaks u later f) : Breaks t (calls ++ later) f := by
  cases h' with
  | refused h' hf => exact .refused (h.trans h') hf
  | failed h' hf =>
    rw [← List.append_assoc]
    exact .failed (h.trans h') hf

theorem Breaks.within {t : Talk} {calls : List Call} {f : Failure} (h : Breaks t calls f)
    (c : Context) : Breaks t calls (f.within c) := by
  cases h with
  | refused h hf => exact .refused h hf
  | failed h hf => exact .failed h (hf.within c)

def Goes (t : Talk) (k : α → Talk) (calls : List Call) : Except Failure α → Prop
  | .ok a => Reaches t calls (k a)
  | .error f => Breaks t calls f

end Talk

open Talk

/-- Whatever it is answered, the attempt goes the way of the talk. -/
abbrev Follows (t : Talk) (k : α → Talk) (x : Attempt (Transcript σ) α) : Prop := Tells (Goes t k) x

section Rules

variable {t : Talk} {k : α → Talk} {l : β → Talk} {x : Attempt (Transcript σ) α}

theorem Follows.pure (a : α) : Follows (k a) k (pure a : Attempt (Transcript σ) α) :=
  fun s => ⟨[], (List.append_nil s.calls).symm, .here _⟩

theorem Follows.fail (c : Cause) :
    Follows (.refuse c) k (Attempt.fail c : Attempt (Transcript σ) α) :=
  fun s => ⟨[], (List.append_nil s.calls).symm, .refused (.here _) rfl⟩

theorem Follows.perform (s : Service σ) (q : Request) (next : q.Reply → Talk) :
    Follows (.ask q next) next (s.transcribed.perform q) := by
  intro u
  rw [outcome_transcribed]
  refine ⟨_, rfl, ?_⟩
  generalize ((s.perform q).outcome u.state).1 = answer
  cases answer with
  | ok a => exact .step a (.here _)
  | error e => exact .failed (.here _) ⟨rfl, List.suffix_rfl⟩

theorem Follows.within (hx : Follows t k x) (c : Context) : Follows t k (x.within c) := by
  intro s
  obtain ⟨calls, hcalls, hgoes⟩ := hx s
  rw [outcome_within]
  refine ⟨calls, hcalls, ?_⟩
  generalize (x.outcome s).1 = r at hgoes ⊢
  cases r with
  | ok a => exact hgoes
  | error f => exact Breaks.within hgoes c

theorem Follows.bind {f : α → Attempt (Transcript σ) β} (hx : Follows t k x)
    (hf : ∀ a, Follows (k a) l (f a)) : Follows t l (x >>= f) := by
  intro s
  obtain ⟨calls, hcalls, hgoes⟩ := hx s
  rw [outcome_bind]
  generalize x.outcome s = out at hcalls hgoes
  rcases out with ⟨e | a, u⟩
  · exact ⟨calls, hcalls, hgoes⟩
  · obtain ⟨later, hlater, hends⟩ := hf a u
    have hall : ((f a).outcome u).2.calls = s.calls ++ (calls ++ later) := by
      rw [hlater, hcalls, List.append_assoc]
    refine ⟨calls ++ later, hall, ?_⟩
    show Goes t l (calls ++ later) ((f a).outcome u).1
    generalize ((f a).outcome u).1 = r at hends ⊢
    cases r with
    | ok b => exact Reaches.trans hgoes hends
    | error e => exact Reaches.breaks hgoes hends

theorem Follows.ofBlock (y : Except BlockError α) (k : α → Talk) :
    Follows (.accepting y k) k (Attempt.ofBlock y : Attempt (Transcript σ) α) := by
  cases y with
  | ok a => exact Follows.pure a
  | error e => exact Follows.fail _

theorem Follows.ofCheck (w : RowWrite) (t : Talk) (touched : Nat) :
    Follows (.checking w t touched) (fun _ => t)
      (Attempt.ofCheck (ApplyMismatch.check w.target w.size touched) :
        Attempt (Transcript σ) Unit) := by
  unfold Talk.checking
  cases ApplyMismatch.check w.target w.size touched with
  | ok a => exact Follows.pure (k := fun _ => t) a
  | error m => exact Follows.fail _

end Rules

theorem Talk.accepting_map (y : Except BlockError α) (f : α → β) (k : β → Talk) :
    accepting (y.map f) k = accepting y fun a => k (f a) := by
  cases y <;> rfl

section Pass

variable {s : Service σ} {o : Options} {t : Talk}

theorem reserveBlock_follows (counter : String) (n : Nat) (k : Option VersionBlock → Talk) :
    Follows (.reserving counter n k) k (s.transcribed.reserveBlock counter n) := by
  unfold Service.reserveBlock reserveBlock Talk.reserving
  by_cases hn : n = 0
  · simp only [hn, if_true]
    exact Follows.pure _
  · simp only [hn, if_false]
    refine ((Follows.perform s _ _).within _).bind fun last => ?_
    exact (Follows.ofBlock _ _).bind fun block => Follows.pure _

theorem seedOwners_follows (strategy : SeedStrategy) (k : List Uid → Talk) :
    Follows (.seeding strategy k) k (seedOwners s.transcribed strategy) := by
  cases strategy with
  | edges =>
    refine ((Follows.perform s .edgeOwners _).within _).bind fun owners => ?_
    exact Follows.pure _
  | registry =>
    refine ((Follows.perform s .registryOwners _).within _).bind fun users => ?_
    exact Follows.pure _
  | union =>
    refine ((Follows.perform s .edgeOwners _).within _).bind fun owners => ?_
    refine ((Follows.perform s .registryOwners _).within _).bind fun users => ?_
    exact Follows.pure _

/-- The three writes of a pass follow one talk, whatever is said around them when they fail. -/
theorem numberedWrite_follows {ρ : Type} {counter : String} {n : Nat} {ctx : Context} {r : Report}
    {made : VersionBlock → Except BlockError (List ρ)} {rowWrite : List ρ → RowWrite}
    {number : VersionBlock → Attempt (Transcript σ) (List ρ)}
    {write : List ρ → Attempt (Transcript σ) Nat}
    {check : List ρ → Nat → Attempt (Transcript σ) Unit} (record : VersionBlock → Nat → Report)
    (hnumber : ∀ b k, Follows (.accepting (made b) k) k (number b))
    (hwrite : ∀ rows,
      Follows (.writing (rowWrite rows) t) (.checking (rowWrite rows) t) (write rows))
    (hcheck : ∀ rows k, Follows (.checking (rowWrite rows) t k) (fun _ => t) (check rows k)) :
    Follows (.numbering counter n (fun block => (made block).map rowWrite) t) (fun _ => t)
      ((s.transcribed.reserveBlock counter n).within ctx >>= fun b => match b with
        | none => pure r
        | some block => number block >>= fun rows => write rows >>= fun k =>
            check rows k >>= fun _ => pure (record block k)) := by
  refine ((reserveBlock_follows counter n _).within ctx).bind fun b => ?_
  cases b with
  | none => exact Follows.pure (k := fun _ => t) r
  | some block =>
    simp only [Talk.accepting_map]
    refine (hnumber block _).bind fun rows => (hwrite rows).bind fun k => ?_
    exact (hcheck rows k).bind fun _ => Follows.pure (k := fun _ => t) (record block k)

theorem insertGroups_follows (plan : ProvisionPlan) (r : Report) :
    Follows (.numbering o.counters.group plan.missingOwners.length
      (fun block => (plan.inserts block).map (.inserts o.defaultGroupName)) t) (fun _ => t)
      (insertGroups s.transcribed o plan r) :=
  numberedWrite_follows
    (fun block n => { r with groupsInserted := n, groupInsertBlock := some block })
    (fun block => Follows.ofBlock (plan.inserts block))
    (fun rows => (Follows.perform s (.upsertDefaultGroups _ rows) _).within _)
    (fun rows => Follows.ofCheck (.inserts _ rows) t)

theorem refreshGroups_follows (plan : ProvisionPlan) (r : Report) :
    Follows (.numbering o.counters.group plan.existingGroups.length
      (fun block => (plan.refreshes block).map .refreshes) t) (fun _ => t)
      (refreshGroups s.transcribed o plan r) :=
  numberedWrite_follows
    (fun block n => { r with groupsRefreshed := n, groupRefreshBlock := some block })
    (fun block => Follows.ofBlock (plan.refreshes block))
    (fun rows => (Follows.perform s (.refreshDefaultGroups rows) _).within _)
    (fun rows => Follows.ofCheck (.refreshes rows) t)

theorem applyChanges_follows (c : ChangeSet) (r : Report) :
    Follows (.numbering o.counters.edge c.changes.length
      (fun block => (c.writes block).map .moves) t) (fun _ => t)
      (applyChanges s.transcribed o c r) :=
  numberedWrite_follows (fun block n => { r with edgeBlock := some block, updated := n })
    (fun block k => (Follows.ofBlock (c.writes block) k).within _)
    (fun rows => (Follows.perform s (.applyEdgeUpdates rows) _).within _)
    (fun rows n => (Follows.ofCheck (.moves rows) t n).within _)

theorem provision_follows (strategy : SeedStrategy) (k : ProvisionPlan → Talk) (r : Report) :
    Follows (.seeding strategy fun candidates => .provisioning o candidates k) (fun x => k x.1)
      (provision s.transcribed o strategy r) := by
  refine (seedOwners_follows strategy _).bind fun candidates => ?_
  refine ((Follows.perform s .loadGroups _).within _).bind fun groups => ?_
  by_cases hdry : o.dryRun = true
  · simp only [hdry, if_true]
    exact Follows.pure (k := fun x : ProvisionPlan × Report => k x.1) (_, _)
  · simp only [hdry]
    refine (insertGroups_follows _ _).bind fun r => ?_
    refine (refreshGroups_follows _ _).bind fun r => ?_
    exact Follows.pure (k := fun x : ProvisionPlan × Report => k x.1) (_, _)

theorem findChanges_follows (plan : ProvisionPlan) (k : ChangeSet → Talk) :
    Follows (.reading o plan k) k (findChanges s.transcribed o plan) := by
  refine ((Follows.perform s .loadGroups _).within _).bind fun groups => ?_
  refine ((Follows.perform s .loadMemberships _).within _).bind fun memberships => ?_
  refine ((Follows.perform s .loadEdges _).within _).bind fun edges => ?_
  exact Follows.pure (k := k) _

theorem planned_follows (r : Report) :
    Follows (.work o) (fun x => .reading o x.1 (.moving o)) (planned s.transcribed o r) := by
  unfold planned Talk.work
  cases o.provisioning with
  | skip =>
    exact Follows.pure (k := fun x : ProvisionPlan × Report => .reading o x.1 (.moving o)) (_, _)
  | seed strategy => exact (provision_follows strategy _ r).within _

/-- A pass keeps to its conversation, over every service. -/
theorem drive_follows (r : Report) :
    Follows (.work o) (fun _ => .done) (drive s.transcribed o r) := by
  rw [drive_eq]
  refine (planned_follows r).bind fun x => (findChanges_follows x.1 _).bind fun c => ?_
  unfold Talk.moving
  by_cases hdry : o.dryRun = true
  · simp only [hdry, if_true]
    exact Follows.pure (k := fun _ => .done) _
  · simp only [hdry]
    exact applyChanges_follows c _

end Pass

end Regroup
