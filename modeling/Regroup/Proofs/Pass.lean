import Regroup.Proofs.Attempt
import Regroup.Run.Pass

/-! A pass over any service. It knows nothing of a service but its answers: over services that
answer alike it ends alike, and what every request that it may make keeps, the pass keeps, whether
it succeeds or fails. -/

namespace Regroup

open Attempt

variable {σ : Type} {s : Service σ} {o : Options}

/-- The plan of a pass and what its report says once the plan is carried out. -/
def planned (s : Service σ) (o : Options) (r : Report) : Attempt σ (ProvisionPlan × Report) :=
  match o.provisioning with
  | .skip => pure ({}, r)
  | .seed strategy => (provision s o strategy r).within (.phase .provisionGroups)

/-- The counts of a change set in a report. -/
def Report.counting (r : Report) (c : ChangeSet) : Report :=
  { r with
    edgesScanned := c.scanned
    edgesFilteredOut := c.filteredOut
    toUpdate := c.toUpdate
    unresolved := c.unresolved.length
    awaitingDefault := c.awaitingDefault.length }

theorem drive_eq (s : Service σ) (o : Options) (r : Report) :
    drive s o r = planned s o r >>= fun x => findChanges s o x.1 >>= fun c =>
      if o.dryRun then pure (x.2.counting c) else applyChanges s o c (x.2.counting c) := by
  unfold drive planned
  cases o.provisioning <;> rfl

/-- The plan for the candidates, by the groups as they are. -/
def readPlan (s : Service σ) (candidates : List Uid) : Attempt σ ProvisionPlan :=
  (s.perform .loadGroups).within (.step .loadGroups) >>= fun groups =>
    pure (.build candidates groups)

/-- The counts of a plan in a report. -/
def Report.planning (r : Report) (candidates : List Uid) (plan : ProvisionPlan) : Report :=
  { r with
    candidateOwners := candidates.length
    groupsMissing := plan.missingOwners.length
    groupsExisting := plan.existingGroups.length }

theorem provision_eq (s : Service σ) (o : Options) (strategy : SeedStrategy) (r : Report) :
    provision s o strategy r = seedOwners s strategy >>= fun candidates =>
      readPlan s candidates >>= fun plan =>
        if o.dryRun then pure (plan, r.planning candidates plan)
        else insertGroups s o plan (r.planning candidates plan) >>= fun r =>
          refreshGroups s o plan r >>= fun r => pure (plan, r) := by
  unfold provision readPlan
  simp only [bind_assoc, pure_bind]
  rfl

/-- The requests of a unit of work, without those that begin and end it. -/
def Request.isInner : Request → Bool
  | .begin _ | .commit | .rollback => false
  | _ => true

/-- The requests that answer what the tables hold. -/
def Request.isRead : Request → Bool
  | .edgeOwners | .registryOwners | .loadGroups | .loadMemberships | .loadEdges => true
  | _ => false

def Request.movesEdges : Request → Bool
  | .applyEdgeUpdates _ => true
  | _ => false

/-- The requests that a pass may make inside its unit of work. -/
def Options.mayAsk (o : Options) (q : Request) : Bool := q.isInner && (q.isRead || !o.dryRun)

/-- The requests that it may make before it comes to move edges. -/
def Options.mayPrepare (o : Options) (q : Request) : Bool := o.mayAsk q && !q.movesEdges

theorem Options.mayAsk_of_mayPrepare {q : Request} (h : o.mayPrepare q = true) :
    o.mayAsk q = true := by
  unfold mayPrepare at h
  exact (Bool.and_eq_true_iff.mp h).1

section Alike

variable {τ : Type} {s' : Service τ} {R : σ → τ → Prop} (hname : s.backend = s'.backend)

theorem reserveBlock_alike {R : σ → τ → Prop} {counter : String} {n : Nat}
    (hname : s.backend = s'.backend)
    (h : Alike R (s.perform (.reserve counter n)) (s'.perform (.reserve counter n))) :
    Alike R (s.reserveBlock counter n) (s'.reserveBlock counter n) := by
  unfold Service.reserveBlock reserveBlock
  rw [hname]
  split
  · exact Alike.pure _
  · refine (h.within _).bind fun last => ?_
    exact (Alike.ofBlock _).bind fun block => Alike.pure _

/-- The three writes of a pass have one shape. -/
theorem numberedWrite_alike {ρ : Type} {R : σ → τ → Prop} {counter : String} {n : Nat}
    {ctx : Context} {r : Report} {number : VersionBlock → Attempt σ (List ρ)}
    {number' : VersionBlock → Attempt τ (List ρ)} {write : List ρ → Attempt σ Nat}
    {write' : List ρ → Attempt τ Nat} {check : List ρ → Nat → Attempt σ Unit}
    {check' : List ρ → Nat → Attempt τ Unit} (record : VersionBlock → Nat → Report)
    (hname : s.backend = s'.backend)
    (hreserve : Alike R (s.perform (.reserve counter n)) (s'.perform (.reserve counter n)))
    (hnumber : ∀ block, Alike R (number block) (number' block))
    (hwrite : ∀ rows, Alike R (write rows) (write' rows))
    (hcheck : ∀ rows k, Alike R (check rows k) (check' rows k)) :
    Alike R
      ((s.reserveBlock counter n).within ctx >>= fun b => match b with
        | none => pure r
        | some block => number block >>= fun rows => write rows >>= fun k =>
            check rows k >>= fun _ => pure (record block k))
      ((s'.reserveBlock counter n).within ctx >>= fun b => match b with
        | none => pure r
        | some block => number' block >>= fun rows => write' rows >>= fun k =>
            check' rows k >>= fun _ => pure (record block k)) := by
  refine ((reserveBlock_alike hname hreserve).within ctx).bind fun b => ?_
  cases b with
  | none => exact Alike.pure r
  | some block =>
    refine (hnumber block).bind fun rows => (hwrite rows).bind fun k => ?_
    exact (hcheck rows k).bind fun _ => Alike.pure (record block k)

theorem seedOwners_alike (hedges : Alike R (s.perform .edgeOwners) (s'.perform .edgeOwners))
    (hregistry : Alike R (s.perform .registryOwners) (s'.perform .registryOwners))
    (strategy : SeedStrategy) : Alike R (seedOwners s strategy) (seedOwners s' strategy) := by
  have hfirst := hedges.within (.step .seedFromEdges)
  have hsecond := hregistry.within (.step .seedFromRegistry)
  cases strategy with
  | edges => exact hfirst.bind fun _ => (Alike.pure _).bind fun _ => Alike.pure _
  | registry => exact (Alike.pure _).bind fun _ => hsecond.bind fun _ => Alike.pure _
  | union => exact hfirst.bind fun _ => hsecond.bind fun _ => Alike.pure _

theorem findChanges_alike
    (h : ∀ q : Request, q.isRead = true → Alike R (s.perform q) (s'.perform q))
    (plan : ProvisionPlan) : Alike R (findChanges s o plan) (findChanges s' o plan) := by
  refine ((h .loadGroups rfl).within _).bind fun groups => ?_
  refine ((h .loadMemberships rfl).within _).bind fun memberships => ?_
  exact ((h .loadEdges rfl).within _).bind fun edges => Alike.pure _

/-- Services that a pass cannot tell apart before it moves edges: it makes the same of what they
read, and what it writes ends alike. -/
structure Service.Agree (R : σ → τ → Prop) (s : Service σ) (s' : Service τ) (o : Options) : Prop where
  backend : s.backend = s'.backend
  seed : ∀ strategy, Alike R (seedOwners s strategy) (seedOwners s' strategy)
  plan : ∀ candidates, Alike R (readPlan s candidates) (readPlan s' candidates)
  find : ∀ plan, Alike R (findChanges s o plan) (findChanges s' o plan)
  write : ∀ q : Request, o.mayPrepare q = true → q.isRead = false →
    Alike R (s.perform q) (s'.perform q)

/-- Services that read the same. -/
theorem Service.Agree.of_perform (hname : s.backend = s'.backend)
    (h : ∀ q : Request, o.mayPrepare q = true → Alike R (s.perform q) (s'.perform q)) :
    Service.Agree R s s' o := by
  have hread : ∀ q : Request, q.isRead = true → Alike R (s.perform q) (s'.perform q) := by
    intro q hq
    refine h q ?_
    cases q <;> simp [Request.isRead] at hq <;> rfl
  refine ⟨hname, seedOwners_alike (hread _ rfl) (hread _ rfl), fun candidates => ?_,
    findChanges_alike hread, fun q hq _ => h q hq⟩
  exact ((hread .loadGroups rfl).within _).bind fun groups => Alike.pure _

namespace Service.Agree

variable (h : Service.Agree R s s' o)

include h

theorem write_full (hfull : o.dryRun = false) {q : Request} (hinner : q.isInner = true)
    (hmoves : q.movesEdges = false) (hread : q.isRead = false) :
    Alike R (s.perform q) (s'.perform q) :=
  h.write q (by simp [Options.mayPrepare, Options.mayAsk, hinner, hmoves, hfull]) hread

theorem insertGroups_alike (hfull : o.dryRun = false) (plan : ProvisionPlan) (r : Report) :
    Alike R (insertGroups s o plan r) (insertGroups s' o plan r) :=
  numberedWrite_alike
    (fun block n => { r with groupsInserted := n, groupInsertBlock := some block })
    h.backend (h.write_full hfull rfl rfl rfl) (fun _ => Alike.ofBlock _)
    (fun _ => (h.write_full hfull rfl rfl rfl).within _)
    fun _ _ => Alike.ofCheck _

theorem refreshGroups_alike (hfull : o.dryRun = false) (plan : ProvisionPlan) (r : Report) :
    Alike R (refreshGroups s o plan r) (refreshGroups s' o plan r) :=
  numberedWrite_alike
    (fun block n => { r with groupsRefreshed := n, groupRefreshBlock := some block })
    h.backend (h.write_full hfull rfl rfl rfl) (fun _ => Alike.ofBlock _)
    (fun _ => (h.write_full hfull rfl rfl rfl).within _)
    fun _ _ => Alike.ofCheck _

theorem planned_alike (r : Report) : Alike R (planned s o r) (planned s' o r) := by
  unfold planned
  cases o.provisioning with
  | skip => exact Alike.pure _
  | seed strategy =>
    simp only [provision_eq]
    refine Alike.within ((h.seed strategy).bind fun candidates =>
      (h.plan candidates).bind fun plan => ?_) _
    rcases Bool.eq_false_or_eq_true o.dryRun with hdry | hfull
    · simp only [hdry, if_true]
      exact Alike.pure _
    · simp only [hfull, Bool.false_eq_true, if_false]
      refine (h.insertGroups_alike hfull _ _).bind fun r => ?_
      exact (h.refreshGroups_alike hfull _ _).bind fun r => Alike.pure _

variable (hmove : o.dryRun = false → ∀ rows,
  Alike R (s.perform (.applyEdgeUpdates rows)) (s'.perform (.applyEdgeUpdates rows)))

include hmove

theorem applyChanges_alike (hfull : o.dryRun = false) (changes : ChangeSet) (r : Report) :
    Alike R (applyChanges s o changes r) (applyChanges s' o changes r) :=
  numberedWrite_alike (fun block n => { r with edgeBlock := some block, updated := n })
    h.backend (h.write_full hfull rfl rfl rfl) (fun _ => (Alike.ofBlock _).within _)
    (fun rows => (hmove hfull rows).within _) fun _ _ => (Alike.ofCheck _).within _

theorem drive_alike (r : Report) : Alike R (drive s o r) (drive s' o r) := by
  rw [drive_eq, drive_eq]
  refine (h.planned_alike r).bind fun x => (h.find x.1).bind fun c => ?_
  rcases Bool.eq_false_or_eq_true o.dryRun with hdry | hfull
  · simp only [hdry, if_true]
    exact Alike.pure _
  · simp only [hfull, Bool.false_eq_true, if_false]
    exact h.applyChanges_alike hmove hfull c _

theorem reconcile_alike (stamp : Stamp)
    (hbegin : Alike R (s.perform (.begin o.lockWait)) (s'.perform (.begin o.lockWait)))
    (hrollback : Alike R (s.perform .rollback) (s'.perform .rollback))
    (hcommit : o.dryRun = false → Alike R (s.perform .commit) (s'.perform .commit)) :
    Alike R (reconcile s o stamp) (reconcile s' o stamp) := by
  refine (hbegin.within _).bind fun _ => ?_
  refine ((h.drive_alike hmove _).orElseUndo hrollback).bind fun r => Alike.bind ?_ fun r =>
    Alike.pure _
  unfold finish
  rcases Bool.eq_false_or_eq_true o.dryRun with hdry | hfull
  · simp only [hdry, if_true]
    exact (hrollback.within _).bind fun _ => Alike.pure _
  · simp only [hfull, Bool.false_eq_true, if_false]
    exact ((hcommit hfull).within _).bind fun _ => Alike.pure _

end Service.Agree

variable (h : ∀ q : Request, o.mayAsk q = true → Alike R (s.perform q) (s'.perform q))

include h hname

theorem drive_alike (r : Report) : Alike R (drive s o r) (drive s' o r) := by
  have hagree : Service.Agree R s s' o :=
    .of_perform hname fun q hq => h q (Options.mayAsk_of_mayPrepare hq)
  exact hagree.drive_alike (fun hfull rows => h _ (by simp [Options.mayAsk, Request.isInner, hfull])) r

/-- Services that begin and end a unit of work alike, and answer alike what a pass may ask inside
it, give passes that end alike. -/
theorem reconcile_alike (stamp : Stamp)
    (hbegin : Alike R (s.perform (.begin o.lockWait)) (s'.perform (.begin o.lockWait)))
    (hrollback : Alike R (s.perform .rollback) (s'.perform .rollback))
    (hcommit : o.dryRun = false → Alike R (s.perform .commit) (s'.perform .commit)) :
    Alike R (reconcile s o stamp) (reconcile s' o stamp) := by
  have hagree : Service.Agree R s s' o :=
    .of_perform hname fun q hq => h q (Options.mayAsk_of_mayPrepare hq)
  exact hagree.reconcile_alike (fun hfull rows => h _ (by simp [Options.mayAsk, Request.isInner, hfull]))
    stamp hbegin hrollback hcommit

end Alike

section Stamp

/-- The report of another pass that finds the same. -/
def Report.stamped (r : Report) (stamp : Stamp) : Report :=
  { r with runId := stamp.runId, startedAt := stamp.startedAt }

variable {stamp : Stamp}

theorem numberedWrite_stamped {ρ : Type} {reserved : Attempt σ (Option VersionBlock)} {r : Report}
    {number : VersionBlock → Attempt σ (List ρ)} {write : List ρ → Attempt σ Nat}
    {check : List ρ → Nat → Attempt σ Unit} (record record' : VersionBlock → Nat → Report)
    (hrecord : ∀ block k, record' block k = (record block k).stamped stamp) :
    (reserved >>= fun b => match b with
      | none => pure (r.stamped stamp)
      | some block => number block >>= fun rows => write rows >>= fun k =>
          check rows k >>= fun _ => pure (record' block k)) =
    (·.stamped stamp) <$> (reserved >>= fun b => match b with
      | none => pure r
      | some block => number block >>= fun rows => write rows >>= fun k =>
          check rows k >>= fun _ => pure (record block k)) := by
  rw [map_bind]
  congr 1
  funext b
  cases b with
  | none => simp only [map_pure]
  | some block => simp only [map_bind, map_pure, hrecord]

theorem insertGroups_stamped (plan : ProvisionPlan) (r : Report) :
    insertGroups s o plan (r.stamped stamp) = (·.stamped stamp) <$> insertGroups s o plan r :=
  numberedWrite_stamped
    (fun block n => { r with groupsInserted := n, groupInsertBlock := some block })
    (fun block n => { r.stamped stamp with groupsInserted := n, groupInsertBlock := some block })
    fun _ _ => rfl

theorem refreshGroups_stamped (plan : ProvisionPlan) (r : Report) :
    refreshGroups s o plan (r.stamped stamp) = (·.stamped stamp) <$> refreshGroups s o plan r :=
  numberedWrite_stamped
    (fun block n => { r with groupsRefreshed := n, groupRefreshBlock := some block })
    (fun block n => { r.stamped stamp with groupsRefreshed := n, groupRefreshBlock := some block })
    fun _ _ => rfl

theorem applyChanges_stamped (c : ChangeSet) (r : Report) :
    applyChanges s o c (r.stamped stamp) = (·.stamped stamp) <$> applyChanges s o c r :=
  numberedWrite_stamped
    (fun block n => { r with edgeBlock := some block, updated := n })
    (fun block n => { r.stamped stamp with edgeBlock := some block, updated := n })
    fun _ _ => rfl

theorem planned_stamped (r : Report) : planned s o (r.stamped stamp) =
    (fun x => (x.1, x.2.stamped stamp)) <$> planned s o r := by
  unfold planned
  cases o.provisioning with
  | skip => simp only [map_pure]
  | seed strategy =>
    simp only [provision_eq, ← map_within, map_bind]
    congr 2
    funext candidates
    congr 1
    funext plan
    have hplanning : (r.stamped stamp).planning candidates plan =
        (r.planning candidates plan).stamped stamp := rfl
    rw [hplanning]
    rcases Bool.eq_false_or_eq_true o.dryRun with hdry | hfull
    · simp only [hdry, if_true, map_pure]
    · simp only [hfull, Bool.false_eq_true, if_false, insertGroups_stamped, refreshGroups_stamped,
        bind_map_left, map_bind, map_pure]

theorem drive_stamped (r : Report) :
    drive s o (r.stamped stamp) = (·.stamped stamp) <$> drive s o r := by
  rw [drive_eq, drive_eq, planned_stamped, bind_map_left, map_bind]
  congr 1
  funext x
  rw [map_bind]
  congr 1
  funext c
  have hcounting : (x.2.stamped stamp).counting c = (x.2.counting c).stamped stamp := rfl
  simp only [hcounting]
  rcases Bool.eq_false_or_eq_true o.dryRun with hdry | hfull
  · simp only [hdry, if_true, map_pure]
  · simp only [hfull, Bool.false_eq_true, if_false]
    exact applyChanges_stamped c _

theorem finish_stamped (r : Report) :
    finish s o (r.stamped stamp) = (·.stamped stamp) <$> finish s o r := by
  unfold finish
  rcases Bool.eq_false_or_eq_true o.dryRun with hdry | hfull
  · simp only [hdry, if_true, map_bind, map_pure]
  · simp only [hfull, Bool.false_eq_true, if_false, map_bind, map_pure]
    rfl

/-- The stamp of a pass shows in its report and nowhere else. -/
theorem reconcile_stamped (stamp' : Stamp) : reconcile s o stamp =
    (fun r => { r.stamped stamp with finishedAt := some stamp.finishedAt }) <$>
      reconcile s o stamp' := by
  have hstart : Report.start stamp o = (Report.start stamp' o).stamped stamp := rfl
  unfold reconcile
  rw [map_bind, hstart]
  congr 1
  funext x
  rw [drive_stamped, map_orElseUndo, bind_map_left, map_bind]
  congr 1
  funext r
  rw [finish_stamped, bind_map_left, map_bind]
  congr 1

end Stamp

section Moves

variable {R : σ → σ → Prop} [IsPreorder σ R]
  (h : ∀ q : Request, o.mayAsk q = true → Moves R (s.perform q))

include h

theorem drive_moves (r : Report) : Moves R (drive s o r) :=
  moves_iff_alike.mpr fun start =>
    drive_alike rfl (fun q hq => moves_iff_alike.mp (h q hq) start) r

theorem reconcile_moves (stamp : Stamp) (hbegin : Moves R (s.perform (.begin o.lockWait)))
    (hrollback : Moves R (s.perform .rollback))
    (hcommit : o.dryRun = false → Moves R (s.perform .commit)) :
    Moves R (reconcile s o stamp) :=
  moves_iff_alike.mpr fun start =>
    reconcile_alike rfl (fun q hq => moves_iff_alike.mp (h q hq) start) stamp
      (moves_iff_alike.mp hbegin start) (moves_iff_alike.mp hrollback start)
      fun hfull => moves_iff_alike.mp (hcommit hfull) start

end Moves

end Regroup
