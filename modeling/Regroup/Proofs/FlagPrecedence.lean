import Regroup.Command.Overrides
import Regroup.Config.Layers
import Regroup.Config.Schema

/-! Flags on top of settings. What the flags give is taken from them alone, errors included, and the rest
comes through from the settings; what is accepted keeps the counters apart and waits for locks long
enough. A blank name is refused only when a flag gives it. -/

namespace Regroup.Command

open Config (Settings ReconcileSection SequenceSection)

namespace PassFlags

variable {f : PassFlags} {s s' t : Settings} {ε α : Type}

/-- What a flag is read as, or what is below it when it is not given. -/
def readOver (read : String → Except ε α) (flag : Option String) (below : α) : Except ε α :=
  match flag with
  | some name => read name
  | none => .ok below

/-- A flag that is given hides what is below it. -/
theorem readOver_congr {read : String → Except ε α} {flag : Option String} {a b : α}
    (h : flag = none → a = b) : readOver read flag a = readOver read flag b := by
  cases flag with
  | none => rw [h rfl]
  | some name => rfl

theorem readOver_again {read : String → Except ε α} {flag : Option String} {a b : α}
    (h : readOver read flag a = .ok b) : readOver read flag b = .ok b := by
  cases flag with
  | none => rfl
  | some name => exact h

theorem getD_congr {flag : Option α} {a b : α} (h : flag = none → a = b) :
    flag.getD a = flag.getD b := by
  cases flag with
  | none => exact h rfl
  | some x => rfl

theorem orElse_congr {flag a b : Option α} (h : flag = none → a = b) :
    (flag <|> a) = (flag <|> b) := by
  cases flag with
  | none => rw [h rfl]
  | some x => rfl

theorem switch_congr {flag a b : Bool} (h : flag = false → a = b) : (flag || a) = (flag || b) := by
  cases flag with
  | false => exact h rfl
  | true => rfl

theorem overrideReconcile_eq (f : PassFlags) (r : ReconcileSection) :
    f.overrideReconcile r =
      if f.defaultName.any Text.isBlank then .error .blankDefaultName
      else if (f.lockWaitSeconds <|> r.lockWaitSeconds) = some 0 then .error .lockWaitTooShort
      else (readOver readStrategy f.seedStrategy r.seedStrategy).map fun seedStrategy =>
        { defaultGroupName := f.defaultName.getD r.defaultGroupName
          lockWaitSeconds := f.lockWaitSeconds <|> r.lockWaitSeconds
          seedStrategy
          skipProvisioning := f.skipProvisioning || r.skipProvisioning
          edgeScope := (scopeOfSwitches f.onlyDeleted f.activeOnly).getD r.edgeScope
          excluded := if f.excluded.isEmpty then r.excluded else f.excluded
          ensureIndexes := f.ensureIndexes || r.ensureIndexes } := by
  unfold overrideReconcile
  by_cases hblank : f.defaultName.any Text.isBlank
  · rw [if_pos hblank, if_pos hblank]
    rfl
  rw [if_neg hblank, if_neg hblank]
  by_cases hlock : (f.lockWaitSeconds <|> r.lockWaitSeconds) = some 0
  · simp only [if_pos hlock]
    rfl
  simp only [if_neg hlock]
  cases f.seedStrategy with
  | none => rfl
  | some name =>
    simp only [readOver]
    cases readStrategy name <;> rfl

theorem overrideSequence_eq (f : PassFlags) (q : SequenceSection) :
    f.overrideSequence q = (readOver readBackend f.backend q.backend).bind fun backend =>
      if f.edgeCounter.getD q.counters.edge = f.groupCounter.getD q.counters.group then
        .error (.sharedCounter (f.edgeCounter.getD q.counters.edge))
      else .ok { q with
        backend
        counters := ⟨f.edgeCounter.getD q.counters.edge, f.groupCounter.getD q.counters.group⟩ } := by
  unfold overrideSequence
  by_cases hshared : f.edgeCounter.getD q.counters.edge = f.groupCounter.getD q.counters.group
  all_goals
    simp only [hshared, if_true, if_false]
    cases f.backend with
    | none => rfl
    | some name =>
      simp only [readOver]
      cases readBackend name <;> rfl

/-- The settings are the same wherever the flags give nothing. -/
structure AgreeUngiven (f : PassFlags) (s s' : Settings) : Prop where
  defaultGroupName : f.defaultName = none →
    s.reconcile.defaultGroupName = s'.reconcile.defaultGroupName
  lockWaitSeconds : f.lockWaitSeconds = none →
    s.reconcile.lockWaitSeconds = s'.reconcile.lockWaitSeconds
  seedStrategy : f.seedStrategy = none → s.reconcile.seedStrategy = s'.reconcile.seedStrategy
  skipProvisioning : f.skipProvisioning = false →
    s.reconcile.skipProvisioning = s'.reconcile.skipProvisioning
  edgeScope : f.onlyDeleted = false → f.activeOnly = false →
    s.reconcile.edgeScope = s'.reconcile.edgeScope
  excluded : f.excluded = [] → s.reconcile.excluded = s'.reconcile.excluded
  ensureIndexes : f.ensureIndexes = false → s.reconcile.ensureIndexes = s'.reconcile.ensureIndexes
  backend : f.backend = none → s.sequence.backend = s'.sequence.backend
  edgeCounter : f.edgeCounter = none → s.sequence.counters.edge = s'.sequence.counters.edge
  groupCounter : f.groupCounter = none → s.sequence.counters.group = s'.sequence.counters.group

/-- `r'` is what the flags give on top of `r`. -/
structure ReconcileOver (f : PassFlags) (r r' : ReconcileSection) : Prop where
  defaultGroupName : r'.defaultGroupName = f.defaultName.getD r.defaultGroupName
  lockWaitSeconds : r'.lockWaitSeconds = (f.lockWaitSeconds <|> r.lockWaitSeconds)
  seedStrategy : readOver readStrategy f.seedStrategy r.seedStrategy = .ok r'.seedStrategy
  skipProvisioning : r'.skipProvisioning = (f.skipProvisioning || r.skipProvisioning)
  edgeScope : r'.edgeScope = (scopeOfSwitches f.onlyDeleted f.activeOnly).getD r.edgeScope
  excluded : r'.excluded = if f.excluded.isEmpty then r.excluded else f.excluded
  ensureIndexes : r'.ensureIndexes = (f.ensureIndexes || r.ensureIndexes)

structure SequenceOver (f : PassFlags) (q q' : SequenceSection) : Prop where
  backend : readOver readBackend f.backend q.backend = .ok q'.backend
  edgeCounter : q'.counters.edge = f.edgeCounter.getD q.counters.edge
  groupCounter : q'.counters.group = f.groupCounter.getD q.counters.group
  redisVariable : q'.redisVariable = q.redisVariable
  timeoutSeconds : q'.timeoutSeconds = q.timeoutSeconds

structure Overlay (f : PassFlags) (s t : Settings) : Prop where
  reconcile : f.ReconcileOver s.reconcile t.reconcile
  sequence : f.SequenceOver s.sequence t.sequence
  store : t.store = s.store
  logging : t.logging = s.logging

/-- What is checked of the flags and of what they leave. -/
structure Checked (f : PassFlags) (t : Settings) : Prop where
  defaultName : f.defaultName.any Text.isBlank = false
  lockWaitSeconds : t.reconcile.lockWaitSeconds ≠ some 0
  counters : t.sequence.counters.edge ≠ t.sequence.counters.group

theorem overrideReconcile_eq_ok_iff {r r' : ReconcileSection} :
    f.overrideReconcile r = .ok r' ↔ f.ReconcileOver r r' ∧
      f.defaultName.any Text.isBlank = false ∧ r'.lockWaitSeconds ≠ some 0 := by
  rw [overrideReconcile_eq]
  constructor
  · intro h
    by_cases hblank : f.defaultName.any Text.isBlank
    · rw [if_pos hblank] at h
      cases h
    by_cases hlock : (f.lockWaitSeconds <|> r.lockWaitSeconds) = some 0
    · rw [if_neg hblank, if_pos hlock] at h
      cases h
    rw [if_neg hblank, if_neg hlock] at h
    cases hread : readOver readStrategy f.seedStrategy r.seedStrategy with
    | error e =>
      rw [hread] at h
      cases h
    | ok strategy =>
      rw [hread] at h
      obtain rfl := Except.ok.inj h
      exact ⟨⟨rfl, rfl, hread, rfl, rfl, rfl, rfl⟩, by simpa using hblank, hlock⟩
  · rintro ⟨⟨hname, hwait, hread, hskip, hscope, hexcluded, hindexes⟩, hblank, hlock⟩
    rw [hwait] at hlock
    rw [hblank, if_neg Bool.false_ne_true, if_neg hlock, hread, ← hname, ← hwait, ← hskip, ← hscope,
      ← hexcluded, ← hindexes]
    rfl

theorem overrideSequence_eq_ok_iff {q q' : SequenceSection} :
    f.overrideSequence q = .ok q' ↔
      f.SequenceOver q q' ∧ q'.counters.edge ≠ q'.counters.group := by
  rw [overrideSequence_eq]
  constructor
  · intro h
    cases hread : readOver readBackend f.backend q.backend with
    | error e =>
      rw [hread] at h
      cases h
    | ok backend =>
      by_cases hshared : f.edgeCounter.getD q.counters.edge = f.groupCounter.getD q.counters.group
      · rw [hread, Except.bind, if_pos hshared] at h
        cases h
      · rw [hread, Except.bind, if_neg hshared] at h
        obtain rfl := Except.ok.inj h
        exact ⟨⟨hread, rfl, rfl, rfl, rfl⟩, hshared⟩
  · rintro ⟨⟨hread, hedge, hgroup, hvariable, htimeout⟩, hdiffer⟩
    rw [hedge, hgroup] at hdiffer
    rw [hread, Except.bind, if_neg hdiffer, ← hedge, ← hgroup, ← hvariable, ← htimeout]

theorem override_eq_ok_iff : f.override s = .ok t ↔ f.Overlay s t ∧ f.Checked t := by
  have hparts : f.override s = (f.overrideReconcile s.reconcile).bind fun r =>
      (f.overrideSequence s.sequence).map fun q => { s with reconcile := r, sequence := q } := rfl
  rw [hparts]
  constructor
  · intro h
    cases hr : f.overrideReconcile s.reconcile with
    | error e =>
      rw [hr] at h
      cases h
    | ok r =>
      cases hq : f.overrideSequence s.sequence with
      | error e =>
        rw [hr, hq] at h
        cases h
      | ok q =>
        rw [hr, hq] at h
        obtain rfl := Except.ok.inj h
        obtain ⟨hover, hname, hlock⟩ := overrideReconcile_eq_ok_iff.mp hr
        obtain ⟨hcounters, hdiffer⟩ := overrideSequence_eq_ok_iff.mp hq
        exact ⟨⟨hover, hcounters, rfl, rfl⟩, hname, hlock, hdiffer⟩
  · rintro ⟨⟨hover, hcounters, hstore, hlogging⟩, hname, hlock, hdiffer⟩
    rw [overrideReconcile_eq_ok_iff.mpr ⟨hover, hname, hlock⟩, Except.bind,
      overrideSequence_eq_ok_iff.mpr ⟨hcounters, hdiffer⟩, ← hstore, ← hlogging]
    rfl

theorem Overlay.agreeUngiven (h : f.Overlay s t) : f.AgreeUngiven s t where
  defaultGroupName hf := by simp [h.reconcile.defaultGroupName, hf]
  lockWaitSeconds hf := by simp [h.reconcile.lockWaitSeconds, hf]
  seedStrategy hf := by simpa [readOver, hf] using h.reconcile.seedStrategy
  skipProvisioning hf := by simp [h.reconcile.skipProvisioning, hf]
  edgeScope hdeleted hactive := by
    simp [h.reconcile.edgeScope, scopeOfSwitches, hdeleted, hactive]
  excluded hf := by simp [h.reconcile.excluded, hf]
  ensureIndexes hf := by simp [h.reconcile.ensureIndexes, hf]
  backend hf := by simpa [readOver, hf] using h.sequence.backend
  edgeCounter hf := by simp [h.sequence.edgeCounter, hf]
  groupCounter hf := by simp [h.sequence.groupCounter, hf]

theorem ReconcileOver.again {r r' : ReconcileSection} (h : f.ReconcileOver r r') :
    f.ReconcileOver r' r' where
  defaultGroupName := by cases hf : f.defaultName <;> simp [h.defaultGroupName, hf]
  lockWaitSeconds := by cases hf : f.lockWaitSeconds <;> simp [h.lockWaitSeconds, hf]
  seedStrategy := readOver_again h.seedStrategy
  skipProvisioning := by cases hf : f.skipProvisioning <;> simp [h.skipProvisioning, hf]
  edgeScope := by
    cases hf : scopeOfSwitches f.onlyDeleted f.activeOnly <;> simp [h.edgeScope, hf]
  excluded := by cases hf : f.excluded.isEmpty <;> simp [h.excluded, hf]
  ensureIndexes := by cases hf : f.ensureIndexes <;> simp [h.ensureIndexes, hf]

theorem SequenceOver.again {q q' : SequenceSection} (h : f.SequenceOver q q') :
    f.SequenceOver q' q' where
  backend := readOver_again h.backend
  edgeCounter := by cases hf : f.edgeCounter <;> simp [h.edgeCounter, hf]
  groupCounter := by cases hf : f.groupCounter <;> simp [h.groupCounter, hf]
  redisVariable := rfl
  timeoutSeconds := rfl

/-- A second time the flags find what they give. -/
theorem override_again (h : f.override s = .ok t) : f.override t = .ok t := by
  obtain ⟨hover, hchecked⟩ := override_eq_ok_iff.mp h
  exact override_eq_ok_iff.mpr ⟨⟨hover.reconcile.again, hover.sequence.again, rfl, rfl⟩, hchecked⟩

/-- The options tell a pass what the settings say: how it provisions, and which edges it looks at. -/
structure Conveys (t : Settings) (dry : Bool) (o : Options) : Prop where
  dryRun : o.dryRun = dry
  defaultGroupName : o.defaultGroupName = t.reconcile.defaultGroupName
  lockWait : o.lockWait.map Duration.nanos = t.reconcile.lockWaitSeconds.map (· * 1000000000)
  skips : o.provisioning = .skip ↔ t.reconcile.skipProvisioning = true
  seeds : ∀ strategy, o.provisioning = .seed strategy ↔
    t.reconcile.skipProvisioning = false ∧ t.reconcile.seedStrategy = strategy
  accepts : ∀ e, o.filter.accepts e = true ↔
    t.reconcile.edgeScope.accepts e = true ∧ e.counterpart ∉ t.reconcile.excluded
  counters : o.counters = t.sequence.counters

theorem conveys_optionsOf (t : Settings) (dry : Bool) : Conveys t dry (optionsOf t dry) where
  dryRun := rfl
  defaultGroupName := rfl
  lockWait := by
    rw [optionsOf, Option.map_map]
    rfl
  skips := by cases h : t.reconcile.skipProvisioning <;> simp [optionsOf, h]
  seeds strategy := by cases h : t.reconcile.skipProvisioning <;> simp [optionsOf, h]
  accepts e := by simp [optionsOf, EdgeFilter.accepts, EdgeFilter.excluding, mem_ascending]
  counters := rfl

/-- What a pass is told by settings under flags. -/
def outcome (f : PassFlags) (dryRun : Bool) (s : Settings) :
    Except OverrideError (Options × Bool × Config.Backend) :=
  (f.override s).map fun t => (optionsOf t dryRun, t.reconcile.ensureIndexes, t.sequence.backend)

theorem outcome_of_override (h : f.override s = .ok t) (dryRun : Bool) :
    f.outcome dryRun s =
      .ok (optionsOf t dryRun, t.reconcile.ensureIndexes, t.sequence.backend) := by
  rw [outcome, h]
  rfl

theorem AgreeUngiven.overrideReconcile_eq (h : f.AgreeUngiven s s') :
    f.overrideReconcile s.reconcile = f.overrideReconcile s'.reconcile := by
  have hscope : (scopeOfSwitches f.onlyDeleted f.activeOnly).getD s.reconcile.edgeScope =
      (scopeOfSwitches f.onlyDeleted f.activeOnly).getD s'.reconcile.edgeScope := by
    cases hd : f.onlyDeleted <;> cases ha : f.activeOnly <;> simp [scopeOfSwitches, h.edgeScope, hd, ha]
  have hexcluded : (if f.excluded.isEmpty then s.reconcile.excluded else f.excluded) =
      if f.excluded.isEmpty then s'.reconcile.excluded else f.excluded := by
    cases hf : f.excluded <;> simp [h.excluded, hf]
  rw [PassFlags.overrideReconcile_eq, PassFlags.overrideReconcile_eq, readOver_congr h.seedStrategy,
    getD_congr h.defaultGroupName, orElse_congr h.lockWaitSeconds, switch_congr h.skipProvisioning,
    hscope, hexcluded, switch_congr h.ensureIndexes]

/-- Of the counters' section a pass sees the backend and the names. -/
theorem AgreeUngiven.overrideSequence_eq (h : f.AgreeUngiven s s') :
    (f.overrideSequence s.sequence).map (fun q => (q.backend, q.counters)) =
      (f.overrideSequence s'.sequence).map fun q => (q.backend, q.counters) := by
  rw [PassFlags.overrideSequence_eq, PassFlags.overrideSequence_eq, readOver_congr h.backend,
    getD_congr h.edgeCounter, getD_congr h.groupCounter]
  cases readOver readBackend f.backend s'.sequence.backend with
  | error e => rfl
  | ok backend =>
    by_cases hshared : f.edgeCounter.getD s'.sequence.counters.edge =
        f.groupCounter.getD s'.sequence.counters.group
    · simp only [Except.bind, if_pos hshared]
    · simp only [Except.bind, if_neg hshared, Except.map]

theorem outcome_eq (f : PassFlags) (dryRun : Bool) (s : Settings) :
    f.outcome dryRun s = (f.overrideReconcile s.reconcile).bind fun r =>
      ((f.overrideSequence s.sequence).map fun q => (q.backend, q.counters)).map fun p =>
        (optionsOf { reconcile := r, sequence.counters := p.2 } dryRun, r.ensureIndexes, p.1) := by
  unfold outcome override
  cases f.overrideReconcile s.reconcile with
  | error e => rfl
  | ok r => cases f.overrideSequence s.sequence <;> rfl

theorem AgreeUngiven.outcome_eq (h : f.AgreeUngiven s s') (dryRun : Bool) :
    f.outcome dryRun s = f.outcome dryRun s' := by
  rw [PassFlags.outcome_eq, PassFlags.outcome_eq, h.overrideReconcile_eq, h.overrideSequence_eq]

/-- What a flag gives is taken whatever the settings say in its place, so what is refused and what a
pass is told depends on the flags and on the settings beside them. These come through as they are,
the flags change nothing a second time, and a pass is told just what has been accepted. -/
theorem flags_take_precedence (f : PassFlags) (dryRun : Bool) :
    (∀ s s', f.AgreeUngiven s s' → f.outcome dryRun s = f.outcome dryRun s') ∧
      ∀ s t, f.override s = .ok t →
        f.Overlay s t ∧ f.AgreeUngiven s t ∧ f.override t = .ok t ∧
        ∃ o, f.outcome dryRun s = .ok (o, t.reconcile.ensureIndexes, t.sequence.backend) ∧
          Conveys t dryRun o := by
  refine ⟨fun s s' h => h.outcome_eq dryRun, fun s t h => ?_⟩
  have hover := (override_eq_ok_iff.mp h).1
  exact ⟨hover, hover.agreeUngiven, override_again h, _, outcome_of_override h dryRun,
    conveys_optionsOf t dryRun⟩

/-- Flags hide settings that would be refused, and a counter's name that would be taken twice. -/
theorem flags_take_precedence_hidden :
    let f : PassFlags :=
      { lockWaitSeconds := some 60, seedStrategy := some " BOTH ", onlyDeleted := true,
        excluded := ["bot"], edgeCounter := some "seq:edges" }
    let s : Settings := { reconcile.lockWaitSeconds := some 0, reconcile.excluded := ["bob"] }
    let s' : Settings :=
      { reconcile.edgeScope := .activeOnly, sequence.counters.edge := "seq:friendGroup" }
    f.outcome true s = f.outcome true s' ∧
      ∃ t, f.override s = .ok t ∧ f.Overlay s t ∧ f.override t = .ok t ∧
        ∃ o, f.outcome true s = .ok (o, t.reconcile.ensureIndexes, t.sequence.backend) ∧
          o.dryRun = true ∧ o.lockWait.map Duration.nanos = some 60000000000 := by
  intro f s s'
  obtain ⟨hsame, hover⟩ := flags_take_precedence f true
  have hagree : f.AgreeUngiven s s' :=
    ⟨fun _ => rfl, nofun, nofun, fun _ => rfl, nofun, nofun, fun _ => rfl, fun _ => rfl, nofun,
      fun _ => rfl⟩
  obtain ⟨t, ht⟩ : ∃ t, f.override s = .ok t := ⟨_, by rfl⟩
  obtain ⟨hoverlay, -, hagain, o, hout, hconveys⟩ := hover s t ht
  have hwait : t.reconcile.lockWaitSeconds = some 60 := hoverlay.reconcile.lockWaitSeconds
  refine ⟨hsame s s' hagree, t, ht, hoverlay, hagain, o, hout, hconveys.dryRun, ?_⟩
  rw [hconveys.lockWait, hwait]
  rfl

/-- Accepted settings keep the counters apart and wait for locks for a second at least, if there is a
bound, wherever their values come from. A blank name gets through just when it is the settings'. -/
theorem accepted_options (h : f.override s = .ok t) (dryRun : Bool) :
    let o := optionsOf t dryRun
    o.counters.edge ≠ o.counters.group ∧
      (∀ d ∈ o.lockWait, (Duration.ofSeconds 1).nanos ≤ d.nanos) ∧
      (Text.isBlank o.defaultGroupName ↔
        f.defaultName = none ∧ Text.isBlank s.reconcile.defaultGroupName) := by
  intro o
  obtain ⟨hover, hname, hlock, hdiffer⟩ := override_eq_ok_iff.mp h
  refine ⟨hdiffer, ?_, ?_⟩
  · intro d hd
    obtain ⟨n, hn, rfl⟩ := Option.map_eq_some_iff.mp hd
    have hpositive : n ≠ 0 := by
      rintro rfl
      exact hlock hn
    simp only [Duration.ofSeconds]
    omega
  · have ho : o.defaultGroupName = f.defaultName.getD s.reconcile.defaultGroupName :=
      hover.reconcile.defaultGroupName
    rw [ho]
    cases hf : f.defaultName with
    | none => simp
    | some name =>
      have hsolid : Text.isBlank name = false := by simpa [hf] using hname
      simp [hsolid]

theorem accepted_options_flagged :
    let f : PassFlags := { defaultName := some "Friends", groupCounter := some "seq:groups" }
    let s : Settings :=
      { reconcile.defaultGroupName := "  ", reconcile.lockWaitSeconds := some 1,
        sequence.counters.group := "seq:friend" }
    ∃ t, f.override s = .ok t ∧
      (optionsOf t false).counters.edge ≠ (optionsOf t false).counters.group ∧
      Text.isBlank (optionsOf t false).defaultGroupName = false := by
  intro f s
  obtain ⟨t, ht⟩ : ∃ t, f.override s = .ok t := ⟨_, by rfl⟩
  obtain ⟨hdiffer, -, hblank⟩ := accepted_options ht false
  refine ⟨t, ht, hdiffer, ?_⟩
  rw [Bool.eq_false_iff, ne_eq, hblank]
  rintro ⟨hname, -⟩
  cases hname

/-- A configuration with a name of blanks is accepted, and the pass is told that name. -/
theorem accepted_blank_setting :
    let layer : Yaml.Value :=
      .map [(.str "reconcile", .map [(.str "default_group_name", .str "  ")])]
    ∃ c s t, Config.ofLayers [layer] = .ok c ∧ Settings.ofJson c.json = .ok s ∧
      ({} : PassFlags).override s = .ok t ∧ Text.isBlank (optionsOf t false).defaultGroupName := by
  intro layer
  let config : Json := .obj [("reconcile", .obj [("default_group_name", .str "  ")])]
  have hconfig : Config.ofLayers [layer] = .ok ⟨config⟩ := by rfl
  have hsettings : Settings.ofJson config = .ok { reconcile.defaultGroupName := "  " } := by rfl
  exact ⟨_, _, _, hconfig, hsettings, rfl, by decide⟩

end PassFlags

end Regroup.Command
