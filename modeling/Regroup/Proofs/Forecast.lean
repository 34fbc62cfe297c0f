import Mathlib
import Regroup.Proofs.DryRun
import Regroup.Proofs.Provisioning

/-! A dry run forecasts a full run from the same tables. The groups that it previews and those that
a full run writes differ in their versions only, apart from the default groups that are new; these
have ids that nothing names yet, so they decide for just the edges that await them. -/

namespace Regroup

theorem map_standing_stamp (owner : Uid) (name : String) (v : Int) (groups : List Group) :
    (modifyFirst (Group.holds owner name) (Group.stamp v) groups).map Group.standing =
      modifyFirst (Group.holds owner name) Group.revive (groups.map Group.standing) := by
  apply map_modifyFirst
  · intro g
    rfl
  · intro g _
    rfl

theorem map_standing_revive (owner : Uid) (name : String) (groups : List Group) :
    (modifyFirst (Group.holds owner name) Group.revive groups).map Group.standing =
      modifyFirst (Group.holds owner name) Group.revive (groups.map Group.standing) := by
  apply map_modifyFirst
  · intro g
    rfl
  · intro g _
    rfl

/-- The groups of a full run next to the preview of a dry run, in the middle of provisioning: old
rows of one standing, and a new default group for each owner that is reported to need one. -/
structure Foreseen (top : GroupId) (olds news : List Group) (state : List Group × List Uid) :
    Prop where
  standing : olds.map Group.standing = state.1.map Group.standing
  named : (state.1.map fun g => (g.owner, g.name)).Nodup
  largest : largestId olds = top
  owners : news.map Group.owner = state.2
  fresh : ∀ g ∈ news, top < g.id
  active : ∀ g ∈ news, g.isActiveDefault = true

namespace Foreseen

variable {top : GroupId} {name : String} {olds news : List Group} {state : List Group × List Uid}
  {row : GroupInsert}

theorem any_holds (h : Foreseen top olds news state) (owner : Uid) :
    olds.any (Group.holds owner name) = state.1.any (Group.holds owner name) := by
  have hany := congrArg (List.any · (Group.holds owner name)) h.standing
  rw [List.any_map, List.any_map] at hany
  exact hany

theorem news_not_holds (h : Foreseen top olds news state) {owner : Uid} (hnew : owner ∉ state.2) :
    news.any (Group.holds owner name) = false := by
  rw [List.any_eq_false]
  intro g hg hholds
  refine hnew ?_
  rw [← h.owners, ← (Group.holds_iff.mp hholds).1]
  exact List.mem_map_of_mem hg

/-- A row that holds the name is the only one, so the lowest id is its own. -/
theorem previewOwner_revived (h : Foreseen top olds news state) {owner : Uid}
    (hany : state.1.any (Group.holds owner name) = true) :
    ProvisionPlan.previewOwner name state owner =
      (modifyFirst (Group.holds owner name) Group.revive state.1, state.2) := by
  obtain ⟨g, hg, hholds⟩ := List.any_eq_true.mp hany
  obtain ⟨id, hid⟩ : ∃ id, ProvisionPlan.lowestHolder? state.1 owner name = some id := by
    refine Option.ne_none_iff_exists'.mp fun hnone => ?_
    rw [ProvisionPlan.lowestHolder?, List.min?_eq_none_iff, List.map_eq_nil_iff] at hnone
    exact List.filter_eq_nil_iff.mp hnone g hg hholds
  obtain ⟨x, hx, rfl⟩ := List.mem_map.mp (List.min?_eq_some_iff.mp hid).1
  have hsame : ∀ y ∈ state.1, (y.holds owner name && y.id == x.id) = y.holds owner name := by
    intro y hy
    by_cases hyh : y.holds owner name = true
    · have hkey := Group.key_eq_of_holds hyh (List.mem_filter.mp hx).2
      obtain rfl := List.inj_on_of_nodup_map h.named hy (List.mem_of_mem_filter hx) hkey
      simp
    · simp [hyh]
  rw [ProvisionPlan.previewOwner, hid]
  simp only [modifyFirst_congr hsame]

theorem previewOwner_new {owner : Uid} (hany : state.1.any (Group.holds owner name) = false) :
    ProvisionPlan.previewOwner name state owner = (state.1, state.2 ++ [owner]) := by
  have hnone : ProvisionPlan.lowestHolder? state.1 owner name = none := by
    rw [ProvisionPlan.lowestHolder?, List.min?_eq_none_iff, List.map_eq_nil_iff,
      List.filter_eq_nil_iff]
    simpa using hany
  rw [ProvisionPlan.previewOwner, hnone]

theorem upsertGroup (h : Foreseen top olds news state) (hnew : row.owner ∉ state.2) :
    ∃ olds' news', Tables.upsertGroup name (olds ++ news) row = olds' ++ news' ∧
      Foreseen top olds' news' (ProvisionPlan.previewOwner name state row.owner) := by
  unfold Tables.upsertGroup
  rw [List.any_append, h.any_holds, h.news_not_holds hnew, Bool.or_false]
  by_cases hany : state.1.any (Group.holds row.owner name) = true
  · rw [if_pos hany, modifyFirst_append_left news ((h.any_holds _).trans hany),
      h.previewOwner_revived hany]
    refine ⟨_, news, rfl, ?_, ?_, ?_, h.owners, h.fresh, h.active⟩
    · rw [map_standing_stamp, map_standing_revive, h.standing]
    · rw [map_modifyFirst_of_eq]
      · exact h.named
      · exact fun _ _ _ => rfl
    · rw [largestId, Group.map_id_modifyFirst_stamp]
      exact h.largest
  · have hnone : state.1.any (Group.holds row.owner name) = false := by simpa using hany
    rw [if_neg hany, previewOwner_new hnone, List.append_assoc]
    refine ⟨olds, _, rfl, h.standing, h.named, h.largest, ?_, ?_, ?_⟩
    · rw [List.map_append, h.owners]
      rfl
    · intro g hg
      rcases List.mem_append.mp hg with hg | hg
      · exact h.fresh g hg
      · have hle := largestId_le_append (h.largest.symm ▸ h.fresh)
        rw [h.largest] at hle
        rw [List.mem_singleton.mp hg]
        exact Int.lt_add_one_of_le hle
    · intro g hg
      rcases List.mem_append.mp hg with hg | hg
      · exact h.active g hg
      · rw [List.mem_singleton.mp hg]
        rfl

theorem mem_previewOwner {owner other : Uid}
    (h : other ∈ (ProvisionPlan.previewOwner name state owner).2) :
    other ∈ state.2 ∨ other = owner := by
  unfold ProvisionPlan.previewOwner at h
  split at h
  · exact .inl h
  · simpa using h

theorem foldl_upsertGroup {rows : List GroupInsert} (h : Foreseen top olds news state)
    (hrows : (rows.map GroupInsert.owner).Nodup)
    (hnew : ∀ owner ∈ rows.map GroupInsert.owner, owner ∉ state.2) :
    ∃ olds' news', rows.foldl (Tables.upsertGroup name) (olds ++ news) = olds' ++ news' ∧
      Foreseen top olds' news'
        ((rows.map GroupInsert.owner).foldl (ProvisionPlan.previewOwner name) state) := by
  induction rows generalizing olds news state with
  | nil => exact ⟨olds, news, rfl, h⟩
  | cons row rows ih =>
    obtain ⟨hfirst, hrest⟩ := List.nodup_cons.mp hrows
    obtain ⟨olds', news', heq, h'⟩ := @upsertGroup _ name _ _ _ row h (hnew row.owner (by simp))
    rw [List.foldl_cons, heq]
    refine ih h' hrest fun owner howner hmem => ?_
    rcases mem_previewOwner hmem with hmem | rfl
    · exact hnew owner (List.mem_cons_of_mem _ howner) hmem
    · exact hfirst howner

theorem defaultIds_eq (h : Foreseen top olds news state) (owner : Uid) :
    defaultIds (olds ++ news) owner = defaultIds state.1 owner ++ defaultIds news owner := by
  rw [← defaultIds_congr h.standing]
  simp only [defaultIds, List.filter_append, List.map_append]

theorem explicitIds_eq (h : Foreseen top olds news state) {memberships : List Membership}
    (hms : ∀ m ∈ memberships, m.groupId ≤ top) (owner counterpart : Uid) :
    explicitIds (olds ++ news) memberships owner counterpart =
      explicitIds state.1 memberships owner counterpart := by
  have hsame : memberships.filter (MembershipIndex.isEligible (olds ++ news)) =
      memberships.filter (MembershipIndex.isEligible state.1) := by
    refine List.filter_congr fun m hm => ?_
    have hnews : news.any (fun g => g.isActive && g.id == m.groupId) = false := by
      rw [List.any_eq_false]
      intro g hg hgm
      rw [Bool.and_eq_true, beq_iff_eq] at hgm
      have hlt := h.fresh g hg
      rw [hgm.2] at hlt
      exact absurd (hms m hm) (Int.not_le.mpr hlt)
    rw [← isEligible_standing state.1, ← h.standing, isEligible_standing]
    simp only [MembershipIndex.isEligible, List.any_append, hnews, Bool.or_false]
  simp only [explicitIds, hsame]

theorem le_top (h : Foreseen top olds news state) {g : Group} (hg : g ∈ state.1) : g.id ≤ top := by
  have hle := le_largestId hg
  rw [largestId, ← map_id_congr h.standing] at hle
  exact h.largest ▸ hle

theorem lt_of_mem_defaultIds (h : Foreseen top olds news state) {owner : Uid} {id : GroupId}
    (hid : id ∈ defaultIds news owner) : top < id := by
  obtain ⟨g, hg, -, -, rfl⟩ := mem_defaultIds.mp hid
  exact h.fresh g hg

theorem min?_defaultIds (h : Foreseen top olds news state) {owner : Uid} {id : GroupId}
    (hold : (defaultIds state.1 owner).min? = some id) :
    (defaultIds state.1 owner ++ defaultIds news owner).min? = some id := by
  obtain ⟨hin, hle⟩ := List.min?_eq_some_iff.mp hold
  obtain ⟨g, hg, -, -, rfl⟩ := mem_defaultIds.mp hin
  refine List.min?_eq_some_iff.mpr ⟨List.mem_append_left _ hin, fun b hb => ?_⟩
  rcases List.mem_append.mp hb with hb | hb
  · exact hle b hb
  -- a new group has an id beyond those of all old ones
  · exact Int.le_of_lt (Int.lt_of_le_of_lt (h.le_top hg) (h.lt_of_mem_defaultIds hb))

end Foreseen

/-- What a dry run says of an edge and what a full run says of it: the same, or that it awaits a
default group and a group beyond `top`. -/
inductive Agrees (top : GroupId) : Resolution → Resolution → Prop
  | same {r : Resolution} (h : r ≠ .pendingDefault) : Agrees top r r
  | awaited {id : GroupId} (h : top < id) : Agrees top .pendingDefault (.defaultGroup id)

theorem Foreseen.agrees {top : GroupId} {olds news : List Group} {state : List Group × List Uid}
    {memberships : List Membership} (h : Foreseen top olds news state)
    (hms : ∀ m ∈ memberships, m.groupId ≤ top) (owner counterpart : Uid) :
    Agrees top
      (((Snapshot.build state.1 memberships).planMissing state.2).resolve owner counterpart)
      ((Snapshot.build (olds ++ news) memberships).resolve owner counterpart) := by
  rw [Snapshot.resolve_planMissing_build, Snapshot.resolve_build, h.explicitIds_eq hms,
    h.defaultIds_eq]
  cases (explicitIds state.1 memberships owner counterpart).min? with
  | some id => exact .same (by simp)
  | none =>
    cases hold : (defaultIds state.1 owner).min? with
    | some id =>
      rw [h.min?_defaultIds hold]
      exact .same (by simp)
    | none =>
      rw [List.min?_eq_none_iff.mp hold, List.nil_append]
      by_cases hmem : owner ∈ state.2
      · rw [← h.owners] at hmem
        obtain ⟨g, hg, rfl⟩ := List.mem_map.mp hmem
        have hid : g.id ∈ defaultIds news g.owner :=
          mem_defaultIds.mpr ⟨g, hg, h.active g hg, rfl, rfl⟩
        cases hmin : (defaultIds news g.owner).min? with
        | none => simp [List.min?_eq_none_iff.mp hmin] at hid
        | some id =>
          rw [h.owners] at hmem
          simp only [hmem, if_true]
          exact .awaited (h.lt_of_mem_defaultIds (List.min?_eq_some_iff.mp hmin).1)
      · have hnone : defaultIds news owner = [] := by
          refine List.eq_nil_iff_forall_not_mem.mpr fun id hid => hmem ?_
          obtain ⟨g, hg, -, rfl, -⟩ := mem_defaultIds.mp hid
          exact h.owners ▸ List.mem_map_of_mem hg
        simp only [hnone, List.min?_nil, hmem, if_false]
        exact .same (by simp)

namespace ChangeSet

variable {top : GroupId} {dry full : Snapshot} {e : Edge} {edges : List Edge} {f : EdgeFilter}

/-- An edge is moved by a full run if a dry run has a change for it or finds it awaiting a group. -/
theorem isSome_change?_of_agrees (h : Agrees top (resolution dry e) (resolution full e))
    (hcurrent : e.currentGroup ≤ top) :
    (if (change? full e).isSome then 1 else 0) =
      (if (change? dry e).isSome then 1 else 0) +
        (if resolution dry e == .pendingDefault then 1 else 0) := by
  generalize hd : resolution dry e = d at h
  generalize hf : resolution full e = r at h
  cases h with
  | same hne =>
    rw [change?_congr (hf.trans hd.symm)]
    simp [hne]
  | @awaited id hid =>
    have hmoved : e.currentGroup ≠ id := Int.ne_of_lt (Int.lt_of_le_of_lt hcurrent hid)
    simp [change?, hd, hf, hmoved]

theorem countP_change?_of_agrees
    (h : ∀ e ∈ edges, Agrees top (resolution dry e) (resolution full e))
    (hcurrent : ∀ e ∈ edges, e.currentGroup ≤ top) :
    edges.countP (fun e => (change? full e).isSome) =
      edges.countP (fun e => (change? dry e).isSome) +
        edges.countP (fun e => resolution dry e == .pendingDefault) := by
  induction edges with
  | nil => rfl
  | cons e edges ih =>
    have hrest := ih (fun e he => h e (List.mem_cons_of_mem _ he))
      (fun e he => hcurrent e (List.mem_cons_of_mem _ he))
    have hfirst := isSome_change?_of_agrees (h e (by simp)) (hcurrent e (by simp))
    simp only [List.countP_cons]
    omega

theorem unresolved_of_agrees (h : Agrees top (resolution dry e) (resolution full e)) :
    (resolution full e == .unresolved) = (resolution dry e == .unresolved) := by
  generalize resolution dry e = d at h
  generalize resolution full e = r at h
  cases h <;> rfl

/-- Counts of a change set that a dry run computes and of one that a full run computes. -/
theorem compute_of_agrees (h : ∀ e ∈ edges, Agrees top (resolution dry e) (resolution full e))
    (hcurrent : ∀ e ∈ edges, e.currentGroup ≤ top) :
    (compute edges dry f).toUpdate = (compute edges full f).changes.length ∧
      (compute edges dry f).unresolved.length = (compute edges full f).unresolved.length := by
  constructor
  · rw [toUpdate, length_changes, length_changes,
      countP_change?_of_agrees (fun e he => h e (List.mem_of_mem_filter he))
        fun e he => hcurrent e (List.mem_of_mem_filter he)]
    simp only [compute_eq, length_idsOf]
  · simp only [compute_eq, length_idsOf]
    refine List.countP_congr fun e he => ?_
    rw [unresolved_of_agrees (h e (List.mem_of_mem_filter he))]

end ChangeSet

namespace Memory

open Attempt

theorem Course.foreseen_upserted {p : Course}
    (hnames : (p.tables.groups.map fun g => (g.owner, g.name)).Nodup) :
    ∃ olds news, p.upserted = olds ++ news ∧
      Foreseen (largestId p.tables.groups) olds news p.preview := by
  have hstart : Foreseen (largestId p.tables.groups) p.tables.groups [] (p.tables.groups, []) :=
    ⟨rfl, hnames, rfl, rfl, by simp, by simp⟩
  obtain ⟨olds, news, heq, h⟩ :=
    @Foreseen.foldl_upsertGroup _ p.options.defaultGroupName _ _ _ _ hstart owner_inserts_nodup
      (by simp)
  rw [List.append_nil] at heq
  rw [map_owner_inserts] at h
  exact ⟨olds, news, heq, h⟩

theorem Course.agrees {p : Course} (hids : (p.tables.groups.map Group.id).Nodup)
    (hnames : (p.tables.groups.map fun g => (g.owner, g.name)).Nodup)
    (hmemberships : ∀ m ∈ p.tables.memberships, m.groupId ≤ largestId p.tables.groups) (e : Edge) :
    Agrees (largestId p.tables.groups)
      (ChangeSet.resolution
        ((Snapshot.build p.preview.1 p.tables.memberships).planMissing p.preview.2) e)
      (ChangeSet.resolution p.snapshot e) := by
  obtain ⟨olds, news, heq, h⟩ := foreseen_upserted hnames
  have hstanding := Refreshed.map_standing_eq (provisioned_refreshed hids)
  have hresolve := Snapshot.resolve_build_congr hstanding p.tables.memberships e.owner e.counterpart
  rw [ChangeSet.resolution, ChangeSet.resolution, snapshot, ← hresolve, heq]
  exact h.agrees hmemberships _ _

/-- The report of a dry run next to the report of a full run. -/
structure Forecasts (dry full : Report) : Prop where
  candidateOwners : dry.candidateOwners = full.candidateOwners
  edgesScanned : dry.edgesScanned = full.edgesScanned
  edgesFilteredOut : dry.edgesFilteredOut = full.edgesFilteredOut
  unresolved : dry.unresolved = full.unresolved
  groupsMissing : dry.groupsMissing = full.groupsInserted
  groupsExisting : dry.groupsExisting = full.groupsRefreshed
  toUpdate : dry.toUpdate = full.updated
  awaitingDefault : full.awaitingDefault = 0

theorem Course.forecasts {p : Course} (hids : (p.tables.groups.map Group.id).Nodup)
    (hnames : (p.tables.groups.map fun g => (g.owner, g.name)).Nodup)
    (hmemberships : ∀ m ∈ p.tables.memberships, m.groupId ≤ largestId p.tables.groups)
    (hedges : ∀ e ∈ p.tables.edges, e.currentGroup ≤ largestId p.tables.groups)
    (stamp stamp' : Stamp) : Forecasts (p.forecast stamp') (p.report stamp) := by
  obtain ⟨hupdate, hunresolved⟩ := @ChangeSet.compute_of_agrees _ _ _ _ p.options.filter
    (fun e _ => agrees hids hnames hmemberships e) hedges
  have hscanned : (p.forecast stamp').edgesScanned = (p.report stamp).edgesScanned :=
    (ChangeSet.scanned_compute ..).trans (ChangeSet.scanned_compute ..).symm
  have hfiltered : (p.forecast stamp').edgesFilteredOut = (p.report stamp).edgesFilteredOut :=
    (ChangeSet.filteredOut_compute ..).trans (ChangeSet.filteredOut_compute ..).symm
  exact ⟨rfl, hscanned, hfiltered, hunresolved, rfl, rfl, hupdate,
    ChangeSet.length_awaitingDefault_build _ _⟩

/-- Whenever a full run succeeds the dry run from the same store succeeds too, and its counts are
those of the full run. Ids that no group has yet must not be in use. -/
theorem dry_run_forecasts {o : Options} {stamp : Stamp} {w w' before : World} {r : Report}
    (hfull : o.dryRun = false) (hids : (w.store.tables.groups.map Group.id).Nodup)
    (hnames : (w.store.tables.groups.map fun g => (g.owner, g.name)).Nodup)
    (hmemberships : ∀ m ∈ w.store.tables.memberships, m.groupId ≤ largestId w.store.tables.groups)
    (hedges : ∀ e ∈ w.store.tables.edges, e.currentGroup ≤ largestId w.store.tables.groups)
    (hrun : (reconcile service o stamp).outcome w = (.ok r, w'))
    (hsame : before.store = w.store) (stamp' : Stamp) :
    ∃ d after,
      (reconcile service { o with dryRun := true } stamp').outcome before = (.ok d, after) ∧
      Forecasts d r := by
  obtain ⟨rfl, -, -, hbegin, hload, -⟩ := reconcile_eq_ok hfull hrun
  obtain ⟨store, work, counters⟩ := before
  subst hsame
  have hdry := @reconcile_dry { o with dryRun := true } ⟨w.store, work, counters⟩ rfl hbegin hload
    stamp'
  refine ⟨_, _, hdry, ?_⟩
  have h := @Course.forecasts (w.course o) hids hnames hmemberships hedges stamp stamp'
  exact ⟨h.candidateOwners, h.edgesScanned, h.edgesFilteredOut, h.unresolved, h.groupsMissing,
    h.groupsExisting, h.toUpdate, h.awaitingDefault⟩

/-- One default group is to be revived, with an edge in it already, and one is to be created. -/
def halfProvisioned : World :=
  { store := .ofTables
      { groups := [(Group.new 1 "ada" defaultGroupName true).deleted, .new 2 "bob" "work" false]
        memberships := [.new 2 "bob" "eve"]
        edges := [(Edge.new 1 "ada" "bob").inGroup 1, .new 2 "ada" "eve", .new 3 "bob" "ada",
          .new 4 "bob" "eve"] } }

theorem dry_run_forecasts_halfProvisioned : ∃ r w' d after,
    (reconcile service {} default).outcome halfProvisioned = (.ok r, w') ∧
    (reconcile service { dryRun := true } default).outcome halfProvisioned = (.ok d, after) ∧
    Forecasts d r := by
  obtain ⟨r, hrun⟩ := @exists_eq_ok _ _ (reconcile service {} default) halfProvisioned (by cbv)
  obtain ⟨d, after, hdry, h⟩ := dry_run_forecasts rfl (by decide) (by decide) (by decide)
    (by decide) hrun rfl default
  exact ⟨r, _, d, after, hrun, hdry, h⟩

end Memory

end Regroup
