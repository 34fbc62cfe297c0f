import Regroup.Proofs.DefaultGroups
import Regroup.Proofs.Idempotence

/-! A repair in two parts. Two runs that share the edges out between them leave the edges in the
groups where one run over all edges leaves them, and the same groups but for versions: the second of
the two finds everyone provided for, so it adds nothing to groups and compares its edges with what the
first compared them with. -/

namespace Regroup

def Group.unversioned (g : Group) : Group := { g with version := none }

theorem Group.map_standing_of_unversioned {groups groups' : List Group}
    (h : groups.map unversioned = groups'.map unversioned) :
    groups.map standing = groups'.map standing := by
  have hmap := congrArg (List.map standing) h
  rw [List.map_map, List.map_map] at hmap
  exact hmap

section Unversioned

variable {name : String} {groups groups' : List Group}

theorem Tables.upsertGroup_unversioned {row row' : GroupInsert}
    (h : groups.map Group.unversioned = groups'.map Group.unversioned)
    (howner : row.owner = row'.owner) :
    (upsertGroup name groups row).map Group.unversioned =
      (upsertGroup name groups' row').map Group.unversioned := by
  have hstamp : ∀ (v : Int) (gs : List Group),
      (modifyFirst (Group.holds row'.owner name) (Group.stamp v) gs).map Group.unversioned =
        modifyFirst (Group.holds row'.owner name) Group.revive (gs.map Group.unversioned) := by
    intro v gs
    apply map_modifyFirst
    · intro g
      rfl
    · intro g _
      rfl
  have hany : groups.any (Group.holds row'.owner name) =
      groups'.any (Group.holds row'.owner name) := by
    have hmap := congrArg (List.any · (Group.holds row'.owner name)) h
    rw [List.any_map, List.any_map] at hmap
    exact hmap
  have hnext : nextGroupId groups = nextGroupId groups' := by
    unfold nextGroupId
    rw [map_id_congr (Group.map_standing_of_unversioned h)]
  unfold upsertGroup
  rw [howner, hany]
  by_cases hheld : groups'.any (Group.holds row'.owner name) = true
  · rw [if_pos hheld, if_pos hheld, hstamp, hstamp, h]
  · rw [if_neg hheld, if_neg hheld, hnext, List.map_append, List.map_append, h]
    rfl

theorem Tables.foldl_upsertGroup_unversioned {rows rows' : List GroupInsert}
    (h : groups.map Group.unversioned = groups'.map Group.unversioned)
    (howners : rows.map GroupInsert.owner = rows'.map GroupInsert.owner) :
    (rows.foldl (upsertGroup name) groups).map Group.unversioned =
      (rows'.foldl (upsertGroup name) groups').map Group.unversioned := by
  induction rows generalizing rows' groups groups' with
  | nil =>
    obtain rfl := List.map_eq_nil_iff.mp howners.symm
    exact h
  | cons row rows ih =>
    cases rows' with
    | nil => simp at howners
    | cons row' rows' =>
      obtain ⟨howner, hrest⟩ := List.cons.inj howners
      rw [List.foldl_cons, List.foldl_cons]
      exact ih (upsertGroup_unversioned h howner) hrest

theorem Group.foldl_refresh_unversioned {rows rows' : List GroupRefresh}
    (h : groups.map unversioned = groups'.map unversioned)
    (hrows : rows.map GroupRefresh.groupId = rows'.map GroupRefresh.groupId) :
    (rows.foldl (fun gs r => modifyFirst (·.id == r.groupId) (stamp r.version) gs) groups).map
        unversioned =
      (rows'.foldl (fun gs r => modifyFirst (·.id == r.groupId) (stamp r.version) gs) groups').map
        unversioned := by
  have hstamp : ∀ (r : GroupRefresh) (gs : List Group),
      (modifyFirst (·.id == r.groupId) (stamp r.version) gs).map unversioned =
        modifyFirst (·.id == r.groupId) revive (gs.map unversioned) := by
    intro r gs
    apply map_modifyFirst
    · intro g
      rfl
    · intro g _
      rfl
  induction rows generalizing rows' groups groups' with
  | nil =>
    obtain rfl := List.map_eq_nil_iff.mp hrows.symm
    exact h
  | cons row rows ih =>
    cases rows' with
    | nil => simp at hrows
    | cons row' rows' =>
      obtain ⟨hrow, hrest⟩ := List.cons.inj hrows
      rw [List.foldl_cons, List.foldl_cons]
      refine ih ?_ hrest
      rw [hstamp, hstamp, hrow, h]

end Unversioned

/-- Where the refreshed groups have a deletion flag, the refreshing shows in versions alone. -/
theorem Refreshed.map_unversioned_eq {owners : List Uid} {groups groups' : List Group}
    (h : List.Forall₂ (Refreshed owners) groups groups')
    (hflag : ∀ g ∈ groups, g.isActiveDefault = true → g.owner ∈ owners → g.isDeleted = some false) :
    groups.map Group.unversioned = groups'.map Group.unversioned := by
  induction h with
  | nil => rfl
  | @cons g g' groups groups' hg _ ih =>
    have hsame : g.unversioned = g'.unversioned := by
      cases hg with
      | kept => rfl
      | stamped v hactive howner =>
        rw [Group.unversioned, Group.unversioned, hflag g List.mem_cons_self hactive howner]
    rw [List.map_cons, List.map_cons, hsame, ih fun x hx => hflag x (List.mem_cons_of_mem _ hx)]

/-- The same pass for the edges of another scope. -/
def Options.scoped (o : Options) (scope : EdgeScope) : Options :=
  { o with filter := { o.filter with scope } }

theorem Tables.mem_foldl_upsertGroup_inUse {name : String} {rows : List GroupInsert}
    {groups : List Group} {g : Group} (h : g ∈ rows.foldl (upsertGroup name) groups) :
    g ∈ groups ∨ g.isDeleted = some false := by
  induction rows generalizing groups with
  | nil => exact .inl h
  | cons row rows ih =>
    rcases ih h with h | hflag
    · unfold upsertGroup at h
      by_cases hheld : groups.any (Group.holds row.owner name) = true
      · rw [if_pos hheld] at h
        rcases mem_modifyFirst h with h | ⟨x, -, -, rfl⟩
        · exact .inl h
        · exact .inr rfl
      · rw [if_neg hheld] at h
        rcases List.mem_append.mp h with h | h
        · exact .inl h
        · rw [List.mem_singleton.mp h]
          exact .inr rfl
    · exact .inr hflag

namespace Memory

open Attempt

namespace Course

variable {p q s : Course}

/-- Which groups a run leaves but for versions is not up to its counters, nor to the edges it is
for. -/
theorem provisioned_unversioned (htables : p.tables = q.tables)
    (hprovisioning : p.options.provisioning = q.options.provisioning)
    (hname : p.options.defaultGroupName = q.options.defaultGroupName) :
    p.provisioned.groups.map Group.unversioned = q.provisioned.groups.map Group.unversioned := by
  have hplan : p.plan = q.plan := by
    rw [plan, plan, candidates, candidates, htables, hprovisioning]
  have hupserted : p.upserted.map Group.unversioned = q.upserted.map Group.unversioned := by
    rw [upserted, upserted, htables, hname]
    refine Tables.foldl_upsertGroup_unversioned rfl ?_
    rw [map_owner_inserts, map_owner_inserts, hplan]
  rw [provisioned_groups_eq, provisioned_groups_eq]
  refine Group.foldl_refresh_unversioned hupserted ?_
  rw [map_groupId_refreshes, map_groupId_refreshes, hplan]

/-- A run leaves no default group of its candidates without a deletion flag. -/
theorem isDeleted_provisioned (hids : (p.tables.groups.map Group.id).Nodup) {g : Group}
    (hg : g ∈ p.provisioned.groups) (hactive : g.isActiveDefault = true)
    (howner : g.owner ∈ p.candidates) : g.isDeleted = some false := by
  have hupserted : (p.upserted.map Group.id).Nodup := Tables.foldl_upsertGroup_nodup hids
  rw [provisioned_groups_eq, Group.foldl_refresh_eq_map _ hupserted] at hg
  obtain ⟨x, hx, rfl⟩ := List.mem_map.mp hg
  rcases Group.refreshedBy_cases groupId_refreshes_nodup x with ⟨hnone, heq⟩ | ⟨r, -, -, heq⟩
  · rw [heq] at hactive howner ⊢
    rcases Tables.mem_foldl_upsertGroup_inUse hx with hold | hflag
    -- an old default group of a candidate is refreshed
    · have hexisting : x.id ∈ p.plan.existingGroups :=
        mem_existingGroups.mpr ⟨x, hold, ⟨hactive, howner⟩, rfl⟩
      rw [← map_groupId_refreshes] at hexisting
      obtain ⟨r, hr, hid⟩ := List.mem_map.mp hexisting
      exact absurd hid.symm (hnone r hr)
    · exact hflag
  · rw [heq]
    rfl

/-- A run over the groups of another one for the same owners changes versions alone. -/
theorem provisioned_again (hids : (p.tables.groups.map Group.id).Nodup)
    (hgroups : q.tables.groups = p.provisioned.groups) (hcandidates : q.candidates = p.candidates) :
    q.provisioned.groups.map Group.unversioned = p.provisioned.groups.map Group.unversioned := by
  have hserved : ∀ owner ∈ q.candidates, (ownDefaults q.tables.groups owner).Nonempty := by
    intro owner howner
    rw [hcandidates] at howner
    rw [hgroups]
    exact provisioned_served howner
  have hnodup : (q.tables.groups.map Group.id).Nodup := by
    rw [hgroups]
    exact provisioned_nodup hids
  have hrefreshed := refreshed_of_served hserved hnodup
  rw [hgroups, hcandidates] at hrefreshed
  refine (Refreshed.map_unversioned_eq hrefreshed fun g hg hactive howner => ?_).symm
  exact isDeleted_provisioned hids hg hactive howner

section Fate

variable {e e' e'' : Edge}

/-- Runs that look at the same edge and put it in the same place do the same to it. -/
theorem Fate.groupId_eq (hp : p.Fate e e') (hq : q.Fate e e'')
    (haccept : p.options.filter.accepts e = q.options.filter.accepts e)
    (hresolve : ChangeSet.resolution p.snapshot e = ChangeSet.resolution q.snapshot e) :
    e'.groupId = e''.groupId := by
  have hchange := ChangeSet.change?_congr hresolve
  cases hp with
  | kept hnone =>
    rw [haccept, hchange] at hnone
    rw [hq.eq_self_of_change?_eq_none hnone]
  | moved v hlooked hfound =>
    rw [haccept] at hlooked
    rw [hchange] at hfound
    cases hq with
    | kept hnone => simp [hnone hlooked] at hfound
    | moved u _ hfound' => rw [Option.some.inj (hfound.symm.trans hfound')]

theorem Fate.accepts_eq (h : p.Fate e e') (f : EdgeFilter) : f.accepts e' = f.accepts e := by
  rw [← EdgeFilter.accepts_bearing, ← h.bearing_eq, EdgeFilter.accepts_bearing]

/-- Two runs one after the other that share out the edges of a third one. -/
structure Shares (p q s : Course) : Prop where
  each : ∀ e, s.options.filter.accepts e =
    (p.options.filter.accepts e || q.options.filter.accepts e)
  apart : ∀ e, p.options.filter.accepts e = true → q.options.filter.accepts e = false
  first : ∀ owner counterpart,
    p.snapshot.resolve owner counterpart = s.snapshot.resolve owner counterpart
  second : ∀ owner counterpart,
    q.snapshot.resolve owner counterpart = s.snapshot.resolve owner counterpart

/-- The edge ends where the third run leaves it, and one of the two has not touched it. -/
theorem Shares.joins {e₁ e₂ : Edge} (h : Shares p q s) (hp : p.Fate e e₁) (hq : q.Fate e₁ e₂)
    (hs : s.Fate e e') : e₂.id = e'.id ∧ e₂.groupId = e'.groupId ∧ (e₁ = e ∨ e₂ = e₁) := by
  have hid : e₂.id = e'.id := by rw [hq.keeps.1, hp.keeps.1, hs.keeps.1]
  have heach := h.each e
  by_cases haccept : p.options.filter.accepts e = true
  · have hreject : q.options.filter.accepts e₁ = false := by
      rw [hp.accepts_eq]
      exact h.apart e haccept
    have hkept : e₂ = e₁ := hq.eq_self_of_change?_eq_none fun hlooked => by simp [hreject] at hlooked
    have hsame : p.options.filter.accepts e = s.options.filter.accepts e := by
      rw [heach, haccept, Bool.true_or]
    have hgroup := hp.groupId_eq hs hsame (h.first e.owner e.counterpart)
    rw [hkept] at hid ⊢
    exact ⟨hid, hgroup, .inr rfl⟩
  · have hreject : p.options.filter.accepts e = false := Bool.eq_false_iff.mpr haccept
    have hkept : e₁ = e := hp.eq_self_of_change?_eq_none fun hlooked => absurd hlooked haccept
    have hsame : q.options.filter.accepts e = s.options.filter.accepts e := by
      rw [heach, hreject, Bool.false_or]
    rw [hkept] at hq
    exact ⟨hid, hq.groupId_eq hs hsame (h.second e.owner e.counterpart), .inl hkept⟩

theorem Shares.map_groupId_eq {edges edges₁ edges₂ edges' : List Edge} (h : Shares p q s)
    (hp : List.Forall₂ p.Fate edges edges₁) (hq : List.Forall₂ q.Fate edges₁ edges₂)
    (hs : List.Forall₂ s.Fate edges edges') :
    edges₂.map (fun e => (e.id, e.groupId)) = edges'.map fun e => (e.id, e.groupId) := by
  induction hp generalizing edges₂ edges' with
  | nil =>
    cases hq
    cases hs
    rfl
  | cons hfirst _ ih =>
    cases hq with
    | cons hsecond hq =>
      cases hs with
      | cons hthird hs =>
        obtain ⟨hid, hgroup, -⟩ := h.joins hfirst hsecond hthird
        rw [List.map_cons, List.map_cons, hid, hgroup, ih hq hs]

theorem Shares.untouched {edges edges₁ edges₂ edges' : List Edge} (h : Shares p q s)
    (hp : List.Forall₂ p.Fate edges edges₁) (hq : List.Forall₂ q.Fate edges₁ edges₂)
    (hs : List.Forall₂ s.Fate edges edges') {i : Nat} {e₁ e₂ : Edge} (he : edges[i]? = some e)
    (he₁ : edges₁[i]? = some e₁) (he₂ : edges₂[i]? = some e₂) : e₁ = e ∨ e₂ = e₁ := by
  obtain ⟨hi, rfl⟩ := List.getElem?_eq_some_iff.mp he
  obtain ⟨hi₁, rfl⟩ := List.getElem?_eq_some_iff.mp he₁
  obtain ⟨hi₂, rfl⟩ := List.getElem?_eq_some_iff.mp he₂
  have hfirst := (List.forall₂_iff_get.mp hp).2 i hi hi₁
  have hsecond := (List.forall₂_iff_get.mp hq).2 i hi₁ hi₂
  have hthird := (List.forall₂_iff_get.mp hs).2 i hi (hs.length_eq ▸ hi)
  exact (h.joins hfirst hsecond hthird).2.2

end Fate

/-- No edge is written by both of two runs that share the edges out. -/
theorem Shares.writes_disjoint (h : Shares p q s) (hids : (p.tables.edges.map Edge.id).Nodup)
    (hfate : List.Forall₂ p.Fate p.tables.edges q.tables.edges) :
    (p.writes.map EdgeWrite.edgeId).Disjoint (q.writes.map EdgeWrite.edgeId) := by
  intro id hp hq
  rw [map_edgeId_writes] at hp hq
  obtain ⟨c, hc, rfl⟩ := List.mem_map.mp hp
  obtain ⟨c', hc', hsame⟩ := List.mem_map.mp hq
  obtain ⟨e, he, haccept, hchange⟩ := ChangeSet.mem_changes.mp hc
  obtain ⟨e', he', haccept', hchange'⟩ := ChangeSet.mem_changes.mp hc'
  obtain ⟨x, hx, hxe⟩ := exists_of_mem_forall₂ hfate he'
  have hid : x.id = e.id := by
    rw [← (ChangeSet.change?_eq_some hchange).1, ← hsame, (ChangeSet.change?_eq_some hchange').1,
      hxe.keeps.1]
  obtain rfl := List.inj_on_of_nodup_map hids hx he hid
  rw [hxe.accepts_eq, h.apart x haccept] at haccept'
  cases haccept'

theorem edgeId_published_nodup (hedges : (p.tables.edges.map Edge.id).Nodup)
    (halone : p.strayEdge = none) : (p.published.edges.map Edge.id).Nodup := by
  have hids := congrArg (List.map Edge.id) (map_bearing_published hedges halone)
  rw [List.map_map, List.map_map] at hids
  exact Eq.substr hids hedges

section Scopes

variable {o : Options} {first second : EdgeScope} (hp : p.options = o.scoped first)
  (hq : q.options = o.scoped second) (hs : s.options = o.scoped .all)
  (hids : (p.tables.groups.map Group.id).Nodup) (hedges : (p.tables.edges.map Edge.id).Nodup)
  (halone : p.strayEdge = none) (hsame : s.tables = p.tables) (hnext : q.tables = p.published)

include hp hq hids hedges halone hnext in
theorem provisioned_next :
    q.provisioned.groups.map Group.unversioned = p.provisioned.groups.map Group.unversioned := by
  have hgroups : q.tables.groups = p.provisioned.groups := by rw [hnext, published_groups]
  have hcandidates : q.candidates = p.candidates := by
    rw [candidates, candidates, hp, hq, hnext]
    exact owners_congr published_users (map_bearing_published hedges halone)
  exact provisioned_again hids hgroups hcandidates

include hp hs hsame in
theorem provisioned_scoped :
    p.provisioned.groups.map Group.unversioned = s.provisioned.groups.map Group.unversioned := by
  apply provisioned_unversioned hsame.symm
  · rw [hp, hs]
    rfl
  · rw [hp, hs]
    rfl

include hp hq hs hids hedges halone hsame hnext in
theorem shares (hscopes : ∀ e, first.accepts e = !second.accepts e) : Shares p q s := by
  have hscoped := provisioned_scoped hp hs hsame
  have hlater := (provisioned_next hp hq hids hedges halone hnext).trans hscoped
  have hmemberships : q.tables.memberships = p.tables.memberships := by
    rw [hnext, published_memberships]
  refine ⟨fun e => ?_, fun e haccept => ?_, fun owner counterpart => ?_, fun owner counterpart => ?_⟩
  · have hall : EdgeScope.all.accepts e = true := rfl
    rw [hp, hq, hs]
    simp only [Options.scoped, EdgeFilter.accepts, hall, hscopes]
    cases second.accepts e <;> simp
  · rw [hp] at haccept
    rw [hq]
    simp only [Options.scoped, EdgeFilter.accepts, hscopes, Bool.and_eq_true, Bool.not_eq_true']
      at haccept ⊢
    rw [haccept.1, Bool.false_and]
  · have hstanding := Group.map_standing_of_unversioned hscoped
    rw [snapshot, snapshot, hsame]
    exact Snapshot.resolve_build_congr hstanding _ owner counterpart
  · have hstanding := Group.map_standing_of_unversioned hlater
    rw [snapshot, snapshot, hmemberships, hsame]
    exact Snapshot.resolve_build_congr hstanding _ owner counterpart

end Scopes

end Course

/-- Two full runs from the same tables on, one for each scope, that no one disturbs. -/
structure TwoRuns (o : Options) (first second : EdgeScope) (start : Tables) where
  one : FullRun (o.scoped first)
  two : FullRun (o.scoped second)
  starts : one.before.store.tables = start
  follows : two.before.store.tables = one.after.store.tables
  alone : one.before.store.interfereWith = none ∧ two.before.store.interfereWith = none

namespace TwoRuns

variable {o : Options} {first second : EdgeScope} {start : Tables}

/-- Both runs together do to edges and groups what a run for all edges does, but for versions, and
each edge is written by one of them at most. -/
structure AmountsTo (runs : TwoRuns o first second start) (whole : FullRun (o.scoped .all)) :
    Prop where
  edges : runs.two.after.store.tables.edges.map (fun e => (e.id, e.groupId)) =
    whole.after.store.tables.edges.map fun e => (e.id, e.groupId)
  groups : runs.two.after.store.tables.groups.map Group.unversioned =
    whole.after.store.tables.groups.map Group.unversioned
  untouched : ∀ (i : Nat) (e e₁ e₂ : Edge), start.edges[i]? = some e →
    runs.one.after.store.tables.edges[i]? = some e₁ →
    runs.two.after.store.tables.edges[i]? = some e₂ → e₁ = e ∨ e₂ = e₁
  disjoint : ((runs.one.before.course (o.scoped first)).writes.map EdgeWrite.edgeId).Disjoint
    ((runs.two.before.course (o.scoped second)).writes.map EdgeWrite.edgeId)

theorem amountsTo (runs : TwoRuns o first second start) {whole : FullRun (o.scoped .all)}
    (hscopes : ∀ e, first.accepts e = !second.accepts e)
    (hids : (start.groups.map Group.id).Nodup) (hedges : (start.edges.map Edge.id).Nodup)
    (hwhole : whole.before.store.tables = start)
    (halone : whole.before.store.interfereWith = none) : runs.AmountsTo whole := by
  obtain ⟨one, two, rfl, hfollows, halone₁, halone₂⟩ := runs
  have hnext : (two.before.course (o.scoped second)).tables =
      (one.before.course (o.scoped first)).published := hfollows.trans one.tables_after
  have hsame : (whole.before.course (o.scoped .all)).tables =
      (one.before.course (o.scoped first)).tables := hwhole
  have hfate₁ := @Course.published_edges (one.before.course (o.scoped first)) hedges halone₁
  have hedges₂ : ((two.before.course (o.scoped second)).tables.edges.map Edge.id).Nodup := by
    rw [hnext]
    exact Course.edgeId_published_nodup hedges halone₁
  have hfate₂ := Course.published_edges hedges₂ halone₂
  have hfate : List.Forall₂ (whole.before.course (o.scoped .all)).Fate
      (one.before.course (o.scoped first)).tables.edges
      (whole.before.course (o.scoped .all)).published.edges := by
    rw [← hsame]
    exact Course.published_edges (by rw [hsame]; exact hedges) halone
  have hp : (one.before.course (o.scoped first)).options = o.scoped first := rfl
  have hq : (two.before.course (o.scoped second)).options = o.scoped second := rfl
  have hs : (whole.before.course (o.scoped .all)).options = o.scoped .all := rfl
  have hshares := Course.shares hp hq hs hids hedges halone₁ hsame hnext hscopes
  have hgroups := (Course.provisioned_next hp hq hids hedges halone₁ hnext).trans
    (Course.provisioned_scoped hp hs hsame)
  have hdisjoint := hshares.writes_disjoint hedges (by rw [hnext]; exact hfate₁)
  rw [hnext] at hfate₂
  refine ⟨?_, ?_, fun i e e₁ e₂ he he₁ he₂ => ?_, hdisjoint⟩
  · rw [two.tables_after, whole.tables_after]
    exact hshares.map_groupId_eq hfate₁ hfate₂ hfate
  · rw [two.tables_after, whole.tables_after, Course.published_groups, Course.published_groups]
    exact hgroups
  · rw [one.tables_after] at he₁
    rw [two.tables_after] at he₂
    exact hshares.untouched hfate₁ hfate₂ hfate he he₁ he₂

end TwoRuns

/-- A run for edges in use and one for deleted edges, in either order, do what one run for all edges
does. -/
theorem partial_repairs_compose {o : Options} {start : Tables}
    (hids : (start.groups.map Group.id).Nodup) (hedges : (start.edges.map Edge.id).Nodup)
    (activeFirst : TwoRuns o .activeOnly .deletedOnly start)
    (deletedFirst : TwoRuns o .deletedOnly .activeOnly start)
    {whole : FullRun (o.scoped .all)} (hwhole : whole.before.store.tables = start)
    (halone : whole.before.store.interfereWith = none) :
    activeFirst.AmountsTo whole ∧ deletedFirst.AmountsTo whole := by
  have hdeleted : ∀ e, EdgeScope.deletedOnly.accepts e = !EdgeScope.activeOnly.accepts e :=
    fun _ => rfl
  have hactive : ∀ e, EdgeScope.activeOnly.accepts e = !EdgeScope.deletedOnly.accepts e := by
    intro e
    rw [hdeleted, Bool.not_not]
  exact ⟨activeFirst.amountsTo hactive hids hedges hwhole halone,
    deletedFirst.amountsTo hdeleted hids hedges hwhole halone⟩

/-- Of the edges one is in use, one is deleted, one has no deletion flag and one is never regrouped;
of the owners one has a default group without a deletion flag and the other one has none. -/
def sundered : World :=
  { store := .ofTables
      { users := ["ada", "cyd"]
        groups := [.new 4 "ada" "work" false,
          { Group.new 7 "ada" "Friends" true with isDeleted := none }]
        memberships := [.new 4 "ada" "bob"]
        edges := [.new 1 "ada" "bob", (Edge.new 2 "cyd" "eve").deleted,
          { Edge.new 3 "ada" "eve" with isDeleted := none }, .new 5 "cyd" "mallory"] } }

def sparing : Options := { filter := { excluded := ["mallory"] } }

theorem partial_repairs_compose_sundered :
    ∃ (activeFirst : TwoRuns sparing .activeOnly .deletedOnly sundered.store.tables)
      (deletedFirst : TwoRuns sparing .deletedOnly .activeOnly sundered.store.tables)
      (whole : FullRun (sparing.scoped .all)),
      whole.before = sundered ∧
      whole.after.store.tables.edges.map Edge.groupId = [some 4, some 8, some 7, none] ∧
      activeFirst.AmountsTo whole ∧ deletedFirst.AmountsTo whole := by
  obtain ⟨r, hr⟩ := @exists_eq_ok _ _ (reconcile service (sparing.scoped .activeOnly) default)
    sundered (by cbv)
  obtain ⟨r', hr'⟩ := @exists_eq_ok _ _ (reconcile service (sparing.scoped .deletedOnly) default)
    ((reconcile service (sparing.scoped .activeOnly) default).outcome sundered).2 (by cbv)
  obtain ⟨q, hq⟩ := @exists_eq_ok _ _ (reconcile service (sparing.scoped .deletedOnly) default)
    sundered (by cbv)
  obtain ⟨q', hq'⟩ := @exists_eq_ok _ _ (reconcile service (sparing.scoped .activeOnly) default)
    ((reconcile service (sparing.scoped .deletedOnly) default).outcome sundered).2 (by cbv)
  obtain ⟨s, hs⟩ := @exists_eq_ok _ _ (reconcile service (sparing.scoped .all) default)
    sundered (by cbv)
  let activeFirst : TwoRuns sparing .activeOnly .deletedOnly sundered.store.tables :=
    ⟨⟨default, _, r, _, rfl, hr⟩, ⟨default, _, r', _, rfl, hr'⟩, rfl, rfl, rfl,
      by rw [(reconcile_eq_ok rfl hr).2.2.1]; rfl⟩
  let deletedFirst : TwoRuns sparing .deletedOnly .activeOnly sundered.store.tables :=
    ⟨⟨default, _, q, _, rfl, hq⟩, ⟨default, _, q', _, rfl, hq'⟩, rfl, rfl, rfl,
      by rw [(reconcile_eq_ok rfl hq).2.2.1]; rfl⟩
  let whole : FullRun (sparing.scoped .all) := ⟨default, _, s, _, rfl, hs⟩
  have hwhole : whole.before = sundered := rfl
  obtain ⟨hactive, hdeleted⟩ := partial_repairs_compose (by decide) (by decide) activeFirst
    deletedFirst (congrArg (·.store.tables) hwhole) (congrArg (·.store.interfereWith) hwhole)
  exact ⟨activeFirst, deletedFirst, whole, rfl, by cbv, hactive, hdeleted⟩

end Memory

end Regroup
