import Regroup.Proofs.ByteOrder
import Regroup.Proofs.Repair
import Regroup.Proofs.Upserts

/-! What a full run makes of groups. Whoever is selected and has no default group receives one,
under the name that was chosen; whoever has some keeps them. A group is told apart by its id and also
by its owner and name, so a row is touched once at most, by the insert of its owner or by the refresh
of its id. -/

namespace Regroup

namespace Group

/-- What a batch of inserts makes of a group. -/
def revivedBy (name : String) (rows : List GroupInsert) (g : Group) : Group :=
  rows.foldl (fun g r => if g.holds r.owner name then g.stamp r.version else g) g

/-- What a batch of refreshes makes of a group. -/
def refreshedBy (rows : List GroupRefresh) (g : Group) : Group :=
  rows.foldl (fun g r => if g.id == r.groupId then g.stamp r.version else g) g

section Batch

variable {name : String} {groups : List Group}

theorem foldl_revive_eq_map (rows : List GroupInsert)
    (hnames : (groups.map fun g => (g.owner, g.name)).Nodup) :
    rows.foldl (fun gs r => modifyFirst (holds r.owner name) (stamp r.version) gs) groups =
      groups.map (revivedBy name rows) := by
  have hkept (r : GroupInsert) (g : Group) :
      ((g.stamp r.version).owner, (g.stamp r.version).name) = (g.owner, g.name) := rfl
  have hkey (r : GroupInsert) (g : Group) (h : g.holds r.owner name = true) :
      (r.owner, name) = (g.owner, g.name) := by
    obtain ⟨howner, hname⟩ := holds_iff.mp h
    rw [howner, hname]
  exact @foldl_modifyFirst_eq_map _ _ _ (fun g => (g.owner, g.name)) (fun r => (r.owner, name)) _ _
    hkept hkey rows groups hnames

theorem revivedBy_cases {rows : List GroupInsert} (hrows : (rows.map GroupInsert.owner).Nodup)
    (g : Group) : (∀ r ∈ rows, g.holds r.owner name = false) ∧ g.revivedBy name rows = g ∨
      ∃ r ∈ rows, g.holds r.owner name = true ∧ g.revivedBy name rows = g.stamp r.version := by
  have hkept (r : GroupInsert) (g : Group) : (g.stamp r.version).owner = g.owner := rfl
  have hkey (r : GroupInsert) (g : Group) (h : g.holds r.owner name = true) : r.owner = g.owner :=
    (holds_iff.mp h).1.symm
  exact foldl_ite_cases hkept hkey hrows g

theorem foldl_refresh_eq_map (rows : List GroupRefresh) (hids : (groups.map id).Nodup) :
    rows.foldl (fun gs r => modifyFirst (·.id == r.groupId) (stamp r.version) gs) groups =
      groups.map (refreshedBy rows) :=
  foldl_modifyFirst_eq_map GroupRefresh.id_stamp GroupRefresh.groupId_eq rows hids

theorem refreshedBy_cases {rows : List GroupRefresh} (hrows : (rows.map GroupRefresh.groupId).Nodup)
    (g : Group) : (∀ r ∈ rows, g.id ≠ r.groupId) ∧ g.refreshedBy rows = g ∨
      ∃ r ∈ rows, g.id = r.groupId ∧ g.refreshedBy rows = g.stamp r.version := by
  rcases foldl_ite_cases GroupRefresh.id_stamp GroupRefresh.groupId_eq hrows g
    with ⟨hnone, heq⟩ | ⟨r, hr, hid, heq⟩
  · exact .inl ⟨fun r hr => beq_eq_false_iff_ne.mp (hnone r hr), heq⟩
  · exact .inr ⟨r, hr, beq_iff_eq.mp hid, heq⟩

end Batch

end Group

namespace Memory

open Attempt

namespace Course

variable {p : Course}

/-- What becomes of a group that was there before. -/
def became (p : Course) (g : Group) : Group :=
  (g.revivedBy p.options.defaultGroupName p.inserts).refreshedBy p.refreshes

/-- The rows that are added. -/
def added (p : Course) : List Group :=
  Tables.newGroups p.options.defaultGroupName (largestId p.tables.groups + 1)
    (Tables.unheld p.options.defaultGroupName p.tables.groups p.inserts)

/-- A group is revived by the insert of its owner, who had no default group, or refreshed as a default
group, or left alone. -/
inductive Treated (p : Course) : Group → Group → Prop
  | kept {g : Group} (hinsert : ∀ r ∈ p.inserts, g.holds r.owner p.options.defaultGroupName = false)
      (hrefresh : ∀ r ∈ p.refreshes, g.id ≠ r.groupId) : Treated p g g
  | revived {g : Group} {r : GroupInsert} (hr : r ∈ p.inserts)
      (hholds : g.holds r.owner p.options.defaultGroupName = true)
      (hmissing : g.owner ∈ p.plan.missingOwners) : Treated p g (g.stamp r.version)
  | refreshed {g : Group} {r : GroupRefresh} (hr : r ∈ p.refreshes) (hid : g.id = r.groupId)
      (hactive : g.isActiveDefault = true) (hcand : g.owner ∈ p.candidates) :
      Treated p g (g.stamp r.version)

theorem not_default_of_missing {g : Group} (hg : g ∈ p.tables.groups)
    (howner : g.owner ∈ p.plan.missingOwners) : ¬ g.isActiveDefault = true := by
  intro hactive
  have hmem : g.id ∈ ownDefaults p.tables.groups g.owner := ⟨g, hg, hactive, rfl, rfl⟩
  rw [(mem_missingOwners.mp howner).2] at hmem
  exact hmem

theorem upserted_eq (hnames : (p.tables.groups.map fun g => (g.owner, g.name)).Nodup) : p.upserted =
    p.tables.groups.map (Group.revivedBy p.options.defaultGroupName p.inserts) ++ p.added := by
  rw [upserted, Tables.foldl_upsertGroup_eq owner_inserts_nodup, Group.foldl_revive_eq_map _ hnames]
  rfl

theorem mem_added {g : Group} (hg : g ∈ p.added) : g.owner ∈ p.plan.missingOwners ∧
    g.isActiveDefault = true ∧ g.name = p.options.defaultGroupName ∧ ∀ x ∈ p.tables.groups,
      x.holds g.owner p.options.defaultGroupName = false ∧ x.id < g.id := by
  obtain ⟨⟨hlow, -⟩, r, hr, heq⟩ := Tables.mem_newGroups hg
  obtain ⟨hinsert, hnone⟩ := List.mem_filter.mp hr
  have howner : g.owner = r.owner := by rw [heq]; rfl
  rw [howner]
  refine ⟨owner_mem_missing hinsert, by rw [heq]; rfl, by rw [heq]; rfl, fun x hx => ⟨?_, ?_⟩⟩
  · have hnone : ∀ x ∈ p.tables.groups, ¬ x.holds r.owner p.options.defaultGroupName = true := by
      simpa using hnone
    exact Bool.eq_false_iff.mpr (hnone x hx)
  · exact Int.lt_of_le_of_lt (le_largestId hx) (Int.lt_of_lt_of_le (Int.lt_succ _) hlow)

section Keys

variable (hids : (p.tables.groups.map Group.id).Nodup)

include hids

theorem default_of_existing {g : Group} (hg : g ∈ p.tables.groups)
    (hid : g.id ∈ p.plan.existingGroups) : g.isActiveDefault = true ∧ g.owner ∈ p.candidates := by
  obtain ⟨x, hx, hdefault, hxid⟩ := mem_existingGroups.mp hid
  obtain rfl := List.inj_on_of_nodup_map hids hx hg hxid
  exact hdefault

theorem treated_became {g : Group} (hg : g ∈ p.tables.groups) : p.Treated g (p.became g) := by
  unfold became
  rcases Group.revivedBy_cases owner_inserts_nodup g with ⟨hinsert, heq⟩ | ⟨q, hq, hholds, heq⟩
  · rw [heq]
    rcases Group.refreshedBy_cases groupId_refreshes_nodup g
      with ⟨hrefresh, heq⟩ | ⟨r, hr, hid, heq⟩
    · rw [heq]
      exact .kept hinsert hrefresh
    · obtain ⟨hactive, hcand⟩ := default_of_existing hids hg (hid ▸ groupId_mem_existing hr)
      rw [heq]
      exact .refreshed hr hid hactive hcand
  · have hmissing : g.owner ∈ p.plan.missingOwners := by
      rw [(Group.holds_iff.mp hholds).1]
      exact owner_mem_missing hq
    rw [heq]
    rcases Group.refreshedBy_cases groupId_refreshes_nodup (g.stamp q.version)
      with ⟨-, heq⟩ | ⟨r, hr, hid, -⟩
    · rw [heq]
      exact .revived hq hholds hmissing
    -- a row that is refreshed was a default group, so its owner was not missing
    · have hactive := (default_of_existing hids hg (hid ▸ groupId_mem_existing hr)).1
      exact absurd hactive (not_default_of_missing hg hmissing)

variable (hnames : (p.tables.groups.map fun g => (g.owner, g.name)).Nodup)

include hnames

/-- The previous rows stay where they are and the rows that are added come after them. -/
theorem provisioned_rows : p.provisioned.groups = p.tables.groups.map p.became ++ p.added := by
  have hupserted : (p.upserted.map Group.id).Nodup := Tables.foldl_upsertGroup_nodup hids
  have hadded : ∀ g ∈ p.added, g.refreshedBy p.refreshes = g := by
    intro g hg
    rcases Group.refreshedBy_cases groupId_refreshes_nodup g with ⟨-, heq⟩ | ⟨r, hr, hid, -⟩
    · exact heq
    · have hmem : g ∈ p.upserted := by
        rw [upserted_eq hnames]
        exact List.mem_append_right _ hg
      have hmissing := (mem_added hg).1
      exact absurd (hid ▸ groupId_mem_existing hr) (notMem_existingGroups hids hmem hmissing)
  rw [provisioned_groups_eq, Group.foldl_refresh_eq_map _ hupserted, upserted_eq hnames,
    List.map_append, List.map_map, List.map_congr_left hadded, List.map_id']
  rfl

theorem mem_provisioned {g : Group} (hg : g ∈ p.provisioned.groups) :
    (∃ x ∈ p.tables.groups, p.Treated x g) ∨ g ∈ p.added := by
  rw [provisioned_rows hids hnames] at hg
  refine (List.mem_append.mp hg).imp_left fun hold => ?_
  obtain ⟨x, hx, rfl⟩ := List.mem_map.mp hold
  exact ⟨x, hx, treated_became hids hx⟩

theorem became_mem {g : Group} (hg : g ∈ p.tables.groups) : p.became g ∈ p.provisioned.groups := by
  rw [provisioned_rows hids hnames]
  exact List.mem_append_left _ (List.mem_map_of_mem hg)

theorem exists_provided {r : GroupInsert} (hr : r ∈ p.inserts) :
    ∃ g ∈ p.provisioned.groups, g.isActiveDefault = true ∧
      g.holds r.owner p.options.defaultGroupName = true ∧ g.version = some r.version ∧
      ((∃ x ∈ p.tables.groups, x.holds r.owner p.options.defaultGroupName = true ∧ x.id = g.id) ∨
        ∀ x ∈ p.tables.groups,
          x.holds r.owner p.options.defaultGroupName = false ∧ x.id < g.id) := by
  by_cases hheld : ∃ x ∈ p.tables.groups, x.holds r.owner p.options.defaultGroupName = true
  · obtain ⟨x, hx, hholds⟩ := hheld
    have hmem := became_mem hids hnames hx
    have htreated := treated_became hids hx
    generalize p.became x = g at hmem htreated
    cases htreated with
    | kept hinsert => simp [hinsert r hr] at hholds
    | @revived q hq hholds' =>
      have howner : q.owner = r.owner :=
        (Group.holds_iff.mp hholds').1.symm.trans (Group.holds_iff.mp hholds).1
      obtain rfl := List.inj_on_of_nodup_map owner_inserts_nodup hq hr howner
      exact ⟨_, hmem, rfl, hholds, rfl, .inl ⟨x, hx, hholds, rfl⟩⟩
    | refreshed _ _ hactive =>
      refine absurd hactive (not_default_of_missing hx ?_)
      rw [(Group.holds_iff.mp hholds).1]
      exact owner_mem_missing hr
  · have hnone : p.tables.groups.any (Group.holds r.owner p.options.defaultGroupName) = false := by
      rw [List.any_eq_false]
      exact fun x hx hholds => hheld ⟨x, hx, hholds⟩
    have hrow : r ∈ Tables.unheld p.options.defaultGroupName p.tables.groups p.inserts :=
      List.mem_filter.mpr ⟨hr, by simp [hnone]⟩
    obtain ⟨g, hg, heq⟩ : ∃ g ∈ p.added, g =
        (Group.new g.id r.owner p.options.defaultGroupName true).stamp r.version :=
      Tables.exists_mem_newGroups hrow
    obtain ⟨-, hactive, hname, hfresh⟩ := mem_added hg
    have howner : g.owner = r.owner := by rw [heq]; rfl
    rw [howner] at hfresh
    refine ⟨g, ?_, hactive, Group.holds_iff.mpr ⟨howner, hname⟩, by rw [heq]; rfl, .inr hfresh⟩
    rw [provisioned_rows hids hnames]
    exact List.mem_append_right _ hg

theorem exists_restamped {r : GroupRefresh} (hr : r ∈ p.refreshes) :
    ∃ g ∈ p.provisioned.groups, g.id = r.groupId ∧ g.version = some r.version := by
  obtain ⟨x, hx, ⟨hactive, -⟩, hid⟩ := mem_existingGroups.mp (groupId_mem_existing hr)
  have hmem := became_mem hids hnames hx
  have htreated := treated_became hids hx
  generalize p.became x = g at hmem htreated
  cases htreated with
  | kept _ hrefresh => exact absurd hid (hrefresh r hr)
  | revived _ _ hmissing => exact absurd hactive (not_default_of_missing hx hmissing)
  | refreshed hq hid' =>
    obtain rfl := List.inj_on_of_nodup_map groupId_refreshes_nodup hq hr (hid'.symm.trans hid)
    exact ⟨_, hmem, hid, rfl⟩

/-- What is an active default group of a missing owner now, and was there, holds the name. -/
theorem default_of_missing {owner : Uid} (howner : owner ∈ p.plan.missingOwners) {g : Group}
    (hg : g ∈ p.provisioned.groups) (hactive : g.isActiveDefault = true) (hown : g.owner = owner) :
    (∃ x ∈ p.tables.groups, x.holds owner p.options.defaultGroupName = true ∧ x.id = g.id) ∨
      g ∈ p.added := by
  refine (mem_provisioned hids hnames hg).imp_left ?_
  rintro ⟨x, hx, htreated⟩
  cases htreated with
  | kept => exact absurd hactive (not_default_of_missing hx (hown ▸ howner))
  | revived _ hholds =>
    exact ⟨x, hx, Group.holds_iff.mpr ⟨hown, (Group.holds_iff.mp hholds).2⟩, rfl⟩
  | refreshed _ _ hbefore =>
    have hsame : x.owner = owner := hown
    exact absurd hbefore (not_default_of_missing hx (hsame ▸ howner))

theorem default_of_missing_unique {owner : Uid} (howner : owner ∈ p.plan.missingOwners)
    {g g' : Group} (hg : g ∈ p.provisioned.groups) (hactive : g.isActiveDefault = true)
    (hown : g.owner = owner) (hg' : g' ∈ p.provisioned.groups)
    (hactive' : g'.isActiveDefault = true) (hown' : g'.owner = owner) : g' = g := by
  have hid : g'.id = g.id := by
    rcases default_of_missing hids hnames howner hg hactive hown,
      default_of_missing hids hnames howner hg' hactive' hown'
      with ⟨⟨x, hx, hholds, hxid⟩ | hnew, ⟨x', hx', hholds', hxid'⟩ | hnew'⟩
    · obtain rfl :=
        List.inj_on_of_nodup_map hnames hx' hx (Group.key_eq_of_holds hholds' hholds)
      rw [← hxid, hxid']
    · have hfree := ((mem_added hnew').2.2.2 x hx).1
      rw [hown', hholds] at hfree
      cases hfree
    · have hfree := ((mem_added hnew).2.2.2 x' hx').1
      rw [hown, hholds'] at hfree
      cases hfree
    · have hnodup : (p.added.map Group.owner).Nodup := by
        rw [added, Tables.map_owner_newGroups]
        exact owner_inserts_nodup.sublist (List.filter_sublist.map _)
      rw [List.inj_on_of_nodup_map hnodup hnew' hnew (hown'.trans hown.symm)]
  exact List.inj_on_of_nodup_map (provisioned_nodup hids) hg' hg hid

/-- Who has default groups keeps them and receives no other. -/
theorem ownDefaults_provisioned {owner : Uid} (howner : owner ∉ p.plan.missingOwners) :
    ownDefaults p.provisioned.groups owner = ownDefaults p.tables.groups owner := by
  refine Set.Subset.antisymm ?_ ?_
  · rintro id ⟨g, hg, hactive, hown, rfl⟩
    rcases mem_provisioned hids hnames hg with ⟨x, hx, htreated⟩ | hnew
    · cases htreated with
      | kept => exact ⟨g, hx, hactive, hown, rfl⟩
      | revived _ _ hmissing =>
        have hsame : x.owner = owner := hown
        exact absurd (hsame ▸ hmissing) howner
      | refreshed _ _ hbefore => exact ⟨x, hx, hbefore, hown, rfl⟩
    · exact absurd (hown ▸ (mem_added hnew).1) howner
  · rw [provisioned_groups_eq]
    exact Tables.ownDefaults_foldl_upsertGroup.trans (ownDefaults_foldl_refresh _)

end Keys

end Course

/-- A group before and after default groups are provided under a name. -/
structure Carried (selected : Uid → Prop) (name : String) (before : List Group) (g g' : Group) :
    Prop where
  identity : g'.id = g.id ∧ g'.owner = g.owner ∧ g'.name = g.name
  written : g' = g ∨ ∃ v, g' = g.stamp v
  outside : ¬ selected g.owner → g' = g
  untouched : g.isActiveDefault = false →
    ¬ (ownDefaults before g.owner = ∅ ∧ g.name = name) → g' = g

/-- Groups before and after default groups are provided under a name. The versions are those of the
rows that are inserted or revived, and of those that are refreshed. -/
structure Provided (selected : Uid → Prop) (name : String) (inserted refreshed : List Int)
    (before after : List Group) : Prop where
  ids : (after.map Group.id).Nodup
  old : List.Forall₂ (Carried selected name before) before (after.take before.length)
  new : ∀ g ∈ after.drop before.length, selected g.owner ∧ ownDefaults before g.owner = ∅ ∧
    g.isActiveDefault = true ∧ g.name = name
  served : ∀ owner, selected owner → ownDefaults before owner = ∅ →
    ∃ g, after.filter (fun x => x.isActiveDefault && x.owner == owner) = [g] ∧ g.name = name ∧
      ((∃ x ∈ before, x.holds owner name = true ∧ x.id = g.id) ∨
        ∀ x ∈ before, x.holds owner name = false ∧ x.id < g.id)
  settled : ∀ owner, selected owner → ownDefaults before owner ≠ ∅ →
    ownDefaults after owner = ownDefaults before owner
  inserts : ∃ owners : List Uid, owners.Pairwise (fun u v => utf8 u < utf8 v) ∧
    (∀ owner, owner ∈ owners ↔ selected owner ∧ ownDefaults before owner = ∅) ∧
    List.Forall₂ (fun owner v => ∃ g ∈ after, g.isActiveDefault = true ∧
      g.holds owner name = true ∧ g.version = some v) owners inserted
  refreshes : ∃ ids : List GroupId, ids.Pairwise (· < ·) ∧
    (∀ id, id ∈ ids ↔ ∃ g ∈ before, g.isActiveDefault = true ∧ selected g.owner ∧ g.id = id) ∧
    List.Forall₂ (fun id v => ∃ g ∈ after, g.id = id ∧ g.version = some v) ids refreshed

namespace Course

variable {p : Course}

theorem Treated.carried {g g' : Group} (h : p.Treated g g') :
    Carried (· ∈ p.candidates) p.options.defaultGroupName p.tables.groups g g' := by
  cases h with
  | kept => exact ⟨⟨rfl, rfl, rfl⟩, .inl rfl, fun _ => rfl, fun _ _ => rfl⟩
  | revived _ hholds hmissing =>
    obtain ⟨hcand, hnone⟩ := mem_missingOwners.mp hmissing
    have hname := (Group.holds_iff.mp hholds).2
    exact ⟨⟨rfl, rfl, rfl⟩, .inr ⟨_, rfl⟩, fun h => absurd hcand h,
      fun _ h => absurd ⟨hnone, hname⟩ h⟩
  | refreshed _ _ hactive hcand =>
    refine ⟨⟨rfl, rfl, rfl⟩, .inr ⟨_, rfl⟩, fun h => absurd hcand h, fun h _ => ?_⟩
    rw [hactive] at h
    cases h

theorem provided (hids : (p.tables.groups.map Group.id).Nodup)
    (hnames : (p.tables.groups.map fun g => (g.owner, g.name)).Nodup) :
    Provided (· ∈ p.candidates) p.options.defaultGroupName
      (p.counters.fresh p.options.counters.group p.plan.missingOwners.length)
      (p.afterInserts.fresh p.options.counters.group p.plan.existingGroups.length)
      p.tables.groups p.provisioned.groups where
  ids := provisioned_nodup hids
  old := by
    have htake : p.provisioned.groups.take p.tables.groups.length =
        p.tables.groups.map p.became := by
      rw [provisioned_rows hids hnames]
      exact List.take_left' (by simp)
    rw [htake, List.forall₂_map_right_iff, List.forall₂_same]
    exact fun g hg => (treated_became hids hg).carried
  new := by
    have hdrop : p.provisioned.groups.drop p.tables.groups.length = p.added := by
      rw [provisioned_rows hids hnames]
      exact List.drop_left' (by simp)
    rw [hdrop]
    intro g hg
    obtain ⟨howner, hactive, hname, -⟩ := mem_added hg
    obtain ⟨hcand, hnone⟩ := mem_missingOwners.mp howner
    exact ⟨hcand, hnone, hactive, hname⟩
  served := by
    intro owner hcand hnone
    have howner : owner ∈ p.plan.missingOwners := mem_missingOwners.mpr ⟨hcand, hnone⟩
    obtain ⟨r, hr, rfl⟩ := List.mem_map.mp (map_owner_inserts ▸ howner)
    obtain ⟨g, hg, hactive, hholds, -, horigin⟩ := exists_provided hids hnames hr
    obtain ⟨hown, hname⟩ := Group.holds_iff.mp hholds
    refine ⟨g, ?_, hname, horigin⟩
    refine filter_eq_singleton (provisioned_nodup hids) hg (by simp [hactive, hown])
      fun y hy hdefault => congrArg Group.id ?_
    rw [Bool.and_eq_true, beq_iff_eq] at hdefault
    exact default_of_missing_unique hids hnames howner hg hactive hown hy hdefault.1 hdefault.2
  settled := by
    intro owner hcand hsome
    exact ownDefaults_provisioned hids hnames fun h => hsome (mem_missingOwners.mp h).2
  inserts := by
    have hbytes : p.plan.missingOwners.Pairwise fun u v => utf8 u < utf8 v :=
      (missingOwners_pairwise _ _).imp utf8_lt_iff.mpr
    refine ⟨p.plan.missingOwners, hbytes, fun _ => mem_missingOwners, ?_⟩
    refine List.forall₂_iff_zip.mpr ⟨by simp, fun {owner v} h => ?_⟩
    have hr : GroupInsert.mk owner v ∈ p.inserts := by
      rw [inserts, ← List.map_uncurry_zip_eq_zipWith]
      exact List.mem_map_of_mem (f := Function.uncurry GroupInsert.mk) h
    obtain ⟨g, hg, hactive, hholds, hversion, -⟩ := exists_provided hids hnames hr
    exact ⟨g, hg, hactive, hholds, hversion⟩
  refreshes := by
    refine ⟨p.plan.existingGroups, existingGroups_pairwise _ _, fun id => ?_, ?_⟩
    · refine mem_existingGroups.trans ?_
      simp only [and_assoc]
    · refine List.forall₂_iff_zip.mpr ⟨by simp, fun {id v} h => ?_⟩
      have hr : GroupRefresh.mk id v ∈ p.refreshes := by
        rw [refreshes, ← List.map_uncurry_zip_eq_zipWith]
        exact List.mem_map_of_mem (f := Function.uncurry GroupRefresh.mk) h
      exact exists_restamped hids hnames hr

end Course

theorem Counters.values_block? (c : Counters) (counter : String) (n : Nat) :
    (c.block? counter n).elim [] VersionBlock.values = c.fresh counter n := by
  unfold block?
  split
  · rename_i hn
    rw [hn]
    rfl
  · exact values_block c counter n

variable {o : Options} {stamp : Stamp}

/-- Where groups are told apart a full run provides default groups for the owners from the sources
that it reads. Without provisioning groups stay as they are, and so does their counter unless edges
draw on it too. -/
theorem default_groups_provided {w w' : World} {r : Report} (hfull : o.dryRun = false)
    (hids : (w.store.tables.groups.map Group.id).Nodup)
    (hnames : (w.store.tables.groups.map fun g => (g.owner, g.name)).Nodup)
    (hrun : (reconcile service o stamp).outcome w = (.ok r, w')) :
    Provided (o.provisioning.Selects w.store.tables) o.defaultGroupName
      (r.groupInsertBlock.elim [] VersionBlock.values)
      (r.groupRefreshBlock.elim [] VersionBlock.values)
      w.store.tables.groups w'.store.tables.groups ∧
    (o.provisioning = .skip → w'.store.tables.groups = w.store.tables.groups ∧
      (o.counters.group ≠ o.counters.edge →
        w'.counters.value o.counters.group = w.counters.value o.counters.group)) := by
  obtain ⟨hr, hcounters, hstore, -⟩ := reconcile_eq_ok hfull hrun
  have hgroups : w'.store.tables.groups = (w.course o).provisioned.groups := by
    rw [hstore]
    exact Course.published_groups
  rw [hgroups]
  refine ⟨?_, fun hskip => ?_⟩
  · have hselected : (· ∈ (w.course o).candidates) = o.provisioning.Selects w.store.tables :=
      funext fun _ => propext Provisioning.mem_owners
    have hinserted : r.groupInsertBlock.elim [] VersionBlock.values = (w.course o).counters.fresh
        o.counters.group (w.course o).plan.missingOwners.length := by
      rw [hr]
      exact Counters.values_block? _ _ _
    have hrefreshed : r.groupRefreshBlock.elim [] VersionBlock.values =
        (w.course o).afterInserts.fresh o.counters.group
          (w.course o).plan.existingGroups.length := by
      rw [hr]
      exact Counters.values_block? _ _ _
    rw [← hselected, hinserted, hrefreshed]
    exact @Course.provided (w.course o) hids hnames
  · obtain ⟨-, -, htables, hspent⟩ := Course.skip_eq (p := w.course o) hskip stamp
    refine ⟨by rw [htables]; rfl, fun hne => ?_⟩
    have hother : o.counters.group ≠ (w.course o).options.counters.edge := hne
    rw [hcounters, Course.spent, Counters.value_grant, if_neg hother, hspent]
    rfl

/-- Of those who are selected one has a default group, one has a row to be revived, one has none. -/
def motley : World :=
  { store := .ofTables
      { users := ["cyd"]
        groups := [.new 1 "ada" "home" true, (Group.new 2 "bob" defaultGroupName true).deleted,
          .new 5 "dan" "home" true]
        edges := [.new 1 "ada" "bob", .new 2 "bob" "ada"] } }

theorem default_groups_provided_motley :
    (∃ r w', (reconcile service { provisioning := .seed .union } default).outcome motley =
        (.ok r, w') ∧
      w'.store.tables.groups.map (fun g => (g.id, g.owner, g.version)) =
        [(1, "ada", some 3), (2, "bob", some 1), (5, "dan", none), (6, "cyd", some 2)] ∧
      Provided (Provisioning.Selects (.seed .union) motley.store.tables) defaultGroupName
        [1, 2] [3] motley.store.tables.groups w'.store.tables.groups) ∧
    ∃ r w', (reconcile service { provisioning := .skip } default).outcome motley = (.ok r, w') ∧
      w'.counters.value "seq:friendGroup" = motley.counters.value "seq:friendGroup" := by
  obtain ⟨r, hrun⟩ :=
    @exists_eq_ok _ _ (reconcile service { provisioning := .seed .union } default) motley (by cbv)
  obtain ⟨q, hskip⟩ :=
    @exists_eq_ok _ _ (reconcile service { provisioning := .skip } default) motley (by cbv)
  have hblocks : r.groupInsertBlock = some ⟨1, 2⟩ ∧ r.groupRefreshBlock = some ⟨3, 1⟩ := by
    rw [(reconcile_eq_ok rfl hrun).1]
    exact ⟨by cbv, by cbv⟩
  obtain ⟨hprovided, -⟩ := default_groups_provided rfl (by decide) (by decide) hrun
  rw [hblocks.1, hblocks.2] at hprovided
  obtain ⟨-, hsame⟩ := default_groups_provided rfl (by decide) (by decide) hskip
  exact ⟨⟨r, _, hrun, by cbv, hprovided⟩, q, _, hskip, (hsame rfl).2 (by decide)⟩

/-- Without provisioning, and with one counter for edges and groups. -/
def oneCounter : Options :=
  { provisioning := .skip, counters := { edge := "seq:friend", group := "seq:friend" } }

theorem skip_advances_shared_counter : ∃ r w',
    (strewn.store.tables.groups.map Group.id).Nodup ∧
    (strewn.store.tables.groups.map fun g => (g.owner, g.name)).Nodup ∧
    (reconcile service oneCounter default).outcome strewn = (.ok r, w') ∧
    w'.counters.value oneCounter.counters.group ≠
      strewn.counters.value oneCounter.counters.group := by
  obtain ⟨r, hrun⟩ := @exists_eq_ok _ _ (reconcile service oneCounter default) strewn (by cbv)
  have hspent : (strewn.course oneCounter).spent.value oneCounter.counters.group = 1 := by cbv
  have hbefore : strewn.counters.value oneCounter.counters.group = 0 := by decide
  refine ⟨r, _, by decide, by decide, hrun, ?_⟩
  rw [(reconcile_eq_ok rfl hrun).2.1, hspent, hbefore]
  decide

end Memory

end Regroup
