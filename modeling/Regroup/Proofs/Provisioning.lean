import Regroup.Proofs.ChangeSet
import Regroup.Proofs.Course

/-! What provisioning does to groups: a missing owner receives an active default group, and a
refresh of active default groups leaves everything that edges are resolved by. -/

namespace Regroup

/-- The sources that are read name the owner. -/
def Provisioning.Selects (m : Provisioning) (t : Tables) (owner : Uid) : Prop :=
  match m with
  | .skip => False
  | .seed .edges => ∃ e ∈ t.edges, e.owner = owner
  | .seed .registry => owner ∈ t.users
  | .seed .union => (∃ e ∈ t.edges, e.owner = owner) ∨ owner ∈ t.users

theorem Provisioning.mem_owners {m : Provisioning} {t : Tables} {owner : Uid} :
    owner ∈ m.owners t ↔ m.Selects t owner := by
  rcases m with _ | _ | _ | _ <;>
    simp [owners, Selects, SeedStrategy.candidates, SeedStrategy.readsEdges,
      SeedStrategy.readsRegistry, mem_ascending, Tables.edgeOwners, Tables.registryOwners]

theorem Group.holds_iff {g : Group} {owner : Uid} {name : String} :
    g.holds owner name = true ↔ g.owner = owner ∧ g.name = name := by
  simp only [holds, Bool.and_eq_true, beq_iff_eq]

theorem Group.key_eq_of_holds {g g' : Group} {owner : Uid} {name : String}
    (h : g.holds owner name = true) (h' : g'.holds owner name = true) :
    (g.owner, g.name) = (g'.owner, g'.name) := by
  obtain ⟨howner, hname⟩ := holds_iff.mp h
  obtain ⟨howner', hname'⟩ := holds_iff.mp h'
  rw [howner, hname, howner', hname']

theorem Group.map_id_modifyFirst_stamp (p : Group → Bool) (v : Int) (groups : List Group) :
    (modifyFirst p (stamp v) groups).map id = groups.map id :=
  map_modifyFirst_of_eq fun _ _ _ => rfl

/-- The largest group id, zero where there are no groups. -/
def largestId (groups : List Group) : GroupId := (groups.map Group.id).max?.getD 0

theorem le_largestId {groups : List Group} {g : Group} (h : g ∈ groups) :
    g.id ≤ largestId groups := by
  have hid : g.id ∈ groups.map Group.id := List.mem_map_of_mem h
  unfold largestId
  cases hm : (groups.map Group.id).max? with
  | none => simp [List.max?_eq_none_iff.mp hm] at hid
  | some m => exact (List.max?_eq_some_iff.mp hm).2 _ hid

theorem largestId_le_append {olds news : List Group} (h : ∀ g ∈ news, largestId olds < g.id) :
    largestId olds ≤ largestId (olds ++ news) := by
  cases hm : (olds.map Group.id).max? with
  | none =>
    have hnil : olds = [] := by simpa using List.max?_eq_none_iff.mp hm
    subst hnil
    cases news with
    | nil => exact Int.le_refl _
    | cons g news =>
      exact Int.le_trans (Int.le_of_lt (h g (by simp))) (le_largestId (by simp))
  | some m =>
    obtain ⟨g, hg, hgm⟩ := List.mem_map.mp (List.max?_eq_some_iff.mp hm).1
    have hlargest : largestId olds = g.id := by rw [largestId, hm, hgm]; rfl
    rw [hlargest]
    exact le_largestId (List.mem_append_left _ hg)

theorem largestId_append_singleton {groups : List Group} {g : Group} (h : largestId groups < g.id) :
    largestId (groups ++ [g]) = g.id := by
  have hmax : ((groups ++ [g]).map Group.id).max? = some g.id := by
    refine List.max?_eq_some_iff.mpr ⟨by simp, fun id hid => ?_⟩
    obtain ⟨x, hx, rfl⟩ := List.mem_map.mp hid
    rcases List.mem_append.mp hx with hx | hx
    · exact Int.le_of_lt (Int.lt_of_le_of_lt (le_largestId hx) h)
    · rw [List.mem_singleton.mp hx]
  rw [largestId, hmax]
  rfl

/-- A change that makes active defaults of rows takes no default from an owner. -/
theorem ownDefaults_modifyFirst {p : Group → Bool} {f : Group → Group} {groups : List Group}
    {owner : Uid}
    (hf : ∀ g, (f g).isActiveDefault = true ∧ (f g).owner = g.owner ∧ (f g).id = g.id) :
    ownDefaults groups owner ⊆ ownDefaults (modifyFirst p f groups) owner := by
  rintro id ⟨g, hg, hactive, howner, hid⟩
  rcases mem_modifyFirst_of_mem (p := p) f hg with hg | ⟨-, hg⟩
  · exact ⟨g, hg, hactive, howner, hid⟩
  · obtain ⟨hdefault, hkeeps, hsame⟩ := hf g
    exact ⟨f g, hg, hdefault, hkeeps.trans howner, hsame.trans hid⟩

theorem ownDefaults_foldl_refresh (rows : List GroupRefresh) {groups : List Group} {owner : Uid} :
    ownDefaults groups owner ⊆ ownDefaults (rows.foldl
      (fun gs r => modifyFirst (·.id == r.groupId) (Group.stamp r.version) gs) groups) owner := by
  induction rows generalizing groups with
  | nil => exact fun _ h => h
  | cons row rows ih =>
    have hfirst : ownDefaults groups owner ⊆ ownDefaults
        (modifyFirst (·.id == row.groupId) (Group.stamp row.version) groups) owner :=
      ownDefaults_modifyFirst fun _ => ⟨rfl, rfl, rfl⟩
    exact hfirst.trans ih

namespace Tables

variable {name : String} {groups : List Group} {row : GroupInsert}

theorem mem_upsertGroup {g : Group} (h : g ∈ upsertGroup name groups row) :
    g ∈ groups ∨ g.isActiveDefault = true ∧ g.owner = row.owner := by
  unfold upsertGroup at h
  split at h
  · rcases mem_modifyFirst h with h | ⟨x, hx, hholds, rfl⟩
    · exact .inl h
    · exact .inr ⟨rfl, (Group.holds_iff.mp hholds).1⟩
  · rcases List.mem_append.mp h with h | h
    · exact .inl h
    · rw [List.mem_singleton.mp h]
      exact .inr ⟨rfl, rfl⟩

theorem upsertGroup_nodup (h : (groups.map Group.id).Nodup) :
    ((upsertGroup name groups row).map Group.id).Nodup := by
  unfold upsertGroup
  split
  · rw [Group.map_id_modifyFirst_stamp]
    exact h
  · rw [List.map_append, List.nodup_append]
    refine ⟨h, by simp, fun id hid next hnext => ?_⟩
    obtain ⟨g, hg, rfl⟩ := List.mem_map.mp hid
    have hle := le_largestId hg
    rw [List.map_singleton, List.mem_singleton] at hnext
    rw [hnext]
    exact Int.ne_of_lt (Int.lt_add_one_of_le hle)

theorem ownDefaults_upsertGroup {owner : Uid} :
    ownDefaults groups owner ⊆ ownDefaults (upsertGroup name groups row) owner := by
  unfold upsertGroup
  split
  · exact ownDefaults_modifyFirst fun _ => ⟨rfl, rfl, rfl⟩
  · rintro id ⟨g, hg, hactive, howner, hid⟩
    exact ⟨g, List.mem_append_left _ hg, hactive, howner, hid⟩

theorem exists_mem_upsertGroup : ∃ g ∈ upsertGroup name groups row,
    g.isActiveDefault = true ∧ g.owner = row.owner ∧ g.version = some row.version := by
  unfold upsertGroup
  split
  · rename_i hany
    obtain ⟨g, -, hholds, hg⟩ := exists_mem_modifyFirst (Group.stamp row.version) hany
    exact ⟨g.stamp row.version, hg, rfl, (Group.holds_iff.mp hholds).1, rfl⟩
  · exact ⟨_, List.mem_append_right _ (List.mem_singleton_self _), rfl, rfl, rfl⟩

theorem ownDefaults_upsertGroup_nonempty :
    (ownDefaults (upsertGroup name groups row) row.owner).Nonempty := by
  obtain ⟨g, hg, hactive, howner, -⟩ := exists_mem_upsertGroup
  exact ⟨g.id, g, hg, hactive, howner, rfl⟩

theorem mem_upsertGroup_of_ne {g : Group} (h : g ∈ groups) (hne : g.owner ≠ row.owner) :
    g ∈ upsertGroup name groups row := by
  unfold upsertGroup
  split
  · rcases mem_modifyFirst_of_mem (p := Group.holds row.owner name) (Group.stamp row.version) h
      with h | ⟨hholds, -⟩
    · exact h
    · exact absurd (Group.holds_iff.mp hholds).1 hne
  · exact List.mem_append_left _ h

theorem mem_foldl_upsertGroup {rows : List GroupInsert} {g : Group}
    (h : g ∈ rows.foldl (upsertGroup name) groups) :
    g ∈ groups ∨ g.isActiveDefault = true ∧ g.owner ∈ rows.map GroupInsert.owner := by
  induction rows generalizing groups with
  | nil => exact .inl h
  | cons row rows ih =>
    rcases ih h with h | ⟨hactive, howner⟩
    · rcases mem_upsertGroup h with h | ⟨hactive, howner⟩
      · exact .inl h
      · exact .inr ⟨hactive, by simp [howner]⟩
    · exact .inr ⟨hactive, List.mem_cons_of_mem _ howner⟩

theorem mem_foldl_upsertGroup_of_notMem {rows : List GroupInsert} {g : Group} (h : g ∈ groups)
    (howner : g.owner ∉ rows.map GroupInsert.owner) :
    g ∈ rows.foldl (upsertGroup name) groups := by
  induction rows generalizing groups with
  | nil => exact h
  | cons row rows ih =>
    rw [List.map_cons, List.mem_cons, not_or] at howner
    exact ih (mem_upsertGroup_of_ne h howner.1) howner.2

/-- Where rows have owners of their own, none overwrites what another wrote. -/
theorem exists_mem_foldl_upsertGroup {rows : List GroupInsert}
    (hrows : (rows.map GroupInsert.owner).Nodup) : ∀ r ∈ rows,
    ∃ g ∈ rows.foldl (upsertGroup name) groups, g.owner = r.owner ∧ g.version = some r.version := by
  induction rows generalizing groups with
  | nil => simp
  | cons row rows ih =>
    obtain ⟨hfirst, hrest⟩ := List.nodup_cons.mp hrows
    intro r hr
    rcases List.mem_cons.mp hr with rfl | hr
    · obtain ⟨g, hg, -, howner, hversion⟩ := exists_mem_upsertGroup
      rw [← howner] at hfirst
      refine ⟨g, ?_, howner, hversion⟩
      rw [List.foldl_cons]
      exact mem_foldl_upsertGroup_of_notMem hg hfirst
    · exact ih hrest r hr

theorem foldl_upsertGroup_nodup {rows : List GroupInsert} (h : (groups.map Group.id).Nodup) :
    ((rows.foldl (upsertGroup name) groups).map Group.id).Nodup := by
  induction rows generalizing groups with
  | nil => exact h
  | cons row rows ih => exact ih (upsertGroup_nodup h)

theorem ownDefaults_foldl_upsertGroup {rows : List GroupInsert} {owner : Uid} :
    ownDefaults groups owner ⊆ ownDefaults (rows.foldl (upsertGroup name) groups) owner := by
  induction rows generalizing groups with
  | nil => exact fun _ h => h
  | cons row rows ih => exact fun _ h => ih (ownDefaults_upsertGroup h)

theorem ownDefaults_foldl_upsertGroup_nonempty {rows : List GroupInsert} {owner : Uid}
    (h : owner ∈ rows.map GroupInsert.owner) :
    (ownDefaults (rows.foldl (upsertGroup name) groups) owner).Nonempty := by
  induction rows generalizing groups with
  | nil => simp at h
  | cons row rows ih =>
    rcases List.mem_cons.mp h with rfl | h
    · rw [List.foldl_cons]
      exact ownDefaults_upsertGroup_nonempty.mono ownDefaults_foldl_upsertGroup
    · exact ih h

end Tables

/-- A group before and after the default groups of these owners are refreshed. -/
inductive Refreshed (owners : List Uid) : Group → Group → Prop
  | kept {g : Group} : Refreshed owners g g
  | stamped {g : Group} (v : Int) (hactive : g.isActiveDefault = true) (howner : g.owner ∈ owners) :
      Refreshed owners g { g with isDeleted := some false, version := some v }

namespace Refreshed

variable {owners : List Uid} {g g' g'' : Group} {groups groups' : List Group}

theorem of_stamp (v : Int) (hactive : g.isActiveDefault = true) (howner : g.owner ∈ owners) :
    Refreshed owners g (g.stamp v) := by
  have hdefault : g.isDefault = true := (Bool.and_eq_true_iff.mp hactive).1
  have hstamp : g.stamp v = { g with isDeleted := some false, version := some v } := by
    rw [Group.stamp, Group.revive, hdefault]
  rw [hstamp]
  exact .stamped v hactive howner

theorem standing_eq (h : Refreshed owners g g') : g.standing = g'.standing := by
  cases h with
  | kept => rfl
  | stamped v hactive howner =>
    have hin : g.isActive = true := (Bool.and_eq_true_iff.mp hactive).2
    rw [Group.standing, hin]
    rfl

theorem trans (h : Refreshed owners g g') (h' : Refreshed owners g' g'') :
    Refreshed owners g g'' := by
  cases h with
  | kept => exact h'
  | stamped v hactive howner =>
    cases h' with
    | kept => exact .stamped v hactive howner
    | stamped u _ _ => exact .stamped u hactive howner

theorem modifyFirst {p : Group → Bool}
    (h : ∀ g ∈ groups, p g = true → g.isActiveDefault = true ∧ g.owner ∈ owners) (v : Int) :
    List.Forall₂ (Refreshed owners) groups (modifyFirst p (Group.stamp v) groups) := by
  induction groups with
  | nil => exact .nil
  | cons g groups ih =>
    by_cases hp : p g = true
    · obtain ⟨hactive, howner⟩ := h g (by simp) hp
      simp only [Regroup.modifyFirst, hp, if_true]
      exact .cons (of_stamp v hactive howner) (List.forall₂_same.mpr fun _ _ => .kept)
    · simp only [Regroup.modifyFirst, hp]
      exact .cons .kept (ih fun g hg => h g (by simp [hg]))

theorem forall₂_trans {groups'' : List Group} (h : List.Forall₂ (Refreshed owners) groups groups')
    (h' : List.Forall₂ (Refreshed owners) groups' groups'') :
    List.Forall₂ (Refreshed owners) groups groups'' := by
  induction h generalizing groups'' with
  | nil => exact h'
  | cons hg _ ih =>
    cases h' with
    | cons hg' h' => exact .cons (hg.trans hg') (ih h')

theorem map_standing_eq (h : List.Forall₂ (Refreshed owners) groups groups') :
    groups.map Group.standing = groups'.map Group.standing := by
  induction h with
  | nil => rfl
  | cons hg _ ih => rw [List.map_cons, List.map_cons, hg.standing_eq, ih]

end Refreshed

theorem foldl_refresh_refreshed {owners : List Uid} {rows : List GroupRefresh} {groups : List Group}
    (h : ∀ g ∈ groups, g.id ∈ rows.map GroupRefresh.groupId →
      g.isActiveDefault = true ∧ g.owner ∈ owners) :
    List.Forall₂ (Refreshed owners) groups
      (rows.foldl (fun gs r => modifyFirst (·.id == r.groupId) (Group.stamp r.version) gs)
        groups) := by
  induction rows generalizing groups with
  | nil => exact List.forall₂_same.mpr fun _ _ => .kept
  | cons row rows ih =>
    have hrow : ∀ g ∈ groups, (g.id == row.groupId) = true →
        g.isActiveDefault = true ∧ g.owner ∈ owners := by
      intro g hg hid
      rw [beq_iff_eq] at hid
      exact h g hg (by simp [hid])
    have hrest : ∀ g ∈ modifyFirst (·.id == row.groupId) (Group.stamp row.version) groups,
        g.id ∈ rows.map GroupRefresh.groupId → g.isActiveDefault = true ∧ g.owner ∈ owners := by
      intro g hg hid
      rcases mem_modifyFirst hg with hg | ⟨x, hx, hp, rfl⟩
      · exact h g hg (List.mem_cons_of_mem _ hid)
      · exact ⟨rfl, (hrow x hx hp).2⟩
    exact Refreshed.forall₂_trans (Refreshed.modifyFirst hrow row.version) (ih hrest)

/-- Once the missing owners have theirs, the ids of a plan are still those of default groups. -/
theorem existing_of_upserted {candidates : List Uid} {groups : List Group} {name : String}
    {rows : List GroupInsert} (hids : (groups.map Group.id).Nodup)
    (hrows : rows.map GroupInsert.owner = (ProvisionPlan.build candidates groups).missingOwners)
    {g : Group} (hg : g ∈ rows.foldl (Tables.upsertGroup name) groups)
    (hid : g.id ∈ (ProvisionPlan.build candidates groups).existingGroups) :
    g.isActiveDefault = true ∧ g.owner ∈ candidates := by
  rcases Tables.mem_foldl_upsertGroup hg with hg | ⟨hactive, howner⟩
  · obtain ⟨x, hx, hown, hxid⟩ := mem_existingGroups.mp hid
    obtain rfl : x = g := List.inj_on_of_nodup_map hids hx hg hxid
    exact hown
  · rw [hrows] at howner
    exact ⟨hactive, (mem_missingOwners.mp howner).1⟩

namespace Memory.Course

variable {p : Course}

/-- The groups once the missing owners have theirs. -/
def upserted (p : Course) : List Group :=
  p.inserts.foldl (Tables.upsertGroup p.options.defaultGroupName) p.tables.groups

theorem map_owner_inserts : p.inserts.map GroupInsert.owner = p.plan.missingOwners := by
  have h : p.inserts.map GroupInsert.owner = p.plan.missingOwners.map id :=
    map_numbered_keys (fun _ _ => rfl) (by simp)
  rwa [List.map_id] at h

theorem map_groupId_refreshes : p.refreshes.map GroupRefresh.groupId = p.plan.existingGroups := by
  have h : p.refreshes.map GroupRefresh.groupId = p.plan.existingGroups.map id :=
    map_numbered_keys (fun _ _ => rfl) (by simp)
  rwa [List.map_id] at h

theorem owner_mem_missing {r : GroupInsert} (hr : r ∈ p.inserts) :
    r.owner ∈ p.plan.missingOwners := by
  rw [← map_owner_inserts]
  exact List.mem_map_of_mem hr

theorem groupId_mem_existing {r : GroupRefresh} (hr : r ∈ p.refreshes) :
    r.groupId ∈ p.plan.existingGroups := by
  rw [← map_groupId_refreshes]
  exact List.mem_map_of_mem hr

theorem owner_inserts_nodup : (p.inserts.map GroupInsert.owner).Nodup := by
  rw [map_owner_inserts]
  exact (missingOwners_pairwise _ _).imp Std.ne_of_lt

theorem groupId_refreshes_nodup : (p.refreshes.map GroupRefresh.groupId).Nodup := by
  rw [map_groupId_refreshes]
  exact (existingGroups_pairwise _ _).imp Std.ne_of_lt

theorem upserted_existing (hids : (p.tables.groups.map Group.id).Nodup) {g : Group}
    (hg : g ∈ p.upserted) (hid : g.id ∈ p.plan.existingGroups) :
    g.isActiveDefault = true ∧ g.owner ∈ p.candidates :=
  existing_of_upserted hids map_owner_inserts hg hid

theorem provisioned_groups_eq : p.provisioned.groups = p.refreshes.foldl
    (fun gs r => modifyFirst (·.id == r.groupId) (Group.stamp r.version) gs) p.upserted := by
  unfold provisioned
  rw [Tables.snd_refreshGroups]
  rfl

theorem map_id_provisioned : p.provisioned.groups.map Group.id = p.upserted.map Group.id := by
  rw [provisioned_groups_eq]
  exact map_foldl_modifyFirst GroupRefresh.id_stamp p.refreshes p.upserted

theorem provisioned_nodup (hids : (p.tables.groups.map Group.id).Nodup) :
    (p.provisioned.groups.map Group.id).Nodup := by
  rw [map_id_provisioned]
  exact Tables.foldl_upsertGroup_nodup hids

/-- Whoever provisioning is for has a default group once it is done. -/
theorem provisioned_served {owner : Uid} (howner : owner ∈ p.candidates) :
    (ownDefaults p.provisioned.groups owner).Nonempty := by
  rw [provisioned_groups_eq]
  refine Set.Nonempty.mono (ownDefaults_foldl_refresh _) ?_
  by_cases hold : (ownDefaults p.tables.groups owner).Nonempty
  · exact hold.mono Tables.ownDefaults_foldl_upsertGroup
  · have hmissing : owner ∈ p.plan.missingOwners :=
      mem_missingOwners.mpr ⟨howner, Set.not_nonempty_iff_eq_empty.mp hold⟩
    rw [← map_owner_inserts] at hmissing
    exact Tables.ownDefaults_foldl_upsertGroup_nonempty hmissing

/-- What a missing owner received is not refreshed in the same run. -/
theorem notMem_existingGroups (hids : (p.tables.groups.map Group.id).Nodup) {g : Group}
    (hg : g ∈ p.upserted) (howner : g.owner ∈ p.plan.missingOwners) :
    g.id ∉ p.plan.existingGroups := by
  intro hid
  -- the owner of a refreshed group had a default group before, a missing owner had none
  obtain ⟨x, hx, ⟨hactive, -⟩, hxid⟩ := mem_existingGroups.mp hid
  have hold : x.id ∈ ownDefaults p.tables.groups x.owner := ⟨x, hx, hactive, rfl, rfl⟩
  obtain ⟨y, hy, -, hyowner, hyid⟩ : x.id ∈ ownDefaults p.upserted x.owner :=
    Tables.ownDefaults_foldl_upsertGroup hold
  obtain rfl : y = g := List.inj_on_of_nodup_map (Tables.foldl_upsertGroup_nodup hids) hy hg
    (hyid.trans hxid)
  rw [← hyowner, (mem_missingOwners.mp howner).2] at hold
  exact hold

theorem exists_inserted (hids : (p.tables.groups.map Group.id).Nodup) :
    ∀ r ∈ p.inserts, ∃ g ∈ p.provisioned.groups, g.version = some r.version := by
  intro r hr
  obtain ⟨g, hg, howner, hversion⟩ := Tables.exists_mem_foldl_upsertGroup owner_inserts_nodup r hr
  have hmissing : g.owner ∈ p.plan.missingOwners := howner ▸ owner_mem_missing hr
  refine ⟨g, ?_, hversion⟩
  rw [provisioned_groups_eq]
  refine mem_foldl_modifyFirst hg fun q hq => beq_eq_false_iff_ne.mpr fun hid => ?_
  exact notMem_existingGroups hids hg hmissing (hid ▸ groupId_mem_existing hq)

/-- Once missing owners are provided for, default groups are refreshed and nothing else. -/
theorem provisioned_refreshed (hids : (p.tables.groups.map Group.id).Nodup) :
    List.Forall₂ (Refreshed p.candidates) p.upserted p.provisioned.groups := by
  rw [provisioned_groups_eq]
  refine foldl_refresh_refreshed fun g hg hid => ?_
  rw [map_groupId_refreshes] at hid
  exact upserted_existing hids hg hid

section Served

variable (h : ∀ owner ∈ p.candidates, (ownDefaults p.tables.groups owner).Nonempty)

include h

theorem missingOwners_of_served : p.plan.missingOwners = [] := by
  refine List.eq_nil_iff_forall_not_mem.mpr fun owner howner => ?_
  obtain ⟨hcand, hnone⟩ := mem_missingOwners.mp howner
  exact (h owner hcand).ne_empty hnone

theorem refreshed_of_served (hids : (p.tables.groups.map Group.id).Nodup) :
    List.Forall₂ (Refreshed p.candidates) p.tables.groups p.provisioned.groups := by
  have hupserted : p.upserted = p.tables.groups := by
    rw [upserted, inserts, missingOwners_of_served h, List.zipWith_nil_left, List.foldl_nil]
  exact hupserted ▸ provisioned_refreshed hids

end Served

end Memory.Course

end Regroup
