import Regroup.Proofs.DefaultGroups
import Regroup.Proofs.Feasibility
import Regroup.Proofs.Forecast

/-! The preview of provisioning next to the writes that carry the plan out, under any versions. The
old rows stay where they are and read alike; one row is added for each owner that the preview lists,
and where the preview has a planned default the tables have that row. The writes go through just when
there are ids for these rows. -/

namespace Regroup

/-- What a preview tells of a group. -/
def Group.shown (g : Group) : GroupId × Uid × String × Bool × Bool :=
  (g.id, g.owner, g.name, g.isDefault, g.isActive)

theorem Group.shown_standing (g : Group) : g.standing.shown = g.shown := by
  simp only [shown, isActive_standing]
  rfl

theorem map_shown_congr {groups groups' : List Group}
    (h : groups.map Group.standing = groups'.map Group.standing) :
    groups.map Group.shown = groups'.map Group.shown := by
  have hmap := congrArg (List.map Group.shown) h
  rw [List.map_map, List.map_map] at hmap
  simpa only [Function.comp_def, Group.shown_standing] using hmap

namespace ProvisionPlan

variable {name : String} {state : List Group × List Uid} {owner other : Uid}

theorem length_previewOwner :
    (previewOwner name state owner).1.length = state.1.length := by
  unfold previewOwner
  split
  · exact length_modifyFirst _ _ _
  · rfl

theorem length_foldl_previewOwner (owners : List Uid) :
    (owners.foldl (previewOwner name) state).1.length = state.1.length := by
  induction owners generalizing state with
  | nil => rfl
  | cons owner owners ih => rw [List.foldl_cons, ih, length_previewOwner]

theorem ownDefaults_previewOwner_of_ne (h : other ≠ owner) :
    ownDefaults (previewOwner name state owner).1 other = ownDefaults state.1 other := by
  unfold previewOwner
  split
  · refine Set.Subset.antisymm ?_ (ownDefaults_modifyFirst fun _ => ⟨rfl, rfl, rfl⟩)
    rintro id ⟨g, hg, hactive, howner, hid⟩
    rcases mem_modifyFirst hg with hg | ⟨x, -, hx, rfl⟩
    · exact ⟨g, hg, hactive, howner, hid⟩
    · have hholds := (Group.holds_iff.mp (Bool.and_eq_true_iff.mp hx).1).1
      exact absurd (howner.symm.trans hholds) h
  · rfl

/-- Owners who have no default group come out of a preview listed only if they still have none. -/
theorem ownDefaults_foldl_previewOwner {owners : List Uid} (howners : owners.Nodup)
    (hlisted : ∀ owner ∈ owners, owner ∉ state.2)
    (hnone : ∀ owner, owner ∈ owners ∨ owner ∈ state.2 → ownDefaults state.1 owner = ∅) :
    ∀ owner ∈ (owners.foldl (previewOwner name) state).2,
      ownDefaults (owners.foldl (previewOwner name) state).1 owner = ∅ := by
  induction owners generalizing state with
  | nil => exact fun owner howner => hnone owner (.inr howner)
  | cons owner owners ih =>
    obtain ⟨hfirst, hrest⟩ := List.nodup_cons.mp howners
    have hfree : owner ∉ state.2 := hlisted owner (by simp)
    rw [List.foldl_cons]
    refine ih hrest ?_ ?_
    · intro other hother hmem
      rcases Foreseen.mem_previewOwner hmem with hmem | rfl
      · exact hlisted other (List.mem_cons_of_mem _ hother) hmem
      · exact hfirst hother
    · rintro other (hother | hother)
      · have hne : other ≠ owner := fun he => hfirst (he ▸ hother)
        rw [ownDefaults_previewOwner_of_ne hne]
        exact hnone other (.inl (List.mem_cons_of_mem _ hother))
      · by_cases hne : other = owner
        · subst hne
          -- an owner is listed only where no row was revived
          unfold previewOwner at hother ⊢
          split at hother
          · exact absurd hother hfree
          · exact hnone other (.inl (by simp))
        · rw [ownDefaults_previewOwner_of_ne hne]
          rcases Foreseen.mem_previewOwner hother with hother | he
          · exact hnone other (.inr hother)
          · exact absurd he hne

theorem ownDefaults_preview {candidates : List Uid} {groups : List Group} {owner : Uid}
    (h : owner ∈ ((build candidates groups).preview name groups).2) :
    ownDefaults ((build candidates groups).preview name groups).1 owner = ∅ := by
  have howners := (missingOwners_pairwise candidates groups).imp Std.ne_of_lt
  refine ownDefaults_foldl_previewOwner howners (by simp) ?_ owner h
  rintro owner (hmissing | hlisted)
  · exact (mem_missingOwners.mp hmissing).2
  · simp at hlisted

end ProvisionPlan

theorem Tables.newGroups_pairwise (name : String) (next : GroupId) (rows : List GroupInsert) :
    ((newGroups name next rows).map Group.id).Pairwise (· < ·) := by
  induction rows generalizing next with
  | nil => exact List.Pairwise.nil
  | cons row rows ih =>
    rw [newGroups, List.map_cons, List.pairwise_cons]
    refine ⟨fun id hid => ?_, ih (next + 1)⟩
    obtain ⟨g, hg, rfl⟩ := List.mem_map.mp hid
    exact Int.lt_of_lt_of_le (Int.lt_succ next) (mem_newGroups hg).1.1

namespace Foreseen

variable {top : GroupId} {olds news olds' news' : List Group} {state : List Group × List Uid}

theorem of_standing (h : Foreseen top olds news state)
    (holds : olds'.map Group.standing = olds.map Group.standing)
    (hnews : news'.map Group.standing = news.map Group.standing) :
    Foreseen top olds' news' state := by
  have hsame : ∀ g ∈ news', ∃ x ∈ news, x.standing = g.standing := by
    intro g hg
    have hmem : g.standing ∈ news.map Group.standing := hnews ▸ List.mem_map_of_mem hg
    simpa using hmem
  have howner := congrArg (List.map Group.owner) hnews
  rw [List.map_map, List.map_map] at howner
  refine ⟨holds.trans h.standing, h.named, ?_, ?_, ?_, ?_⟩
  · rw [largestId, map_id_congr holds]
    exact h.largest
  · exact Eq.trans howner h.owners
  · intro g hg
    obtain ⟨x, hx, heq⟩ := hsame g hg
    have hid := congrArg Group.id heq
    change x.id = g.id at hid
    exact hid ▸ h.fresh x hx
  · intro g hg
    obtain ⟨x, hx, heq⟩ := hsame g hg
    rw [← Group.isActiveDefault_standing, ← heq, Group.isActiveDefault_standing]
    exact h.active x hx

theorem defaultIds_news_of_notMem (h : Foreseen top olds news state) {owner : Uid}
    (howner : owner ∉ state.2) : defaultIds news owner = [] := by
  refine List.eq_nil_iff_forall_not_mem.mpr fun id hid => howner ?_
  obtain ⟨g, hg, -, rfl, -⟩ := mem_defaultIds.mp hid
  exact h.owners ▸ List.mem_map_of_mem hg

theorem slot_of_notMem (h : Foreseen top olds news state) {owner : Uid}
    (howner : owner ∉ state.2) : (DefaultIndex.build (olds ++ news)).slot owner =
      ((DefaultIndex.build state.1).planMissing state.2).slot owner := by
  rw [DefaultIndex.slot_build, DefaultIndex.slot_planMissing, DefaultIndex.slot_build,
    h.defaultIds_eq, h.defaultIds_news_of_notMem howner, List.append_nil]
  simp [howner]

theorem defaultIds_news (h : Foreseen top olds news state) (honce : state.2.Nodup) {g : Group}
    (hg : g ∈ news) : defaultIds news g.owner = [g.id] := by
  have howners : (news.map Group.owner).Nodup := h.owners.symm ▸ honce
  have hactive : news.filter Group.isActiveDefault = news := List.filter_eq_self.mpr h.active
  have hsingle : news.filter (·.owner = g.owner) = [g] :=
    filter_eq_singleton howners hg (by simp) fun y _ hown => by simpa using hown
  rw [defaultIds, hactive, hsingle]
  rfl

theorem slot_of_mem (h : Foreseen top olds news state) (honce : state.2.Nodup) {g : Group}
    (hg : g ∈ news) (hnone : ownDefaults state.1 g.owner = ∅) :
    ((DefaultIndex.build state.1).planMissing state.2).slot g.owner = some .planned ∧
      (DefaultIndex.build (olds ++ news)).slot g.owner = some (.existing g.id) := by
  have hlisted : g.owner ∈ state.2 := h.owners ▸ List.mem_map_of_mem hg
  have hempty : defaultIds state.1 g.owner = [] := by
    refine List.eq_nil_iff_forall_not_mem.mpr fun id hid => ?_
    rw [← mem_ownDefaults, hnone] at hid
    exact hid
  rw [DefaultIndex.slot_planMissing, DefaultIndex.slot_build, DefaultIndex.slot_build,
    h.defaultIds_eq, hempty, h.defaultIds_news honce hg]
  simp [hlisted]

end Foreseen

/-- The groups of a store, old ones and new ones, next to what a preview foretells of them. -/
structure Foretold (name : String) (groups : List Group) (preview : List Group × List Uid)
    (olds news : List Group) : Prop where
  shown : olds.map Group.shown = preview.1.map Group.shown
  owners : news.map Group.owner = preview.2
  once : preview.2.Nodup
  default : ∀ g ∈ news, g.name = name ∧ g.isActiveDefault = true
  above : ∀ g ∈ news, ∀ x ∈ groups, x.id < g.id
  ascending : (news.map Group.id).Pairwise (· < ·)
  existing : ∀ owner, owner ∉ preview.2 →
    (DefaultIndex.build (olds ++ news)).slot owner =
      ((DefaultIndex.build preview.1).planMissing preview.2).slot owner
  planned : ∀ g ∈ news,
    ((DefaultIndex.build preview.1).planMissing preview.2).slot g.owner = some .planned ∧
      (DefaultIndex.build (olds ++ news)).slot g.owner = some (.existing g.id)

section Upserts

variable (name : String) {candidates : List Uid} {groups : List Group} {rows : List GroupInsert}
  {refreshes : List GroupRefresh}

theorem any_refreshed
    (h : refreshes.map GroupRefresh.groupId = (ProvisionPlan.build candidates groups).existingGroups)
    {r : GroupRefresh} (hr : r ∈ refreshes) :
    (rows.foldl (Tables.upsertGroup name) groups).any (·.id == r.groupId) = true := by
  have hexisting : r.groupId ∈ (ProvisionPlan.build candidates groups).existingGroups :=
    h ▸ List.mem_map_of_mem hr
  obtain ⟨g, hg, ⟨hactive, -⟩, hid⟩ := mem_existingGroups.mp hexisting
  have hown : g.id ∈ ownDefaults groups g.owner := ⟨g, hg, hactive, rfl, rfl⟩
  obtain ⟨x, hx, -, -, hxid⟩ :
      g.id ∈ ownDefaults (rows.foldl (Tables.upsertGroup name) groups) g.owner :=
    Tables.ownDefaults_foldl_upsertGroup hown
  exact List.any_eq_true.mpr ⟨x, hx, by simp [hxid, hid]⟩

variable {name}
  (hrows : rows.map GroupInsert.owner = (ProvisionPlan.build candidates groups).missingOwners)

include hrows

theorem owner_rows_nodup : (rows.map GroupInsert.owner).Nodup := by
  rw [hrows]
  exact (missingOwners_pairwise candidates groups).imp Std.ne_of_lt

theorem foretold_of_standing {olds news added : List Group}
    (h : Foreseen (largestId groups) olds news
      ((ProvisionPlan.build candidates groups).preview name groups))
    (hadded : added = Tables.newGroups name (largestId groups + 1) (Tables.unheld name groups rows))
    (hnews : news.map Group.standing = added.map Group.standing) :
    Foretold name groups ((ProvisionPlan.build candidates groups).preview name groups) olds news := by
  have howners := congrArg (List.map Group.owner) hnews
  rw [List.map_map, List.map_map] at howners
  change news.map Group.owner = added.map Group.owner at howners
  have honce : ((ProvisionPlan.build candidates groups).preview name groups).2.Nodup := by
    rw [← h.owners, howners, hadded, Tables.map_owner_newGroups]
    exact List.Nodup.sublist (List.filter_sublist.map _) (owner_rows_nodup hrows)
  refine ⟨map_shown_congr h.standing, h.owners, honce, fun g hg => ⟨?_, h.active g hg⟩, ?_, ?_,
    fun owner => h.slot_of_notMem, fun g hg => h.slot_of_mem honce hg ?_⟩
  · have hmem : g.standing ∈ added.map Group.standing := hnews ▸ List.mem_map_of_mem hg
    obtain ⟨x, hx, heq⟩ := List.mem_map.mp hmem
    obtain ⟨-, r, -, hxr⟩ := Tables.mem_newGroups (hadded ▸ hx)
    have hname := congrArg Group.name heq
    change x.name = g.name at hname
    rw [← hname, hxr]
    rfl
  · exact fun g hg x hx => Int.lt_of_le_of_lt (le_largestId hx) (h.fresh g hg)
  · rw [map_id_congr hnews, hadded]
    exact Tables.newGroups_pairwise _ _ _
  · exact ProvisionPlan.ownDefaults_preview (h.owners ▸ List.mem_map_of_mem hg)

variable (name) (hnames : (groups.map fun g => (g.owner, g.name)).Nodup)

include hnames

theorem foldl_upsertGroup_foreseen :
    ∃ olds, rows.foldl (Tables.upsertGroup name) groups =
        olds ++ Tables.newGroups name (largestId groups + 1) (Tables.unheld name groups rows) ∧
      Foreseen (largestId groups) olds
        (Tables.newGroups name (largestId groups + 1) (Tables.unheld name groups rows))
        ((ProvisionPlan.build candidates groups).preview name groups) := by
  have hnodup := owner_rows_nodup hrows
  have hstart : Foreseen (largestId groups) groups [] (groups, []) :=
    ⟨rfl, hnames, rfl, rfl, by simp, by simp⟩
  obtain ⟨olds, news, heq, h⟩ := @Foreseen.foldl_upsertGroup _ name _ _ _ rows hstart hnodup (by simp)
  rw [List.append_nil] at heq
  rw [hrows] at h
  change Foreseen _ olds news ((ProvisionPlan.build candidates groups).preview name groups) at h
  have hwrites := heq.symm.trans (Tables.foldl_upsertGroup_eq hnodup)
  rw [Group.foldl_revive_eq_map rows hnames] at hwrites
  have holds : olds.length = ((ProvisionPlan.build candidates groups).preview name groups).1.length := by
    simpa using congrArg List.length h.standing
  have hpreview : ((ProvisionPlan.build candidates groups).preview name groups).1.length =
      groups.length := ProvisionPlan.length_foldl_previewOwner _
  have hlength : olds.length = (groups.map (Group.revivedBy name rows)).length := by
    rw [List.length_map]
    omega
  obtain ⟨-, hnews⟩ := List.append_inj hwrites hlength
  exact ⟨olds, hnews ▸ heq, hnews ▸ h⟩

theorem length_unheld : (Tables.unheld name groups rows).length =
    ((ProvisionPlan.build candidates groups).preview name groups).2.length := by
  obtain ⟨olds, -, h⟩ := foldl_upsertGroup_foreseen name hrows hnames
  rw [← h.owners, Tables.map_owner_newGroups, List.length_map]

/-- Refreshing touches old default groups only, and these read alike afterwards. -/
theorem foretold_refreshed (hids : (groups.map Group.id).Nodup)
    (hrefreshes : refreshes.map GroupRefresh.groupId =
      (ProvisionPlan.build candidates groups).existingGroups) :
    ∃ olds news, refreshes.foldl
        (fun gs r => modifyFirst (·.id == r.groupId) (Group.stamp r.version) gs)
        (rows.foldl (Tables.upsertGroup name) groups) = olds ++ news ∧
      Foretold name groups ((ProvisionPlan.build candidates groups).preview name groups)
        olds news := by
  obtain ⟨before, heq, h⟩ := foldl_upsertGroup_foreseen name hrows hnames
  have hrefreshed : List.Forall₂ (Refreshed candidates) (rows.foldl (Tables.upsertGroup name) groups)
      (refreshes.foldl (fun gs r => modifyFirst (·.id == r.groupId) (Group.stamp r.version) gs)
        (rows.foldl (Tables.upsertGroup name) groups)) :=
    foldl_refresh_refreshed fun g hg hid => existing_of_upserted hids hrows hg (hrefreshes ▸ hid)
  have hstanding := (Refreshed.map_standing_eq hrefreshed).symm
  rw [heq, List.map_append] at hstanding
  obtain ⟨olds, news, hfinal, holds, hnews⟩ := List.map_eq_append_iff.mp hstanding
  exact ⟨olds, news, heq ▸ hfinal,
    foretold_of_standing hrows (h.of_standing holds hnews) rfl hnews⟩

end Upserts

namespace Memory

open Attempt

/-- Carries a plan out: rows for the missing owners first, then refreshes. -/
def Work.provide (name : String) (rows : List GroupInsert) (refreshes : List GroupRefresh) :
    Attempt Work (Nat × Nat) := do
  let inserted ← upsertDefaultGroups name rows
  let refreshed ← refreshDefaultGroups refreshes
  return (inserted, refreshed)

theorem Work.outcome_provide {w : Work} {name : String} {rows : List GroupInsert}
    {refreshes : List GroupRefresh} (hupsert : w.failAt ≠ some .upsertGroups)
    (hrefresh : w.failAt ≠ some .refreshGroups) :
    (provide name rows refreshes).outcome w =
      let upserted := (Tables.upsertGroups name rows w.tables).2
      if upserted.idsFit then
        (.ok (rows.length, (Tables.refreshGroups refreshes upserted).1),
          { w with tables := (Tables.refreshGroups refreshes upserted).2 })
      else (.error (.ofCause .groupIdsExhausted), w) := by
  rw [provide, outcome_bind, Work.upsertDefaultGroups_runs name rows w, if_neg hupsert]
  by_cases hfit : (Tables.upsertGroups name rows w.tables).2.idsFit = true
  · simp only [upserting, hfit, if_true, afterStep, outcome_bind]
    rw [Work.refreshDefaultGroups_runs refreshes, if_neg hrefresh]
    rfl
  · simp only [upserting, hfit]
    rfl

section Provide

variable {w : Work} {candidates : List Uid} {name : String} {rows : List GroupInsert}
  {refreshes : List GroupRefresh}
  (hnames : (w.tables.groups.map fun g => (g.owner, g.name)).Nodup)
  (hwords : ∀ g ∈ w.tables.groups, Word.IsSigned g.id)
  (hrows : rows.map GroupInsert.owner =
    (ProvisionPlan.build candidates w.tables.groups).missingOwners)

include hnames hwords hrows

theorem idsFit_provided_iff : (Tables.upsertGroups name rows w.tables).2.idsFit = true ↔
    largestId w.tables.groups + ((ProvisionPlan.build candidates w.tables.groups).preview name
      w.tables.groups).2.length ≤ Word.maxSigned := by
  rw [Tables.idsFit_upsertGroups_iff hwords (owner_rows_nodup hrows),
    length_unheld name hrows hnames]

/-- While there is an id for each owner that the preview lists, what it foretells is what the writes
do. -/
theorem provide_foretold (hids : (w.tables.groups.map Group.id).Nodup)
    (hroom : largestId w.tables.groups + ((ProvisionPlan.build candidates w.tables.groups).preview
      name w.tables.groups).2.length ≤ Word.maxSigned)
    (hrefreshes : refreshes.map GroupRefresh.groupId =
      (ProvisionPlan.build candidates w.tables.groups).existingGroups)
    (hupsert : w.failAt ≠ some .upsertGroups) (hrefresh : w.failAt ≠ some .refreshGroups) :
    ∃ olds news,
      (Work.provide name rows refreshes).outcome w =
        (.ok (rows.length, refreshes.length),
          { w with tables := { w.tables with groups := olds ++ news } }) ∧
      Foretold name w.tables.groups
        ((ProvisionPlan.build candidates w.tables.groups).preview name w.tables.groups) olds news ∧
      ∀ g ∈ olds ++ news, Word.IsSigned g.id := by
  have hfit := (idsFit_provided_iff hnames hwords hrows).mpr hroom
  obtain ⟨olds, news, heq, h⟩ := foretold_refreshed name hrows hnames hids hrefreshes
  have hcount : (Tables.refreshGroups refreshes (Tables.upsertGroups name rows w.tables).2).1 =
      refreshes.length := by
    have hnodup : (refreshes.map GroupRefresh.groupId).Nodup := by
      rw [hrefreshes]
      exact (existingGroups_pairwise candidates w.tables.groups).imp Std.ne_of_lt
    rw [Tables.fst_refreshGroups hnodup]
    exact List.countP_eq_length.mpr fun r hr => any_refreshed name hrefreshes hr
  have htables : (Tables.refreshGroups refreshes (Tables.upsertGroups name rows w.tables).2).2 =
      { w.tables with groups := olds ++ news } := by
    rw [Tables.snd_refreshGroups, ← heq]
    rfl
  have hkept : (olds ++ news).map Group.id =
      (rows.foldl (Tables.upsertGroup name) w.tables.groups).map Group.id := by
    rw [← heq]
    exact map_foldl_modifyFirst GroupRefresh.id_stamp refreshes _
  refine ⟨olds, news, ?_, h, fun g hg => ?_⟩
  · rw [Work.outcome_provide hupsert hrefresh]
    simp only [hfit, if_true, hcount, htables]
  · have hid : g.id ∈ (rows.foldl (Tables.upsertGroup name) w.tables.groups).map Group.id :=
      hkept ▸ List.mem_map_of_mem hg
    obtain ⟨x, hx, hxid⟩ := List.mem_map.mp hid
    exact hxid ▸ Tables.idsFit_iff.mp hfit x hx

/-- With too few ids the writes fail and leave the tables as they are. -/
theorem provide_exhausted (hroom : Word.maxSigned < largestId w.tables.groups +
      ((ProvisionPlan.build candidates w.tables.groups).preview name w.tables.groups).2.length)
    (hupsert : w.failAt ≠ some .upsertGroups) (hrefresh : w.failAt ≠ some .refreshGroups) :
    (Work.provide name rows refreshes).outcome w =
      (.error (.ofCause .groupIdsExhausted), w) := by
  have hfit : ¬ (Tables.upsertGroups name rows w.tables).2.idsFit = true := by
    rw [idsFit_provided_iff hnames hwords hrows]
    exact Int.not_le.mpr hroom
  rw [Work.outcome_provide hupsert hrefresh]
  exact if_neg hfit

end Provide

/-- A default group to be revived, one to be refreshed, and an owner without any, for whom the last id
is left. -/
def assortment : Work :=
  { tables :=
      { groups := [(Group.new 1 "ada" "home" true).deleted, .new 2 "bob" "work" false,
          .new (Word.maxSigned - 1) "cid" "club" true] }
    failAt := none
    interfereWith := none }

theorem provide_foretold_assortment : ∃ olds news,
    (Work.provide "home" [⟨"ada", 7⟩, ⟨"bob", 8⟩] [⟨Word.maxSigned - 1, 9⟩]).outcome assortment =
      (.ok (2, 1), { assortment with tables := { assortment.tables with groups := olds ++ news } }) ∧
    Foretold "home" assortment.tables.groups
      ((ProvisionPlan.build ["bob", "cid", "ada"] assortment.tables.groups).preview "home"
        assortment.tables.groups) olds news ∧
    ∀ g ∈ olds ++ news, Word.IsSigned g.id := by
  have hrows : [GroupInsert.mk "ada" 7, ⟨"bob", 8⟩].map GroupInsert.owner =
      (ProvisionPlan.build ["bob", "cid", "ada"] assortment.tables.groups).missingOwners := by cbv
  have hrefreshes : [GroupRefresh.mk (Word.maxSigned - 1) 9].map GroupRefresh.groupId =
      (ProvisionPlan.build ["bob", "cid", "ada"] assortment.tables.groups).existingGroups := by cbv
  have hlisted : ((ProvisionPlan.build ["bob", "cid", "ada"] assortment.tables.groups).preview "home"
      assortment.tables.groups).2 = ["bob"] := by cbv
  refine provide_foretold (by decide) (by decide) hrows (by decide) ?_ hrefreshes (by decide)
    (by decide)
  rw [hlisted]
  decide

/-- The last id is taken. -/
def saturated : Work :=
  { tables := { groups := [.new Word.maxSigned "ada" "work" false] }
    failAt := none
    interfereWith := none }

/-- A preview lists an owner for whom no id is left. -/
theorem provide_saturated :
    let groups := saturated.tables.groups
    let plan := ProvisionPlan.build ["bob"] groups
    let preview := plan.preview "home" groups
    ((groups.map Group.id).Nodup ∧ (groups.map fun g => (g.owner, g.name)).Nodup ∧
      [GroupInsert.mk "bob" 7].map GroupInsert.owner = plan.missingOwners ∧
      plan.existingGroups = [] ∧ preview.2 = ["bob"]) ∧
    (¬ ∃ olds news, (Work.provide "home" [⟨"bob", 7⟩] []).outcome saturated =
        (.ok (1, 0), { saturated with tables := { saturated.tables with groups := olds ++ news } }) ∧
      Foretold "home" groups preview olds news) ∧
    ∀ id, Word.IsSigned id → ¬ ∀ g ∈ groups, g.id < id := by
  intro groups plan preview
  have hrows : [GroupInsert.mk "bob" 7].map GroupInsert.owner = plan.missingOwners := by cbv
  have hlisted : ((ProvisionPlan.build ["bob"] saturated.tables.groups).preview "home"
      saturated.tables.groups).2 = ["bob"] := by cbv
  have hnames : (groups.map fun g => (g.owner, g.name)).Nodup := by decide
  refine ⟨⟨by decide, hnames, hrows, by cbv, hlisted⟩, ?_, fun id hid habove => ?_⟩
  · have hroom : Word.maxSigned < largestId saturated.tables.groups + ((ProvisionPlan.build ["bob"]
        saturated.tables.groups).preview "home" saturated.tables.groups).2.length := by
      rw [hlisted]
      decide
    rintro ⟨olds, news, hrun, -⟩
    rw [provide_exhausted hnames (by decide) hrows hroom (by decide) (by decide)] at hrun
    cases hrun
  · have hlast : Word.maxSigned < id := habove (.new Word.maxSigned "ada" "work" false) (by decide)
    exact Int.not_le.mpr hlast hid.2

end Memory

end Regroup
