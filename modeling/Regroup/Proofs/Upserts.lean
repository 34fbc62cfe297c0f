import Regroup.Proofs.Provisioning

/-! A batch of upserts in one piece. Rows of owners that hold the name revive the groups that hold
it, where these stand; the others add groups at the end, under ids right above the largest one, as
long as there are any. -/

namespace Regroup

theorem signed_largestId {groups : List Group} (h : ∀ g ∈ groups, Word.IsSigned g.id) :
    Word.IsSigned (largestId groups) := by
  unfold largestId
  cases hmax : (groups.map Group.id).max? with
  | none => decide
  | some top =>
    obtain ⟨g, hg, rfl⟩ := List.mem_map.mp (List.max?_eq_some_iff.mp hmax).1
    exact h g hg

namespace Tables

/-- Default groups for rows, with ids from `next` on. -/
def newGroups (name : String) : GroupId → List GroupInsert → List Group
  | _, [] => []
  | next, row :: rows =>
    (Group.new next row.owner name true).stamp row.version :: newGroups name (next + 1) rows

/-- The rows whose owners do not hold the name. -/
def unheld (name : String) (groups : List Group) (rows : List GroupInsert) : List GroupInsert :=
  rows.filter fun r => !groups.any (Group.holds r.owner name)

variable {name : String} {groups groups' : List Group} {rows : List GroupInsert} {next : GroupId}

theorem map_owner_newGroups : (newGroups name next rows).map Group.owner =
    rows.map GroupInsert.owner := by
  induction rows generalizing next with
  | nil => rfl
  | cons row rows ih => rw [newGroups, List.map_cons, ih, List.map_cons]; rfl

theorem mem_newGroups {g : Group} (h : g ∈ newGroups name next rows) :
    (next ≤ g.id ∧ g.id < next + rows.length) ∧
      ∃ r ∈ rows, g = (Group.new g.id r.owner name true).stamp r.version := by
  induction rows generalizing next with
  | nil => simp [newGroups] at h
  | cons row rows ih =>
    have hcount : ((row :: rows).length : Int) = 1 + rows.length := by simp [Int.add_comm]
    rw [hcount, ← Int.add_assoc]
    rcases List.mem_cons.mp h with rfl | h
    · refine ⟨⟨Int.le_refl _, ?_⟩, row, by simp, rfl⟩
      exact Int.lt_of_lt_of_le (Int.lt_succ _) (Int.le_add_of_nonneg_right (Int.natCast_nonneg _))
    · obtain ⟨⟨hlow, hhigh⟩, r, hr, hg⟩ := ih h
      exact ⟨⟨Int.le_trans (Int.le_of_lt (Int.lt_succ _)) hlow, hhigh⟩, r,
        List.mem_cons_of_mem _ hr, hg⟩

theorem exists_mem_newGroups {r : GroupInsert} (h : r ∈ rows) :
    ∃ g ∈ newGroups name next rows, g = (Group.new g.id r.owner name true).stamp r.version := by
  induction rows generalizing next with
  | nil => simp at h
  | cons row rows ih =>
    rcases List.mem_cons.mp h with rfl | h
    · exact ⟨_, List.mem_cons_self, rfl⟩
    · obtain ⟨g, hg, heq⟩ := @ih (next + 1) h
      exact ⟨g, List.mem_cons_of_mem _ hg, heq⟩

/-- The last of the new groups has the last of the ids. -/
theorem exists_last_newGroups (h : rows ≠ []) :
    ∃ g ∈ newGroups name next rows, g.id + 1 = next + rows.length := by
  induction rows generalizing next with
  | nil => exact absurd rfl h
  | cons row rows ih =>
    have hcount : ((row :: rows).length : Int) = 1 + rows.length := by simp [Int.add_comm]
    rw [hcount, ← Int.add_assoc]
    cases rows with
    | nil => exact ⟨_, List.mem_cons_self, (Int.add_zero _).symm⟩
    | cons r rows =>
      obtain ⟨g, hg, hlast⟩ := @ih (next + 1) (List.cons_ne_nil r rows)
      exact ⟨g, List.mem_cons_of_mem _ hg, hlast⟩

theorem unheld_congr (h : ∀ r ∈ rows,
    groups.any (Group.holds r.owner name) = groups'.any (Group.holds r.owner name)) :
    unheld name groups rows = unheld name groups' rows :=
  List.filter_congr fun r hr => by rw [h r hr]

/-- Rows with owners of their own do not get in each other's way. -/
theorem foldl_upsertGroup_eq (hrows : (rows.map GroupInsert.owner).Nodup) :
    rows.foldl (upsertGroup name) groups =
      rows.foldl (fun gs r => modifyFirst (Group.holds r.owner name) (Group.stamp r.version) gs)
        groups ++ newGroups name (largestId groups + 1) (unheld name groups rows) := by
  induction rows generalizing groups with
  | nil => simp [unheld, newGroups]
  | cons row rows ih =>
    obtain ⟨hfirst, hrest⟩ := List.nodup_cons.mp hrows
    rw [List.foldl_cons, List.foldl_cons, ih hrest]
    by_cases hany : groups.any (Group.holds row.owner name) = true
    · have hstep : upsertGroup name groups row =
          modifyFirst (Group.holds row.owner name) (Group.stamp row.version) groups := if_pos hany
      have hlargest : largestId
          (modifyFirst (Group.holds row.owner name) (Group.stamp row.version) groups) =
            largestId groups := by rw [largestId, Group.map_id_modifyFirst_stamp]; rfl
      have hunheld : unheld name
          (modifyFirst (Group.holds row.owner name) (Group.stamp row.version) groups) rows =
            unheld name groups (row :: rows) := by
        have hsame : unheld name groups (row :: rows) = unheld name groups rows := by
          simp [unheld, hany]
        rw [hsame]
        refine unheld_congr fun r _ => ?_
        apply any_modifyFirst_of_eq
        intro g _
        rfl
      rw [hstep, hlargest, hunheld]
    · have hnone : groups.any (Group.holds row.owner name) = false := Bool.eq_false_iff.mpr hany
      generalize hnew : (Group.new (largestId groups + 1) row.owner name true).stamp row.version = g
      have hstep : upsertGroup name groups row = groups ++ [g] := by
        rw [← hnew]
        exact if_neg hany
      -- the rows that follow are for other owners than the group that has just been added
      have hother : ∀ r ∈ rows, g.holds r.owner name = false := by
        refine fun r hr => Bool.eq_false_iff.mpr fun hholds => hfirst ?_
        have howner : row.owner = r.owner := by
          rw [← (Group.holds_iff.mp hholds).1, ← hnew]
          rfl
        rw [howner]
        exact List.mem_map_of_mem hr
      have hkept : modifyFirst (Group.holds row.owner name) (Group.stamp row.version) groups =
          groups := modifyFirst_eq_self (by simpa using hnone)
      have hlargest : largestId (groups ++ [g]) = largestId groups + 1 := by
        rw [largestId_append_singleton, ← hnew]
        · rfl
        · rw [← hnew]
          exact Int.lt_succ _
      have hunheld : unheld name (groups ++ [g]) rows = unheld name groups rows := by
        refine unheld_congr fun r hr => ?_
        simp [hother r hr]
      have hcons : unheld name groups (row :: rows) = row :: unheld name groups rows := by
        simp [unheld, hnone]
      rw [hstep, hlargest, hunheld, hkept, hcons, newGroups, hnew,
        foldl_modifyFirst_append (by simpa using hother), List.append_assoc, List.singleton_append]

theorem map_id_foldl_upsertGroup (hrows : (rows.map GroupInsert.owner).Nodup) :
    (rows.foldl (upsertGroup name) groups).map Group.id = groups.map Group.id ++
      (newGroups name (largestId groups + 1) (unheld name groups rows)).map Group.id := by
  have hold : (rows.foldl (fun gs r => modifyFirst (Group.holds r.owner name)
      (Group.stamp r.version) gs) groups).map Group.id = groups.map Group.id := by
    apply map_foldl_modifyFirst
    intro row g
    rfl
  rw [foldl_upsertGroup_eq hrows, List.map_append, hold]

/-- There are ids for new groups just as long as that many words are left above the largest one. -/
theorem idsFit_upsertGroups_iff {t : Tables} (hwords : ∀ g ∈ t.groups, Word.IsSigned g.id)
    (hrows : (rows.map GroupInsert.owner).Nodup) :
    (upsertGroups name rows t).2.idsFit = true ↔
      largestId t.groups + (unheld name t.groups rows).length ≤ Word.maxSigned := by
  have hids := @map_id_foldl_upsertGroup name t.groups rows hrows
  have hlargest := signed_largestId hwords
  rw [idsFit_iff]
  change (∀ g ∈ rows.foldl (upsertGroup name) t.groups, Word.IsSigned g.id) ↔ _
  generalize unheld name t.groups rows = fresh at hids ⊢
  constructor
  · intro h
    by_cases hnone : fresh = []
    · rw [hnone]
      simpa using hlargest.2
    -- the last of the new groups is as far above the largest id as there are new groups
    · obtain ⟨g, hg, hlast⟩ := @exists_last_newGroups name _ (largestId t.groups + 1) hnone
      have hid : g.id ∈ (rows.foldl (upsertGroup name) t.groups).map Group.id :=
        hids ▸ List.mem_append_right _ (List.mem_map_of_mem hg)
      obtain ⟨x, hx, hxid⟩ := List.mem_map.mp hid
      have htop : g.id = largestId t.groups + fresh.length := by
        rw [Int.add_right_comm] at hlast
        exact (Int.add_left_inj 1).mp hlast
      rw [← htop, ← hxid]
      exact (h x hx).2
  · intro hroom x hx
    have hid : x.id ∈ (rows.foldl (upsertGroup name) t.groups).map Group.id :=
      List.mem_map_of_mem hx
    rw [hids] at hid
    rcases List.mem_append.mp hid with hold | hnew
    · obtain ⟨g, hg, hgid⟩ := List.mem_map.mp hold
      exact hgid ▸ hwords g hg
    · obtain ⟨g, hg, hgid⟩ := List.mem_map.mp hnew
      obtain ⟨⟨hlow, hhigh⟩, -⟩ := mem_newGroups hg
      rw [Int.add_right_comm] at hhigh
      have habove : largestId t.groups < g.id := Int.lt_of_lt_of_le (Int.lt_succ _) hlow
      rw [← hgid]
      exact ⟨Int.le_trans hlargest.1 (Int.le_of_lt habove),
        Int.le_trans (Int.le_of_lt_add_one hhigh) hroom⟩

end Tables

end Regroup
