import Regroup.Proofs.Upserts

/-! What rows are told apart by, and what the writes of a unit of work leave of it. A write keeps the
key of each row that it finds, and a group that it adds comes last, under an id above all others. So
tables that are written to, however often and with whatever rows, still show where they came from. -/

namespace Regroup

/-- What tells a group from all others twice: its id, and its name together with its owner. -/
def Group.key (g : Group) : GroupId × Uid × String := (g.id, g.owner, g.name)

namespace Tables

structure Keyed (t : Tables) : Prop where
  groupIds : (t.groups.map Group.id).Nodup
  names : (t.groups.map fun g => (g.owner, g.name)).Nodup
  edgeIds : (t.edges.map Edge.id).Nodup

/-- The old keys, and behind them new ones, each of them under an id above all before it. -/
def Grown (olds keys : List (GroupId × Uid × String)) : Prop :=
  ∃ added, keys = olds ++ added ∧ (∀ k ∈ olds, ∀ k' ∈ added, k.1 < k'.1) ∧
    added.Pairwise fun k k' => k.1 < k'.1

theorem Grown.refl (keys : List (GroupId × Uid × String)) : Grown keys keys :=
  ⟨[], by simp, by simp, .nil⟩

theorem Grown.snoc {olds keys : List (GroupId × Uid × String)} {k : GroupId × Uid × String}
    (h : Grown olds keys) (hk : ∀ k' ∈ keys, k'.1 < k.1) : Grown olds (keys ++ [k]) := by
  obtain ⟨added, rfl, hold, hadded⟩ := h
  refine ⟨added ++ [k], List.append_assoc .., fun k' hk' k'' hk'' => ?_, ?_⟩
  · rcases List.mem_append.mp hk'' with hk'' | hk''
    · exact hold k' hk' k'' hk''
    · rw [List.mem_singleton.mp hk'']
      exact hk k' (List.mem_append_left _ hk')
  · refine List.pairwise_append.mpr ⟨hadded, List.pairwise_singleton .., fun k' hk' k'' hk'' => ?_⟩
    rw [List.mem_singleton.mp hk'']
    exact hk k' (List.mem_append_right _ hk')

/-- Users and memberships are those of the origin, edges differ in group and version only, and all
groups of the origin are in place, with others behind them. -/
structure DescendsFrom (t origin : Tables) : Prop where
  keyed : t.Keyed
  users : t.users = origin.users
  memberships : t.memberships = origin.memberships
  edges : t.edges.map Edge.bearing = origin.edges.map Edge.bearing
  groups : Grown (origin.groups.map Group.key) (t.groups.map Group.key)

theorem Keyed.descendsFrom {t : Tables} (h : t.Keyed) : t.DescendsFrom t :=
  ⟨h, rfl, rfl, rfl, Grown.refl _⟩

/-- Whoever has the same keys and bearings descends from the same tables. -/
theorem DescendsFrom.of_eq {t t' origin : Tables} (h : t.DescendsFrom origin)
    (husers : t'.users = t.users) (hmemberships : t'.memberships = t.memberships)
    (hedges : t'.edges.map Edge.bearing = t.edges.map Edge.bearing)
    (hgroups : t'.groups.map Group.key = t.groups.map Group.key) : t'.DescendsFrom origin := by
  have hids : t'.groups.map Group.id = t.groups.map Group.id := by
    simpa [Group.key, Function.comp_def] using congrArg (List.map Prod.fst) hgroups
  have hnames : t'.groups.map (fun g => (g.owner, g.name)) =
      t.groups.map fun g => (g.owner, g.name) := by
    simpa [Group.key, Function.comp_def] using congrArg (List.map Prod.snd) hgroups
  have hedgeIds : t'.edges.map Edge.id = t.edges.map Edge.id := by
    simpa [Edge.bearing, Function.comp_def] using congrArg (List.map Edge.id) hedges
  obtain ⟨⟨hgroupIds, hgroupNames, hids'⟩, husers', hmemberships', hedges', hgrown⟩ := h
  refine ⟨⟨?_, ?_, ?_⟩, husers.trans husers', hmemberships.trans hmemberships',
    hedges.trans hedges', ?_⟩
  · rw [hids]
    exact hgroupIds
  · rw [hnames]
    exact hgroupNames
  · rw [hedgeIds]
    exact hids'
  · rw [hgroups]
    exact hgrown

variable {t origin : Tables}

theorem DescendsFrom.upsertGroup (h : t.DescendsFrom origin) (name : String) (row : GroupInsert) :
    { t with groups := Tables.upsertGroup name t.groups row }.DescendsFrom origin := by
  have hids : ((Tables.upsertGroup name t.groups row).map Group.id).Nodup :=
    upsertGroup_nodup h.keyed.groupIds
  unfold Tables.upsertGroup at hids ⊢
  by_cases hany : t.groups.any (Group.holds row.owner name) = true
  · rw [if_pos hany]
    exact h.of_eq rfl rfl rfl (map_modifyFirst_of_eq fun _ _ _ => rfl)
  · rw [if_neg hany] at hids ⊢
    refine ⟨⟨hids, ?_, h.keyed.edgeIds⟩, h.users, h.memberships, h.edges, ?_⟩
    · simp only [List.map_append, List.map_singleton, List.nodup_append, List.nodup_singleton]
      refine ⟨h.keyed.names, trivial, fun pair hpair new hnew heq => hany ?_⟩
      obtain ⟨g, hg, rfl⟩ := List.mem_map.mp hpair
      rw [List.mem_singleton.mp hnew] at heq
      obtain ⟨howner, hname⟩ := Prod.mk.inj heq
      exact List.any_eq_true.mpr ⟨g, hg, Group.holds_iff.mpr ⟨howner, hname⟩⟩
    · simp only [List.map_append, List.map_singleton]
      refine h.groups.snoc fun k hk => ?_
      obtain ⟨g, hg, rfl⟩ := List.mem_map.mp hk
      exact Int.lt_add_one_of_le (le_largestId hg)

theorem DescendsFrom.upsertGroups (h : t.DescendsFrom origin) (name : String)
    (rows : List GroupInsert) : (Tables.upsertGroups name rows t).2.DescendsFrom origin := by
  unfold Tables.upsertGroups
  induction rows generalizing t with
  | nil => exact h
  | cons row rows ih => exact ih (h.upsertGroup name row)

theorem DescendsFrom.refreshGroups (h : t.DescendsFrom origin) (rows : List GroupRefresh) :
    (Tables.refreshGroups rows t).2.DescendsFrom origin := by
  have hkey : ∀ (r : GroupRefresh) (g : Group), (g.stamp r.version).key = g.key := fun _ _ => rfl
  rw [snd_refreshGroups]
  exact h.of_eq rfl rfl rfl (map_foldl_modifyFirst hkey rows t.groups)

theorem DescendsFrom.applyEdges (h : t.DescendsFrom origin) (rows : List EdgeWrite) :
    (Tables.applyEdges rows t).2.DescendsFrom origin := by
  have hbearing : ∀ (r : EdgeWrite) (e : Edge), (r.applyTo e).bearing = e.bearing :=
    fun _ _ => rfl
  rw [snd_applyEdges]
  exact h.of_eq rfl rfl (map_foldl_modifyFirst hbearing rows t.edges) rfl

theorem DescendsFrom.stray (h : t.DescendsFrom origin) (id : EdgeId) :
    (Tables.stray id t).DescendsFrom origin :=
  h.of_eq rfl rfl (map_modifyFirst_of_eq fun _ _ _ => rfl) rfl

end Tables

end Regroup
