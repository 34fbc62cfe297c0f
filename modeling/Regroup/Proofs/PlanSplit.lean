import Mathlib
import Regroup.Proofs.ByteOrder
import Regroup.Proofs.Numbering
import Regroup.Proofs.Resolution

/-! A provisioning plan as a split of its candidates. Those without a default are one side, and the
ids of the defaults that the others have are the other. Both sides are sets, so they are told by
their members, and rows for them can be numbered by any block of their number. -/

namespace Regroup

theorem missingOwners_pairwise (candidates : List Uid) (groups : List Group) :
    (ProvisionPlan.build candidates groups).missingOwners.Pairwise (· < ·) :=
  (ascending_pairwise candidates).sublist List.filter_sublist

theorem existingGroups_pairwise (candidates : List Uid) (groups : List Group) :
    (ProvisionPlan.build candidates groups).existingGroups.Pairwise (· < ·) :=
  ascending_pairwise _

theorem mem_existingGroups {candidates : List Uid} {groups : List Group} {id : GroupId} :
    id ∈ (ProvisionPlan.build candidates groups).existingGroups ↔
      ∃ g ∈ groups, (g.isActiveDefault = true ∧ g.owner ∈ candidates) ∧ g.id = id := by
  simp only [ProvisionPlan.build, mem_ascending, List.mem_map, List.mem_filter, Bool.and_eq_true,
    List.contains_iff_mem, and_assoc]

theorem mem_missingOwners {candidates : List Uid} {groups : List Group} {owner : Uid} :
    owner ∈ (ProvisionPlan.build candidates groups).missingOwners ↔
      owner ∈ candidates ∧ ownDefaults groups owner = ∅ := by
  simp only [ProvisionPlan.build, List.mem_filter, mem_ascending, Bool.not_eq_true',
    List.any_eq_false, Bool.and_eq_true, List.contains_iff_mem, beq_iff_eq]
  refine and_congr_right fun hcand => ?_
  rw [Set.eq_empty_iff_forall_notMem]
  constructor
  · rintro h id ⟨g, hg, hactive, howner, -⟩
    exact h g ⟨hg, hactive, howner ▸ hcand⟩ howner
  · rintro h g ⟨hg, hactive, -⟩ howner
    exact h g.id ⟨g, hg, hactive, howner, rfl⟩

namespace ProvisionPlan

variable {candidates : List Uid} {groups groups' : List Group} {p p' : ProvisionPlan}

/-- The owner has an active default group. -/
def Provided (groups : List Group) (owner : Uid) : Prop :=
  ∃ g ∈ groups, g.isActiveDefault = true ∧ g.owner = owner

theorem provided_iff {owner : Uid} : Provided groups owner ↔ ownDefaults groups owner ≠ ∅ := by
  rw [← Set.nonempty_iff_ne_empty]
  constructor
  · rintro ⟨g, hg, hactive, howner⟩
    exact ⟨g.id, g, hg, hactive, howner, rfl⟩
  · rintro ⟨id, g, hg, hactive, howner, -⟩
    exact ⟨g, hg, hactive, howner⟩

/-- The candidates who lack a default, in the order of their bytes, and in ascending order the ids of
the defaults that candidates have. -/
structure Splits (candidates : List Uid) (groups : List Group) (p : ProvisionPlan) : Prop where
  missing_sorted : p.missingOwners.Pairwise fun u v => utf8 u < utf8 v
  missing : ∀ owner, owner ∈ p.missingOwners ↔ owner ∈ candidates ∧ ¬ Provided groups owner
  existing_sorted : p.existingGroups.Pairwise (· < ·)
  existing : ∀ id, id ∈ p.existingGroups ↔
    ∃ g ∈ groups, g.isActiveDefault = true ∧ g.owner ∈ candidates ∧ g.id = id

theorem build_splits (candidates : List Uid) (groups : List Group) :
    Splits candidates groups (build candidates groups) where
  missing_sorted := (missingOwners_pairwise candidates groups).imp utf8_lt_iff.mpr
  missing owner := by
    rw [mem_missingOwners, provided_iff, not_not]
  existing_sorted := existingGroups_pairwise candidates groups
  existing id := by
    simp only [mem_existingGroups, and_assoc]

namespace Splits

theorem unique (h : Splits candidates groups p) (h' : Splits candidates groups p') : p = p' := by
  have hmissing : p.missingOwners = p'.missingOwners := by
    refine List.Pairwise.eq_of_mem_iff (h.missing_sorted.imp utf8_lt_iff.mp)
      (h'.missing_sorted.imp utf8_lt_iff.mp) fun owner => ?_
    rw [h.missing, h'.missing]
  have hexisting : p.existingGroups = p'.existingGroups := by
    refine List.Pairwise.eq_of_mem_iff h.existing_sorted h'.existing_sorted fun id => ?_
    rw [h.existing, h'.existing]
  cases p
  cases p'
  exact congrArg₂ ProvisionPlan.mk hmissing hexisting

theorem missing_or_provided (h : Splits candidates groups p) {owner : Uid}
    (howner : owner ∈ candidates) : Xor (owner ∈ p.missingOwners) (Provided groups owner) := by
  have hmissing : owner ∈ p.missingOwners ↔ ¬ Provided groups owner := by
    simpa [howner] using h.missing owner
  by_cases hprovided : Provided groups owner
  · exact .inr ⟨hprovided, fun hmem => hmissing.mp hmem hprovided⟩
  · exact .inl ⟨hmissing.mpr hprovided, hprovided⟩

/-- Of the groups only those of candidates count. -/
theorem congr (h : Splits candidates groups p)
    (hsame : ∀ g, g.owner ∈ candidates → (g ∈ groups ↔ g ∈ groups')) :
    Splits candidates groups' p where
  missing_sorted := h.missing_sorted
  missing owner := by
    rw [h.missing]
    refine and_congr_right fun howner => not_congr (exists_congr fun g => ?_)
    constructor
    · rintro ⟨hg, hactive, rfl⟩
      exact ⟨(hsame g howner).mp hg, hactive, rfl⟩
    · rintro ⟨hg, hactive, rfl⟩
      exact ⟨(hsame g howner).mpr hg, hactive, rfl⟩
  existing_sorted := h.existing_sorted
  existing id := by
    rw [h.existing]
    refine exists_congr fun g => ?_
    constructor
    · rintro ⟨hg, hactive, howner, hid⟩
      exact ⟨(hsame g howner).mp hg, hactive, howner, hid⟩
    · rintro ⟨hg, hactive, howner, hid⟩
      exact ⟨(hsame g howner).mpr hg, hactive, howner, hid⟩

theorem inserts (h : Splits candidates groups p) {block : VersionBlock}
    (hsize : p.missingOwners.length = block.size) :
    p.inserts block = .ok (List.zipWith GroupInsert.mk p.missingOwners block.values) := by
  have hstrict : p.missingOwners.Pairwise (· < ·) := h.missing_sorted.imp utf8_lt_iff.mp
  have hkeys : (p.missingOwners.map id).Nodup := by
    rw [List.map_id]
    exact hstrict.imp Std.ne_of_lt
  exact map_assignVersions_of_nodup (hstrict.imp Std.le_of_lt) hkeys hsize

theorem refreshes (h : Splits candidates groups p) {block : VersionBlock}
    (hsize : p.existingGroups.length = block.size) :
    p.refreshes block = .ok (List.zipWith GroupRefresh.mk p.existingGroups block.values) := by
  have hkeys : (p.existingGroups.map id).Nodup := by
    rw [List.map_id]
    exact h.existing_sorted.imp Std.ne_of_lt
  exact map_assignVersions_of_nodup (h.existing_sorted.imp Std.le_of_lt) hkeys hsize

end Splits

/-- A plan is the one split of its candidates. Each of them is missing or has a default, groups of
others change nothing, and both sides take the versions of any block of their number. -/
theorem build_eq_iff_splits (candidates : List Uid) (groups : List Group) :
    (∀ p, build candidates groups = p ↔ Splits candidates groups p) ∧
      (∀ owner ∈ candidates,
        Xor (owner ∈ (build candidates groups).missingOwners) (Provided groups owner)) ∧
      (∀ groups', (∀ g, g.owner ∈ candidates → (g ∈ groups ↔ g ∈ groups')) →
        build candidates groups' = build candidates groups) ∧
      (∀ block, (build candidates groups).missingOwners.length = block.size →
        (build candidates groups).inserts block =
          .ok (List.zipWith GroupInsert.mk (build candidates groups).missingOwners block.values)) ∧
      ∀ block, (build candidates groups).existingGroups.length = block.size →
        (build candidates groups).refreshes block =
          .ok (List.zipWith GroupRefresh.mk (build candidates groups).existingGroups
            block.values) := by
  have hsplits := build_splits candidates groups
  refine ⟨fun p => ⟨?_, hsplits.unique⟩, fun owner => hsplits.missing_or_provided,
    fun groups' hsame => ?_, fun block => hsplits.inserts, fun block => hsplits.refreshes⟩
  · rintro rfl
    exact hsplits
  · exact (build_splits candidates groups').unique (hsplits.congr hsame)

/-- Ada has two defaults with one id, bob a deleted one, and zoe is no candidate. -/
def doubled : List Group :=
  [⟨5, "ada", "friends", true, none, none⟩, ⟨6, "bob", "friends", true, some true, some 4⟩,
    ⟨5, "ada", "others", true, some false, none⟩, ⟨2, "zoe", "friends", true, none, none⟩]

theorem build_eq_iff_splits_doubled :
    build ["eve", "ada", "bob"] doubled = ⟨["bob", "eve"], [5]⟩ ∧
      build ["eve", "ada", "bob"] (doubled.take 3) = ⟨["bob", "eve"], [5]⟩ ∧
      (⟨["bob", "eve"], [5]⟩ : ProvisionPlan).inserts ⟨7, 2⟩ = .ok [⟨"bob", 7⟩, ⟨"eve", 8⟩] ∧
      (⟨["bob", "eve"], [5]⟩ : ProvisionPlan).refreshes ⟨9, 1⟩ = .ok [⟨5, 9⟩] := by
  obtain ⟨-, -, hothers, hinserts, hrefreshes⟩ :=
    build_eq_iff_splits ["eve", "ada", "bob"] doubled
  have hplan : build ["eve", "ada", "bob"] doubled = ⟨["bob", "eve"], [5]⟩ := by cbv
  rw [hplan] at hothers hinserts hrefreshes
  refine ⟨hplan, hothers _ fun g hg => ?_, hinserts ⟨7, 2⟩ rfl, hrefreshes ⟨9, 1⟩ rfl⟩
  have hzoe : g ≠ ⟨2, "zoe", "friends", true, none, none⟩ := by
    rintro rfl
    simp at hg
  simp [doubled, hzoe]

end ProvisionPlan

end Regroup
