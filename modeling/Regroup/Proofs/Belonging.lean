import Mathlib.Data.Set.Card
import Regroup.Proofs.Resolution

/-! What a snapshot with planned defaults says, told from the rows alone: where the edges of a pair
belong, and of how many owners and pairs it has something to say. -/

namespace Regroup

theorem ncard_setOf_mem {α : Type} [DecidableEq α] {xs : List α} (h : xs.Nodup) :
    {x | x ∈ xs}.ncard = xs.length := by
  rw [← List.coe_toFinset, Set.ncard_coe_finset, List.toFinset_card_of_nodup h]

theorem Dictionary.size_eq_ncard {κ ν : Type} [DecidableEq κ] (d : Dictionary κ ν) :
    d.size = {k | (d.get? k).isSome = true}.ncard := by
  have hkeys : {k | (d.get? k).isSome = true} = {k | k ∈ d.keys} :=
    Set.ext fun _ => mem_keys_iff.symm
  rw [hkeys, size_eq]
  exact (ncard_setOf_mem d.nodup).symm

/-- The groups in use that active memberships of a pair name. -/
def pairGroups (groups : List Group) (memberships : List Membership) (owner counterpart : Uid) :
    Set GroupId :=
  {id | (∃ m ∈ memberships, m.isActive = true ∧ m.owner = owner ∧ m.counterpart = counterpart ∧
    m.groupId = id) ∧ ∃ g ∈ groups, g.isActive = true ∧ g.id = id}

theorem mem_pairGroups {groups : List Group} {memberships : List Membership}
    {owner counterpart : Uid} (id : GroupId) :
    id ∈ pairGroups groups memberships owner counterpart ↔
      id ∈ explicitIds groups memberships owner counterpart := mem_explicitIds.symm

/-- Where the rows and a list of planned owners put a pair: in the least group that a membership
names, else in the least default group, else in the one that is planned, else nowhere. -/
inductive ResolvesTo (groups : List Group) (memberships : List Membership) (planned : List Uid)
    (owner counterpart : Uid) : Resolution → Prop
  | membership {id : GroupId} (h : IsLeast (pairGroups groups memberships owner counterpart) id) :
    ResolvesTo groups memberships planned owner counterpart (.membership id)
  | defaultGroup {id : GroupId} (hnone : pairGroups groups memberships owner counterpart = ∅)
    (h : IsLeast (ownDefaults groups owner) id) :
    ResolvesTo groups memberships planned owner counterpart (.defaultGroup id)
  | pendingDefault (hnone : pairGroups groups memberships owner counterpart = ∅)
    (hown : ownDefaults groups owner = ∅) (h : owner ∈ planned) :
    ResolvesTo groups memberships planned owner counterpart .pendingDefault
  | unresolved (hnone : pairGroups groups memberships owner counterpart = ∅)
    (hown : ownDefaults groups owner = ∅) (h : owner ∉ planned) :
    ResolvesTo groups memberships planned owner counterpart .unresolved

theorem Snapshot.resolve_eq_iff {groups : List Group} {memberships : List Membership}
    {planned : List Uid} {owner counterpart : Uid} {r : Resolution} :
    ((build groups memberships).planMissing planned).resolve owner counterpart = r ↔
      ResolvesTo groups memberships planned owner counterpart r := by
  have hpair : ∀ id, id ∈ pairGroups groups memberships owner counterpart ↔
      id ∈ explicitIds groups memberships owner counterpart := mem_pairGroups
  have hown : ∀ id, id ∈ ownDefaults groups owner ↔ id ∈ defaultIds groups owner := mem_ownDefaults
  rw [resolve_planMissing_build]
  constructor
  · rintro rfl
    cases hmember : (explicitIds groups memberships owner counterpart).min? with
    | some id => exact .membership ((isLeast_iff_min? hpair).mpr hmember)
    | none =>
      have hnone := (eq_empty_iff_min? hpair).mpr hmember
      cases hdefault : (defaultIds groups owner).min? with
      | some id => exact .defaultGroup hnone ((isLeast_iff_min? hown).mpr hdefault)
      | none =>
        have hempty := (eq_empty_iff_min? hown).mpr hdefault
        by_cases hplanned : owner ∈ planned
        · simpa [hplanned] using ResolvesTo.pendingDefault hnone hempty hplanned
        · simpa [hplanned] using ResolvesTo.unresolved hnone hempty hplanned
  · intro h
    cases h with
    | membership h => rw [(isLeast_iff_min? hpair).mp h]
    | defaultGroup hnone h =>
      rw [(eq_empty_iff_min? hpair).mp hnone, (isLeast_iff_min? hown).mp h]
    | pendingDefault hnone hempty h =>
      simp [(eq_empty_iff_min? hpair).mp hnone, (eq_empty_iff_min? hown).mp hempty, h]
    | unresolved hnone hempty h =>
      simp [(eq_empty_iff_min? hpair).mp hnone, (eq_empty_iff_min? hown).mp hempty, h]

theorem isSome_min?_iff {s : Set GroupId} {ids : List GroupId} (h : ∀ id, id ∈ s ↔ id ∈ ids) :
    ids.min?.isSome = true ↔ s.Nonempty := by
  rw [Set.nonempty_iff_ne_empty, ne_eq, eq_empty_iff_min? h, Option.isSome_iff_ne_none]

theorem DefaultIndex.size_planMissing_build (groups : List Group) (planned : List Uid) :
    ((build groups).planMissing planned).size =
      {owner | (ownDefaults groups owner).Nonempty ∨ owner ∈ planned}.ncard := by
  refine (Dictionary.size_eq_ncard _).trans (congrArg Set.ncard (Set.ext fun owner => ?_))
  change (((build groups).planMissing planned).slot owner).isSome = true ↔ _
  rw [slot_planMissing, slot_build, Set.mem_ofPred_eq, ← isSome_min?_iff mem_ownDefaults]
  by_cases h : owner ∈ planned <;> simp [h]

namespace MembershipIndex

/-- The pairs that have a group. -/
def pairs (m : MembershipIndex) : List (Uid × Uid) :=
  m.targets.entries.flatMap fun e => e.2.keys.map (e.1, ·)

theorem mem_pairs {m : MembershipIndex} {owner counterpart : Uid} :
    (owner, counterpart) ∈ m.pairs ↔ (m.get? owner counterpart).isSome = true := by
  simp only [pairs, get?, List.mem_flatMap, List.mem_map, Prod.mk.injEq]
  constructor
  · rintro ⟨⟨o, own⟩, hown, c, hc, rfl, rfl⟩
    rw [Dictionary.get?_of_mem hown]
    exact Dictionary.mem_keys_iff.mp hc
  · intro h
    obtain ⟨id, hid⟩ := Option.isSome_iff_exists.mp h
    obtain ⟨own, hown, hid⟩ := Option.bind_eq_some_iff.mp hid
    exact ⟨(owner, own), Dictionary.mem_of_get? hown, counterpart,
      Dictionary.mem_keys_iff.mpr (by simp [hid]), rfl, rfl⟩

theorem pairs_nodup (m : MembershipIndex) : m.pairs.Nodup := by
  rw [pairs, List.nodup_flatMap]
  refine ⟨fun e _ => e.2.nodup.map fun _ _ h => (Prod.mk.inj h).2, ?_⟩
  refine (List.pairwise_map.mp m.targets.nodup).imp fun {e e'} hne => ?_
  intro pair hpair hpair'
  obtain ⟨c, -, rfl⟩ := List.mem_map.mp hpair
  obtain ⟨c', -, heq⟩ := List.mem_map.mp hpair'
  exact hne (Prod.mk.inj heq).1.symm

theorem length_pairs (m : MembershipIndex) : m.pairs.length = m.size := by
  rw [size, ← List.sum_eq_foldl_nat]
  simp only [pairs, Dictionary.values, List.length_flatMap, List.length_map, List.map_map,
    Function.comp_def, Dictionary.size_eq]

theorem size_build (groups : List Group) (memberships : List Membership) :
    (build groups memberships).size =
      {pair : Uid × Uid | (pairGroups groups memberships pair.1 pair.2).Nonempty}.ncard := by
  have hpairs : {pair : Uid × Uid | (pairGroups groups memberships pair.1 pair.2).Nonempty} =
      {pair | pair ∈ (build groups memberships).pairs} := by
    refine Set.ext fun ⟨owner, counterpart⟩ => ?_
    rw [Set.mem_ofPred_eq, Set.mem_ofPred_eq, mem_pairs, get?_build, isSome_min?_iff mem_pairGroups]
  rw [hpairs, ncard_setOf_mem (pairs_nodup _), length_pairs]

/-- An owner is entered together with a counterpart. -/
theorem filled_add {d : Dictionary Uid (Dictionary Uid GroupId)} (m : Membership)
    (h : ∀ owner own, d.get? owner = some own → own.size ≠ 0) :
    ∀ owner own, (add d m).get? owner = some own → own.size ≠ 0 := by
  intro owner own hown
  rw [add, Dictionary.get?_alter] at hown
  by_cases ho : owner = m.owner
  · rw [if_pos ho, Option.some.injEq] at hown
    rw [← hown]
    exact Dictionary.size_alter_ne_zero _ _ _
  · rw [if_neg ho] at hown
    exact h owner own hown

theorem filled_foldl_add {d : Dictionary Uid (Dictionary Uid GroupId)} (ms : List Membership)
    (h : ∀ owner own, d.get? owner = some own → own.size ≠ 0) :
    ∀ owner own, (ms.foldl add d).get? owner = some own → own.size ≠ 0 := by
  induction ms generalizing d with
  | nil => exact h
  | cons m ms ih => exact ih (filled_add m h)

theorem size_build_eq_zero_iff (groups : List Group) (memberships : List Membership) :
    (build groups memberships).size = 0 ↔ (build groups memberships).isEmpty = true := by
  have hfilled : ∀ owner own, (build groups memberships).targets.get? owner = some own →
      own.size ≠ 0 := filled_foldl_add _ (by simp)
  rw [← length_pairs, List.length_eq_zero_iff, pairs, List.flatMap_eq_nil_iff, isEmpty,
    Dictionary.isEmpty, List.isEmpty_iff]
  constructor
  · intro h
    refine List.eq_nil_iff_forall_not_mem.mpr fun e he => ?_
    have hkeys : e.2.keys = [] := List.map_eq_nil_iff.mp (h e he)
    refine hfilled e.1 e.2 (Dictionary.get?_of_mem he) ?_
    rw [Dictionary.size_eq, hkeys, List.length_nil]
  · intro h e he
    rw [h] at he
    simp at he

end MembershipIndex

/-- A snapshot puts every pair where the rows and the planned owners put it, and is as large as the
owners and the pairs are many that it knows of. -/
theorem Snapshot.answers_rows (groups : List Group) (memberships : List Membership)
    (planned : List Uid) :
    (∀ owner counterpart r,
      ((build groups memberships).planMissing planned).resolve owner counterpart = r ↔
        ResolvesTo groups memberships planned owner counterpart r) ∧
      ((build groups memberships).planMissing planned).defaults.size =
        {owner | (ownDefaults groups owner).Nonempty ∨ owner ∈ planned}.ncard ∧
      ((build groups memberships).planMissing planned).members.size =
        {pair : Uid × Uid | (pairGroups groups memberships pair.1 pair.2).Nonempty}.ncard ∧
      (((build groups memberships).planMissing planned).members.size = 0 ↔
        ((build groups memberships).planMissing planned).members.isEmpty = true) :=
  ⟨fun _ _ _ => resolve_eq_iff, DefaultIndex.size_planMissing_build groups planned,
    MembershipIndex.size_build groups memberships,
    MembershipIndex.size_build_eq_zero_iff groups memberships⟩

end Regroup
