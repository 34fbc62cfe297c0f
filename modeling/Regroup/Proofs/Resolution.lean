import Mathlib.Order.Bounds.Basic
import Regroup.ChangeSet

/-! Where edges belong, said of the rows alone: the least group that an active membership of the
pair names and that is in use, else the least active default group of the owner. The indexes of a
snapshot answer just that. -/

namespace Regroup

theorem Dictionary.get?_foldl_alter {α κ ν : Type} [DecidableEq κ] (key : α → κ)
    (f : α → Option ν → ν) (xs : List α) (d : Dictionary κ ν) (k : κ) :
    (xs.foldl (fun d x => d.alter (key x) (f x)) d).get? k =
      (xs.filter (key · = k)).foldl (fun v x => some (f x v)) (d.get? k) := by
  induction xs generalizing d with
  | nil => rfl
  | cons x xs ih =>
    by_cases h : key x = k
    · simp [ih, get?_alter, h]
    · simp [ih, get?_alter, h, Ne.symm h]

theorem Dictionary.get?_foldl_insertIfNew {κ ν : Type} [DecidableEq κ] (v : ν) (ks : List κ)
    (d : Dictionary κ ν) (k : κ) :
    (ks.foldl (fun d k => d.insertIfNew k v) d).get? k =
      (d.get? k).or (if k ∈ ks then some v else none) := by
  induction ks generalizing d with
  | nil => simp
  | cons l ks ih =>
    by_cases h : k = l
    · subst h
      cases hd : d.get? k <;> simp [ih, get?_insertIfNew, hd]
    · simp [ih, get?_insertIfNew, h]

theorem DefaultSlot.add_existing (id cur : GroupId) :
    add id (some (.existing cur)) = .existing (min cur id) := by
  have hmin : (if id < cur then id else cur) = min cur id := by
    rw [Int.min_def]
    exact (ite_not ..).symm.trans (by simp only [Int.not_lt])
  simp only [add, hmin]

theorem MembershipIndex.lower_some (id cur : GroupId) : lower id (some cur) = min cur id := rfl

theorem foldl_add_existing (gs : List Group) (id : GroupId) :
    gs.foldl (fun v g => some (DefaultSlot.add g.id v)) (some (.existing id)) =
      some (.existing ((gs.map Group.id).foldl min id)) := by
  induction gs generalizing id with
  | nil => rfl
  | cons g gs ih => simp only [List.foldl_cons, List.map_cons, DefaultSlot.add_existing, ih]

theorem foldl_lower (ms : List Membership) (id : GroupId) :
    ms.foldl (fun v m => some (MembershipIndex.lower m.groupId v)) (some id) =
      some ((ms.map Membership.groupId).foldl min id) := by
  induction ms generalizing id with
  | nil => rfl
  | cons m ms ih => simp only [List.foldl_cons, List.map_cons, MembershipIndex.lower_some, ih]

/-- The active default groups of an owner. -/
def defaultIds (groups : List Group) (owner : Uid) : List GroupId :=
  ((groups.filter Group.isActiveDefault).filter (·.owner = owner)).map Group.id

/-- The groups in use that active memberships name for a pair. -/
def explicitIds (groups : List Group) (memberships : List Membership) (owner counterpart : Uid) :
    List GroupId :=
  ((memberships.filter (MembershipIndex.isEligible groups)).filter
    fun m => (m.owner, m.counterpart) = (owner, counterpart)).map Membership.groupId

theorem DefaultIndex.slot_build (groups : List Group) (owner : Uid) :
    (DefaultIndex.build groups).slot owner = (defaultIds groups owner).min?.map .existing := by
  simp only [slot, build, Dictionary.get?_foldl_alter, Dictionary.get?_empty, defaultIds]
  cases (groups.filter Group.isActiveDefault).filter (·.owner = owner) with
  | nil => rfl
  | cons g gs =>
    simp only [List.foldl_cons, List.map_cons, List.min?_cons', Option.map_some]
    exact foldl_add_existing gs g.id

theorem DefaultIndex.slot_planMissing (d : DefaultIndex) (owners : List Uid) (owner : Uid) :
    (d.planMissing owners).slot owner =
      (d.slot owner).or (if owner ∈ owners then some .planned else none) :=
  Dictionary.get?_foldl_insertIfNew _ owners d.slots owner

theorem MembershipIndex.get?_add (d : Dictionary Uid (Dictionary Uid GroupId)) (m : Membership)
    (owner counterpart : Uid) :
    ((add d m).get? owner).bind (·.get? counterpart) =
      if (m.owner, m.counterpart) = (owner, counterpart)
        then some (lower m.groupId ((d.get? owner).bind (·.get? counterpart)))
        else (d.get? owner).bind (·.get? counterpart) := by
  rw [add, Dictionary.get?_alter]
  by_cases ho : owner = m.owner
  · subst ho
    cases d.get? m.owner <;> by_cases hc : counterpart = m.counterpart <;>
      simp [Dictionary.get?_alter, hc, Ne.symm]
  · simp [ho, Ne.symm ho]

theorem MembershipIndex.get?_foldl_add (ms : List Membership)
    (d : Dictionary Uid (Dictionary Uid GroupId)) (owner counterpart : Uid) :
    ((ms.foldl add d).get? owner).bind (·.get? counterpart) =
      (ms.filter fun m => (m.owner, m.counterpart) = (owner, counterpart)).foldl
        (fun v m => some (lower m.groupId v)) ((d.get? owner).bind (·.get? counterpart)) := by
  induction ms generalizing d with
  | nil => rfl
  | cons m ms ih =>
    rw [List.foldl_cons, ih, get?_add]
    by_cases h : (m.owner, m.counterpart) = (owner, counterpart)
    · simp only [h, if_true, decide_true, List.filter_cons_of_pos, List.foldl_cons]
    · simp only [h, if_false, decide_false, Bool.false_eq_true, not_false_eq_true,
        List.filter_cons_of_neg]

theorem MembershipIndex.get?_build (groups : List Group) (memberships : List Membership)
    (owner counterpart : Uid) :
    (MembershipIndex.build groups memberships).get? owner counterpart =
      (explicitIds groups memberships owner counterpart).min? := by
  simp only [get?, build, explicitIds, get?_foldl_add, Dictionary.get?_empty, Option.bind_none]
  cases (memberships.filter (isEligible groups)).filter
      fun m => (m.owner, m.counterpart) = (owner, counterpart) with
  | nil => rfl
  | cons m ms =>
    simp only [List.foldl_cons, List.map_cons, List.min?_cons']
    exact foldl_lower ms m.groupId

theorem mem_defaultIds {groups : List Group} {owner : Uid} {id : GroupId} :
    id ∈ defaultIds groups owner ↔
      ∃ g ∈ groups, g.isActiveDefault = true ∧ g.owner = owner ∧ g.id = id := by
  simp only [defaultIds, List.mem_map, List.mem_filter, decide_eq_true_eq, and_assoc]

theorem mem_explicitIds {groups : List Group} {memberships : List Membership}
    {owner counterpart : Uid} {id : GroupId} :
    id ∈ explicitIds groups memberships owner counterpart ↔
      (∃ m ∈ memberships, m.isActive = true ∧ m.owner = owner ∧ m.counterpart = counterpart ∧
        m.groupId = id) ∧ ∃ g ∈ groups, g.isActive = true ∧ g.id = id := by
  simp only [explicitIds, List.mem_map, List.mem_filter, MembershipIndex.isEligible,
    Bool.and_eq_true, List.any_eq_true, beq_iff_eq, decide_eq_true_eq, Prod.mk.injEq]
  constructor
  · rintro ⟨m, ⟨⟨hm, hact, g, hg, hga, hgid⟩, ho, hc⟩, rfl⟩
    exact ⟨⟨m, hm, hact, ho, hc, rfl⟩, g, hg, hga, hgid⟩
  · rintro ⟨⟨m, hm, hact, ho, hc, rfl⟩, g, hg, hga, hgid⟩
    exact ⟨m, ⟨⟨hm, hact, g, hg, hga, hgid⟩, ho, hc⟩, rfl⟩

/-- What a snapshot without planned slots answers. -/
theorem Snapshot.resolve_build (groups : List Group) (memberships : List Membership)
    (owner counterpart : Uid) :
    (Snapshot.build groups memberships).resolve owner counterpart =
      match (explicitIds groups memberships owner counterpart).min? with
      | some id => .membership id
      | none =>
        match (defaultIds groups owner).min? with
        | some id => .defaultGroup id
        | none => .unresolved := by
  simp only [resolve, build, MembershipIndex.get?_build, DefaultIndex.slot_build]
  cases (explicitIds groups memberships owner counterpart).min? with
  | some id => rfl
  | none => cases (defaultIds groups owner).min? <;> rfl

/-- A planned slot counts where nothing else does. -/
theorem Snapshot.resolve_planMissing_build (groups : List Group) (memberships : List Membership)
    (owners : List Uid) (owner counterpart : Uid) :
    ((build groups memberships).planMissing owners).resolve owner counterpart =
      match (explicitIds groups memberships owner counterpart).min? with
      | some id => .membership id
      | none =>
        match (defaultIds groups owner).min? with
        | some id => .defaultGroup id
        | none => if owner ∈ owners then .pendingDefault else .unresolved := by
  simp only [resolve, planMissing, build, MembershipIndex.get?_build, DefaultIndex.slot_planMissing,
    DefaultIndex.slot_build]
  cases (explicitIds groups memberships owner counterpart).min? with
  | some id => rfl
  | none =>
    cases (defaultIds groups owner).min? with
    | some id => rfl
    | none => by_cases h : owner ∈ owners <;> simp [h]

/-- The groups in use that active memberships name for the edge's owner and counterpart. -/
def namedGroups (groups : List Group) (memberships : List Membership) (e : Edge) : Set GroupId :=
  {id | (∃ m ∈ memberships, m.isActive = true ∧ m.owner = e.owner ∧ m.counterpart = e.counterpart ∧
    m.groupId = id) ∧ ∃ g ∈ groups, g.isActive = true ∧ g.id = id}

/-- The active default groups of an owner. -/
def ownDefaults (groups : List Group) (owner : Uid) : Set GroupId :=
  {id | ∃ g ∈ groups, g.isActiveDefault = true ∧ g.owner = owner ∧ g.id = id}

/-- The group that the rows put an edge in: an explicit one goes before a default. -/
def BelongsTo (groups : List Group) (memberships : List Membership) (e : Edge) (id : GroupId) :
    Prop :=
  IsLeast (namedGroups groups memberships e) id ∨
    namedGroups groups memberships e = ∅ ∧ IsLeast (ownDefaults groups e.owner) id

/-- The rows put the edge in no group. -/
def BelongsNowhere (groups : List Group) (memberships : List Membership) (e : Edge) : Prop :=
  namedGroups groups memberships e = ∅ ∧ ownDefaults groups e.owner = ∅

theorem isLeast_iff_min? {s : Set GroupId} {ids : List GroupId} (h : ∀ id, id ∈ s ↔ id ∈ ids)
    {id : GroupId} : IsLeast s id ↔ ids.min? = some id := by
  rw [List.min?_eq_some_iff]
  exact and_congr (h id) (forall_congr' fun b => by rw [h b])

theorem eq_empty_iff_min? {s : Set GroupId} {ids : List GroupId} (h : ∀ id, id ∈ s ↔ id ∈ ids) :
    s = ∅ ↔ ids.min? = none := by
  rw [List.min?_eq_none_iff, List.eq_nil_iff_forall_not_mem, Set.eq_empty_iff_forall_notMem]
  exact forall_congr' fun b => by rw [h b]

theorem mem_namedGroups {groups : List Group} {memberships : List Membership} {e : Edge}
    (id : GroupId) : id ∈ namedGroups groups memberships e ↔
      id ∈ explicitIds groups memberships e.owner e.counterpart := mem_explicitIds.symm

theorem mem_ownDefaults {groups : List Group} {owner : Uid} (id : GroupId) :
    id ∈ ownDefaults groups owner ↔ id ∈ defaultIds groups owner := mem_defaultIds.symm

theorem groupId?_resolution_iff {groups : List Group} {memberships : List Membership} {e : Edge}
    {id : GroupId} :
    (ChangeSet.resolution (Snapshot.build groups memberships) e).groupId? = some id ↔
      BelongsTo groups memberships e id := by
  rw [BelongsTo, isLeast_iff_min? mem_namedGroups, isLeast_iff_min? mem_ownDefaults,
    eq_empty_iff_min? mem_namedGroups, ChangeSet.resolution, Snapshot.resolve_build]
  cases (explicitIds groups memberships e.owner e.counterpart).min? with
  | some x => simp [Resolution.groupId?]
  | none => cases (defaultIds groups e.owner).min? <;> simp [Resolution.groupId?]

instance {groups : List Group} {memberships : List Membership} {e : Edge} {id : GroupId} :
    Decidable (BelongsTo groups memberships e id) :=
  decidable_of_iff _ groupId?_resolution_iff

theorem groupId?_resolution_none_iff {groups : List Group} {memberships : List Membership}
    {e : Edge} :
    (ChangeSet.resolution (Snapshot.build groups memberships) e).groupId? = none ↔
      BelongsNowhere groups memberships e := by
  rw [BelongsNowhere, eq_empty_iff_min? mem_namedGroups, eq_empty_iff_min? mem_ownDefaults,
    ChangeSet.resolution, Snapshot.resolve_build]
  cases (explicitIds groups memberships e.owner e.counterpart).min? with
  | some x => simp [Resolution.groupId?]
  | none => cases (defaultIds groups e.owner).min? <;> simp [Resolution.groupId?]

end Regroup
