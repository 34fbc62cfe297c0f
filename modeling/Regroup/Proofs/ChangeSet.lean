import Regroup.Proofs.Resolution
import Regroup.Proofs.Sorting

/-! What a change set says of each edge: which edges have a change, what the change moves, and how
the counts of a set come from the edges one by one. -/

namespace Regroup

/-- What decides where edges belong: of the version nothing, of the deletion flag only what it
means. -/
def Group.standing (g : Group) : Group :=
  { g with isDeleted := some !g.isActive, version := none }

@[simp] theorem Group.isActive_standing (g : Group) : g.standing.isActive = g.isActive := by
  simp [standing, isActive, inUse]

@[simp] theorem Group.isActiveDefault_standing (g : Group) :
    g.standing.isActiveDefault = g.isActiveDefault := by
  simp only [isActiveDefault, isActive_standing]
  rfl

theorem defaultIds_standing (groups : List Group) (owner : Uid) :
    defaultIds (groups.map Group.standing) owner = defaultIds groups owner := by
  simp only [defaultIds, List.filter_map, List.map_map, Function.comp_def,
    Group.isActiveDefault_standing]
  rfl

theorem isEligible_standing (groups : List Group) :
    MembershipIndex.isEligible (groups.map Group.standing) = MembershipIndex.isEligible groups := by
  funext m
  simp only [MembershipIndex.isEligible, List.any_map, Function.comp_def, Group.isActive_standing]
  rfl

theorem explicitIds_standing (groups : List Group) (memberships : List Membership)
    (owner counterpart : Uid) :
    explicitIds (groups.map Group.standing) memberships owner counterpart =
      explicitIds groups memberships owner counterpart := by
  simp only [explicitIds, isEligible_standing]

section Congr

variable {groups groups' : List Group}
  (h : groups.map Group.standing = groups'.map Group.standing)

include h

theorem map_id_congr : groups.map Group.id = groups'.map Group.id := by
  have hmap := congrArg (List.map Group.id) h
  rw [List.map_map, List.map_map] at hmap
  exact hmap

theorem defaultIds_congr (owner : Uid) : defaultIds groups owner = defaultIds groups' owner := by
  rw [← defaultIds_standing groups, h, defaultIds_standing]

theorem ownDefaults_congr (owner : Uid) :
    ownDefaults groups owner = ownDefaults groups' owner := by
  ext id
  rw [mem_ownDefaults, mem_ownDefaults, defaultIds_congr h]

theorem Snapshot.resolve_build_congr (memberships : List Membership) (owner counterpart : Uid) :
    (build groups memberships).resolve owner counterpart =
      (build groups' memberships).resolve owner counterpart := by
  rw [resolve_build, resolve_build, ← explicitIds_standing groups, h, explicitIds_standing,
    defaultIds_congr h]

end Congr

/-- What decides whether an edge is looked at and where it belongs. -/
def Edge.bearing (e : Edge) : Edge := { e with groupId := none, version := none }

theorem EdgeFilter.accepts_bearing (f : EdgeFilter) (e : Edge) :
    f.accepts e.bearing = f.accepts e := by
  obtain ⟨scope, excluded⟩ := f
  cases scope <;> rfl

namespace ChangeSet

variable {s s' : Snapshot} {e : Edge} {c : EdgeChange} {edges : List Edge} {f : EdgeFilter}

theorem change?_eq_some (h : change? s e = some c) :
    c.edgeId = e.id ∧ c.current = e.currentGroup ∧
      (resolution s e).groupId? = some c.target ∧ e.currentGroup ≠ c.target := by
  unfold change? at h
  rcases hr : resolution s e with id | id | _ | _ <;> simp only [hr] at h
  · split at h
    · cases h
    · rename_i hne
      cases h
      exact ⟨rfl, rfl, rfl, hne⟩
  · split at h
    · cases h
    · rename_i hne
      cases h
      exact ⟨rfl, rfl, rfl, hne⟩
  · cases h
  · cases h

theorem change?_eq_none_iff :
    change? s e = none ↔ ∀ id, (resolution s e).groupId? = some id → e.currentGroup = id := by
  unfold change?
  rcases resolution s e with id | id | _ | _ <;> simp [Resolution.groupId?]

theorem change?_congr (h : resolution s e = resolution s' e) : change? s e = change? s' e := by
  simp only [change?, h]

/-- What a pass has gathered once it went on over more edges. -/
theorem foldl_look (s : Snapshot) (f : EdgeFilter) (edges : List Edge) (c : ChangeSet) :
    edges.foldl (look s f) c =
      { changes := c.changes ++ (edges.filter f.accepts).filterMap (change? s)
        awaitingDefault := c.awaitingDefault ++
          ((edges.filter f.accepts).filter fun e => resolution s e == .pendingDefault).map Edge.id
        unresolved := c.unresolved ++
          ((edges.filter f.accepts).filter fun e => resolution s e == .unresolved).map Edge.id
        filteredOut := c.filteredOut + edges.countP fun e => !f.accepts e
        scanned := c.scanned + edges.length } := by
  induction edges generalizing c with
  | nil => simp
  | cons e edges ih =>
    rw [List.foldl_cons, ih]
    by_cases haccept : f.accepts e = true
    · cases hr : resolution s e with
      | membership id | defaultGroup id =>
        cases hc : change? s e <;> simp [look, haccept, hr, hc] <;> omega
      | pendingDefault | unresolved =>
        have hc : change? s e = none := by simp only [change?, hr]
        simp [look, haccept, hr, hc]
        omega
    · simp [look, haccept]
      omega

/-- The ids, in ascending order, of the edges that resolve in one way. -/
def idsOf (s : Snapshot) (r : Resolution) (edges : List Edge) : List EdgeId :=
  sortOn id ((edges.filter fun e => resolution s e == r).map Edge.id)

/-- Each part of a change set is there for itself: the edges of one kind, in order. -/
theorem compute_eq (edges : List Edge) (s : Snapshot) (f : EdgeFilter) :
    compute edges s f =
      { changes := sortOn EdgeChange.edgeId ((edges.filter f.accepts).filterMap (change? s))
        awaitingDefault := idsOf s .pendingDefault (edges.filter f.accepts)
        unresolved := idsOf s .unresolved (edges.filter f.accepts)
        filteredOut := edges.countP fun e => !f.accepts e
        scanned := edges.length } := by
  rw [compute, foldl_look]
  simp only [sorted, idsOf, List.nil_append, Nat.zero_add]

theorem scanned_compute (edges : List Edge) (s : Snapshot) (f : EdgeFilter) :
    (compute edges s f).scanned = edges.length := by rw [compute_eq]

theorem filteredOut_compute (edges : List Edge) (s : Snapshot) (f : EdgeFilter) :
    (compute edges s f).filteredOut = edges.countP fun e => !f.accepts e := by rw [compute_eq]

theorem mem_changes : c ∈ (compute edges s f).changes ↔
    ∃ e ∈ edges, f.accepts e = true ∧ change? s e = some c := by
  simp only [compute_eq, mem_sortOn, List.mem_filterMap, List.mem_filter, and_assoc]

theorem changes_pairwise (edges : List Edge) (s : Snapshot) (f : EdgeFilter) :
    (compute edges s f).changes.Pairwise fun x y => x.edgeId ≤ y.edgeId :=
  sortOn_pairwise _ _

theorem changes_nodup (s : Snapshot) (f : EdgeFilter) (h : (edges.map Edge.id).Nodup) :
    ((compute edges s f).changes.map EdgeChange.edgeId).Nodup := by
  -- an edge has one change at most, so changes are told apart as their edges are
  have hfound : ((edges.filter f.accepts).filterMap (change? s)).Pairwise
      fun c c' => c.edgeId ≠ c'.edgeId := by
    refine ((List.pairwise_map.mp h).sublist List.filter_sublist).filterMap (change? s) ?_
    intro e e' hne c hc c' hc'
    rw [(change?_eq_some hc).1, (change?_eq_some hc').1]
    exact hne
  have hperm := (sortOn_perm EdgeChange.edgeId ((edges.filter f.accepts).filterMap (change? s))).map
    EdgeChange.edgeId
  rw [compute_eq]
  exact hperm.nodup_iff.mpr (List.pairwise_map.mpr hfound)

theorem length_changes : (compute edges s f).changes.length =
    (edges.filter f.accepts).countP fun e => (change? s e).isSome := by
  simp only [compute_eq, length_sortOn, List.length_filterMap_eq_countP]

theorem length_idsOf (r : Resolution) :
    (idsOf s r edges).length = edges.countP fun e => resolution s e == r := by
  simp only [idsOf, length_sortOn, List.length_map, List.countP_eq_length_filter]

theorem idsOf_bearing (s : Snapshot) (r : Resolution) (f : EdgeFilter) (edges : List Edge) :
    idsOf s r ((edges.map Edge.bearing).filter f.accepts) = idsOf s r (edges.filter f.accepts) := by
  simp only [idsOf, List.filter_map, List.map_map, Function.comp_def, EdgeFilter.accepts_bearing]
  rfl

theorem countP_bearing (f : EdgeFilter) (edges : List Edge) :
    (edges.map Edge.bearing).countP (fun e => !f.accepts e) =
      edges.countP fun e => !f.accepts e := by
  rw [List.countP_map]
  simp only [Function.comp_def, EdgeFilter.accepts_bearing]

section Congr

variable {edges' : List Edge} (hedges : edges.map Edge.bearing = edges'.map Edge.bearing)

include hedges

theorem idsOf_congr (r : Resolution)
    (hresolve : ∀ owner counterpart, s.resolve owner counterpart = s'.resolve owner counterpart) :
    idsOf s r (edges.filter f.accepts) = idsOf s' r (edges'.filter f.accepts) := by
  have hsame : ∀ e, resolution s e = resolution s' e := fun e => hresolve _ _
  rw [← idsOf_bearing, hedges, idsOf_bearing]
  simp only [idsOf, hsame]

theorem length_unresolved_congr
    (hresolve : ∀ owner counterpart, s.resolve owner counterpart = s'.resolve owner counterpart) :
    (compute edges s f).unresolved.length = (compute edges' s' f).unresolved.length := by
  rw [compute_eq, compute_eq]
  exact congrArg List.length (idsOf_congr hedges .unresolved hresolve)

/-- Without its changes, a change set depends on the bearings of edges alone. -/
theorem compute_congr (s : Snapshot) (f : EdgeFilter) :
    compute edges s f = { compute edges' s f with changes := (compute edges s f).changes } := by
  have hlength : edges.length = edges'.length := by simpa using congrArg List.length hedges
  have hids : ∀ r, idsOf s r (edges.filter f.accepts) = idsOf s r (edges'.filter f.accepts) :=
    fun r => idsOf_congr hedges r fun _ _ => rfl
  have hfiltered : edges.countP (fun e => !f.accepts e) = edges'.countP fun e => !f.accepts e := by
    rw [← countP_bearing, hedges, countP_bearing]
  simp only [compute_eq, hids, hfiltered, hlength]

end Congr

theorem length_awaitingDefault_build (groups : List Group) (memberships : List Membership) :
    (compute edges (.build groups memberships) f).awaitingDefault.length = 0 := by
  have hnone : ∀ e ∈ edges.filter f.accepts,
      (resolution (.build groups memberships) e == .pendingDefault) = false := by
    intro e _
    rw [resolution, Snapshot.resolve_build]
    cases (explicitIds groups memberships e.owner e.counterpart).min? with
    | some id => rfl
    | none => cases (defaultIds groups e.owner).min? <;> rfl
  simp only [compute_eq, length_idsOf]
  exact List.countP_eq_zero.mpr fun e he => by simp [hnone e he]

end ChangeSet

end Regroup
