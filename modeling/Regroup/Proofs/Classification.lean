import Mathlib.Data.List.Forall2
import Regroup.Proofs.ChangeSet

/-! What a change set says of the edges that it was computed from. Each edge is looked at once and
is in one class: the filter rejects it, it has no place, it awaits its group, it is in its place, or
it has to move. A change set is told by its edges and by the order that it is in. -/

namespace Regroup

namespace ChangeSet

variable {s : Snapshot} {edges : List Edge} {f : EdgeFilter} {e : Edge} {c : EdgeChange}

/-- An edge that is accepted has no place, or has to move, or awaits a group, or is in its place. -/
theorem one_of_each (s : Snapshot) (e : Edge) :
    (if resolution s e == .unresolved then 1 else 0) + ((if (change? s e).isSome then 1 else 0) +
      (if resolution s e == .pendingDefault then 1 else 0)) +
        (if (resolution s e).groupId? = some e.currentGroup then 1 else 0) = 1 := by
  unfold change?
  rcases resolution s e with id | id | _ | _
  · by_cases h : id = e.currentGroup <;> simp [Resolution.groupId?, h, Ne.symm]
  · by_cases h : id = e.currentGroup <;> simp [Resolution.groupId?, h, Ne.symm]
  · simp [Resolution.groupId?]
  · simp [Resolution.groupId?]

/-- Every edge is counted once. -/
theorem counts_add_up (s : Snapshot) (f : EdgeFilter) (edges : List Edge) :
    (compute edges s f).filteredOut + (compute edges s f).unresolved.length +
      (compute edges s f).toUpdate + edges.countP (fun e => f.accepts e &&
        decide ((resolution s e).groupId? = some e.currentGroup)) = edges.length := by
  rw [toUpdate, length_changes]
  simp only [compute_eq, length_idsOf, List.countP_filter]
  induction edges with
  | nil => rfl
  | cons e edges ih =>
    have hone := one_of_each s e
    simp only [List.countP_cons, List.length_cons]
    by_cases haccept : f.accepts e = true
    · simp only [haccept, Bool.and_true, Bool.true_and, Bool.not_true, Bool.false_eq_true, if_false,
        decide_eq_true_eq]
      omega
    · simp only [haccept, Bool.and_false, Bool.false_and, Bool.not_false, Bool.false_eq_true,
        if_false, if_true]
      omega

/-- The edge is stored with another group than the one it resolves to. -/
def isMisplaced (s : Snapshot) (e : Edge) : Bool :=
  (resolution s e).groupId?.any (· ≠ e.currentGroup)

/-- The change tells where the edge is, where it belongs, and what decided so. -/
structure Tells (s : Snapshot) (e : Edge) (c : EdgeChange) : Prop where
  edgeId : c.edgeId = e.id
  owner : c.owner = e.owner
  counterpart : c.counterpart = e.counterpart
  current : c.current = e.currentGroup
  resolved : resolution s e = if c.viaMembership then .membership c.target else .defaultGroup c.target

theorem Tells.unique {c' : EdgeChange} (h : Tells s e c) (h' : Tells s e c') : c = c' := by
  obtain ⟨id, owner, counterpart, current, target, via⟩ := c
  obtain ⟨id', owner', counterpart', current', target', via'⟩ := c'
  obtain ⟨rfl, rfl, rfl, rfl, hresolved⟩ := h
  obtain ⟨rfl, rfl, rfl, rfl, hresolved'⟩ := h'
  rw [hresolved] at hresolved'
  cases via <;> cases via' <;> simp_all

theorem exists_tells_of_isMisplaced (h : isMisplaced s e = true) :
    ∃ c, change? s e = some c ∧ Tells s e c := by
  unfold isMisplaced at h
  unfold change?
  cases hr : resolution s e with
  | membership id =>
    have hne : e.currentGroup ≠ id := fun he => by simp [hr, Resolution.groupId?, he] at h
    exact ⟨_, if_neg hne, rfl, rfl, rfl, rfl, by simp [hr]⟩
  | defaultGroup id =>
    have hne : e.currentGroup ≠ id := fun he => by simp [hr, Resolution.groupId?, he] at h
    exact ⟨_, if_neg hne, rfl, rfl, rfl, rfl, by simp [hr]⟩
  | pendingDefault => simp [hr, Resolution.groupId?] at h
  | unresolved => simp [hr, Resolution.groupId?] at h

theorem isSome_change? (s : Snapshot) (e : Edge) : (change? s e).isSome = isMisplaced s e := by
  unfold change? isMisplaced
  cases resolution s e with
  | membership id | defaultGroup id =>
    by_cases h : e.currentGroup = id <;> simp [Resolution.groupId?, h, Ne.symm]
  | pendingDefault | unresolved => rfl

/-- One change for each accepted edge that is misplaced, in the order of the edges. -/
theorem forall₂_tells (s : Snapshot) (f : EdgeFilter) (edges : List Edge) :
    List.Forall₂ (Tells s) (edges.filter fun e => f.accepts e && isMisplaced s e)
      ((edges.filter f.accepts).filterMap (change? s)) := by
  induction edges with
  | nil => exact .nil
  | cons e edges ih =>
    by_cases haccept : f.accepts e = true
    · by_cases hmisplaced : isMisplaced s e = true
      · obtain ⟨c, hc, htells⟩ := exists_tells_of_isMisplaced hmisplaced
        simpa [haccept, hmisplaced, hc] using ⟨htells, ih⟩
      · have hnone : change? s e = none := by
          rw [← Option.not_isSome_iff_eq_none, isSome_change?]
          exact hmisplaced
        simpa [haccept, hmisplaced, hnone] using ih
    · simpa [haccept] using ih

/-- What makes a change set of edges: what is in it, in which order, and that no edge is left out or
counted twice. -/
structure Classifies (edges : List Edge) (s : Snapshot) (f : EdgeFilter) (c : ChangeSet) : Prop where
  scanned : c.scanned = edges.length
  filteredOut : c.filteredOut = edges.countP fun e => !f.accepts e
  unresolved : c.unresolved.Perm
    ((edges.filter fun e => f.accepts e && resolution s e == .unresolved).map Edge.id)
  unresolved_sorted : c.unresolved.Pairwise (· ≤ ·)
  awaitingDefault : c.awaitingDefault.Perm
    ((edges.filter fun e => f.accepts e && resolution s e == .pendingDefault).map Edge.id)
  awaitingDefault_sorted : c.awaitingDefault.Pairwise (· ≤ ·)
  /-- Changes with one id stand in the order of their edges. -/
  changes : ∃ found,
    List.Forall₂ (Tells s) (edges.filter fun e => f.accepts e && isMisplaced s e) found ∧
      c.changes.Perm found ∧ ∀ id, c.changes.filter (·.edgeId = id) = found.filter (·.edgeId = id)
  changes_sorted : c.changes.Pairwise fun x y => x.edgeId ≤ y.edgeId
  toUpdate : c.toUpdate = edges.countP fun e =>
    f.accepts e && (isMisplaced s e || resolution s e == .pendingDefault)
  once : c.filteredOut + c.unresolved.length + c.awaitingDefault.length + c.changes.length +
    edges.countP (fun e => f.accepts e && decide ((resolution s e).groupId? = some e.currentGroup)) =
      c.scanned

theorem Classifies.unique {c c' : ChangeSet} (h : Classifies edges s f c)
    (h' : Classifies edges s f c') : c = c' := by
  have hsame {xs ys zs : List EdgeId} (hx : xs.Perm zs) (hy : ys.Perm zs)
      (hxs : xs.Pairwise (· ≤ ·)) (hys : ys.Pairwise (· ≤ ·)) : xs = ys :=
    List.Perm.eq_of_pairwise (fun _ _ _ _ => Int.le_antisymm) hxs hys (hx.trans hy.symm)
  obtain ⟨found, hfound, -, hfilter⟩ := h.changes
  obtain ⟨found', hfound', -, hfilter'⟩ := h'.changes
  have hunique : Relator.RightUnique (Tells s) := fun _ _ _ ht ht' => ht.unique ht'
  obtain rfl : found = found' := List.right_unique_forall₂' hunique hfound hfound'
  have hchanges : c.changes = c'.changes :=
    eq_of_filter_key_eq h.changes_sorted h'.changes_sorted fun id =>
      (hfilter id).trans (hfilter' id).symm
  obtain ⟨changes, awaiting, unresolved, filteredOut, scanned⟩ := c
  obtain ⟨changes', awaiting', unresolved', filteredOut', scanned'⟩ := c'
  obtain rfl : changes = changes' := hchanges
  obtain rfl : awaiting = awaiting' := hsame h.awaitingDefault h'.awaitingDefault
    h.awaitingDefault_sorted h'.awaitingDefault_sorted
  obtain rfl : unresolved = unresolved' :=
    hsame h.unresolved h'.unresolved h.unresolved_sorted h'.unresolved_sorted
  obtain rfl : filteredOut = filteredOut' := h.filteredOut.trans h'.filteredOut.symm
  obtain rfl : scanned = scanned' := h.scanned.trans h'.scanned.symm
  rfl

theorem idsOf_perm (s : Snapshot) (r : Resolution) (f : EdgeFilter) (edges : List Edge) :
    (idsOf s r (edges.filter f.accepts)).Perm
      ((edges.filter fun e => f.accepts e && resolution s e == r).map Edge.id) := by
  have hfilter : (edges.filter f.accepts).filter (fun e => resolution s e == r) =
      edges.filter fun e => f.accepts e && resolution s e == r := by
    rw [List.filter_filter]
    exact List.filter_congr fun e _ => Bool.and_comm _ _
  rw [← hfilter]
  exact sortOn_perm id _

theorem idsOf_pairwise (s : Snapshot) (r : Resolution) (edges : List Edge) :
    (idsOf s r edges).Pairwise (· ≤ ·) := by
  simpa [idsOf] using sortOn_pairwise id ((edges.filter fun e => resolution s e == r).map Edge.id)

theorem toUpdate_compute (edges : List Edge) (s : Snapshot) (f : EdgeFilter) :
    (compute edges s f).toUpdate = edges.countP fun e =>
      f.accepts e && (isMisplaced s e || resolution s e == .pendingDefault) := by
  have hapart : ∀ e ∈ edges.filter f.accepts, isMisplaced s e = true →
      (resolution s e == .pendingDefault) = false := by
    intro e _ hmisplaced
    refine Bool.eq_false_iff.mpr fun hpending => ?_
    simp [isMisplaced, beq_iff_eq.mp hpending, Resolution.groupId?] at hmisplaced
  rw [toUpdate, length_changes]
  simp only [compute_eq, length_idsOf, isSome_change?]
  rw [← countP_or_of_disjoint hapart, List.countP_filter]
  exact List.countP_congr fun e _ => by rw [Bool.and_comm]

theorem compute_classifies (edges : List Edge) (s : Snapshot) (f : EdgeFilter) :
    Classifies edges s f (compute edges s f) where
  scanned := scanned_compute edges s f
  filteredOut := filteredOut_compute edges s f
  unresolved := by
    rw [compute_eq]
    exact idsOf_perm s .unresolved f edges
  unresolved_sorted := by
    rw [compute_eq]
    exact idsOf_pairwise s .unresolved _
  awaitingDefault := by
    rw [compute_eq]
    exact idsOf_perm s .pendingDefault f edges
  awaitingDefault_sorted := by
    rw [compute_eq]
    exact idsOf_pairwise s .pendingDefault _
  changes := by
    rw [compute_eq]
    exact ⟨_, forall₂_tells s f edges, sortOn_perm EdgeChange.edgeId _,
      filter_sortOn EdgeChange.edgeId _⟩
  changes_sorted := changes_pairwise edges s f
  toUpdate := toUpdate_compute edges s f
  once := by
    have hcounts := counts_add_up s f edges
    rw [toUpdate] at hcounts
    rw [scanned_compute]
    omega

/-- One change set, and no other, is what a pass over the edges finds. -/
theorem compute_eq_iff_classifies (edges : List Edge) (s : Snapshot) (f : EdgeFilter)
    (c : ChangeSet) : compute edges s f = c ↔ Classifies edges s f c := by
  constructor
  · rintro rfl
    exact compute_classifies edges s f
  · exact (compute_classifies edges s f).unique

end ChangeSet

end Regroup
