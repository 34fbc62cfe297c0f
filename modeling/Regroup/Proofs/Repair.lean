import Regroup.Proofs.Convergence
import Regroup.Proofs.Course

/-! A full run without a concurrent writer puts every edge that it accepts where the committed rows
put it, and leaves alone what has nowhere to go or is there already. The edges are compared with a
snapshot that is read in the middle of the run; what is committed resolves them alike. -/

namespace Regroup.Memory

open Attempt

namespace Course

variable (p : Course)

/-- What becomes of an edge that no one else moves. -/
inductive Fate : Edge → Edge → Prop
  | kept {e : Edge}
      (h : p.options.filter.accepts e = true → ChangeSet.change? p.snapshot e = none) : Fate e e
  | moved {e : Edge} {c : EdgeChange} (v : Int) (haccept : p.options.filter.accepts e = true)
      (hchange : ChangeSet.change? p.snapshot e = some c) :
      Fate e { e with groupId := some c.target, version := some v }

variable {p}

theorem published_eq : p.published = { p.provisioned with edges := p.published.edges } := by
  unfold published
  split
  · rfl
  · rw [Tables.snd_applyEdges]
    cases p.strayEdge <;> rfl

theorem published_groups : p.published.groups = p.provisioned.groups := by
  rw [published_eq]

theorem published_memberships : p.published.memberships = p.tables.memberships := by
  rw [published_eq]
  rfl

theorem published_users : p.published.users = p.tables.users := by
  rw [published_eq]
  rfl

/-- Edges are compared with what is committed of groups and memberships. -/
theorem snapshot_eq : p.snapshot = .build p.published.groups p.published.memberships := by
  rw [published_groups, published_memberships]
  rfl

/-- The edges right before edges are written, if any are. -/
def contested (p : Course) : List Edge :=
  if p.changes.changes = [] then p.tables.edges else (strayed p.strayEdge p.tables).edges

theorem published_edges_eq : p.published.edges =
    p.writes.foldl (fun es r => modifyFirst r.matchesEdge r.applyTo es) p.contested := by
  unfold published contested
  split
  · rename_i hnone
    simp only [writes, hnone, List.zipWith_nil_left]
    rfl
  · rw [Tables.snd_applyEdges]
    cases p.strayEdge <;> rfl

theorem contested_of_alone (halone : p.strayEdge = none) : p.contested = p.tables.edges := by
  rw [contested, halone]
  exact ite_self _

theorem fate_of_edge (hids : (p.tables.edges.map Edge.id).Nodup) {e : Edge}
    (he : e ∈ p.tables.edges) : p.Fate e (EdgeWrite.applied p.writes e) := by
  have hlength : p.changes.changes.length =
      (p.afterRefreshes.fresh p.options.counters.edge p.changes.changes.length).length :=
    (Counters.length_fresh _ _ _).symm
  rcases ChangeSet.applied_cases hids hlength rfl he with
    ⟨hnone, -, heq⟩ | ⟨c, v, haccept, hchange, -, heq⟩
  · exact heq.symm ▸ .kept hnone
  · exact heq.symm ▸ .moved v haccept hchange

/-- Where edges have ids of their own, the writes reach just the edges with a change. -/
theorem published_edges (hids : (p.tables.edges.map Edge.id).Nodup) (halone : p.strayEdge = none) :
    List.Forall₂ p.Fate p.tables.edges p.published.edges := by
  rw [published_edges_eq, contested_of_alone halone, EdgeWrite.foldl_eq_map _ hids,
    List.forall₂_map_right_iff, List.forall₂_same]
  exact fun e he => fate_of_edge hids he

end Course

/-- An edge before and after a run that accepts what `f` accepts and that commits these groups and
memberships. -/
structure Repaired (f : EdgeFilter) (groups : List Group) (memberships : List Membership)
    (e e' : Edge) : Prop where
  identity : e'.id = e.id ∧ e'.owner = e.owner ∧ e'.counterpart = e.counterpart ∧
    e'.isDeleted = e.isDeleted
  rejected : f.accepts e = false → e' = e
  nowhere : BelongsNowhere groups memberships e → e' = e
  placed : f.accepts e = true → ¬ BelongsNowhere groups memberships e →
    BelongsTo groups memberships e e'.currentGroup
  settled : BelongsTo groups memberships e e.currentGroup → e' = e

namespace Course.Fate

variable {p : Course} {e e' : Edge}

theorem keeps (h : p.Fate e e') : e'.id = e.id ∧ e'.owner = e.owner ∧
    e'.counterpart = e.counterpart ∧ e'.isDeleted = e.isDeleted := by
  cases h <;> exact ⟨rfl, rfl, rfl, rfl⟩

theorem eq_self_of_change?_eq_none (h : p.Fate e e')
    (hnone : p.options.filter.accepts e = true → ChangeSet.change? p.snapshot e = none) :
    e' = e := by
  cases h with
  | kept => rfl
  | moved v haccept hchange => simp [hnone haccept] at hchange

theorem placed (h : p.Fate e e') (haccept : p.options.filter.accepts e = true) {id : GroupId}
    (hid : (ChangeSet.resolution p.snapshot e).groupId? = some id) : e'.currentGroup = id := by
  cases h with
  | kept hnone => exact ChangeSet.change?_eq_none_iff.mp (hnone haccept) id hid
  | moved v _ hchange =>
    obtain ⟨-, -, htarget, -⟩ := ChangeSet.change?_eq_some hchange
    exact Option.some.inj (htarget.symm.trans hid)

theorem repaired (h : p.Fate e e') :
    Repaired p.options.filter p.published.groups p.published.memberships e e' := by
  refine ⟨h.keeps, fun hreject => ?_, fun hnowhere => ?_, fun haccept hsome => ?_, fun hto => ?_⟩
  · exact h.eq_self_of_change?_eq_none fun haccept => by simp [hreject] at haccept
  · rw [← groupId?_resolution_none_iff, ← snapshot_eq] at hnowhere
    refine h.eq_self_of_change?_eq_none fun _ => ChangeSet.change?_eq_none_iff.mpr fun id hid => ?_
    simp [hnowhere] at hid
  · rw [← groupId?_resolution_none_iff, ← snapshot_eq] at hsome
    obtain ⟨id, hid⟩ := Option.ne_none_iff_exists'.mp hsome
    rw [← groupId?_resolution_iff, ← snapshot_eq, h.placed haccept hid]
    exact hid
  · rw [← groupId?_resolution_iff, ← snapshot_eq] at hto
    refine h.eq_self_of_change?_eq_none fun _ => ChangeSet.change?_eq_none_iff.mpr fun id hid => ?_
    exact Option.some.inj (hto.symm.trans hid)

end Course.Fate

/-- After a full run without a concurrent writer every edge that is accepted is where the rows put
it, for as far as they put it anywhere, and nothing else has happened to edges. -/
theorem reconcile_repairs {o : Options} {stamp : Stamp} {w w' : World} {r : Report}
    (hfull : o.dryRun = false) (hids : (w.store.tables.edges.map Edge.id).Nodup)
    (halone : w.store.interfereWith = none)
    (hrun : (reconcile service o stamp).outcome w = (.ok r, w')) :
    w'.store.tables.users = w.store.tables.users ∧
      w'.store.tables.memberships = w.store.tables.memberships ∧
      List.Forall₂ (Repaired o.filter w'.store.tables.groups w'.store.tables.memberships)
        w.store.tables.edges w'.store.tables.edges := by
  obtain ⟨-, -, hstore, -⟩ := reconcile_eq_ok hfull hrun
  have htables : w'.store.tables = (w.course o).published := by rw [hstore]
  rw [htables]
  refine ⟨Course.published_users, Course.published_memberships, ?_⟩
  exact (@Course.published_edges (w.course o) hids halone).imp fun _ _ h => h.repaired

/-- One edge belongs in a group that a membership names, one in a default group yet to come. -/
def strewn : World :=
  { store := .ofTables
      { users := ["ada"]
        groups := [.new 1 "ada" "work" false, (Group.new 2 "ada" "old" true).deleted]
        memberships := [.new 1 "ada" "bob"]
        edges := [.new 1 "ada" "bob", .new 2 "ada" "eve"] } }

theorem reconcile_repairs_strewn : ∃ r w',
    (reconcile service {} default).outcome strewn = (.ok r, w') ∧
    w'.store.tables.edges.map Edge.groupId = [some 1, some 3] ∧
    List.Forall₂ (Repaired {} w'.store.tables.groups w'.store.tables.memberships)
      strewn.store.tables.edges w'.store.tables.edges := by
  obtain ⟨r, hrun⟩ := @exists_eq_ok _ _ (reconcile service {} default) strewn (by cbv)
  exact ⟨r, _, hrun, by cbv, (reconcile_repairs rfl (by decide) rfl hrun).2.2⟩

end Regroup.Memory
