import Regroup.Proofs.Forecast
import Regroup.Proofs.Repair

/-! Runs that seed default groups from edges. The owner of an edge is a candidate whatever the
filter says of the edge. So once provisioning is done or foreseen each of these owners has a default
group or is about to receive one, and every edge has a place. -/

namespace Regroup

/-- The owner has a default group among the groups, or is listed to receive one. -/
def Covered (state : List Group × List Uid) (owner : Uid) : Prop :=
  (ownDefaults state.1 owner).Nonempty ∨ owner ∈ state.2

namespace Covered

variable {name : String} {state : List Group × List Uid} {owner other : Uid}

theorem of_previewOwner (name : String) (state : List Group × List Uid) (owner : Uid) :
    Covered (ProvisionPlan.previewOwner name state owner) owner := by
  unfold ProvisionPlan.previewOwner
  split
  · rename_i id hid
    have hmem := (List.min?_eq_some_iff.mp hid).1
    obtain ⟨x, hx, rfl⟩ := List.mem_map.mp hmem
    obtain ⟨hx, hholds⟩ := List.mem_filter.mp hx
    have hany : state.1.any (fun g => g.holds owner name && g.id == x.id) = true :=
      List.any_eq_true.mpr ⟨x, hx, by simp [hholds]⟩
    -- several rows may hold the name under this id, the first of them is revived
    obtain ⟨g, -, hg, hmem⟩ := exists_mem_modifyFirst Group.revive hany
    have howner := (Group.holds_iff.mp (Bool.and_eq_true_iff.mp hg).1).1
    exact .inl ⟨g.id, g.revive, hmem, rfl, howner, rfl⟩
  · exact .inr (by simp)

theorem previewOwner (h : Covered state owner) :
    Covered (ProvisionPlan.previewOwner name state other) owner := by
  unfold ProvisionPlan.previewOwner
  split
  · exact h.imp_left fun hold => hold.mono (ownDefaults_modifyFirst fun _ => ⟨rfl, rfl, rfl⟩)
  · exact h.imp_right fun hmem => List.mem_append_left _ hmem

theorem foldl_previewOwner (h : Covered state owner) (owners : List Uid) :
    Covered (owners.foldl (ProvisionPlan.previewOwner name) state) owner := by
  induction owners generalizing state with
  | nil => exact h
  | cons other owners ih => exact ih h.previewOwner

theorem of_mem_foldl {owners : List Uid} (h : owner ∈ owners) :
    Covered (owners.foldl (ProvisionPlan.previewOwner name) state) owner := by
  induction owners generalizing state with
  | nil => simp at h
  | cons other owners ih =>
    rcases List.mem_cons.mp h with rfl | h
    · exact (of_previewOwner name state owner).foldl_previewOwner owners
    · exact ih h

/-- A preview leaves no candidate out. -/
theorem of_preview {candidates : List Uid} {groups : List Group} (h : owner ∈ candidates) :
    Covered ((ProvisionPlan.build candidates groups).preview name groups) owner := by
  by_cases hold : (ownDefaults groups owner).Nonempty
  · have hstart : Covered (groups, []) owner := .inl hold
    exact hstart.foldl_previewOwner _
  · have hnone : ownDefaults groups owner = ∅ := Set.not_nonempty_iff_eq_empty.mp hold
    exact of_mem_foldl (mem_missingOwners.mpr ⟨h, hnone⟩)

theorem resolve_ne_unresolved {groups : List Group} {owners : List Uid}
    (h : Covered (groups, owners) owner) (memberships : List Membership) (counterpart : Uid) :
    ((Snapshot.build groups memberships).planMissing owners).resolve owner counterpart ≠
      .unresolved := by
  rw [Snapshot.resolve_planMissing_build]
  cases (explicitIds groups memberships owner counterpart).min? with
  | some id => simp
  | none =>
    cases hmin : (defaultIds groups owner).min? with
    | some id => simp
    | none =>
      have hnone : ownDefaults groups owner = ∅ := (eq_empty_iff_min? mem_ownDefaults).mpr hmin
      have hlisted : owner ∈ owners := h.resolve_left (by simp [hnone])
      simp [hlisted]

end Covered

theorem ChangeSet.unresolved_eq_zero {s : Snapshot} {edges : List Edge} (f : EdgeFilter)
    (h : ∀ e ∈ edges, resolution s e ≠ .unresolved) :
    (compute edges s f).unresolved.length = 0 := by
  simp only [compute_eq, length_idsOf]
  refine List.countP_eq_zero.mpr fun e he => ?_
  rw [beq_iff_eq]
  exact h e (List.mem_of_mem_filter he)

namespace Memory

open Attempt

namespace Course

variable {p : Course}

theorem map_owner_contested :
    p.contested.map Edge.owner = p.tables.edges.map Edge.owner := by
  unfold contested
  split
  · rfl
  · cases p.strayEdge with
    | none => rfl
    | some id => exact map_modifyFirst_of_eq fun _ _ _ => rfl

/-- Whoever moves edges, their owners stay. -/
theorem map_owner_published : p.published.edges.map Edge.owner = p.tables.edges.map Edge.owner := by
  rw [published_edges_eq, ← map_owner_contested]
  apply map_foldl_modifyFirst
  intro row e
  rfl

theorem owner_mem_candidates {s : SeedStrategy} (hseed : p.options.provisioning = .seed s)
    (hreads : s.readsEdges = true) {e : Edge} (he : e ∈ p.tables.edges) :
    e.owner ∈ p.candidates := by
  rw [candidates, Provisioning.mem_owners, hseed]
  cases s with
  | edges => exact ⟨e, he, rfl⟩
  | union => exact .inl ⟨e, he, rfl⟩
  | registry => cases hreads

theorem unresolved_changes {s : SeedStrategy} (hseed : p.options.provisioning = .seed s)
    (hreads : s.readsEdges = true) : p.changes.unresolved.length = 0 := by
  refine ChangeSet.unresolved_eq_zero _ fun e he => ?_
  have hserved : Covered (p.provisioned.groups, []) e.owner :=
    .inl (provisioned_served (owner_mem_candidates hseed hreads he))
  exact hserved.resolve_ne_unresolved _ _

theorem unresolved_foreseen {s : SeedStrategy} (hseed : p.options.provisioning = .seed s)
    (hreads : s.readsEdges = true) : p.foreseen.unresolved.length = 0 := by
  refine ChangeSet.unresolved_eq_zero _ fun e he => ?_
  have hcovered : Covered p.preview e.owner :=
    Covered.of_preview (owner_mem_candidates hseed hreads he)
  exact hcovered.resolve_ne_unresolved _ _

theorem published_served {s : SeedStrategy} (hseed : p.options.provisioning = .seed s)
    (hreads : s.readsEdges = true) :
    ∀ e ∈ p.published.edges, ∃ g ∈ p.published.groups,
      g.isActiveDefault = true ∧ g.owner = e.owner := by
  intro e he
  have howner : e.owner ∈ p.published.edges.map Edge.owner := List.mem_map_of_mem he
  rw [map_owner_published] at howner
  obtain ⟨x, hx, hxe⟩ := List.mem_map.mp howner
  obtain ⟨id, g, hg, hactive, hgx, -⟩ :=
    provisioned_served (owner_mem_candidates hseed hreads hx)
  rw [published_groups]
  exact ⟨g, hg, hactive, hgx.trans hxe⟩

end Course

variable {o : Options} {stamp : Stamp}

/-- A run that seeds from edges leaves no edge unresolved, whichever rows share an id and whatever a
concurrent writer does. What a full run commits has a default group for each owner of an edge, also
where the filter rejects all edges of the owner. -/
theorem edge_seeding_resolves {w w' : World} {r : Report}
    (hseed : o.provisioning = .seed .edges ∨ o.provisioning = .seed .union)
    (hrun : (reconcile service o stamp).outcome w = (.ok r, w')) :
    r.unresolved = 0 ∧ (o.dryRun = false → ∀ e ∈ w'.store.tables.edges,
      ∃ g ∈ w'.store.tables.groups, g.isActiveDefault = true ∧ g.owner = e.owner) := by
  obtain ⟨s, hs, hreads⟩ : ∃ s, (w.course o).options.provisioning = .seed s ∧
      s.readsEdges = true := by
    rcases hseed with h | h
    · exact ⟨_, h, rfl⟩
    · exact ⟨_, h, rfl⟩
  by_cases hdry : o.dryRun = true
  · obtain ⟨hr, -⟩ := reconcile_dry_eq_ok hdry hrun
    have hunresolved : r.unresolved = 0 := by
      rw [hr]
      exact Course.unresolved_foreseen hs hreads
    exact ⟨hunresolved, fun hfull => by simp [hdry] at hfull⟩
  · have hfull : o.dryRun = false := by simpa using hdry
    obtain ⟨hr, -, hstore, -⟩ := reconcile_eq_ok hfull hrun
    have hunresolved : r.unresolved = 0 := by
      rw [hr]
      exact Course.unresolved_changes hs hreads
    refine ⟨hunresolved, fun _ => ?_⟩
    rw [hstore]
    exact Course.published_served hs hreads

/-- Two groups share an id, one of them is to be revived, and an owner has a deleted edge only. -/
def patchy : World :=
  { store := .ofTables
      { groups := [(Group.new 1 "ada" defaultGroupName true).deleted, .new 1 "bob" "work" false]
        edges := [.new 1 "ada" "bob", (Edge.new 2 "bob" "ada").deleted] } }

def activeOnly (dryRun : Bool) : Options := { dryRun, filter := { scope := .activeOnly } }

theorem edge_seeding_resolves_patchy :
    (∃ r w', (reconcile service (activeOnly true) default).outcome patchy = (.ok r, w') ∧
      r.edgesFilteredOut = 1 ∧ r.unresolved = 0) ∧
    ∃ r w', (reconcile service (activeOnly false) default).outcome patchy = (.ok r, w') ∧
      r.unresolved = 0 ∧ ∀ e ∈ w'.store.tables.edges,
        ∃ g ∈ w'.store.tables.groups, g.isActiveDefault = true ∧ g.owner = e.owner := by
  obtain ⟨dry, hdry⟩ :=
    @exists_eq_ok _ _ (reconcile service (activeOnly true) default) patchy (by cbv)
  obtain ⟨full, hfull⟩ :=
    @exists_eq_ok _ _ (reconcile service (activeOnly false) default) patchy (by cbv)
  have hfiltered : dry.edgesFilteredOut = 1 := by
    rw [(reconcile_dry_eq_ok rfl hdry).1]
    cbv
  obtain ⟨hresolved, hserved⟩ := edge_seeding_resolves (.inl rfl) hfull
  exact ⟨⟨dry, _, hdry, hfiltered, (edge_seeding_resolves (.inl rfl) hdry).1⟩,
    full, _, hfull, hresolved, hserved rfl⟩

end Memory

end Regroup
