import Regroup.Proofs.RowOrder

/-! Two runs over the same rows in another order. They read the rows in different orders, but make
the same plan of them and find the same changes, so they draw the same versions, write the same rows
and leave the same tables but for the order. -/

namespace Regroup.Memory

open Attempt

/-- Worlds that differ in the order of the rows alone, of those that are committed and of those of
the open unit of work. -/
inductive World.Reordered : World → World → Prop
  | closed {st : Store} {c : Counters} {u : Tables} (h : st.tables.Reordered u) :
      Reordered ⟨st, none, c⟩ ⟨{ st with tables := u }, none, c⟩
  | opened {st : Store} {c : Counters} {u t t' : Tables} (h : st.tables.Reordered u)
      (ht : t.Reordered t') : Reordered (opened st t c) (opened { st with tables := u } t' c)

theorem World.Reordered.left {w w' : World} (h : w.Reordered w') : w.counters = w'.counters ∧
    w.store.tables.Reordered w'.store.tables ∧
    w'.store = { w.store with tables := w'.store.tables } := by
  cases h with
  | closed h => exact ⟨rfl, h, rfl⟩
  | opened h ht => exact ⟨rfl, h, rfl⟩

theorem World.Reordered.asked {w w' : World} (h : w.Reordered w') (lockWait : Option Duration) :
    World.Reordered { w with store := asked w.store lockWait }
      { w' with store := asked w'.store lockWait } := by
  cases h with
  | closed h => exact .closed h
  | opened h ht => exact .opened h ht

/-- Whatever was open, the unit of work begins on the committed rows. -/
theorem begin_reordered (lockWait : Option Duration) : Alike World.Reordered
    (service.perform (.begin lockWait)) (service.perform (.begin lockWait)) := by
  intro w w' h
  obtain ⟨hcounters, htables, hstore⟩ := h.left
  have hpoint : w'.store.failAt = w.store.failAt := by rw [hstore]
  have hasked : asked w'.store lockWait =
      { asked w.store lockWait with tables := w'.store.tables } := by
    rw [hstore]
    rfl
  rw [outcome_begin, outcome_begin, hpoint]
  by_cases hfails : w.store.failAt = some .begin
  · rw [if_pos hfails, if_pos hfails]
    exact ⟨rfl, h.asked lockWait⟩
  · rw [if_neg hfails, if_neg hfails, hasked, ← hcounters]
    exact ⟨rfl, .opened htables htables⟩

/-- Both steps refuse for the same cause, or they answer alike and leave reordered tables. -/
def AlikeSteps {α : Type} : Except Cause (α × Tables) → Except Cause (α × Tables) → Prop
  | .ok r, .ok r' => r.1 = r'.1 ∧ r.2.Reordered r'.2
  | .error cause, .error cause' => cause = cause'
  | _, _ => False

theorem afterStep_reordered {α : Type} {step step' : Except Cause (α × Tables)} {st : Store}
    {c : Counters} {u t t' : Tables} (h : st.tables.Reordered u) (ht : t.Reordered t')
    (hsteps : AlikeSteps step step') :
    (afterStep t (opened st · c) step).1 =
        (afterStep t' (opened { st with tables := u } · c) step').1 ∧
      World.Reordered (afterStep t (opened st · c) step).2
        (afterStep t' (opened { st with tables := u } · c) step').2 := by
  match step, step', hsteps with
  | .ok r, .ok r', ⟨hreply, hleft⟩ => exact ⟨congrArg Except.ok hreply, .opened h hleft⟩
  | .error _, .error _, rfl => exact ⟨rfl, .opened h ht⟩

theorem onWork_reordered {α : Type} {x : Attempt Work α} {point : FailPoint}
    {f : Option EdgeId → Tables → Except Cause (α × Tables)} (hx : Work.Runs x point f)
    (hf : ∀ i t t', t.Reordered t' → AlikeSteps (f i t) (f i t')) :
    Alike World.Reordered (World.onWork x) (World.onWork x) := by
  rintro _ _ (⟨h⟩ | @⟨st, c, u, t, t', h, ht⟩)
  · exact ⟨rfl, .closed h⟩
  · rw [outcome_onWork hx, outcome_onWork hx]
    by_cases hpoint : st.failAt = some point
    · rw [if_pos hpoint, if_pos hpoint]
      exact ⟨rfl, .opened h ht⟩
    · rw [if_neg hpoint, if_neg hpoint]
      exact afterStep_reordered h ht (hf st.interfereWith t t' ht)

theorem upserting_reordered (name : String) (rows : List GroupInsert) {t t' : Tables}
    (ht : t.Reordered t') : AlikeSteps (upserting name rows t) (upserting name rows t') := by
  have hleft := ht.upsertGroups name rows
  have hfit : (Tables.upsertGroups name rows t).2.idsFit =
      (Tables.upsertGroups name rows t').2.idsFit := hleft.groups.all_eq
  unfold upserting
  rw [← hfit]
  split
  · exact ⟨rfl, hleft⟩
  · rfl

/-- A request that is not a read of rows is answered alike. -/
theorem perform_reordered (q : Request) (hq : q.isRead = false) :
    Alike World.Reordered (service.perform q) (service.perform q) := by
  cases q with
  | begin lockWait => exact begin_reordered lockWait
  | edgeOwners => cases hq
  | registryOwners => cases hq
  | loadGroups => cases hq
  | loadMemberships => cases hq
  | loadEdges => cases hq
  | upsertDefaultGroups name rows =>
    exact onWork_reordered (Work.upsertDefaultGroups_runs name rows)
      fun _ _ _ ht => upserting_reordered name rows ht
  | refreshDefaultGroups rows =>
    exact onWork_reordered (Work.refreshDefaultGroups_runs rows) fun _ _ _ ht => ht.refreshGroups rows
  | applyEdgeUpdates rows =>
    refine onWork_reordered (Work.applyEdgeUpdates_runs rows) fun i t t' ht => ?_
    cases i with
    | none => exact ht.applyEdges rows
    | some id => exact (ht.stray id).applyEdges rows
  | commit =>
    rintro _ _ (⟨h⟩ | @⟨st, c, u, t, t', h, ht⟩)
    · exact ⟨rfl, .closed h⟩
    · rw [outcome_commit, outcome_commit]
      by_cases hpoint : st.failAt = some .commit
      · rw [if_pos hpoint, if_pos hpoint]
        exact ⟨rfl, .closed h⟩
      · rw [if_neg hpoint, if_neg hpoint]
        exact ⟨rfl, .closed ht⟩
  | rollback =>
    rintro _ _ (⟨h⟩ | ⟨h, ht⟩)
    · exact ⟨rfl, .closed h⟩
    · exact ⟨rfl, .closed h⟩
  | reserve counter n =>
    rintro _ _ (⟨h⟩ | ⟨h, ht⟩)
    · exact ⟨rfl, .closed h⟩
    · exact ⟨rfl, .opened h ht⟩

theorem edgeOwners_reordered :
    Alike World.Reordered (service.perform .edgeOwners) (service.perform .edgeOwners) := by
  rintro _ _ (⟨h⟩ | ⟨h, ht⟩)
  · exact ⟨rfl, .closed h⟩
  · exact ⟨congrArg Except.ok ht.edgeOwners_eq, .opened h ht⟩

theorem registryOwners_reordered :
    Alike World.Reordered (service.perform .registryOwners) (service.perform .registryOwners) := by
  rintro _ _ (⟨h⟩ | ⟨h, ht⟩)
  · exact ⟨rfl, .closed h⟩
  · exact ⟨congrArg Except.ok ht.registryOwners_eq, .opened h ht⟩

theorem readPlan_reordered (candidates : List Uid) :
    Alike World.Reordered (readPlan service candidates) (readPlan service candidates) := by
  rintro _ _ (⟨h⟩ | ⟨h, ht⟩)
  · exact ⟨rfl, .closed h⟩
  · exact ⟨congrArg Except.ok (ProvisionPlan.build_perm ht.groups candidates), .opened h ht⟩

theorem findChanges_reordered (o : Options) (plan : ProvisionPlan) :
    Alike World.Reordered (findChanges service o plan) (findChanges service o plan) := by
  rintro _ _ (⟨h⟩ | @⟨st, c, u, t, t', h, ht⟩)
  · exact ⟨rfl, .closed h⟩
  · rw [outcome_findChanges, outcome_findChanges]
    by_cases hpoint : st.failAt = some .loadEdges
    · rw [if_pos hpoint, if_pos hpoint]
      exact ⟨rfl, .opened h ht⟩
    · rw [if_neg hpoint, if_neg hpoint]
      exact ⟨congrArg Except.ok (ht.compute_eq o plan), .opened h ht⟩

/-- A pass makes the same of the rows in either order. -/
theorem agree_reordered (o : Options) : Service.Agree World.Reordered service service o where
  backend := rfl
  seed := seedOwners_alike edgeOwners_reordered registryOwners_reordered
  plan := readPlan_reordered
  find := findChanges_reordered o
  write q _ hq := perform_reordered q hq

theorem reconcile_reordered (o : Options) (stamp : Stamp) :
    Alike World.Reordered (reconcile service o stamp) (reconcile service o stamp) :=
  (agree_reordered o).reconcile_alike (fun _ rows => perform_reordered (.applyEdgeUpdates rows) rfl)
    stamp (perform_reordered (.begin o.lockWait) rfl) (perform_reordered .rollback rfl)
    fun _ => perform_reordered .commit rfl

/-- Two passes over the same rows in different orders, from the same counters on, report the same but
for their stamps, or fail in the same way, and leave the same rows but for their order. -/
theorem row_order_irrelevant {st : Store} {u : Tables} (h : st.tables.Reordered u) (c : Counters)
    (o : Options) (stamp stamp' : Stamp) {reply reply' : Except Failure Report} {w w' : World}
    (hrun : (reconcile service o stamp).outcome ⟨st, none, c⟩ = (reply, w))
    (hrun' : (reconcile service o stamp').outcome ⟨{ st with tables := u }, none, c⟩ = (reply', w')) :
    reply' = reply.map (fun r => { r with
      runId := stamp'.runId
      startedAt := stamp'.startedAt
      finishedAt := some stamp'.finishedAt }) ∧
    w'.counters = w.counters ∧ w.store.tables.Reordered w'.store.tables ∧
    w'.store = { w.store with tables := w'.store.tables } ∧
    (∀ id, w'.store.tables.edgeById? id = w.store.tables.edgeById? id) ∧
    ∀ id, w'.store.tables.groupById? id = w.store.tables.groupById? id := by
  obtain ⟨hreply, hleft⟩ := reconcile_reordered o stamp _ _ (.closed h)
  rw [reconcile_stamped stamp, outcome_map] at hrun'
  obtain ⟨hreply', hw'⟩ := Prod.mk.inj hrun'
  rw [hw', hrun] at hleft
  rw [← hreply, hrun] at hreply'
  obtain ⟨hcounters, htables, hstore⟩ := hleft.left
  exact ⟨hreply'.symm, hcounters.symm, htables, hstore, fun id => (htables.edgeById?_eq id).symm,
    fun id => (htables.groupById?_eq id).symm⟩

/-- One owner has a default group, one has had one that is deleted by now, and one has none. -/
def dealt : Tables :=
  { users := ["ada", "cyd", "eve"]
    groups := [.new 4 "ada" "work" false, .new 7 "eve" "Friends" true,
      (Group.new 2 "cyd" "Friends" true).deleted]
    memberships := [.new 4 "ada" "bob", .new 7 "eve" "cyd"]
    edges := [.new 1 "ada" "bob", .new 5 "cyd" "eve", .new 3 "ada" "eve", .new 2 "eve" "cyd"] }

def shuffled : Tables :=
  { users := ["eve", "ada", "cyd"]
    groups := [(Group.new 2 "cyd" "Friends" true).deleted, .new 4 "ada" "work" false,
      .new 7 "eve" "Friends" true]
    memberships := [.new 7 "eve" "cyd", .new 4 "ada" "bob"]
    edges := [.new 2 "eve" "cyd", .new 3 "ada" "eve", .new 5 "cyd" "eve", .new 1 "ada" "bob"] }

def befriending : Options := { defaultGroupName := "Friends" }

theorem row_order_irrelevant_shuffled : dealt.Reordered shuffled ∧ ∃ r w w',
    (reconcile service befriending default).outcome ⟨.ofTables dealt, none, {}⟩ = (.ok r, w) ∧
      (reconcile service befriending ⟨⟨1⟩, ⟨2, 3⟩, ⟨4, 5⟩⟩).outcome ⟨.ofTables shuffled, none, {}⟩ =
        (.ok { r with runId := ⟨1⟩, startedAt := ⟨2, 3⟩, finishedAt := some ⟨4, 5⟩ }, w') ∧
      w.store.tables.edges.map (fun e => (e.id, e.groupId, e.version)) =
        [(1, some 4, some 1), (5, some 2, some 4), (3, some 8, some 3), (2, some 7, some 2)] ∧
      w.store.tables.Reordered w'.store.tables := by
  have hkeyed : dealt.Keyed := ⟨by decide, by decide, by decide⟩
  have hdealt : dealt.Reordered shuffled := ⟨hkeyed, by decide, by decide, by decide, by decide⟩
  obtain ⟨r, hrun⟩ := @exists_eq_ok _ _ (reconcile service befriending default)
    ⟨.ofTables dealt, none, {}⟩ (by cbv)
  rcases hrun' : (reconcile service befriending ⟨⟨1⟩, ⟨2, 3⟩, ⟨4, 5⟩⟩).outcome
    ⟨.ofTables shuffled, none, {}⟩ with ⟨reply, w⟩
  obtain ⟨rfl, -, htables, -⟩ := @row_order_irrelevant (.ofTables dealt) shuffled hdealt {}
    befriending default ⟨⟨1⟩, ⟨2, 3⟩, ⟨4, 5⟩⟩ _ _ _ _ hrun hrun'
  exact ⟨hdealt, r, _, w, hrun, rfl, by cbv, htables⟩

end Regroup.Memory
