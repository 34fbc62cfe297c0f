import Regroup.Proofs.Forecast
import Regroup.Proofs.RowKeys

/-! Tables whose rows stand in another order. What is read off them is a set, a count, a least or a
greatest id, or sorted by a key, so it does not depend on the order; a write finds the same row in
both, since a key is held by one row only. -/

namespace Regroup

theorem ascending_eq_of_perm {κ : Type} [LE κ] [DecidableLE κ] [DecidableEq κ]
    [Std.IsLinearOrder κ] {xs ys : List κ} (h : xs.Perm ys) : ascending xs = ascending ys := by
  have hsorted : sortOn id xs = sortOn id ys := sortOn_eq_of_perm h fun _ _ _ _ he => he
  rw [ascending, hsorted, ascending]

theorem min?_eq_of_perm {xs ys : List Int} (h : xs.Perm ys) : xs.min? = ys.min? := by
  ext m
  simp only [List.min?_eq_some_iff, h.mem_iff]

theorem max?_eq_of_perm {xs ys : List Int} (h : xs.Perm ys) : xs.max? = ys.max? := by
  ext m
  simp only [List.max?_eq_some_iff, h.mem_iff]

section Writes

variable {α ρ κ : Type} {key : α → κ}

theorem key_eq_of_beq [BEq κ] [LawfulBEq κ] {k : κ} {x y : α} (hx : (key x == k) = true)
    (hy : (key y == k) = true) : key x = key y :=
  (beq_iff_eq.mp hx).trans (beq_iff_eq.mp hy).symm

theorem modifyFirst_perm {p : α → Bool} {xs ys : List α} (f : α → α)
    (hp : ∀ x y, p x = true → p y = true → key x = key y) (h : xs.Perm ys)
    (hxs : (xs.map key).Nodup) : (modifyFirst p f xs).Perm (modifyFirst p f ys) := by
  have hone : ∀ zs : List α, (zs.map key).Nodup →
      zs.Pairwise fun x y => p x = true → p y = false := by
    intro zs hzs
    refine (List.pairwise_map.mp hzs).imp fun {x y} hne hx => ?_
    exact Bool.eq_false_iff.mpr fun hy => hne (hp x y hx hy)
  have hys : (ys.map key).Nodup := (h.map key).nodup_iff.mp hxs
  rw [modifyFirst_eq_map (hone xs hxs), modifyFirst_eq_map (hone ys hys)]
  exact h.map _

theorem find?_eq_of_perm {p : α → Bool} {xs ys : List α}
    (hp : ∀ x y, p x = true → p y = true → key x = key y) (h : xs.Perm ys)
    (hxs : (xs.map key).Nodup) : xs.find? p = ys.find? p := by
  cases hx : xs.find? p with
  | none =>
    rw [List.find?_eq_none] at hx
    exact (List.find?_eq_none.mpr fun y hy => hx y (h.mem_iff.mpr hy)).symm
  | some x =>
    cases hy : ys.find? p with
    | none =>
      have hmem := h.mem_iff.mp (List.mem_of_find?_eq_some hx)
      exact absurd (List.find?_some hx) (List.find?_eq_none.mp hy x hmem)
    | some y =>
      have hmem := h.mem_iff.mpr (List.mem_of_find?_eq_some hy)
      have hsame := hp x y (List.find?_some hx) (List.find?_some hy)
      rw [List.inj_on_of_nodup_map hxs (List.mem_of_find?_eq_some hx) hmem hsame]

theorem foldl_countedModify_perm {p : ρ → α → Bool} {f : ρ → α → α} {rowKey : ρ → κ}
    (hf : ∀ r x, key (f r x) = key x) (hp : ∀ r x, p r x = true → rowKey r = key x) (rows : List ρ)
    {n : Nat} {xs ys : List α} (h : xs.Perm ys) (hxs : (xs.map key).Nodup) :
    (rows.foldl (fun s r => countedModify (p r) (f r) s) (n, xs)).1 =
        (rows.foldl (fun s r => countedModify (p r) (f r) s) (n, ys)).1 ∧
      (rows.foldl (fun s r => countedModify (p r) (f r) s) (n, xs)).2.Perm
        (rows.foldl (fun s r => countedModify (p r) (f r) s) (n, ys)).2 := by
  induction rows generalizing n xs ys with
  | nil => exact ⟨rfl, h⟩
  | cons r rows ih =>
    have hany : xs.any (p r) = ys.any (p r) := h.any_eq
    have hfirst : (modifyFirst (p r) (f r) xs).Perm (modifyFirst (p r) (f r) ys) :=
      modifyFirst_perm (f r) (fun x y hx hy => (hp r x hx).symm.trans (hp r y hy)) h hxs
    have hkeys : (modifyFirst (p r) (f r) xs).map key = xs.map key :=
      map_modifyFirst_of_eq fun x _ _ => hf r x
    rw [List.foldl_cons, List.foldl_cons]
    by_cases hfound : xs.any (p r) = true
    · have hx : countedModify (p r) (f r) (n, xs) = (n + 1, modifyFirst (p r) (f r) xs) :=
        if_pos hfound
      have hy : countedModify (p r) (f r) (n, ys) = (n + 1, modifyFirst (p r) (f r) ys) :=
        if_pos (hany ▸ hfound)
      rw [hx, hy]
      exact ih hfirst (hkeys ▸ hxs)
    · have hx : countedModify (p r) (f r) (n, xs) = (n, xs) := if_neg hfound
      have hy : countedModify (p r) (f r) (n, ys) = (n, ys) := if_neg (hany ▸ hfound)
      rw [hx, hy]
      exact ih h hxs

end Writes

section Plan

variable {groups groups' : List Group} (h : groups.Perm groups')

include h

theorem ProvisionPlan.build_perm (candidates : List Uid) :
    build candidates groups = build candidates groups' := by
  have howned := h.filter fun g => g.isActiveDefault && candidates.contains g.owner
  have hany : ∀ u : Uid,
      (groups.filter fun g => g.isActiveDefault && candidates.contains g.owner).any
          (fun g => g.owner == u) =
        (groups'.filter fun g => g.isActiveDefault && candidates.contains g.owner).any
          (fun g => g.owner == u) := fun u => howned.any_eq
  unfold build
  simp only [hany, ascending_eq_of_perm (howned.map Group.id)]

theorem ProvisionPlan.previewOwner_perm (hids : (groups.map Group.id).Nodup) (name : String)
    (news : List Uid) (owner : Uid) :
    (previewOwner name (groups, news) owner).1.Perm (previewOwner name (groups', news) owner).1 ∧
      (previewOwner name (groups, news) owner).2 = (previewOwner name (groups', news) owner).2 ∧
      ((previewOwner name (groups, news) owner).1.map Group.id).Nodup := by
  have hlowest : lowestHolder? groups owner name = lowestHolder? groups' owner name :=
    min?_eq_of_perm ((h.filter _).map Group.id)
  unfold previewOwner
  simp only [← hlowest]
  cases lowestHolder? groups owner name with
  | none => exact ⟨h, rfl, hids⟩
  | some id =>
    have hone : ∀ x y : Group, (x.holds owner name && x.id == id) = true →
        (y.holds owner name && y.id == id) = true → x.id = y.id := fun x y hx hy =>
      key_eq_of_beq (Bool.and_eq_true_iff.mp hx).2 (Bool.and_eq_true_iff.mp hy).2
    refine ⟨modifyFirst_perm Group.revive hone h hids, rfl, ?_⟩
    rw [map_modifyFirst_of_eq]
    · exact hids
    · exact fun _ _ _ => rfl

theorem ProvisionPlan.preview_perm (hids : (groups.map Group.id).Nodup) (p : ProvisionPlan)
    (name : String) : (p.preview name groups).1.Perm (p.preview name groups').1 ∧
      (p.preview name groups).2 = (p.preview name groups').2 := by
  unfold preview
  generalize p.missingOwners = owners
  generalize ([] : List Uid) = news
  induction owners generalizing groups groups' news with
  | nil => exact ⟨h, rfl⟩
  | cons owner owners ih =>
    obtain ⟨hperm, hnews, hnodup⟩ := previewOwner_perm h hids name news owner
    rw [List.foldl_cons, List.foldl_cons]
    generalize previewOwner name (groups, news) owner = s at hperm hnews hnodup ⊢
    generalize previewOwner name (groups', news) owner = s' at hperm hnews ⊢
    obtain ⟨rows, added⟩ := s
    obtain ⟨rows', added'⟩ := s'
    obtain rfl : added = added' := hnews
    exact ih hperm hnodup added

theorem min?_defaultIds_perm (owner : Uid) :
    (defaultIds groups owner).min? = (defaultIds groups' owner).min? :=
  min?_eq_of_perm (((h.filter _).filter _).map Group.id)

variable {memberships memberships' : List Membership} (hm : memberships.Perm memberships')

include hm

theorem min?_explicitIds_perm (owner counterpart : Uid) :
    (explicitIds groups memberships owner counterpart).min? =
      (explicitIds groups' memberships' owner counterpart).min? := by
  have heligible : MembershipIndex.isEligible groups = MembershipIndex.isEligible groups' := by
    funext m
    unfold MembershipIndex.isEligible
    rw [h.any_eq]
  unfold explicitIds
  rw [heligible]
  exact min?_eq_of_perm (((hm.filter _).filter _).map Membership.groupId)

theorem Snapshot.resolve_build_perm (owner counterpart : Uid) :
    (build groups memberships).resolve owner counterpart =
      (build groups' memberships').resolve owner counterpart := by
  rw [resolve_build, resolve_build, min?_explicitIds_perm h hm, min?_defaultIds_perm h]

theorem Snapshot.resolve_planMissing_perm (owners : List Uid) (owner counterpart : Uid) :
    ((build groups memberships).planMissing owners).resolve owner counterpart =
      ((build groups' memberships').planMissing owners).resolve owner counterpart := by
  rw [resolve_planMissing_build, resolve_planMissing_build, min?_explicitIds_perm h hm,
    min?_defaultIds_perm h]

end Plan

theorem ChangeSet.compute_perm {edges edges' : List Edge} {s s' : Snapshot}
    (h : edges.Perm edges') (hids : (edges.map Edge.id).Nodup)
    (hresolve : ∀ owner counterpart, s.resolve owner counterpart = s'.resolve owner counterpart)
    (f : EdgeFilter) : compute edges s f = compute edges' s' f := by
  have hresolution : resolution s = resolution s' := funext fun e => hresolve e.owner e.counterpart
  have hchange : change? s = change? s' := funext fun e => change?_congr (congrFun hresolution e)
  have haccepted := h.filter f.accepts
  have hfound : (((edges.filter f.accepts).filterMap (change? s)).map EdgeChange.edgeId).Nodup := by
    have hnodup := changes_nodup s f hids
    rw [compute_eq] at hnodup
    exact ((sortOn_perm EdgeChange.edgeId _).map EdgeChange.edgeId).nodup_iff.mp hnodup
  have hchanges : sortOn EdgeChange.edgeId ((edges.filter f.accepts).filterMap (change? s)) =
      sortOn EdgeChange.edgeId ((edges'.filter f.accepts).filterMap (change? s')) := by
    rw [← hchange]
    exact sortOn_eq_of_perm (haccepted.filterMap _) fun x hx y hy he =>
      List.inj_on_of_nodup_map hfound hx hy he
  have hidsOf : ∀ r, idsOf s r (edges.filter f.accepts) = idsOf s' r (edges'.filter f.accepts) := by
    intro r
    unfold idsOf
    rw [hresolution]
    exact sortOn_eq_of_perm ((haccepted.filter _).map Edge.id) fun _ _ _ _ he => he
  simp only [compute_eq, hchanges, hidsOf, h.countP_eq, h.length_eq]

namespace Tables

/-- The same rows, which are told apart by their keys, in another order. -/
structure Reordered (t t' : Tables) : Prop where
  keyed : t.Keyed
  users : t.users.Perm t'.users
  groups : t.groups.Perm t'.groups
  memberships : t.memberships.Perm t'.memberships
  edges : t.edges.Perm t'.edges

namespace Reordered

variable {t t' : Tables} (h : t.Reordered t')

include h

theorem edgeOwners_eq : t.edgeOwners = t'.edgeOwners :=
  ascending_eq_of_perm (h.edges.map Edge.owner)

theorem registryOwners_eq : t.registryOwners = t'.registryOwners :=
  ascending_eq_of_perm h.users

/-- Whatever is planned, the changes that are found are the same. -/
theorem compute_eq (o : Options) (plan : ProvisionPlan) :
    ChangeSet.compute t.edges (snapshotOf o plan t.groups t.memberships) o.filter =
      ChangeSet.compute t'.edges (snapshotOf o plan t'.groups t'.memberships) o.filter := by
  refine ChangeSet.compute_perm h.edges h.keyed.edgeIds (fun owner counterpart => ?_) o.filter
  unfold snapshotOf
  by_cases hdry : o.dryRun = true
  · obtain ⟨hpreview, hnews⟩ :=
      ProvisionPlan.preview_perm h.groups h.keyed.groupIds plan o.defaultGroupName
    simp only [hdry, if_true, hnews]
    exact Snapshot.resolve_planMissing_perm hpreview h.memberships _ owner counterpart
  · simp only [hdry]
    exact Snapshot.resolve_build_perm h.groups h.memberships owner counterpart

theorem upsertGroup (name : String) (row : GroupInsert) :
    { t with groups := Tables.upsertGroup name t.groups row }.Reordered
      { t' with groups := Tables.upsertGroup name t'.groups row } := by
  have hkeyed := (h.keyed.descendsFrom.upsertGroup name row).keyed
  refine ⟨hkeyed, h.users, ?_, h.memberships, h.edges⟩
  have hany : t.groups.any (Group.holds row.owner name) =
      t'.groups.any (Group.holds row.owner name) := h.groups.any_eq
  have hnext : nextGroupId t.groups = nextGroupId t'.groups := by
    unfold nextGroupId
    rw [max?_eq_of_perm (h.groups.map Group.id)]
  unfold Tables.upsertGroup
  rw [← hany, ← hnext]
  by_cases hheld : t.groups.any (Group.holds row.owner name) = true
  · rw [if_pos hheld, if_pos hheld]
    exact modifyFirst_perm _ (fun _ _ => Group.key_eq_of_holds) h.groups h.keyed.names
  · rw [if_neg hheld, if_neg hheld]
    exact h.groups.append_right _

theorem upsertGroups (name : String) (rows : List GroupInsert) :
    (Tables.upsertGroups name rows t).2.Reordered (Tables.upsertGroups name rows t').2 := by
  unfold Tables.upsertGroups
  induction rows generalizing t t' with
  | nil => exact h
  | cons row rows ih => exact ih (h.upsertGroup name row)

theorem refreshGroups (rows : List GroupRefresh) :
    (Tables.refreshGroups rows t).1 = (Tables.refreshGroups rows t').1 ∧
      (Tables.refreshGroups rows t).2.Reordered (Tables.refreshGroups rows t').2 := by
  have hkeyed := (h.keyed.descendsFrom.refreshGroups rows).keyed
  obtain ⟨hcount, hgroups⟩ := foldl_countedModify_perm GroupRefresh.id_stamp GroupRefresh.groupId_eq
    rows h.groups h.keyed.groupIds
  exact ⟨hcount, hkeyed, h.users, hgroups, h.memberships, h.edges⟩

theorem applyEdges (rows : List EdgeWrite) :
    (Tables.applyEdges rows t).1 = (Tables.applyEdges rows t').1 ∧
      (Tables.applyEdges rows t).2.Reordered (Tables.applyEdges rows t').2 := by
  have hkeyed := (h.keyed.descendsFrom.applyEdges rows).keyed
  obtain ⟨hcount, hedges⟩ := foldl_countedModify_perm EdgeWrite.id_applyTo EdgeWrite.edgeId_eq
    rows h.edges h.keyed.edgeIds
  exact ⟨hcount, hkeyed, h.users, h.groups, h.memberships, hedges⟩

theorem stray (id : EdgeId) : (Tables.stray id t).Reordered (Tables.stray id t') := by
  have hkeyed := (h.keyed.descendsFrom.stray id).keyed
  exact ⟨hkeyed, h.users, h.groups, h.memberships,
    modifyFirst_perm _ (fun _ _ => key_eq_of_beq) h.edges h.keyed.edgeIds⟩

theorem edgeById?_eq (id : EdgeId) : t.edgeById? id = t'.edgeById? id :=
  find?_eq_of_perm (fun _ _ => key_eq_of_beq) h.edges h.keyed.edgeIds

theorem groupById?_eq (id : GroupId) : t.groupById? id = t'.groupById? id :=
  find?_eq_of_perm (fun _ _ => key_eq_of_beq) h.groups h.keyed.groupIds

end Reordered

end Tables

end Regroup
