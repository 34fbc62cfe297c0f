import Regroup.Proofs.MemoryWorld
import Regroup.Proofs.TableWrites

/-! A batch of guarded writes as one update. The writes go through the edges one after the other and
each takes the first edge that it is for; where ids tell the edges and the writes apart, the order
is of no account, and the number of rows that were touched is the number of edges that are written.
-/

namespace Regroup

section Count

variable {α ρ κ : Type}

theorem countP_eq_ite_any {p : α → Bool} {xs : List α}
    (h : xs.Pairwise fun x y => p x = true → p y = false) :
    xs.countP p = if xs.any p then 1 else 0 := by
  induction xs with
  | nil => rfl
  | cons x xs ih =>
    obtain ⟨hfirst, hrest⟩ := List.pairwise_cons.mp h
    by_cases hp : p x = true
    · have hnone : xs.countP p = 0 :=
        List.countP_eq_zero.mpr fun y hy => by simp [hfirst y hy hp]
      simp [hp, hnone]
    · simpa [hp] using ih hrest

variable {p : ρ → α → Bool} {f : ρ → α → α} {key : α → κ} {rowKey : ρ → κ}

/-- Changes with distinct keys do not take rows from one another. -/
theorem fst_foldl_countedModify (hf : ∀ r x, key (f r x) = key x)
    (hp : ∀ r x, p r x = true → rowKey r = key x) {rows : List ρ}
    (hrows : (rows.map rowKey).Nodup) (s : Nat × List α) :
    (rows.foldl (fun s r => countedModify (p r) (f r) s) s).1 =
      s.1 + rows.countP fun r => s.2.any (p r) := by
  induction rows generalizing s with
  | nil => rfl
  | cons r rows ih =>
    obtain ⟨hfirst, hrest⟩ := List.nodup_cons.mp hrows
    have hany : ∀ r' ∈ rows, (modifyFirst (p r) (f r) s.2).any (p r') = s.2.any (p r') := by
      intro r' hr'
      have hother : ∀ x, key x = rowKey r → p r' x = false := by
        intro x hx
        refine Bool.eq_false_iff.mpr fun hx' => hfirst ?_
        rw [← hx, ← hp r' x hx']
        exact List.mem_map_of_mem hr'
      have hsame : (modifyFirst (p r) (f r) s.2).map (p r') = s.2.map (p r') := by
        refine map_modifyFirst_of_eq fun x _ hx => ?_
        have hkey := (hp r x hx).symm
        rw [hother x hkey, hother (f r x) ((hf r x).trans hkey)]
      simpa [List.any_map] using congrArg (fun bs => List.any bs id) hsame
    have hcount : (rows.countP fun r' => (modifyFirst (p r) (f r) s.2).any (p r')) =
        rows.countP fun r' => s.2.any (p r') := List.countP_congr fun r' hr' => by rw [hany r' hr']
    rw [List.foldl_cons, ih hrest, snd_countedModify, hcount, List.countP_cons]
    unfold countedModify
    split <;> omega

theorem countP_any_comm {xs : List α} (hp : ∀ r x, p r x = true → rowKey r = key x)
    {rows : List ρ} (hrows : (rows.map rowKey).Nodup) (hxs : (xs.map key).Nodup) :
    (rows.countP fun r => xs.any (p r)) = xs.countP fun x => rows.any (p · x) := by
  induction rows with
  | nil => simp
  | cons r rows ih =>
    obtain ⟨hfirst, hrest⟩ := List.nodup_cons.mp hrows
    have hdisjoint : ∀ x ∈ xs, p r x = true → rows.any (p · x) = false := by
      intro x _ hx
      rw [List.any_eq_false]
      intro r' hr' hx'
      refine hfirst ?_
      rw [hp r x hx, ← hp r' x hx']
      exact List.mem_map_of_mem hr'
    have hone : xs.Pairwise fun x y => p r x = true → p r y = false := by
      refine (List.pairwise_map.mp hxs).imp fun {x y} hne hx => ?_
      exact Bool.eq_false_iff.mpr fun hy => hne ((hp r x hx).symm.trans (hp r y hy))
    simp only [List.any_cons]
    rw [List.countP_cons, ih hrest, countP_or_of_disjoint hdisjoint, countP_eq_ite_any hone]
    omega

end Count

namespace EdgeWrite

variable {rows rows' : List EdgeWrite} {e : Edge} {r : EdgeWrite}

/-- All writes at once: an edge takes the one that is for it as it stands. -/
def guarded (rows : List EdgeWrite) (e : Edge) : Edge :=
  match rows.find? (·.matchesEdge e) with
  | some r => r.applyTo e
  | none => e

theorem guarded_of_forall (h : ∀ r ∈ rows, r.matchesEdge e = false) : guarded rows e = e := by
  have hnone : rows.find? (·.matchesEdge e) = none :=
    List.find?_eq_none.mpr fun r hr => by simp [h r hr]
  rw [guarded, hnone]

theorem guarded_of_mem (hrows : (rows.map edgeId).Nodup) (hr : r ∈ rows)
    (h : r.matchesEdge e = true) : guarded rows e = r.applyTo e := by
  unfold guarded
  cases hfind : rows.find? (·.matchesEdge e) with
  | none => exact absurd h (List.find?_eq_none.mp hfind r hr)
  | some q =>
    have hq : q.matchesEdge e = true := by simpa using List.find?_some hfind
    have hsame : q.edgeId = r.edgeId := (edgeId_eq q e hq).trans (edgeId_eq r e h).symm
    obtain rfl := List.inj_on_of_nodup_map hrows (List.mem_of_find?_eq_some hfind) hr hsame
    rfl

theorem guarded_perm (hrows : (rows.map edgeId).Nodup) (hperm : rows'.Perm rows) (e : Edge) :
    guarded rows' e = guarded rows e := by
  have hrows' : (rows'.map edgeId).Nodup := (hperm.map edgeId).nodup_iff.mpr hrows
  by_cases h : ∃ r ∈ rows, r.matchesEdge e = true
  · obtain ⟨r, hr, hmatch⟩ := h
    rw [guarded_of_mem hrows hr hmatch, guarded_of_mem hrows' (hperm.mem_iff.mpr hr) hmatch]
  · have hnone : ∀ r ∈ rows, r.matchesEdge e = false :=
      fun r hr => Bool.eq_false_iff.mpr fun hmatch => h ⟨r, hr, hmatch⟩
    rw [guarded_of_forall hnone, guarded_of_forall fun r hr => hnone r (hperm.mem_iff.mp hr)]

theorem applied_eq_guarded (hrows : (rows.map edgeId).Nodup) (e : Edge) :
    applied rows e = guarded rows e := by
  rw [applied_eq_find? hrows]
  cases hfind : rows.find? (fun r => r.edgeId = e.id) with
  | none =>
    refine (guarded_of_forall fun r hr => Bool.eq_false_iff.mpr fun hmatch => ?_).symm
    exact List.find?_eq_none.mp hfind r hr (by simpa using edgeId_eq r e hmatch)
  | some q =>
    have hq := List.mem_of_find?_eq_some hfind
    have hid : q.edgeId = e.id := by simpa using List.find?_some hfind
    by_cases hmatch : q.matchesEdge e = true
    · simp only [hmatch, if_true]
      exact (guarded_of_mem hrows hq hmatch).symm
    · simp only [hmatch]
      refine (guarded_of_forall fun r hr => Bool.eq_false_iff.mpr fun hr' => hmatch ?_).symm
      obtain rfl := List.inj_on_of_nodup_map hrows hr hq ((edgeId_eq r e hr').trans hid.symm)
      exact hr'

end EdgeWrite

namespace Tables

variable {rows : List EdgeWrite} {t : Tables}

theorem fst_applyEdges (hrows : (rows.map EdgeWrite.edgeId).Nodup) (t : Tables) :
    (applyEdges rows t).1 = rows.countP fun r => t.edges.any r.matchesEdge := by
  have hcount := fst_foldl_countedModify EdgeWrite.id_applyTo EdgeWrite.edgeId_eq hrows (0, t.edges)
  rw [Nat.zero_add] at hcount
  exact hcount

theorem applyEdges_eq (hrows : (rows.map EdgeWrite.edgeId).Nodup)
    (hids : (t.edges.map Edge.id).Nodup) :
    applyEdges rows t = (t.edges.countP fun e => rows.any (·.matchesEdge e),
      { t with edges := t.edges.map (EdgeWrite.guarded rows) }) := by
  refine Prod.ext ?_ ?_
  · rw [fst_applyEdges hrows]
    exact countP_any_comm EdgeWrite.edgeId_eq hrows hids
  · have happlied : EdgeWrite.applied rows = EdgeWrite.guarded rows :=
      funext (EdgeWrite.applied_eq_guarded hrows)
    rw [snd_applyEdges, EdgeWrite.foldl_eq_map rows hids, happlied]

end Tables

end Regroup
