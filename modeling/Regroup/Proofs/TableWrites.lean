import Mathlib.Data.List.Nodup
import Regroup.Memory.Tables
import Regroup.Proofs.Sorting

/-! The writes of a pass on tables. A batch of writes goes through the rows one write at a time;
where rows are told apart by a key it is one simultaneous update. -/

namespace Regroup

theorem filter_eq_singleton {α κ : Type} {p : α → Bool} {key : α → κ} {xs : List α} {x : α}
    (hxs : (xs.map key).Nodup) (hx : x ∈ xs) (hp : p x = true)
    (h : ∀ y ∈ xs, p y = true → key y = key x) : xs.filter p = [x] := by
  have hfilter : (xs.filter p).Nodup := hxs.of_map.filter p
  refine List.perm_singleton.mp ((List.perm_ext_iff_of_nodup hfilter (by simp)).mpr fun y => ?_)
  rw [List.mem_filter, List.mem_singleton]
  constructor
  · rintro ⟨hy, hpy⟩
    exact List.inj_on_of_nodup_map hxs hy hx (h y hy hpy)
  · rintro rfl
    exact ⟨hx, hp⟩

section Batch

variable {α ρ κ : Type} {key : α → κ} {rowKey : ρ → κ} {p : ρ → α → Bool} {f : ρ → α → α}

/-- A batch of first-match changes of rows with distinct keys, which no change alters. -/
theorem foldl_modifyFirst_eq_map (hf : ∀ r x, key (f r x) = key x)
    (hp : ∀ r x, p r x = true → rowKey r = key x) (rows : List ρ) {xs : List α}
    (hxs : (xs.map key).Nodup) :
    rows.foldl (fun xs r => modifyFirst (p r) (f r) xs) xs =
      xs.map fun x => rows.foldl (fun x r => if p r x then f r x else x) x := by
  induction rows generalizing xs with
  | nil => simp
  | cons r rows ih =>
    have hpair : xs.Pairwise fun x y => p r x = true → p r y = false := by
      refine (List.pairwise_map.mp hxs).imp fun {x y} hne hx => ?_
      exact Bool.eq_false_iff.mpr fun hy => hne ((hp r x hx).symm.trans (hp r y hy))
    have hkeys : (modifyFirst (p r) (f r) xs).map key = xs.map key :=
      map_modifyFirst_of_eq fun x _ _ => hf r x
    rw [List.foldl_cons, ih (hkeys ▸ hxs), modifyFirst_eq_map hpair, List.map_map]
    rfl

theorem map_foldl_modifyFirst (hf : ∀ r x, key (f r x) = key x) (rows : List ρ) (xs : List α) :
    (rows.foldl (fun xs r => modifyFirst (p r) (f r) xs) xs).map key = xs.map key := by
  induction rows generalizing xs with
  | nil => rfl
  | cons r rows ih =>
    rw [List.foldl_cons, ih]
    exact map_modifyFirst_of_eq fun x _ _ => hf r x

theorem foldl_modifyFirst_append {rows : List ρ} {ys : List α}
    (h : ∀ r ∈ rows, ∀ y ∈ ys, p r y = false) (xs : List α) :
    rows.foldl (fun xs r => modifyFirst (p r) (f r) xs) (xs ++ ys) =
      rows.foldl (fun xs r => modifyFirst (p r) (f r) xs) xs ++ ys := by
  induction rows generalizing xs with
  | nil => rfl
  | cons r rows ih =>
    rw [List.foldl_cons, modifyFirst_append_of_forall xs (h r (by simp))]
    exact ih (fun q hq => h q (List.mem_cons_of_mem _ hq)) _

theorem foldl_ite_eq_self {x : α} {rows : List ρ} (h : ∀ r ∈ rows, p r x = false) :
    rows.foldl (fun x r => if p r x then f r x else x) x = x := by
  induction rows with
  | nil => rfl
  | cons r rows ih =>
    simp only [List.foldl_cons, h r (by simp), Bool.false_eq_true, if_false]
    exact ih fun r' hr => h r' (by simp [hr])

/-- A row is past all changes of a batch, or takes one of them and no other. -/
theorem foldl_ite_cases (hf : ∀ r x, key (f r x) = key x)
    (hp : ∀ r x, p r x = true → rowKey r = key x) {rows : List ρ}
    (hrows : (rows.map rowKey).Nodup) (x : α) :
    (∀ r ∈ rows, p r x = false) ∧ rows.foldl (fun x r => if p r x then f r x else x) x = x ∨
      ∃ r ∈ rows, p r x = true ∧
        rows.foldl (fun x r => if p r x then f r x else x) x = f r x := by
  induction rows with
  | nil => exact .inl ⟨by simp, rfl⟩
  | cons r rows ih =>
    obtain ⟨hfirst, hrest⟩ := List.nodup_cons.mp hrows
    by_cases hr : p r x = true
    · have hpast : ∀ q ∈ rows, p q (f r x) = false := by
        refine fun q hq => Bool.eq_false_iff.mpr fun hqx => hfirst ?_
        rw [hp r x hr, ← hf r x, ← hp q _ hqx]
        exact List.mem_map_of_mem hq
      refine .inr ⟨r, by simp, hr, ?_⟩
      rw [List.foldl_cons, if_pos hr]
      exact foldl_ite_eq_self hpast
    · have hstep : (r :: rows).foldl (fun x r => if p r x then f r x else x) x =
          rows.foldl (fun x r => if p r x then f r x else x) x := by
        rw [List.foldl_cons, if_neg hr]
      rw [hstep]
      rcases ih hrest with ⟨hnone, heq⟩ | ⟨q, hq, hqx, heq⟩
      · refine .inl ⟨fun q hq => ?_, heq⟩
        rcases List.mem_cons.mp hq with rfl | hq
        · exact Bool.eq_false_iff.mpr hr
        · exact hnone q hq
      · exact .inr ⟨q, List.mem_cons_of_mem _ hq, hqx, heq⟩

/-- Of changes with distinct keys a row takes the one with its own. -/
theorem foldl_ite_eq_find? [DecidableEq κ] (hf : ∀ r x, key (f r x) = key x)
    (hp : ∀ r x, p r x = true → rowKey r = key x) {rows : List ρ}
    (hrows : (rows.map rowKey).Nodup) (x : α) :
    rows.foldl (fun x r => if p r x then f r x else x) x =
      match rows.find? (fun r => rowKey r = key x) with
      | some r => if p r x then f r x else x
      | none => x := by
  induction rows with
  | nil => rfl
  | cons r rows ih =>
    have hnd := List.nodup_cons.mp hrows
    by_cases hr : rowKey r = key x
    · have hy : key (if p r x then f r x else x) = key x := by split <;> simp [hf]
      have hrest : ∀ r' ∈ rows, p r' (if p r x then f r x else x) = false := by
        intro r' hr'
        refine Bool.eq_false_iff.mpr fun h => hnd.1 ?_
        rw [hr, ← hy, ← hp r' _ h]
        exact List.mem_map_of_mem hr'
      rw [List.foldl_cons, foldl_ite_eq_self hrest]
      simp [hr]
    · have hno : p r x = false := Bool.eq_false_iff.mpr fun h => hr (hp r x h)
      simpa [hno, hr] using ih hnd.2

end Batch

theorem EdgeWrite.matchesEdge_iff {r : EdgeWrite} {e : Edge} :
    r.matchesEdge e = true ↔ e.id = r.edgeId ∧ e.currentGroup = r.expected := by
  simp only [matchesEdge, Bool.and_eq_true, beq_iff_eq]

theorem EdgeWrite.edgeId_eq (r : EdgeWrite) (e : Edge) (h : r.matchesEdge e = true) :
    r.edgeId = e.id := (matchesEdge_iff.mp h).1.symm

theorem EdgeWrite.id_applyTo (r : EdgeWrite) (e : Edge) : (r.applyTo e).id = e.id := rfl

theorem GroupRefresh.groupId_eq (r : GroupRefresh) (g : Group) (h : (g.id == r.groupId) = true) :
    r.groupId = g.id := (beq_iff_eq.mp h).symm

theorem GroupRefresh.id_stamp (r : GroupRefresh) (g : Group) : (g.stamp r.version).id = g.id := rfl

/-- What a batch of edge writes makes of one edge. -/
def EdgeWrite.applied (rows : List EdgeWrite) (e : Edge) : Edge :=
  rows.foldl (fun e r => if r.matchesEdge e then r.applyTo e else e) e

theorem EdgeWrite.foldl_eq_map (rows : List EdgeWrite) {edges : List Edge}
    (hids : (edges.map Edge.id).Nodup) :
    rows.foldl (fun es r => modifyFirst r.matchesEdge r.applyTo es) edges =
      edges.map (EdgeWrite.applied rows) :=
  foldl_modifyFirst_eq_map id_applyTo edgeId_eq rows hids

theorem EdgeWrite.applied_eq_find? {rows : List EdgeWrite} (hrows : (rows.map edgeId).Nodup)
    (e : Edge) :
    EdgeWrite.applied rows e = match rows.find? (fun r => r.edgeId = e.id) with
      | some r => if r.matchesEdge e then r.applyTo e else e
      | none => e := by
  rw [applied, foldl_ite_eq_find? id_applyTo edgeId_eq hrows]
  cases rows.find? fun r => r.edgeId = e.id <;> rfl

section Counted

variable {α ρ κ : Type}

/-- A first-match change together with the number of changes that found a row. -/
def countedModify (p : α → Bool) (f : α → α) (s : Nat × List α) : Nat × List α :=
  if s.2.any p then (s.1 + 1, modifyFirst p f s.2) else s

theorem snd_countedModify (p : α → Bool) (f : α → α) (s : Nat × List α) :
    (countedModify p f s).2 = modifyFirst p f s.2 := by
  rw [← modifyFirst_any]
  unfold countedModify
  split <;> rfl

variable {p : ρ → α → Bool} {f : ρ → α → α} {key : α → κ} {rowKey : ρ → κ}

theorem snd_foldl_countedModify (rows : List ρ) (s : Nat × List α) :
    (rows.foldl (fun s r => countedModify (p r) (f r) s) s).2 =
      rows.foldl (fun xs r => modifyFirst (p r) (f r) xs) s.2 := by
  induction rows generalizing s with
  | nil => rfl
  | cons r rows ih => rw [List.foldl_cons, ih, snd_countedModify, List.foldl_cons]

theorem fst_foldl_countedModify_le (rows : List ρ) (s : Nat × List α) :
    (rows.foldl (fun s r => countedModify (p r) (f r) s) s).1 ≤ s.1 + rows.length := by
  induction rows generalizing s with
  | nil => exact Nat.le_refl _
  | cons r rows ih =>
    have hrest := ih (countedModify (p r) (f r) s)
    have hfirst : (countedModify (p r) (f r) s).1 ≤ s.1 + 1 := by
      unfold countedModify
      split
      · exact Nat.le_refl _
      · exact Nat.le_succ _
    rw [List.foldl_cons, List.length_cons]
    omega

theorem mem_foldl_modifyFirst {rows : List ρ} {xs : List α} {x : α} (hx : x ∈ xs)
    (h : ∀ r ∈ rows, p r x = false) :
    x ∈ rows.foldl (fun xs r => modifyFirst (p r) (f r) xs) xs := by
  induction rows generalizing xs with
  | nil => exact hx
  | cons r rows ih =>
    refine ih ?_ fun r' hr' => h r' (List.mem_cons_of_mem _ hr')
    rcases mem_modifyFirst_of_mem (f r) hx with hx | ⟨hp, -⟩
    · exact hx
    · simp [h r (by simp)] at hp

/-- If all changes of a batch found a row, each of them shows in the end: a later change of a row
with another key does not undo it. -/
theorem exists_changed_of_counted (hf : ∀ r x, key (f r x) = key x)
    (hp : ∀ r x, p r x = true → rowKey r = key x) {rows : List ρ} {s : Nat × List α}
    (hrows : (rows.map rowKey).Nodup)
    (hall : (rows.foldl (fun s r => countedModify (p r) (f r) s) s).1 = s.1 + rows.length) :
    ∀ r ∈ rows, ∃ x, f r x ∈ (rows.foldl (fun s r => countedModify (p r) (f r) s) s).2 := by
  induction rows generalizing s with
  | nil => simp
  | cons r rows ih =>
    obtain ⟨hfirst, hrest⟩ := List.nodup_cons.mp hrows
    rw [List.foldl_cons, List.length_cons] at hall
    have hle := @fst_foldl_countedModify_le _ _ p f rows (countedModify (p r) (f r) s)
    by_cases hany : s.2.any (p r) = true
    · have hstep : countedModify (p r) (f r) s = (s.1 + 1, modifyFirst (p r) (f r) s.2) :=
        if_pos hany
      rw [hstep] at hall
      intro r' hr'
      rw [List.foldl_cons, hstep]
      rcases List.mem_cons.mp hr' with rfl | hr'
      · obtain ⟨x, -, hpx, hmem⟩ := exists_mem_modifyFirst (f r') hany
        refine ⟨x, ?_⟩
        rw [snd_foldl_countedModify]
        -- what has changed once is past the reach of the changes that follow
        refine mem_foldl_modifyFirst hmem fun q hq => Bool.eq_false_iff.mpr fun hqx => hfirst ?_
        rw [hp r' x hpx, ← hf r' x, ← hp q _ hqx]
        exact List.mem_map_of_mem hq
      · refine ih hrest ?_ r' hr'
        rw [hall]
        omega
    -- a change that found no row leaves the count short
    · have hstep : countedModify (p r) (f r) s = s := if_neg hany
      rw [hstep] at hall hle
      omega

end Counted

namespace Tables

theorem snd_refreshGroups (rows : List GroupRefresh) (t : Tables) :
    (refreshGroups rows t).2 = { t with
      groups := rows.foldl
        (fun gs r => modifyFirst (·.id == r.groupId) (Group.stamp r.version) gs) t.groups } := by
  rw [← snd_foldl_countedModify rows (0, t.groups)]
  rfl

theorem snd_applyEdges (rows : List EdgeWrite) (t : Tables) :
    (applyEdges rows t).2 = { t with
      edges := rows.foldl (fun es r => modifyFirst r.matchesEdge r.applyTo es) t.edges } := by
  rw [← snd_foldl_countedModify rows (0, t.edges)]
  rfl

theorem exists_refreshed {rows : List GroupRefresh} {t : Tables}
    (hrows : (rows.map GroupRefresh.groupId).Nodup)
    (hall : (refreshGroups rows t).1 = rows.length) :
    ∀ r ∈ rows, ∃ g ∈ (refreshGroups rows t).2.groups, g.version = some r.version := by
  intro r hr
  have hcount : (rows.foldl refreshGroup (0, t.groups)).1 = 0 + rows.length := by
    rw [Nat.zero_add]
    exact hall
  obtain ⟨g, hg⟩ := exists_changed_of_counted GroupRefresh.id_stamp GroupRefresh.groupId_eq hrows
    hcount r hr
  exact ⟨g.stamp r.version, hg, rfl⟩

theorem exists_applied {rows : List EdgeWrite} {t : Tables}
    (hrows : (rows.map EdgeWrite.edgeId).Nodup) (hall : (applyEdges rows t).1 = rows.length) :
    ∀ r ∈ rows, ∃ e ∈ (applyEdges rows t).2.edges, e.version = some r.version := by
  intro r hr
  have hcount : (rows.foldl applyEdge (0, t.edges)).1 = 0 + rows.length := by
    rw [Nat.zero_add]
    exact hall
  obtain ⟨e, he⟩ := exists_changed_of_counted EdgeWrite.id_applyTo EdgeWrite.edgeId_eq hrows
    hcount r hr
  exact ⟨r.applyTo e, he, rfl⟩

end Tables

end Regroup
