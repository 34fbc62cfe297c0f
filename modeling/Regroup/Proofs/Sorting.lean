import Regroup.Ascending

/-! Sorted lists, sets, counts and single changes in a list. A row is found by a key that no other
row has, so a change of the first row with a key is a change of every row with it. -/

namespace Regroup

variable {α β κ : Type}

section Order

variable [LE κ] [DecidableLE κ] {key : α → κ} {rows : List α}

theorem sortOn_perm (key : α → κ) (rows : List α) : (sortOn key rows).Perm rows :=
  List.mergeSort_perm rows _

@[simp] theorem mem_sortOn {x : α} : x ∈ sortOn key rows ↔ x ∈ rows :=
  (sortOn_perm key rows).mem_iff

@[simp] theorem length_sortOn : (sortOn key rows).length = rows.length :=
  (sortOn_perm key rows).length_eq

theorem sortOn_eq_self (h : rows.Pairwise (fun x y => key x ≤ key y)) : sortOn key rows = rows :=
  List.mergeSort_of_pairwise (by simpa using h)

section Linear

variable [Std.IsLinearOrder κ]

theorem key_le_trans (a b c : α) : decide (key a ≤ key b) = true → decide (key b ≤ key c) = true →
    decide (key a ≤ key c) = true := by
  simp only [decide_eq_true_eq]
  exact Std.le_trans

theorem key_le_total (a b : α) : (decide (key a ≤ key b) || decide (key b ≤ key a)) = true := by
  simpa using Std.le_total

theorem sortOn_pairwise (key : α → κ) (rows : List α) :
    (sortOn key rows).Pairwise (fun x y => key x ≤ key y) := by
  simpa [sortOn] using List.pairwise_mergeSort key_le_trans key_le_total rows

/-- Rows of one key come out of the sort as they went in. -/
theorem filter_sortOn [DecidableEq κ] (key : α → κ) (rows : List α) (k : κ) :
    (sortOn key rows).filter (key · = k) = rows.filter (key · = k) := by
  have halike : (rows.filter (key · = k)).Pairwise
      fun x y => decide (key x ≤ key y) = true := by
    refine List.pairwise_filter.mpr (List.pairwise_of_forall fun x y hx hy => ?_)
    simp only [decide_eq_true_eq] at hx hy ⊢
    rw [hx, hy]
    exact Std.le_refl k
  have hsub : (rows.filter (key · = k)).Sublist (sortOn key rows) :=
    List.sublist_mergeSort key_le_trans key_le_total halike List.filter_sublist
  have hfiltered := hsub.filter (key · = k)
  rw [List.filter_filter] at hfiltered
  simp only [Bool.and_self] at hfiltered
  exact (hfiltered.eq_of_length ((sortOn_perm key rows).filter _).length_eq.symm).symm

omit [DecidableLE κ] in
/-- What stands in the order of a key is told by the rows of each key. -/
theorem eq_of_filter_key_eq [DecidableEq κ] {xs ys : List α}
    (hx : xs.Pairwise fun x y => key x ≤ key y) (hy : ys.Pairwise fun x y => key x ≤ key y)
    (h : ∀ k, xs.filter (key · = k) = ys.filter (key · = k)) : xs = ys := by
  induction xs generalizing ys with
  | nil =>
    refine (List.eq_nil_iff_forall_not_mem.mpr fun y hmem => ?_).symm
    have hin : y ∈ ys.filter (key · = key y) := List.mem_filter.mpr ⟨hmem, by simp⟩
    rw [← h] at hin
    simp at hin
  | cons x xs ih =>
    have hxmem : x ∈ ys := by
      have hin : x ∈ (x :: xs).filter (key · = key x) := by simp
      rw [h] at hin
      exact (List.mem_filter.mp hin).1
    cases ys with
    | nil => simp at hxmem
    | cons y ys =>
      have hymem : y ∈ x :: xs := by
        have hin : y ∈ (y :: ys).filter (key · = key y) := by simp
        rw [← h] at hin
        exact (List.mem_filter.mp hin).1
      have hkey : key y = key x := by
        refine Std.le_antisymm ?_ ?_
        · rcases List.mem_cons.mp hxmem with rfl | hxmem
          · exact Std.le_refl _
          · exact (List.pairwise_cons.mp hy).1 x hxmem
        · rcases List.mem_cons.mp hymem with rfl | hymem
          · exact Std.le_refl _
          · exact (List.pairwise_cons.mp hx).1 y hymem
      have hhead := h (key x)
      simp only [List.filter_cons, hkey, decide_true, if_true] at hhead
      obtain ⟨rfl, -⟩ := List.cons.inj hhead
      refine congrArg (x :: ·) (ih (List.pairwise_cons.mp hx).2 (List.pairwise_cons.mp hy).2 ?_)
      intro k
      have htail := h k
      by_cases hk : key x = k <;> simpa [List.filter_cons, hk] using htail

end Linear

end Order

theorem dropRepeats_pairwise [LE κ] [LT κ] [DecidableEq κ] [Std.IsLinearOrder κ]
    [Std.LawfulOrderLT κ] {xs : List κ} (h : xs.Pairwise (· ≤ ·)) :
    (dropRepeats xs).Pairwise (· < ·) := by
  fun_induction dropRepeats xs with
  | case1 => simp
  | case2 => simp
  | case3 x rest ih => exact ih (List.pairwise_cons.mp h).2
  | case4 x y rest hne ih =>
    have hp := List.pairwise_cons.mp h
    refine List.pairwise_cons.mpr ⟨fun z hz => ?_, ih hp.2⟩
    have hxy : x < y := Std.lt_of_le_of_ne (hp.1 y (by simp)) hne
    rcases List.mem_cons.mp (mem_dropRepeats.mp hz) with rfl | hz
    · exact hxy
    · exact Std.lt_of_lt_of_le hxy ((List.pairwise_cons.mp hp.2).1 z hz)

theorem pairwise_lt_of_nodup [LE κ] [LT κ] [Std.IsLinearOrder κ] [Std.LawfulOrderLT κ]
    {key : α → κ} {rows : List α} (hs : rows.Pairwise fun x y => key x ≤ key y)
    (hkeys : (rows.map key).Nodup) : rows.Pairwise fun x y => key x < key y :=
  (hs.and (List.pairwise_map.mp hkeys)).imp fun h => Std.lt_of_le_of_ne h.1 h.2

theorem ascending_pairwise [LE κ] [DecidableLE κ] [LT κ] [DecidableEq κ] [Std.IsLinearOrder κ]
    [Std.LawfulOrderLT κ] (xs : List κ) : (ascending xs).Pairwise (· < ·) :=
  dropRepeats_pairwise (by simpa using sortOn_pairwise id xs)

theorem ascending_perm [LE κ] [DecidableLE κ] [LT κ] [DecidableEq κ] [Std.IsLinearOrder κ]
    [Std.LawfulOrderLT κ] {xs : List κ} (h : xs.Nodup) : (ascending xs).Perm xs := by
  have hnodup : (ascending xs).Nodup := by
    refine (ascending_pairwise xs).imp ?_
    rintro x _ hlt rfl
    exact Std.lt_irrefl hlt
  exact (List.perm_ext_iff_of_nodup hnodup h).mpr fun _ => mem_ascending

theorem sortOn_eq_of_perm [LE κ] [DecidableLE κ] [Std.IsLinearOrder κ] {key : α → κ}
    {xs ys : List α} (h : xs.Perm ys) (hkey : ∀ x ∈ xs, ∀ y ∈ xs, key x = key y → x = y) :
    sortOn key xs = sortOn key ys := by
  have hperm : (sortOn key xs).Perm (sortOn key ys) :=
    (sortOn_perm key xs).trans (h.trans (sortOn_perm key ys).symm)
  refine List.Perm.eq_of_pairwise (fun x y hx hy hxy hyx => ?_) (sortOn_pairwise key xs)
    (sortOn_pairwise key ys) hperm
  exact hkey x (mem_sortOn.mp hx) y (h.mem_iff.mpr (mem_sortOn.mp hy)) (Std.le_antisymm hxy hyx)

theorem hasRepeat_of_nodup [DecidableEq α] {xs : List α} (h : xs.Nodup) :
    hasRepeat xs = false := by
  fun_induction hasRepeat xs with
  | case1 x y rest ih =>
    have hxy : x ≠ y := fun he => (List.nodup_cons.mp h).1 (by simp [he])
    simp [hxy, ih (List.nodup_cons.mp h).2]
  | case2 => rfl

theorem countP_or_of_disjoint {p q : α → Bool} {xs : List α}
    (h : ∀ x ∈ xs, p x = true → q x = false) :
    xs.countP (fun x => p x || q x) = xs.countP p + xs.countP q := by
  induction xs with
  | nil => rfl
  | cons x xs ih =>
    rw [List.forall_mem_cons] at h
    have hrest := ih h.2
    by_cases hp : p x = true
    · simp only [List.countP_cons, hp, h.1 hp, Bool.or_false, if_true, Bool.false_eq_true, if_false]
      omega
    · simp only [List.countP_cons, Bool.eq_false_iff.mpr hp, Bool.false_or, Bool.false_eq_true,
        if_false]
      omega

theorem modifyFirst_congr {p q : α → Bool} {f : α → α} {xs : List α} (h : ∀ x ∈ xs, p x = q x) :
    modifyFirst p f xs = modifyFirst q f xs := by
  induction xs with
  | nil => rfl
  | cons x xs ih =>
    simp only [modifyFirst, h x (by simp), ih fun y hy => h y (by simp [hy])]

theorem map_modifyFirst {p : α → Bool} {f : α → α} {q : β → Bool} {g : β → β} {s : α → β}
    (hp : ∀ x, q (s x) = p x) (hf : ∀ x, p x = true → s (f x) = g (s x)) (xs : List α) :
    (modifyFirst p f xs).map s = modifyFirst q g (xs.map s) := by
  induction xs with
  | nil => rfl
  | cons x xs ih => by_cases h : p x = true <;> simp [modifyFirst, hp, h, hf, ih]

theorem map_modifyFirst_of_eq {p : α → Bool} {f : α → α} {s : α → β} {xs : List α}
    (h : ∀ x ∈ xs, p x = true → s (f x) = s x) : (modifyFirst p f xs).map s = xs.map s := by
  induction xs with
  | nil => rfl
  | cons x xs ih =>
    by_cases hx : p x = true
    · simp [modifyFirst, hx, h x (by simp) hx]
    · simp [modifyFirst, hx, ih fun y hy => h y (by simp [hy])]

theorem filterMap_modifyFirst_of_eq {p : α → Bool} {f : α → α} {s : α → Option β} {xs : List α}
    (h : ∀ x ∈ xs, p x = true → s (f x) = s x) :
    (modifyFirst p f xs).filterMap s = xs.filterMap s := by
  have hid : ∀ ys : List α, ys.filterMap s = (ys.map s).filterMap id := by
    intro ys
    rw [List.filterMap_map]
    rfl
  rw [hid, hid, map_modifyFirst_of_eq h]

theorem modifyFirst_append_left {p : α → Bool} {f : α → α} {xs : List α} (ys : List α)
    (h : xs.any p = true) : modifyFirst p f (xs ++ ys) = modifyFirst p f xs ++ ys := by
  induction xs with
  | nil => simp at h
  | cons x xs ih =>
    by_cases hx : p x = true
    · simp [modifyFirst, hx]
    · have hrest : xs.any p = true := by simpa [hx] using h
      simp [modifyFirst, hx, ih hrest]

theorem modifyFirst_append_of_forall {p : α → Bool} {f : α → α} {ys : List α} (xs : List α)
    (h : ∀ y ∈ ys, p y = false) : modifyFirst p f (xs ++ ys) = modifyFirst p f xs ++ ys := by
  induction xs with
  | nil => exact modifyFirst_eq_self h
  | cons x xs ih => by_cases hx : p x = true <;> simp [modifyFirst, hx, ih]

theorem any_modifyFirst_of_eq {p q : α → Bool} {f : α → α} (h : ∀ x, p x = true → q (f x) = q x)
    (xs : List α) : (modifyFirst p f xs).any q = xs.any q := by
  induction xs with
  | nil => rfl
  | cons x xs ih =>
    by_cases hx : p x = true
    · simp [modifyFirst, hx, h x hx]
    · simp [modifyFirst, hx, ih]

/-- Where at most one row has a property, the first row with it is the only one. -/
theorem modifyFirst_eq_map {p : α → Bool} {f : α → α} {xs : List α}
    (h : xs.Pairwise fun x y => p x = true → p y = false) :
    modifyFirst p f xs = xs.map fun x => if p x then f x else x := by
  induction xs with
  | nil => rfl
  | cons x xs ih =>
    have hp := List.pairwise_cons.mp h
    by_cases hx : p x = true
    · have hrest : xs.map (fun y => if p y then f y else y) = xs := by
        refine (List.map_congr_left fun y hy => ?_).trans (List.map_id xs)
        simp [hp.1 y hy hx]
      simp [modifyFirst, hx, hrest]
    · simp [modifyFirst, hx, ih hp.2]

theorem modifyFirst_any (p : α → Bool) (f : α → α) (xs : List α) :
    (if xs.any p then modifyFirst p f xs else xs) = modifyFirst p f xs := by
  by_cases h : xs.any p = true
  · simp [h]
  · have hnone : ∀ x ∈ xs, p x = false := by simpa using h
    simp [modifyFirst_eq_self hnone]

theorem getElem?_modifyFirst {p : α → Bool} {f : α → α} {xs : List α} {i : Nat} {y : α}
    (h : (modifyFirst p f xs)[i]? = some y) :
    xs[i]? = some y ∨ ∃ x, xs[i]? = some x ∧ p x = true ∧ y = f x := by
  induction xs generalizing i with
  | nil => simp [modifyFirst] at h
  | cons x xs ih =>
    by_cases hx : p x = true
    · cases i with
      | zero => exact .inr ⟨x, rfl, hx, by simpa [modifyFirst, hx] using h.symm⟩
      | succ i => exact .inl (by simpa [modifyFirst, hx] using h)
    · cases i with
      | zero => exact .inl (by simpa [modifyFirst, hx] using h)
      | succ i => simpa using ih (by simpa [modifyFirst, hx] using h)

theorem mem_modifyFirst {p : α → Bool} {f : α → α} {xs : List α} {y : α}
    (h : y ∈ modifyFirst p f xs) : y ∈ xs ∨ ∃ x ∈ xs, p x = true ∧ y = f x := by
  obtain ⟨i, hi⟩ := List.mem_iff_getElem?.mp h
  rcases getElem?_modifyFirst hi with hy | ⟨x, hx, hp, rfl⟩
  · exact .inl (List.mem_of_getElem? hy)
  · exact .inr ⟨x, List.mem_of_getElem? hx, hp, rfl⟩

theorem mem_modifyFirst_of_mem {p : α → Bool} (f : α → α) {xs : List α} {x : α}
    (h : x ∈ xs) : x ∈ modifyFirst p f xs ∨ p x = true ∧ f x ∈ modifyFirst p f xs := by
  induction xs with
  | nil => simp at h
  | cons y xs ih =>
    by_cases hy : p y = true
    · rcases List.mem_cons.mp h with rfl | h
      · exact .inr ⟨hy, by simp [modifyFirst, hy]⟩
      · exact .inl (by simp [modifyFirst, hy, h])
    · rcases List.mem_cons.mp h with rfl | h
      · exact .inl (by simp [modifyFirst, hy])
      · simpa [modifyFirst, hy] using (ih h).imp .inr (And.imp_right .inr)

theorem exists_mem_modifyFirst {p : α → Bool} (f : α → α) {xs : List α} (h : xs.any p = true) :
    ∃ x ∈ xs, p x = true ∧ f x ∈ modifyFirst p f xs := by
  induction xs with
  | nil => simp at h
  | cons y xs ih =>
    by_cases hy : p y = true
    · exact ⟨y, by simp, hy, by simp [modifyFirst, hy]⟩
    · obtain ⟨x, hx, hp, hmem⟩ := ih (by simpa [hy] using h)
      exact ⟨x, List.mem_cons_of_mem _ hx, hp, by simp [modifyFirst, hy, hmem]⟩

end Regroup
