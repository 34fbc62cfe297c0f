import Mathlib.Data.List.Nodup
import Regroup.Proofs.ByteOrder
import Regroup.Proofs.Numbering

/-! Versions follow keys. A block is given to as many rows as it has versions, rows that share a key
are refused wherever they stand, and all others receive the versions of the block in ascending order
of their keys, whatever order they came in. -/

namespace Regroup

theorem dropRepeats_of_not_hasRepeat {α : Type} [DecidableEq α] {xs : List α}
    (h : hasRepeat xs = false) : dropRepeats xs = xs := by
  fun_induction dropRepeats xs with
  | case1 => rfl
  | case2 => rfl
  | case3 x rest => simp [hasRepeat] at h
  | case4 x y rest hne ih =>
    have hrest : hasRepeat (y :: rest) = false := by simpa [hasRepeat, hne] using h
    rw [ih hrest]

/-- Equal elements of a sorted list stand together, so none of them is missed. -/
theorem pairwise_lt_of_not_hasRepeat {κ : Type} [LE κ] [LT κ] [DecidableEq κ] [Std.IsLinearOrder κ]
    [Std.LawfulOrderLT κ] {xs : List κ} (hs : xs.Pairwise (· ≤ ·)) (h : hasRepeat xs = false) :
    xs.Pairwise (· < ·) := by
  have hstrict := dropRepeats_pairwise hs
  rwa [dropRepeats_of_not_hasRepeat h] at hstrict

section Versions

variable {α κ : Type}

/-- Two rows that stand at different places have one key. -/
def ShareKey (key : α → κ) (rows : List α) : Prop :=
  ∃ (i j : Nat) (x y : α), i < j ∧ rows[i]? = some x ∧ rows[j]? = some y ∧ key x = key y

theorem not_shareKey_iff {key : α → κ} {rows : List α} :
    ¬ ShareKey key rows ↔ (rows.map key).Nodup := by
  rw [List.nodup_iff_getElem?_ne_getElem?]
  constructor
  · intro h i j hij hj heq
    rw [List.length_map] at hj
    rw [List.getElem?_map, List.getElem?_map, List.getElem?_eq_getElem hj,
      List.getElem?_eq_getElem (hij.trans hj)] at heq
    exact h ⟨i, j, _, _, hij, List.getElem?_eq_getElem (hij.trans hj), List.getElem?_eq_getElem hj,
      Option.some.inj heq⟩
  · rintro h ⟨i, j, x, y, hij, hx, hy, heq⟩
    obtain ⟨hj, -⟩ := List.getElem?_eq_some_iff.mp hy
    refine h i j hij (by simpa using hj) ?_
    rw [List.getElem?_map, List.getElem?_map, hx, hy, Option.map_some, Option.map_some, heq]

variable [LT κ]

/-- Rows in ascending order of their keys, with the versions of a block from the first to the last. -/
structure Numbered (key : α → κ) (rows : List α) (block : VersionBlock) (out : List (α × Int)) :
    Prop where
  perm : (out.map Prod.fst).Perm rows
  ascending : out.Pairwise fun r r' => key r.1 < key r'.1
  consecutive : ∀ (i : Nat) (hi : i < out.length), out[i].2 = block.start + i
  once : ∀ v, (out.map Prod.snd).count v = if block.start ≤ v ∧ v ≤ block.last then 1 else 0
  order : ∀ r ∈ out, ∀ r' ∈ out, key r.1 < key r'.1 ↔ r.2 < r'.2

/-- What it is to give versions to rows in the order of their keys: which rows are refused and why,
and what all others receive. -/
structure NumbersByKey {ρ : Type} (key : α → κ) (make : α → Int → ρ)
    (assign : List α → VersionBlock → Except BlockError (List ρ)) : Prop where
  sizeMismatch : ∀ rows block,
    assign rows block = .error (.sizeMismatch rows.length block.size) ↔ rows.length ≠ block.size
  duplicateKey : ∀ rows block,
    assign rows block = .error .duplicateKey ↔ rows.length = block.size ∧ ShareKey key rows
  numbered : ∀ rows block, rows.length = block.size → ¬ ShareKey key rows →
    ∃ out, assign rows block = .ok (out.map fun r => make r.1 r.2) ∧ Numbered key rows block out
  perm : ∀ rows rows' block, rows.Perm rows' → assign rows block = assign rows' block

namespace NumbersByKey

variable {ρ : Type} {key : α → κ} {make : α → Int → ρ}
  {assign : List α → VersionBlock → Except BlockError (List ρ)}

/-- No two of the three outcomes are the same. -/
theorem of_cases
    (hsize : ∀ rows block, rows.length ≠ block.size →
      assign rows block = .error (.sizeMismatch rows.length block.size))
    (hshare : ∀ rows block, rows.length = block.size → ShareKey key rows →
      assign rows block = .error .duplicateKey)
    (hnumbered : ∀ rows block, rows.length = block.size → ¬ ShareKey key rows →
      ∃ out, assign rows block = .ok (out.map fun r => make r.1 r.2) ∧ Numbered key rows block out)
    (hperm : ∀ rows rows' block, rows.Perm rows' → assign rows block = assign rows' block) :
    NumbersByKey key make assign := by
  refine ⟨fun rows block => ⟨fun h heq => ?_, hsize rows block⟩,
    fun rows block => ⟨fun h => ?_, fun h => hshare rows block h.1 h.2⟩, hnumbered, hperm⟩
  · by_cases hs : ShareKey key rows
    · rw [hshare rows block heq hs] at h
      cases h
    · obtain ⟨out, hout, -⟩ := hnumbered rows block heq hs
      rw [hout] at h
      cases h
  · by_cases heq : rows.length = block.size
    · refine ⟨heq, not_not.mp fun hs => ?_⟩
      obtain ⟨out, hout, -⟩ := hnumbered rows block heq hs
      rw [hout] at h
      cases h
    · rw [hsize rows block heq] at h
      cases h

theorem map {assign : List α → VersionBlock → Except BlockError (List (α × Int))}
    (h : NumbersByKey key Prod.mk assign) (make : α → Int → ρ) :
    NumbersByKey key make
      fun rows block => (assign rows block).map fun out => out.map fun r => make r.1 r.2 := by
  refine .of_cases (fun rows block hne => ?_) (fun rows block heq hs => ?_)
    (fun rows block heq hs => ?_) fun rows rows' block hperm => ?_
  · rw [(h.sizeMismatch rows block).mpr hne]
    rfl
  · rw [(h.duplicateKey rows block).mpr ⟨heq, hs⟩]
    rfl
  · obtain ⟨out, hout, hnumbered⟩ := h.numbered rows block heq hs
    refine ⟨out, ?_, hnumbered⟩
    rw [hout]
    simp [Except.map]
  · rw [h.perm rows rows' block hperm]

/-- Keys that are ordered alike are as good as one another. -/
theorem of_key {κ' : Type} [LT κ'] {key' : α → κ'} (h : NumbersByKey key make assign)
    (hlt : ∀ x y, key' x < key' y ↔ key x < key y) (heq : ∀ x y, key' x = key' y ↔ key x = key y) :
    NumbersByKey key' make assign := by
  have hshare : ∀ rows, ShareKey key' rows ↔ ShareKey key rows := fun rows => by
    simp only [ShareKey, heq]
  refine ⟨h.sizeMismatch, fun rows block => ?_, fun rows block hsize hs => ?_, h.perm⟩
  · rw [hshare]
    exact h.duplicateKey rows block
  · obtain ⟨out, hout, hnumbered⟩ := h.numbered rows block hsize (mt (hshare rows).mpr hs)
    obtain ⟨hperm, hascending, hconsecutive, honce, horder⟩ := hnumbered
    refine ⟨out, hout, hperm, hascending.imp fun hr => (hlt _ _).mpr hr, hconsecutive, honce, ?_⟩
    exact fun r hr r' hr' => (hlt _ _).trans (horder r hr r' hr')

end NumbersByKey

end Versions

namespace VersionBlock

theorem getElem_values (b : VersionBlock) (i : Nat) (hi : i < b.values.length) :
    b.values[i] = b.start + i := by
  simp [values, firstValues]

theorem values_pairwise (b : VersionBlock) : b.values.Pairwise (· < ·) := by
  rw [values, firstValues, List.pairwise_map]
  exact List.pairwise_lt_range.imp fun h => by omega

theorem count_values (b : VersionBlock) (v : Int) :
    b.values.count v = if b.start ≤ v ∧ v ≤ b.last then 1 else 0 := by
  have hnodup : b.values.Nodup := b.values_pairwise.imp Std.ne_of_lt
  rw [hnodup.count]
  exact if_congr mem_values rfl rfl

end VersionBlock

theorem assignVersions_of_ne {α κ : Type} [LE κ] [DecidableLE κ] [DecidableEq κ] {key : α → κ}
    {rows : List α} {block : VersionBlock} (hsize : rows.length ≠ block.size) :
    assignVersions key rows block = .error (.sizeMismatch rows.length block.size) := by
  simp [assignVersions, hsize]

section Assign

variable {α κ ρ : Type} [LE κ] [LT κ] [DecidableLE κ] [DecidableEq κ] [Std.IsLinearOrder κ]
  [Std.LawfulOrderLT κ] {key : α → κ} {rows : List α} {block : VersionBlock}

omit [DecidableLE κ] [DecidableEq κ] in
/-- Of two rows in such a list the one with the lesser key has the lesser version. -/
theorem lt_iff_of_pairwise {out : List (α × Int)}
    (h : out.Pairwise fun r r' => key r.1 < key r'.1 ∧ r.2 < r'.2) {r r' : α × Int} (hr : r ∈ out)
    (hr' : r' ∈ out) : key r.1 < key r'.1 ↔ r.2 < r'.2 := by
  obtain ⟨i, hi, rfl⟩ := List.mem_iff_getElem.mp hr
  obtain ⟨j, hj, rfl⟩ := List.mem_iff_getElem.mp hr'
  rcases Nat.lt_trichotomy i j with hij | rfl | hij
  · have hlt := List.pairwise_iff_getElem.mp h i j hi hj hij
    exact ⟨fun _ => hlt.2, fun _ => hlt.1⟩
  · exact ⟨fun hlt => absurd hlt Std.lt_irrefl, fun hlt => absurd hlt (Int.lt_irrefl _)⟩
  · have hlt := List.pairwise_iff_getElem.mp h j i hj hi hij
    exact ⟨fun hkey => absurd hkey (Std.not_lt.mpr (Std.le_of_lt hlt.1)),
      fun hversion => absurd hversion (Int.not_lt.mpr (Int.le_of_lt hlt.2))⟩

omit [DecidableEq κ] in
theorem numbered_zip (hsize : rows.length = block.size) (hkeys : (rows.map key).Nodup) :
    Numbered key rows block ((sortOn key rows).zip block.values) := by
  have hlength : (sortOn key rows).length = block.values.length := by simp [hsize]
  have hfst : ((sortOn key rows).zip block.values).map Prod.fst = sortOn key rows :=
    List.map_fst_zip (Nat.le_of_eq hlength)
  have hsnd : ((sortOn key rows).zip block.values).map Prod.snd = block.values :=
    List.map_snd_zip (Nat.le_of_eq hlength.symm)
  have hstrict : (sortOn key rows).Pairwise fun x y => key x < key y :=
    pairwise_lt_of_nodup (sortOn_pairwise key rows)
      (((sortOn_perm key rows).map key).nodup_iff.mpr hkeys)
  have hboth : ((sortOn key rows).zip block.values).Pairwise
      fun r r' => key r.1 < key r'.1 ∧ r.2 < r'.2 := by
    rw [← hfst, List.pairwise_map] at hstrict
    have hversions := block.values_pairwise
    rw [← hsnd, List.pairwise_map] at hversions
    exact hstrict.and hversions
  refine ⟨?_, hboth.imp And.left, fun i hi => ?_, fun v => ?_, fun r hr r' hr' => ?_⟩
  · rw [hfst]
    exact sortOn_perm key rows
  · rw [List.getElem_zip]
    exact block.getElem_values i _
  · rw [hsnd]
    exact block.count_values v
  · exact lt_iff_of_pairwise hboth hr hr'

theorem hasRepeat_sortOn_iff :
    hasRepeat ((sortOn key rows).map key) = true ↔ ShareKey key rows := by
  have hperm := ((sortOn_perm key rows).map key).nodup_iff
  constructor
  · intro h
    by_contra hnone
    rw [hasRepeat_of_nodup (hperm.mpr (not_shareKey_iff.mp hnone))] at h
    cases h
  · intro h
    by_contra hnone
    have hsorted : ((sortOn key rows).map key).Pairwise (· ≤ ·) :=
      List.pairwise_map.mpr (sortOn_pairwise key rows)
    have hstrict := pairwise_lt_of_not_hasRepeat hsorted (Bool.eq_false_iff.mpr hnone)
    exact not_shareKey_iff.mpr (hperm.mp (hstrict.imp Std.ne_of_lt)) h

theorem assignVersions_of_shareKey (hsize : rows.length = block.size) (h : ShareKey key rows) :
    assignVersions key rows block = .error .duplicateKey := by
  simp [assignVersions, hsize, hasRepeat_sortOn_iff.mpr h]

theorem assignVersions_perm {rows' : List α} (h : rows.Perm rows') :
    assignVersions key rows block = assignVersions key rows' block := by
  by_cases hsize : rows.length = block.size
  · have hsize' : rows'.length = block.size := h.length_eq.symm.trans hsize
    have hnodup := (h.map key).nodup_iff
    by_cases hshare : ShareKey key rows
    · have hshare' : ShareKey key rows' :=
        not_not.mp fun hnone => not_shareKey_iff.mpr (hnodup.mpr (not_shareKey_iff.mp hnone)) hshare
      rw [assignVersions_of_shareKey hsize hshare, assignVersions_of_shareKey hsize' hshare']
    · have hkeys := not_shareKey_iff.mp hshare
      have hsorted : sortOn key rows = sortOn key rows' :=
        sortOn_eq_of_perm h fun x hx y hy he => List.inj_on_of_nodup_map hkeys hx hy he
      rw [assignVersions_of_nodup hkeys hsize, assignVersions_of_nodup (hnodup.mp hkeys) hsize',
        hsorted]
  · have hsize' : rows'.length ≠ block.size := fun he => hsize (h.length_eq.trans he)
    rw [assignVersions_of_ne hsize, assignVersions_of_ne hsize', h.length_eq]

theorem assignVersions_numbersByKey (key : α → κ) :
    NumbersByKey key Prod.mk (assignVersions key) := by
  refine .of_cases (fun _ _ => assignVersions_of_ne) (fun _ _ => assignVersions_of_shareKey) ?_
    fun _ _ _ => assignVersions_perm
  intro rows block hsize hshare
  have hkeys := not_shareKey_iff.mp hshare
  refine ⟨_, ?_, numbered_zip hsize hkeys⟩
  rw [assignVersions_of_nodup hkeys hsize]
  simp

end Assign

theorem ProvisionPlan.inserts_numbersByKey (p : ProvisionPlan) :
    NumbersByKey utf8 GroupInsert.mk fun owners => { p with missingOwners := owners }.inserts :=
  ((assignVersions_numbersByKey id).map GroupInsert.mk).of_key (fun _ _ => utf8_lt_iff)
    fun _ _ => utf8_inj

theorem ProvisionPlan.refreshes_numbersByKey (p : ProvisionPlan) :
    NumbersByKey id GroupRefresh.mk fun ids => { p with existingGroups := ids }.refreshes :=
  (assignVersions_numbersByKey id).map GroupRefresh.mk

theorem ChangeSet.writes_numbersByKey {c : ChangeSet} (h : c.awaitingDefault = []) :
    NumbersByKey EdgeChange.edgeId EdgeChange.write
      fun changes => { c with changes := changes }.writes := by
  have hwrites : (fun changes => { c with changes := changes }.writes) = fun changes block =>
      (assignVersions EdgeChange.edgeId changes block).map fun rows =>
        rows.map fun r => EdgeChange.write r.1 r.2 := by
    funext changes block
    simp only [writes, h, List.isEmpty_nil, if_true]
    rfl
  rw [hwrites]
  exact (assignVersions_numbersByKey EdgeChange.edgeId).map EdgeChange.write

theorem ChangeSet.writes_of_awaitingDefault {c : ChangeSet} (h : c.awaitingDefault ≠ [])
    (block : VersionBlock) : c.writes block = .error (.sizeMismatch c.toUpdate block.size) := by
  have hempty : c.awaitingDefault.isEmpty = false := by simpa using h
  simp [writes, hempty]

/-- Versions follow the keys, for rows of any kind and for the three kinds of writes: changes by the
ids of their edges, new default groups by the bytes of their owners, refreshed ones by their ids.
Changes are not numbered while edges await a default group. -/
theorem versions_follow_keys {α κ : Type} [LE κ] [LT κ] [DecidableLE κ] [DecidableEq κ]
    [Std.IsLinearOrder κ] [Std.LawfulOrderLT κ] (key : α → κ) (c : ChangeSet) (p : ProvisionPlan) :
    NumbersByKey key Prod.mk (assignVersions key) ∧
      (c.awaitingDefault = [] → NumbersByKey EdgeChange.edgeId EdgeChange.write
        fun changes => { c with changes := changes }.writes) ∧
      (c.awaitingDefault ≠ [] →
        ∀ block, c.writes block = .error (.sizeMismatch c.toUpdate block.size)) ∧
      (NumbersByKey utf8 GroupInsert.mk fun owners => { p with missingOwners := owners }.inserts) ∧
      NumbersByKey id GroupRefresh.mk fun ids => { p with existingGroups := ids }.refreshes :=
  ⟨assignVersions_numbersByKey key, c.writes_numbersByKey, c.writes_of_awaitingDefault,
    p.inserts_numbersByKey, p.refreshes_numbersByKey⟩

/-- Two changes, the later one of the edge with the lesser id. -/
def jumbled : ChangeSet :=
  { changes := [⟨30, "ada", "bob", 0, 4, true⟩, ⟨10, "bob", "ada", 9, 0, false⟩] }

/-- The same changes next to an edge whose group is yet to come. -/
def expectant : ChangeSet := { jumbled with awaitingDefault := [20] }

theorem versions_follow_keys_jumbled :
    NumbersByKey (fun r : Uid × Nat => r.1) Prod.mk (assignVersions fun r : Uid × Nat => r.1) ∧
      (∃ out, jumbled.writes ⟨7, 2⟩ = .ok (out.map fun r => r.1.write r.2) ∧
        Numbered EdgeChange.edgeId jumbled.changes ⟨7, 2⟩ out) ∧
      ∀ block, expectant.writes block = .error (.sizeMismatch 3 block.size) := by
  obtain ⟨hrows, hwrites, -⟩ := versions_follow_keys (fun r : Uid × Nat => r.1) jumbled {}
  obtain ⟨-, -, hrefused, -⟩ := versions_follow_keys (fun r : Uid × Nat => r.1) expectant {}
  have hapart : ¬ ShareKey EdgeChange.edgeId jumbled.changes := not_shareKey_iff.mpr (by decide)
  exact ⟨hrows, (hwrites rfl).numbered jumbled.changes ⟨7, 2⟩ rfl hapart, hrefused (by decide)⟩

end Regroup
