import Regroup.Memory.Counters
import Regroup.Proofs.Attempt
import Regroup.Proofs.Sorting
import Regroup.Run.Request

/-! Versions drawn from counters in memory and given to rows. What a counter grants lies right above
its value, and rows that stand in key order receive it in the order in which they stand. -/

namespace Regroup

theorem VersionBlock.endingAt_eq_ok {last : Int} {n : Nat} {b : VersionBlock}
    (h : endingAt last n = .ok b) : n ≠ 0 ∧ b = ⟨last - n + 1, n⟩ := by
  unfold endingAt at h
  split at h
  · cases h
  · rename_i hn
    split at h
    · split at h
      · rename_i before hb
        obtain ⟨-, rfl⟩ := Word.signed?_eq_some_iff.mp hb
        exact ⟨hn, by cases h; rfl⟩
      · cases h
    · cases h

theorem assignVersions_eq_ok {α κ : Type} [LE κ] [DecidableLE κ] [DecidableEq κ] {key : α → κ}
    {rows : List α} {block : VersionBlock} {out : List (α × Int)}
    (hs : rows.Pairwise fun x y => key x ≤ key y) (h : assignVersions key rows block = .ok out) :
    out = rows.zip block.values := by
  unfold assignVersions at h
  simp only [sortOn_eq_self hs] at h
  split at h
  · cases h
  · split at h
    · cases h
    · cases h; rfl

theorem assignVersions_of_nodup {α κ : Type} [LE κ] [DecidableLE κ] [DecidableEq κ] {key : α → κ}
    {rows : List α} {block : VersionBlock} (hkeys : (rows.map key).Nodup)
    (hsize : rows.length = block.size) :
    assignVersions key rows block = .ok ((sortOn key rows).zip block.values) := by
  have hsorted : ((sortOn key rows).map key).Nodup :=
    ((sortOn_perm key rows).map key).nodup_iff.mpr hkeys
  simp [assignVersions, hsize, hasRepeat_of_nodup hsorted]

theorem map_assignVersions_eq_ok {α β κ : Type} [LE κ] [DecidableLE κ] [DecidableEq κ]
    {key : α → κ} {f : α → Int → β} {rows : List α} {block : VersionBlock} {out : List β}
    (hs : rows.Pairwise fun x y => key x ≤ key y)
    (h : (assignVersions key rows block).map (fun rs => rs.map fun r => f r.1 r.2) = .ok out) :
    out = List.zipWith f rows block.values := by
  rcases ha : assignVersions key rows block with e | rs
  · simp [ha, Except.map] at h
  · simp only [ha, Except.map, Except.ok.injEq] at h
    rw [← h, assignVersions_eq_ok hs ha, List.zip, List.map_zipWith]

/-- Rows that stand in key order and share no key receive the versions of a block in order. -/
theorem map_assignVersions_of_nodup {α β κ : Type} [LE κ] [DecidableLE κ] [DecidableEq κ]
    {key : α → κ} {f : α → Int → β} {rows : List α} {block : VersionBlock}
    (hs : rows.Pairwise fun x y => key x ≤ key y) (hkeys : (rows.map key).Nodup)
    (hsize : rows.length = block.size) :
    (assignVersions key rows block).map (fun rs => rs.map fun r => f r.1 r.2) =
      .ok (List.zipWith f rows block.values) := by
  rw [assignVersions_of_nodup hkeys hsize, sortOn_eq_self hs, List.zip, Except.map,
    List.map_zipWith]

@[simp] theorem VersionBlock.length_values (b : VersionBlock) : b.values.length = b.size := by
  simp [values, firstValues]

theorem VersionBlock.mem_values {b : VersionBlock} {v : Int} :
    v ∈ b.values ↔ b.start ≤ v ∧ v ≤ b.last := by
  simp only [values, firstValues, Nat.min_self, List.mem_map, List.mem_range, last]
  constructor
  · rintro ⟨i, hi, rfl⟩
    omega
  · rintro ⟨hlow, hhigh⟩
    exact ⟨(v - b.start).toNat, by omega, by omega⟩

theorem exists_of_map_eq_ok {ε α β : Type} {x : Except ε α} {f : α → β} {b : β}
    (h : x.map f = .ok b) : ∃ a, x = .ok a ∧ f a = b := by
  cases x with
  | ok a => exact ⟨a, rfl, Except.ok.inj h⟩
  | error e => cases h

/-- In whatever order the rows stood, the versions are those of the block. -/
theorem snd_assignVersions {α κ : Type} [LE κ] [DecidableLE κ] [DecidableEq κ] {key : α → κ}
    {rows : List α} {block : VersionBlock} {out : List (α × Int)}
    (h : assignVersions key rows block = .ok out) : out.map Prod.snd = block.values := by
  unfold assignVersions at h
  by_cases hsize : rows.length = block.size
  · by_cases hrepeat : hasRepeat ((sortOn key rows).map key) = true
    · simp [hsize, hrepeat] at h
    · simp only [hsize, ne_eq, not_true_eq_false, if_false, hrepeat] at h
      cases h
      exact List.map_snd_zip (by simp [hsize])
  · simp [hsize] at h

theorem versions_assignVersions {α β κ : Type} [LE κ] [DecidableLE κ] [DecidableEq κ] {key : α → κ}
    {f : α → Int → β} {g : β → Int} (hg : ∀ x v, g (f x v) = v) {rows : List α}
    {block : VersionBlock} {out : List β}
    (h : (assignVersions key rows block).map (fun rs => rs.map fun r => f r.1 r.2) = .ok out) :
    out.map g = block.values := by
  obtain ⟨rs, hrs, rfl⟩ := exists_of_map_eq_ok h
  have hversion : (g ∘ fun r : α × Int => f r.1 r.2) = Prod.snd := by
    funext r
    exact hg r.1 r.2
  rw [List.map_map, hversion]
  exact snd_assignVersions hrs

def EdgeChange.write (c : EdgeChange) (version : Int) : EdgeWrite :=
  ⟨c.edgeId, c.current, c.target, version⟩

theorem ChangeSet.writes_eq_ok {c : ChangeSet} {block : VersionBlock} {rows : List EdgeWrite}
    (hs : c.changes.Pairwise fun x y => x.edgeId ≤ y.edgeId) (h : c.writes block = .ok rows) :
    rows = List.zipWith EdgeChange.write c.changes block.values := by
  unfold writes at h
  split at h
  · exact map_assignVersions_eq_ok hs h
  · cases h

theorem ChangeSet.writes_of_nodup {c : ChangeSet} {block : VersionBlock}
    (hawaiting : c.awaitingDefault = []) (hids : (c.changes.map EdgeChange.edgeId).Nodup)
    (hs : c.changes.Pairwise fun x y => x.edgeId ≤ y.edgeId)
    (hsize : c.changes.length = block.size) :
    c.writes block = .ok (List.zipWith EdgeChange.write c.changes block.values) := by
  rw [writes, hawaiting]
  exact map_assignVersions_of_nodup (f := EdgeChange.write) hs hids hsize

theorem ProvisionPlan.inserts_eq_ok {p : ProvisionPlan} {block : VersionBlock}
    {rows : List GroupInsert} (hs : p.missingOwners.Pairwise (· ≤ ·))
    (h : p.inserts block = .ok rows) :
    rows = List.zipWith GroupInsert.mk p.missingOwners block.values :=
  map_assignVersions_eq_ok hs h

theorem ProvisionPlan.refreshes_eq_ok {p : ProvisionPlan} {block : VersionBlock}
    {rows : List GroupRefresh} (hs : p.existingGroups.Pairwise (· ≤ ·))
    (h : p.refreshes block = .ok rows) :
    rows = List.zipWith GroupRefresh.mk p.existingGroups block.values :=
  map_assignVersions_eq_ok hs h

theorem ProvisionPlan.versions_inserts {p : ProvisionPlan} {block : VersionBlock}
    {rows : List GroupInsert} (h : p.inserts block = .ok rows) :
    rows.map GroupInsert.version = block.values :=
  versions_assignVersions (f := GroupInsert.mk) (fun _ _ => rfl) h

theorem ProvisionPlan.versions_refreshes {p : ProvisionPlan} {block : VersionBlock}
    {rows : List GroupRefresh} (h : p.refreshes block = .ok rows) :
    rows.map GroupRefresh.version = block.values :=
  versions_assignVersions (f := GroupRefresh.mk) (fun _ _ => rfl) h

theorem ChangeSet.versions_writes {c : ChangeSet} {block : VersionBlock} {rows : List EdgeWrite}
    (h : c.writes block = .ok rows) : rows.map EdgeWrite.version = block.values := by
  unfold writes at h
  split at h
  · exact versions_assignVersions (f := EdgeChange.write) (fun _ _ => rfl) h
  · cases h

section Numbered

variable {α ρ δ : Type} {f : α → Int → ρ} {xs : List α} {vs : List Int}

theorem map_numbered_keys {g : ρ → δ} {k : α → δ} (h : ∀ x v, g (f x v) = k x)
    (hlen : xs.length = vs.length) : (List.zipWith f xs vs).map g = xs.map k := by
  induction xs generalizing vs with
  | nil => rfl
  | cons x xs ih =>
    cases vs with
    | nil => simp at hlen
    | cons v vs => simp [h, ih (Nat.succ.inj hlen)]

theorem map_numbered_versions {g : ρ → Int} (h : ∀ x v, g (f x v) = v)
    (hlen : xs.length = vs.length) : (List.zipWith f xs vs).map g = vs := by
  induction xs generalizing vs with
  | nil => exact (List.length_eq_zero_iff.mp hlen.symm).symm
  | cons x xs ih =>
    cases vs with
    | nil => simp at hlen
    | cons v vs => simp [h, ih (Nat.succ.inj hlen)]

theorem mem_numbered {r : ρ} (h : r ∈ List.zipWith f xs vs) : ∃ x ∈ xs, ∃ v ∈ vs, r = f x v := by
  induction xs generalizing vs with
  | nil => simp at h
  | cons x xs ih =>
    cases vs with
    | nil => simp at h
    | cons v vs =>
      rcases List.mem_cons.mp h with rfl | h
      · exact ⟨x, by simp, v, by simp, rfl⟩
      · obtain ⟨y, hy, u, hu, rfl⟩ := ih h
        exact ⟨y, by simp [hy], u, by simp [hu], rfl⟩

end Numbered

namespace Memory.Counters

open Attempt

/-- The versions that the next `n` rows receive. -/
def fresh (c : Counters) (counter : String) (n : Nat) : List Int :=
  (List.range n).map fun (i : Nat) => c.value counter + 1 + i

/-- The block that a reservation of `n` versions is answered with. -/
def block? (c : Counters) (counter : String) (n : Nat) : Option VersionBlock :=
  if n = 0 then none else some ⟨c.value counter + 1, n⟩

/-- The counters once `n` versions are reserved. -/
def grant (c : Counters) (counter : String) (n : Nat) : Counters :=
  if n = 0 then c
  else { c with
    values := c.values.insert counter (c.value counter + n)
    grants := c.grants ++ [(counter, n)] }

@[simp] theorem length_fresh (c : Counters) (counter : String) (n : Nat) :
    (c.fresh counter n).length = n := by simp [fresh]

theorem mem_fresh {c : Counters} {counter : String} {n : Nat} {v : Int}
    (h : v ∈ c.fresh counter n) :
    c.value counter < v ∧ v ≤ c.value counter + n := by
  simp only [fresh, List.mem_map, List.mem_range] at h
  obtain ⟨i, hi, rfl⟩ := h
  omega

theorem fresh_pairwise (c : Counters) (counter : String) (n : Nat) :
    (c.fresh counter n).Pairwise (· < ·) := by
  rw [fresh, List.pairwise_map]
  exact List.pairwise_lt_range.imp fun h => by omega

theorem values_block (c : Counters) (counter : String) (n : Nat) :
    (VersionBlock.mk (c.value counter + 1) n).values = c.fresh counter n := by
  simp [VersionBlock.values, VersionBlock.firstValues, fresh]

theorem value_grant (c : Counters) (counter other : String) (n : Nat) :
    (c.grant counter n).value other =
      if other = counter then c.value counter + n else c.value other := by
  by_cases hn : n = 0
  · by_cases ho : other = counter <;> simp [grant, hn, ho]
  · by_cases ho : other = counter <;> simp [grant, value, hn, ho, Dictionary.get?_insert]

theorem value_le_grant (c : Counters) (counter : String) (n : Nat) :
    c.value counter ≤ (c.grant counter n).value counter := by
  rw [value_grant, if_pos rfl]
  omega

theorem fresh_range (c : Counters) (counter : String) (n : Nat) :
    ∀ v ∈ c.fresh counter n, c.value counter < v ∧ v ≤ (c.grant counter n).value counter := by
  intro v hv
  rw [value_grant, if_pos rfl]
  exact mem_fresh hv

theorem grants_grant_of_ne {counter other : String} (h : other ≠ counter) (c : Counters) (n : Nat) :
    (c.grant counter n).grants.filter (·.1 == other) = c.grants.filter (·.1 == other) := by
  by_cases hn : n = 0
  · simp [grant, hn]
  · simp [grant, hn, h.symm]

theorem reserve_eq_ok {c c' : Counters} {counter : String} {n : Nat} {last : Int} (hn : n ≠ 0)
    (h : (reserve counter n).outcome c = (.ok last, c')) :
    last = c.value counter + n ∧ c' = c.grant counter n := by
  rw [reserve, outcome_get_bind] at h
  split at h
  · simp at h
  · split at h
    · simp at h
    · split at h
      · simp at h
      · rename_i top hv
        obtain ⟨-, rfl⟩ := Word.signed?_eq_some_iff.mp hv
        simp only [outcome_set_bind, outcome_pure, Prod.mk.injEq, Except.ok.injEq] at h
        simp [grant, hn, ← h.1, ← h.2]

end Memory.Counters

end Regroup
