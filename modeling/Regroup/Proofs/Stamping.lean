import Mathlib.Data.List.Nodup
import Regroup.Proofs.TableWrites

/-! Versions of rows under writes. A write gives one row a version at most, so a batch of writes
with ascending versions above all that a table holds leaves the versions of the table distinct. -/

namespace Regroup

/-- Distinct versions that do not exceed a bound. -/
structure Versioned (versions : List Int) (top : Int) : Prop where
  nodup : versions.Nodup
  le : ∀ v ∈ versions, v ≤ top

theorem Versioned.mono {versions : List Int} {top top' : Int} (h : Versioned versions top)
    (htop : top ≤ top') : Versioned versions top' :=
  ⟨h.nodup, fun v hv => Int.le_trans (h.le v hv) htop⟩

section Stamps

variable {α ρ : Type} (version : α → Option Int)

/-- At most one row is written or added, and it receives this version. -/
inductive Stamps (v : Int) : List α → List α → Prop
  | nothing {xs : List α} : Stamps v xs xs
  | added {y : α} (hy : version y = some v) : Stamps v [] [y]
  | written {x y : α} {xs : List α} (hy : version y = some v) : Stamps v (x :: xs) (y :: xs)
  | later {x : α} {xs ys : List α} (h : Stamps v xs ys) : Stamps v (x :: xs) (x :: ys)

variable {version} {v b : Int} {xs ys : List α}

theorem stamps_modifyFirst {p : α → Bool} {f : α → α} (hf : ∀ x, version (f x) = some v)
    (xs : List α) : Stamps version v xs (modifyFirst p f xs) := by
  induction xs with
  | nil => exact .nothing
  | cons x xs ih =>
    by_cases hx : p x = true
    · simp only [modifyFirst, hx, if_true]
      exact .written (hf x)
    · simp only [modifyFirst, hx]
      exact .later ih

theorem stamps_append {y : α} (hy : version y = some v) (xs : List α) :
    Stamps version v xs (xs ++ [y]) := by
  induction xs with
  | nil => exact .added hy
  | cons x xs ih => exact .later ih

theorem Stamps.getElem? (h : Stamps version v xs ys) {i : Nat} {y : α} (hy : ys[i]? = some y) :
    xs[i]? = some y ∨ version y = some v := by
  induction h generalizing i with
  | nothing => exact .inl hy
  | added hv =>
    cases i with
    | zero =>
      rw [List.getElem?_cons_zero, Option.some.injEq] at hy
      exact .inr (hy ▸ hv)
    | succ i => simp at hy
  | written hv =>
    cases i with
    | zero =>
      rw [List.getElem?_cons_zero, Option.some.injEq] at hy
      exact .inr (hy ▸ hv)
    | succ i => exact .inl hy
  | later _ ih =>
    cases i with
    | zero => exact .inl hy
    | succ i => exact ih hy

theorem Stamps.mem_versions (h : Stamps version v xs ys) {u : Int}
    (hu : u ∈ ys.filterMap version) : u ∈ xs.filterMap version ∨ u = v := by
  obtain ⟨y, hy, hyu⟩ := List.mem_filterMap.mp hu
  obtain ⟨i, hi⟩ := List.mem_iff_getElem?.mp hy
  rcases h.getElem? hi with hx | hv
  · exact .inl (List.mem_filterMap.mpr ⟨y, List.mem_of_getElem? hx, hyu⟩)
  · exact .inr (Option.some.inj (hyu.symm.trans hv))

theorem Stamps.nodup_versions (h : Stamps version v xs ys) (hv : v ∉ xs.filterMap version)
    (hx : (xs.filterMap version).Nodup) : (ys.filterMap version).Nodup := by
  induction h with
  | nothing => exact hx
  | added hy => simp [hy]
  | @written x y xs hy =>
    rw [List.filterMap_cons_some hy]
    have hsub : (xs.filterMap version).Sublist ((x :: xs).filterMap version) :=
      (List.sublist_cons_self x xs).filterMap version
    exact List.nodup_cons.mpr ⟨fun hmem => hv (hsub.subset hmem), hx.sublist hsub⟩
  | @later x xs ys h ih =>
    cases hu : version x with
    | none =>
      rw [List.filterMap_cons_none hu] at hv hx ⊢
      exact ih hv hx
    | some u =>
      rw [List.filterMap_cons_some hu] at hv hx ⊢
      obtain ⟨hfirst, hrest⟩ := List.nodup_cons.mp hx
      have hv' : v ∉ xs.filterMap version := fun hm => hv (List.mem_cons_of_mem _ hm)
      refine List.nodup_cons.mpr ⟨fun hmem => ?_, ih hv' hrest⟩
      rcases h.mem_versions hmem with hmem | rfl
      · exact hfirst hmem
      · exact hv (by simp)

theorem Stamps.versioned (h : Stamps version v xs ys) (hb : b < v)
    (hx : Versioned (xs.filterMap version) b) : Versioned (ys.filterMap version) v := by
  refine ⟨h.nodup_versions (fun hv => ?_) hx.nodup, fun u hu => ?_⟩
  · have hle := hx.le v hv
    omega
  · rcases h.mem_versions hu with hu | rfl
    · have hle := hx.le u hu
      omega
    · omega

section Batch

variable {step : List α → ρ → List α} {rowVersion : ρ → Int} {rows : List ρ} {top : Int}
  (hstep : ∀ xs r, Stamps version (rowVersion r) xs (step xs r))

include hstep

theorem getElem?_foldl_stamps {i : Nat} {y : α} (hy : (rows.foldl step xs)[i]? = some y) :
    xs[i]? = some y ∨ ∃ v ∈ rows.map rowVersion, version y = some v := by
  induction rows generalizing xs with
  | nil => exact .inl hy
  | cons r rows ih =>
    rcases ih hy with hy | ⟨v, hv, hyv⟩
    · rcases (hstep xs r).getElem? hy with hy | hyv
      · exact .inl hy
      · exact .inr ⟨rowVersion r, by simp, hyv⟩
    · exact .inr ⟨v, List.mem_cons_of_mem _ hv, hyv⟩

theorem foldl_stamps_versioned (hrows : (rows.map rowVersion).Pairwise (· < ·))
    (hrange : ∀ v ∈ rows.map rowVersion, b < v ∧ v ≤ top) (hb : b ≤ top)
    (hx : Versioned (xs.filterMap version) b) :
    Versioned ((rows.foldl step xs).filterMap version) top := by
  induction rows generalizing xs b with
  | nil => exact hx.mono hb
  | cons r rows ih =>
    obtain ⟨hfirst, hrest⟩ := List.pairwise_cons.mp hrows
    have hr := hrange (rowVersion r) (by simp)
    refine ih hrest (fun v hv => ⟨hfirst v hv, (hrange v (List.mem_cons_of_mem _ hv)).2⟩) hr.2 ?_
    exact (hstep xs r).versioned hr.1 hx

end Batch

end Stamps

theorem stamps_upsertGroup (name : String) (groups : List Group) (row : GroupInsert) :
    Stamps Group.version row.version groups (Tables.upsertGroup name groups row) := by
  unfold Tables.upsertGroup
  split
  · apply stamps_modifyFirst
    exact fun _ => rfl
  · apply stamps_append
    rfl

theorem stamps_refreshGroup (groups : List Group) (row : GroupRefresh) :
    Stamps Group.version row.version groups
      (modifyFirst (·.id == row.groupId) (Group.stamp row.version) groups) := by
  apply stamps_modifyFirst
  exact fun _ => rfl

theorem stamps_applyEdge (edges : List Edge) (row : EdgeWrite) :
    Stamps Edge.version row.version edges (modifyFirst row.matchesEdge row.applyTo edges) := by
  apply stamps_modifyFirst
  exact fun _ => rfl

end Regroup
