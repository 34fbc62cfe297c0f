import Mathlib.Data.List.Lex
import Regroup.Json.Leaf
import Regroup.Proofs.ByteOrder
import Regroup.Proofs.OrderedJson

/-! The leaves of a value are the scalars at its paths, each once and in the order of the paths. Their
pointers tell them apart, as nothing in a step is read as the slash before the next one. -/

namespace Regroup.Json

def isScalar : Json → Bool
  | .arr _ => false
  | .obj _ => false
  | _ => true

/-- The part of a value that is one step away. -/
def child? (v : Json) : Step → Option Json
  | .field name => v.field? name
  | .index i =>
    match v with
    | .arr items => items[i]?
    | _ => none

def part? : Json → List Step → Option Json
  | v, [] => some v
  | v, s :: rest => (v.child? s).bind (·.part? rest)

/-- Names stand in the order of their bytes, items in that of their places. -/
def Step.Before : Step → Step → Prop
  | .field a, .field b => utf8 a < utf8 b
  | .index i, .index j => i < j
  | _, _ => False

/-- The leaf as it is seen from further up. -/
def Leaf.below (start : List Step) (l : Leaf) : Leaf := ⟨start ++ l.path, l.value⟩

@[simp] theorem Leaf.path_below (start : List Step) (l : Leaf) :
    (l.below start).path = start ++ l.path := rfl

@[simp] theorem Leaf.value_below (start : List Step) (l : Leaf) :
    (l.below start).value = l.value := rfl

@[simp] theorem Leaf.below_below (start more : List Step) (l : Leaf) :
    (l.below more).below start = l.below (start ++ more) := by
  simp [Leaf.below]

mutual

theorem leavesAt_eq (start : List Step) :
    ∀ v : Json, leavesAt start v = v.leaves.map (Leaf.below start)
  | .null => by simp [leaves, leavesAt, Leaf.below]
  | .bool b => by simp [leaves, leavesAt, Leaf.below]
  | .int n => by simp [leaves, leavesAt, Leaf.below]
  | .float d => by simp [leaves, leavesAt, Leaf.below]
  | .str s => by simp [leaves, leavesAt, Leaf.below]
  | .arr items => by
    rw [leaves, leavesAt, leavesAt, itemLeaves_eq start, itemLeaves_eq []]
    simp [List.map_flatMap, Function.comp_def]
  | .obj fields => by
    rw [leaves, leavesAt, leavesAt, fieldLeaves_eq start, fieldLeaves_eq []]
    simp [List.map_flatMap, Function.comp_def]

theorem itemLeaves_eq (start : List Step) : ∀ (items : List Json) (i : Nat),
    itemLeaves start i items =
      (items.zipIdx i).flatMap fun e => e.1.leaves.map (Leaf.below (start ++ [.index e.2]))
  | [], i => rfl
  | v :: rest, i => by
    rw [itemLeaves, leavesAt_eq _ v, itemLeaves_eq start rest, List.zipIdx_cons, List.flatMap_cons]

theorem fieldLeaves_eq (start : List Step) : ∀ fields : List (String × Json),
    fieldLeaves start fields =
      fields.flatMap fun f => f.2.leaves.map (Leaf.below (start ++ [.field f.1]))
  | [] => rfl
  | (name, v) :: rest => by
    rw [fieldLeaves, leavesAt_eq _ v, fieldLeaves_eq start rest, List.flatMap_cons]

end

theorem leaves_arr (items : List Json) :
    (arr items).leaves =
      items.zipIdx.flatMap fun e => e.1.leaves.map (Leaf.below [.index e.2]) :=
  itemLeaves_eq [] items 0

theorem leaves_obj (fields : List (String × Json)) :
    (obj fields).leaves = fields.flatMap fun f => f.2.leaves.map (Leaf.below [.field f.1]) :=
  fieldLeaves_eq [] fields

theorem leaves_of_scalar {v : Json} (h : v.isScalar) : v.leaves = [⟨[], v⟩] := by
  cases v with
  | arr items => cases h
  | obj fields => cases h
  | _ => rfl

theorem mem_fieldLeaves {fields : List (String × Json)} {start : List Step} {l : Leaf} :
    l ∈ fieldLeaves start fields ↔ ∃ f ∈ fields, l ∈ leavesAt (start ++ [.field f.1]) f.2 := by
  simp only [fieldLeaves_eq, List.mem_flatMap, ← leavesAt_eq]

theorem mem_itemLeaves {items : List Json} {start : List Step} {i : Nat} {l : Leaf}
    (h : l ∈ itemLeaves start i items) :
    ∃ j v, items[j]? = some v ∧ l ∈ leavesAt (start ++ [.index (i + j)]) v := by
  induction items generalizing i with
  | nil => simp [itemLeaves] at h
  | cons v rest ih =>
    rcases List.mem_append.mp h with h | h
    · exact ⟨0, v, rfl, h⟩
    · obtain ⟨j, w, hw, hl⟩ := ih h
      have hnext : i + 1 + j = i + (j + 1) := by omega
      exact ⟨j + 1, w, hw, hnext ▸ hl⟩

theorem path_of_mem_leavesAt {v : Json} {start : List Step} {l : Leaf} (h : l ∈ leavesAt start v) :
    start <+: l.path := by
  rw [leavesAt_eq] at h
  obtain ⟨l, -, rfl⟩ := List.mem_map.mp h
  exact List.prefix_append start l.path

theorem not_longer {path : List Step} (s : Step) : ¬ path ++ [s] <+: path := by
  intro h
  have hlength := h.length_le
  rw [List.length_append, List.length_singleton] at hlength
  omega

theorem isScalar_of_mem_leavesAt {v : Json} {l : Leaf} (h : l ∈ leavesAt l.path v) :
    v.isScalar := by
  cases v with
  | arr items =>
    obtain ⟨j, w, -, hl⟩ := mem_itemLeaves h
    exact absurd (path_of_mem_leavesAt hl) (not_longer _)
  | obj fields =>
    obtain ⟨f, -, hl⟩ := mem_fieldLeaves.mp h
    exact absurd (path_of_mem_leavesAt hl) (not_longer _)
  | _ => rfl

theorem eq_arr_of_mem_leavesAt {v : Json} {start back : List Step} {i : Nat} {l : Leaf}
    (h : l ∈ leavesAt start v) (hpath : l.path = start ++ .index i :: back) :
    ∃ items, v = .arr items ∧ i < items.length := by
  cases v with
  | arr items =>
    obtain ⟨j, w, hw, hl⟩ := mem_itemLeaves h
    obtain ⟨rest, hrest⟩ := path_of_mem_leavesAt hl
    obtain ⟨rfl, -⟩ : j = i ∧ rest = back := by simpa [hpath] using hrest
    exact ⟨items, rfl, (List.getElem?_eq_some_iff.mp hw).1⟩
  | obj fields =>
    obtain ⟨f, -, hl⟩ := mem_fieldLeaves.mp h
    obtain ⟨rest, hrest⟩ := path_of_mem_leavesAt hl
    simp [hpath] at hrest
  | _ => simp_all [leavesAt]

theorem child?_of_scalar {v : Json} (h : v.isScalar) (s : Step) : v.child? s = none := by
  cases v with
  | arr items => cases h
  | obj fields => cases h
  | _ => cases s <;> rfl

theorem mem_leaves_of_scalar {v : Json} (h : v.isScalar) {l : Leaf} :
    l ∈ v.leaves ↔ v.part? l.path = some l.value ∧ l.value.isScalar := by
  rw [leaves_of_scalar h, List.mem_singleton]
  obtain ⟨path, w⟩ := l
  cases path with
  | nil =>
    simp only [part?, Leaf.mk.injEq, true_and, Option.some.injEq]
    constructor
    · rintro rfl
      exact ⟨rfl, h⟩
    · exact fun hw => hw.1.symm
  | cons s rest => simp [part?, child?_of_scalar h]

/-- The leaves are all the scalars that are parts of the value, each under the path to it. -/
theorem mem_leaves {v : Json} (hv : v.Ordered) {l : Leaf} :
    l ∈ v.leaves ↔ v.part? l.path = some l.value ∧ l.value.isScalar := by
  induction hv generalizing l with
  | @arr items _ ih =>
    simp only [leaves_arr, List.mem_flatMap, List.mem_map, List.mem_zipIdx_iff_getElem?]
    constructor
    · rintro ⟨⟨w, i⟩, hw, m, hm, rfl⟩
      have hpart := (ih w (List.mem_of_getElem? hw)).mp hm
      simpa [part?, child?, hw] using hpart
    · rintro ⟨hpart, hscalar⟩
      obtain ⟨path, x⟩ := l
      cases path with
      | nil =>
        obtain rfl : arr items = x := by simpa [part?] using hpart
        cases hscalar
      | cons s rest =>
        cases s with
        | field name => simp [part?, child?, field?] at hpart
        | index i =>
          obtain ⟨w, hw, hrest⟩ := Option.bind_eq_some_iff.mp hpart
          exact ⟨(w, i), hw, ⟨rest, x⟩, (ih w (List.mem_of_getElem? hw)).mpr ⟨hrest, hscalar⟩, rfl⟩
  | @obj fields names _ ih =>
    have hlookup (name : String) (w : Json) : fields.lookup name = some w ↔ (name, w) ∈ fields :=
      lookup_eq_some_iff_mem (names.imp ne_of_lt)
    simp only [leaves_obj, List.mem_flatMap, List.mem_map]
    constructor
    · rintro ⟨⟨name, w⟩, hw, m, hm, rfl⟩
      have hpart := (ih _ hw).mp hm
      simpa [part?, child?, field?, (hlookup name w).mpr hw] using hpart
    · rintro ⟨hpart, hscalar⟩
      obtain ⟨path, x⟩ := l
      cases path with
      | nil =>
        obtain rfl : obj fields = x := by simpa [part?] using hpart
        cases hscalar
      | cons s rest =>
        cases s with
        | index i => simp [part?, child?] at hpart
        | field name =>
          obtain ⟨w, hw, hrest⟩ := Option.bind_eq_some_iff.mp hpart
          have hmem := (hlookup name w).mp hw
          exact ⟨(name, w), hmem, ⟨rest, x⟩, (ih _ hmem).mpr ⟨hrest, hscalar⟩, rfl⟩
  | _ => exact mem_leaves_of_scalar rfl

/-- Leaves under different steps stand in the order of these steps, those under one step among
themselves. -/
theorem pairwise_flatMap_below {α : Type} {xs : List α} (step : α → Step) {leaves : α → List Leaf}
    (hsteps : xs.Pairwise fun x y => (step x).Before (step y))
    (hleaves : ∀ x ∈ xs, (leaves x).Pairwise fun l m => List.Lex Step.Before l.path m.path) :
    (xs.flatMap fun x => (leaves x).map (Leaf.below [step x])).Pairwise
      fun l m => List.Lex Step.Before l.path m.path := by
  refine List.pairwise_flatMap.mpr ⟨fun x hx => ?_, hsteps.imp ?_⟩
  · exact List.pairwise_map.mpr ((hleaves x hx).imp fun h => h.cons)
  · intro x y hxy
    simp only [List.forall_mem_map]
    exact fun l _ m _ => .rel hxy

/-- The leaves stand in the order of their paths. -/
theorem leaves_pairwise {v : Json} (hv : v.Ordered) :
    v.leaves.Pairwise fun l m => List.Lex Step.Before l.path m.path := by
  induction hv with
  | @arr items _ ih =>
    rw [leaves_arr]
    have hplaces : (items.zipIdx.map Prod.snd).Pairwise (· < ·) := by
      rw [List.zipIdx_map_snd]
      exact List.pairwise_lt_range' 1
    refine pairwise_flatMap_below (fun e : Json × Nat => .index e.2) ?_ fun e he => ?_
    · exact (List.pairwise_map.mp hplaces).imp id
    · exact ih e.1 (List.mem_of_getElem? (List.mem_zipIdx_iff_getElem?.mp he))
  | obj names _ ih =>
    rw [leaves_obj]
    refine pairwise_flatMap_below (fun f : String × Json => .field f.1) ?_ ih
    exact (List.pairwise_map.mp names).imp utf8_lt_iff.mpr
  | _ => exact List.pairwise_singleton _ _

instance : Std.Asymm Step.Before where
  asymm
    | .field _, .field _, h => List.lt_asymm h
    | .index _, .index _, h => Nat.lt_asymm h

/-- No two leaves are at one path. -/
theorem leaves_paths_nodup {v : Json} (hv : v.Ordered) : (v.leaves.map Leaf.path).Nodup := by
  refine List.pairwise_map.mpr ((leaves_pairwise hv).imp fun h heq => ?_)
  exact irrefl _ (heq ▸ h)

end Regroup.Json
