import Regroup.Proofs.Pointers
import Regroup.Proofs.UnreadKeys

/-! The report of unused keys goes by pointers, and is right about paths: it lists each leaf that is not
below a setting, and no other. -/

namespace Regroup.Config

open Json (Leaf)

/-- A place at or below a setting, found by the names of the section and of the setting. -/
def ReadByName (path : List Json.Step) : Prop :=
  ∃ s ∈ consumed, ∃ name ∈ s.2, [.field s.1, .field name] <+: path

instance : DecidablePred ReadByName := fun path =>
  inferInstanceAs (Decidable (∃ s ∈ consumed, ∃ name ∈ s.2, [.field s.1, .field name] <+: path))

theorem covers_iff {setting leaf : String} : covers setting leaf ↔
    ∃ back, leaf.toList = setting.toList ++ back ∧ Json.AfterStep back := by
  rw [covers, Bool.and_eq_true, List.isPrefixOf_iff_prefix]
  constructor
  · rintro ⟨⟨back, hback⟩, h⟩
    rw [← hback, List.drop_left] at h
    refine ⟨back, hback.symm, ?_⟩
    cases back with
    | nil => exact .nil
    | cons c back =>
      obtain rfl : c = '/' := by simpa using h
      exact .slash back
  · rintro ⟨back, hback, h⟩
    refine ⟨⟨back, hback.symm⟩, ?_⟩
    rw [hback, List.drop_left]
    cases back with
    | nil => rfl
    | cons c back => simpa using h c rfl

/-- The name is not spelt like a place. -/
def worded (name : String) : Bool := (Json.Step.field name).chars.any fun c => !c.isDigit

theorem all_consumed_worded : consumed.all fun s => worded s.1 && s.2.all worded := by
  decide +kernel

theorem worded_of_consumed {s : String × List String} (hs : s ∈ consumed) :
    worded s.1 ∧ ∀ name ∈ s.2, worded name := by
  simpa using List.all_eq_true.mp all_consumed_worded s hs

theorem eq_field_of_worded {name : String} (h : worded name) {s : Json.Step}
    (hs : (Json.Step.field name).chars = s.chars) : Json.Step.field name = s := by
  cases s with
  | field other => rw [Json.Step.field_of_chars_eq hs]
  | index i =>
    obtain ⟨c, hc, hletter⟩ := List.any_eq_true.mp h
    have hdigit := Json.Step.isDigit_of_mem_chars (hs ▸ hc)
    simp [hdigit] at hletter

theorem readByName_of_isConsumed {path : List Json.Step} (hpath : path ≠ [])
    (h : isConsumed (Json.pointer path)) : ReadByName path := by
  obtain ⟨setting, hsetting, hcovers⟩ := List.any_eq_true.mp h
  obtain ⟨s, hs, hlisted⟩ := List.mem_flatMap.mp hsetting
  obtain ⟨name, hname, rfl⟩ := List.mem_map.mp hlisted
  obtain ⟨back, hback, hafter⟩ := covers_iff.mp hcovers
  rw [Json.toList_pointer hpath, Json.toList_pointer (List.cons_ne_nil _ _)] at hback
  obtain ⟨hsection, hnames⟩ := worded_of_consumed hs
  obtain ⟨more, hmore⟩ := Json.chars_prefix hafter hback
  -- the first two steps are spelt as the section and the setting
  obtain ⟨t, rest, rfl, ht, hrest⟩ := List.map_eq_cons_iff.mp hmore.symm
  obtain ⟨u, rest, rfl, hu, -⟩ := List.map_eq_cons_iff.mp hrest
  obtain rfl := eq_field_of_worded hsection ht.symm
  obtain rfl := eq_field_of_worded (hnames name hname) hu.symm
  exact ⟨s, hs, name, hname, List.prefix_append [_, _] rest⟩

theorem isConsumed_iff {path : List Json.Step} :
    isConsumed (Json.pointer path) ↔ ReadByName path := by
  constructor
  · intro h
    by_cases hpath : path = []
    · subst hpath
      rw [Json.pointer_nil] at h
      obtain ⟨s, -, name, -, hlong⟩ := readByName_of_isConsumed (List.cons_ne_nil _ _) h
      simpa using hlong.length_le
    · exact readByName_of_isConsumed hpath h
  · rintro ⟨s, hs, name, hname, rest, rfl⟩
    exact isConsumed_of_mem hs hname rest

theorem unusedKeys_eq (v : Json) : unusedKeys v =
    ascending ((v.leaves.filter fun l => ¬ ReadByName l.path).map Leaf.pointer) := by
  have hleaf : ((fun p => !isConsumed p) ∘ Leaf.pointer) = fun l => decide ¬ ReadByName l.path := by
    funext l
    simp [Leaf.pointer, ← isConsumed_iff]
  rw [unusedKeys, List.filter_map, hleaf]

theorem mem_unusedKeys {v : Json} (hv : v.Ordered) {key : String} : key ∈ unusedKeys v ↔
    ∃ path x, v.part? path = some x ∧ x.isScalar ∧ ¬ ReadByName path ∧ Json.pointer path = key := by
  rw [unusedKeys_eq, mem_ascending]
  simp only [List.mem_map, List.mem_filter, decide_eq_true_eq, Json.mem_leaves hv]
  constructor
  · rintro ⟨l, ⟨⟨hpart, hscalar⟩, hunread⟩, rfl⟩
    exact ⟨l.path, l.value, hpart, hscalar, hunread, rfl⟩
  · rintro ⟨path, x, hpart, hscalar, hunread, rfl⟩
    exact ⟨⟨path, x⟩, ⟨⟨hpart, hscalar⟩, hunread⟩, rfl⟩

theorem length_unusedKeys {v : Json} (hv : v.Ordered) :
    (unusedKeys v).length = v.leaves.countP fun l => ¬ ReadByName l.path := by
  have hnodup := (Json.leaves_pointers_nodup hv).sublist
    ((List.filter_sublist (p := fun l => ¬ ReadByName l.path)).map Leaf.pointer)
  rw [unusedKeys_eq, (ascending_perm hnodup).length_eq, List.length_map,
    List.countP_eq_length_filter]

theorem checkUnusedKeys_fail_iff {v : Json} :
    (∃ e, checkUnusedKeys .fail v = .error e) ↔ unusedKeys v ≠ [] := by
  by_cases h : unusedKeys v = [] <;> simp [checkUnusedKeys, h]

/-- The leaves are the scalars of the value, each once and under a pointer of its own. Those that are
not found by the names of a setting are reported, and no others; they are refused if there is any. -/
theorem checkUnusedKeys_exact {v : Json} (hv : v.Ordered) :
    (∀ l, l ∈ v.leaves ↔ v.part? l.path = some l.value ∧ l.value.isScalar) ∧
      (v.leaves.map Leaf.path).Nodup ∧ (v.leaves.map Leaf.pointer).Nodup ∧
      ∃ keys, checkUnusedKeys .warn v = .ok keys ∧
        keys.Pairwise (fun a b => utf8 a < utf8 b) ∧
        (∀ key, key ∈ keys ↔ ∃ path x, v.part? path = some x ∧ x.isScalar ∧ ¬ ReadByName path ∧
          Json.pointer path = key) ∧
        (keys.length = v.leaves.countP fun l => ¬ ReadByName l.path) ∧
        ((∃ e, checkUnusedKeys .fail v = .error e) ↔ keys ≠ []) :=
  ⟨fun _ => Json.mem_leaves hv, Json.leaves_paths_nodup hv, Json.leaves_pointers_nodup hv,
    unusedKeys v, rfl, (ascending_pairwise _).imp utf8_lt_iff.mpr, fun _ => mem_unusedKeys hv,
    length_unusedKeys hv, checkUnusedKeys_fail_iff⟩

/-- A setting behind an empty name, a name with a slash that spells a setting, an array in the place of
a section and one in the place of a setting. -/
theorem checkUnusedKeys_exact_lookalikes :
    let v : Json := .obj
      [ ("", .obj [("store", .obj [("max_connections", .int 1)])]),
        ("logging", .obj [("level", .arr [.str "info", .str "debug"])]),
        ("logging/level", .null),
        ("store", .arr [.str "max_connections"]) ]
    v.Ordered ∧ ∃ keys, checkUnusedKeys .warn v = .ok keys ∧ keys.length = 3 ∧
      Json.pointer [.field "logging/level"] ∈ keys ∧
      ∃ e, checkUnusedKeys .fail v = .error e := by
  intro v
  have hv : v.Ordered := by
    refine .obj (by decide +kernel) ?_
    simp only [List.forall_mem_cons]
    exact ⟨.obj (by simp) (by simpa using .obj (by simp) (by simpa using .int 1)),
      .obj (by simp) (by simpa using .arr (by simpa using ⟨.str _, .str _⟩)), .null,
      .arr (by simpa using .str _), List.forall_mem_nil _⟩
  obtain ⟨-, -, -, keys, hwarn, -, hmem, hlength, hfail⟩ := checkUnusedKeys_exact hv
  have hslash : Json.pointer [.field "logging/level"] ∈ keys :=
    (hmem _).mpr ⟨[.field "logging/level"], .null, rfl, rfl, by decide +kernel, rfl⟩
  have hcount : (v.leaves.countP fun l => ¬ ReadByName l.path) = 3 := by decide +kernel
  exact ⟨hv, keys, hwarn, hlength.trans hcount, hslash, hfail.mpr (List.ne_nil_of_mem hslash)⟩

end Regroup.Config
